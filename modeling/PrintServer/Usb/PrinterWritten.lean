import PrintServer.Usb.PrinterWrite

/-!
# What arrives at the printer

`usblp_write` sends the block urb by urb and gives up at the first that fails.  `usbprn_write` hides
that from `PortNWrite`, which goes on to the next block.
-/

namespace PrintServer.Usb

variable {outcome : Nat → UrbOutcome} {block : List UInt8} {s₀ s s' : Usblp} {o : UrbOutcome}
  {fuel k w n : Nat}

/-- No urb is under way, and the driver is not about to report a failure. -/
structure Idle (s : Usblp) : Prop where
  present : s.present = true
  wcomplete : s.wcomplete = true
  status : s.status ≠ .failed

/-- `k` urbs of the block have arrived since `s₀`. -/
structure Reached (outcome : Nat → UrbOutcome) (block : List UInt8) (s₀ : Usblp) (k : Nat)
    (s : Usblp) : Prop where
  present : s.present = true
  delivered : ∀ j < k, Delivers (outcome (s₀.urbs + j))
  sent : s.sent = s₀.sent ++ block.take (usblpBufSize * k)

/-- The urb that has become `later` was submitted as `o`. -/
inductive Remains : UrbOutcome → UrbOutcome → Prop
  | never : Remains .never .never
  | ends (late later : Nat) (good : Bool) : Remains (.ends late good) (.ends later good)

/-- The bytes of urb `k`. -/
def urbBytes (block : List UInt8) (k : Nat) : List UInt8 :=
  (block.drop (usblpBufSize * k)).take usblpBufSize

/-- Urb `k` of the block is under way. -/
structure Flying (outcome : Nat → UrbOutcome) (block : List UInt8) (s₀ : Usblp) (k : Nat)
    (o : UrbOutcome) (s : Usblp) : Prop extends Reached outcome block s₀ k s where
  room : usblpBufSize * k < block.length
  urbs : s.urbs = s₀.urbs + k + 1
  wcomplete : s.wcomplete = false
  status : s.status = .inProgress
  flight : s.flight = some (o, urbBytes block k)
  remains : Remains (outcome (s₀.urbs + k)) o

/-- Nothing is under way, and urb `k` is the next. -/
structure Next (outcome : Nat → UrbOutcome) (block : List UInt8) (s₀ : Usblp) (k : Nat)
    (s : Usblp) : Prop extends Reached outcome block s₀ k s where
  urbs : s.urbs = s₀.urbs + k
  wcomplete : s.wcomplete = true
  status : s.status = .ok

/-- The length of urb `k`. -/
def urbLength (block : List UInt8) (k : Nat) : Nat :=
  min (block.length - usblpBufSize * k) usblpBufSize

theorem urbBytes_eq : (block.drop (usblpBufSize * k)).take (urbLength block k) =
    urbBytes block k := by
  unfold urbBytes urbLength
  rw [List.take_eq_take_min (i := usblpBufSize), List.length_drop, Nat.min_comm]

theorem take_urbBytes (block : List UInt8) (k : Nat) :
    block.take (usblpBufSize * k) ++ urbBytes block k = block.take (usblpBufSize * (k + 1)) :=
  List.take_add.symm

/-! ## One urb -/

theorem Next.submit (hn : Next outcome block s₀ k s) (hroom : usblpBufSize * k < block.length) :
    (∃ err pending, outcome (s₀.urbs + k) = .refused err pending ∧
      (s.submit (outcome s.urbs) (urbBytes block k)).1 = some err ∧
      Idle (s.submit (outcome s.urbs) (urbBytes block k)).2 ∧
      (s.submit (outcome s.urbs) (urbBytes block k)).2.sent = s.sent) ∨
    ((s.submit (outcome s.urbs) (urbBytes block k)).1 = none ∧
      Flying outcome block s₀ k (outcome (s₀.urbs + k))
        (s.submit (outcome s.urbs) (urbBytes block k)).2) := by
  have hok := hn.status
  rw [hn.urbs]
  cases ho : outcome (s₀.urbs + k) with
  | refused err pending =>
    refine Or.inl ⟨err, pending, rfl, rfl, ⟨hn.present, rfl, ?_⟩, rfl⟩
    cases pending with
    | true => exact nofun
    | false =>
      change s.status ≠ .failed
      rw [hok]
      exact nofun
  | ends late good =>
    have hremains : Remains (outcome (s₀.urbs + k)) (.ends late good) := by
      rw [ho]
      exact .ends late late good
    exact Or.inr ⟨rfl, ⟨⟨hn.present, hn.delivered, hn.sent⟩, hroom,
      congrArg (· + 1) hn.urbs, rfl, rfl, rfl, hremains⟩⟩
  | never =>
    have hremains : Remains (outcome (s₀.urbs + k)) .never := by
      rw [ho]
      exact .never
    exact Or.inr ⟨rfl, ⟨⟨hn.present, hn.delivered, hn.sent⟩, hroom,
      congrArg (· + 1) hn.urbs, rfl, rfl, rfl, hremains⟩⟩

theorem Flying.later {later : Nat} {good : Bool}
    (hf : Flying outcome block s₀ k (.ends (later + 1) good) s) :
    Flying outcome block s₀ k (.ends later good) s.wait := by
  have hremains := hf.remains
  generalize hsubmitted : outcome (s₀.urbs + k) = submitted at hremains
  cases hremains with
  | ends late =>
    unfold Usblp.wait
    rw [hf.wcomplete, hf.flight]
    refine ⟨⟨hf.present, hf.delivered, hf.sent⟩, hf.room, hf.urbs, rfl, hf.status, rfl, ?_⟩
    rw [hsubmitted]
    exact .ends late later good

theorem Flying.arrives (hf : Flying outcome block s₀ k (.ends 0 true) s) :
    Next outcome block s₀ (k + 1) s.wait := by
  have hremains := hf.remains
  generalize hsubmitted : outcome (s₀.urbs + k) = submitted at hremains
  cases hremains with
  | ends late =>
    unfold Usblp.wait
    rw [hf.wcomplete, hf.flight]
    refine ⟨⟨hf.present, fun j hj ↦ ?_, ?_⟩, hf.urbs, rfl, rfl⟩
    · by_cases hjk : j = k
      · rw [hjk, hsubmitted]
        trivial
      · exact hf.delivered j (by omega)
    · show s.sent ++ urbBytes block k = _
      rw [hf.sent, List.append_assoc, take_urbBytes]

theorem Flying.fails (hf : Flying outcome block s₀ k (.ends 0 false) s) :
    Breaks outcome s₀.urbs block.length k ∧ s.wait.status = .failed ∧ s.wait.present = true ∧
      s.wait.wcomplete = true ∧ s.wait.sent = s₀.sent ++ block.take (usblpBufSize * k) := by
  have hremains := hf.remains
  generalize hsubmitted : outcome (s₀.urbs + k) = submitted at hremains
  cases hremains with
  | ends late =>
    unfold Usblp.wait
    rw [hf.wcomplete, hf.flight]
    refine ⟨⟨hf.room, hf.delivered, ?_⟩, rfl, hf.present, rfl, hf.sent⟩
    rw [hsubmitted]
    trivial

/-- The urb is still under way, has arrived, or has failed. -/
theorem Flying.wait (hf : Flying outcome block s₀ k o s) :
    (∃ o', Flying outcome block s₀ k o' s.wait) ∨
    Next outcome block s₀ (k + 1) s.wait ∨
    (Breaks outcome s₀.urbs block.length k ∧ s.wait.status = .failed ∧ s.wait.present = true ∧
      s.wait.wcomplete = true ∧ s.wait.sent = s₀.sent ++ block.take (usblpBufSize * k)) := by
  match o with
  | .refused _ _ =>
    have hremains := hf.remains
    generalize outcome (s₀.urbs + k) = submitted at hremains
    cases hremains
  | .never =>
    have hwait : s.wait = s := by
      unfold Usblp.wait
      rw [hf.wcomplete, hf.flight]
      rfl
    exact Or.inl ⟨.never, hwait.symm ▸ hf⟩
  | .ends 0 true => exact Or.inr (Or.inl hf.arrives)
  | .ends 0 false => exact Or.inr (Or.inr hf.fails)
  | .ends (later + 1) good => exact Or.inl ⟨.ends later good, hf.later⟩

/-! ## All urbs of a block -/

/-- How far the loop of `usblp_write` has come, or what it has returned. -/
inductive Written (outcome : Nat → UrbOutcome) (block : List UInt8) (s₀ : Usblp) :
    Option Int × Usblp → Prop
  | running (k : Nat) (s : Usblp) :
      s.sent = s₀.sent ++ block.take (usblpBufSize * k) → Written outcome block s₀ (none, s)
  | broken (v : Int) (k : Nat) (s : Usblp) : Idle s → Breaks outcome s₀.urbs block.length k →
      s.sent = s₀.sent ++ block.take (usblpBufSize * k) → Written outcome block s₀ (some v, s)
  | whole (v : Int) (s : Usblp) : Idle s →
      (∀ j, usblpBufSize * j < block.length → Delivers (outcome (s₀.urbs + j))) →
      s.sent = s₀.sent ++ block → Written outcome block s₀ (some v, s)

/-- Urb `k` is the last one, or it is full. -/
theorem urb_end (hroom : usblpBufSize * k < block.length) :
    (usblpBufSize * k + urbLength block k = block.length ∧
      block.length ≤ usblpBufSize * (k + 1)) ∨
    (usblpBufSize * k + urbLength block k = usblpBufSize * (k + 1) ∧
      usblpBufSize * (k + 1) < block.length) := by
  unfold urbLength usblpBufSize at *
  omega

theorem Next.written (hn : Next outcome block s₀ k s) (hroom : usblpBufSize * k < block.length)
    (hgo : ∀ s', Flying outcome block s₀ k (outcome (s₀.urbs + k)) s' →
      Written outcome block s₀
        (usblpWrite outcome block fuel (usblpBufSize * k) (urbLength block k) s')) :
    Written outcome block s₀
      (match s.submit (outcome s.urbs) (urbBytes block k) with
      | (some err, s) =>
          if err ≠ -enomem then (some (-eio), s)
          else
            (some (if usblpBufSize * k ≠ 0 then ((usblpBufSize * k : Nat) : Int) else -enomem), s)
      | (none, s) =>
          usblpWrite outcome block fuel (usblpBufSize * k) (urbLength block k) s) := by
  have hsubmit := hn.submit hroom
  generalize s.submit (outcome s.urbs) (urbBytes block k) = r at hsubmit ⊢
  obtain ⟨err, s'⟩ := r
  rcases hsubmit with ⟨err', pending, hrefused, herr, hidle, hsent⟩ | ⟨hnone, hflying⟩
  · change err = some err' at herr
    subst herr
    have hbreaks : Breaks outcome s₀.urbs block.length k := by
      refine ⟨hroom, hn.delivered, ?_⟩
      rw [hrefused]
      trivial
    have hsent' := hsent.trans hn.sent
    dsimp only
    split
    · exact .broken _ k s' hidle hbreaks hsent'
    · exact .broken _ k s' hidle hbreaks hsent'
  · change err = none at hnone
    subst hnone
    exact hgo s' hflying

theorem Flying.written (hf : Flying outcome block s₀ k o s) : Written outcome block s₀
    (usblpWrite outcome block fuel (usblpBufSize * k) (urbLength block k) s) := by
  induction fuel generalizing k o s with
  | zero => exact .running k s hf.sent
  | succ fuel ih =>
    have hroom := hf.room
    unfold usblpWrite
    rw [if_neg (Nat.not_le_of_lt hroom)]
    rcases hf.wait with ⟨o', hf'⟩ | hn | ⟨hbreaks, hfailed, hpresent, hcomplete, hsent⟩
    · simp only [hf'.present, hf'.status, Bool.true_eq_false, if_false]
      exact ih hf'
    · simp only [hn.present, hn.status, Bool.true_eq_false, if_false]
      rcases urb_end hroom with ⟨hend, hlast⟩ | ⟨hend, hmore⟩
      · rw [if_pos hend]
        refine .whole _ _ ⟨hn.present, hn.wcomplete, by rw [hn.status]; exact nofun⟩ ?_ ?_
        · intro j hj
          refine hn.delivered j ?_
          unfold usblpBufSize at *
          omega
        · rw [hn.sent, List.take_of_length_le hlast]
      · rw [if_neg (by omega), hend]
        have hnext := @Next.written _ _ _ _ fuel _ hn hmore fun s' hf' ↦ ih hf'
        rw [← urbBytes_eq] at hnext
        exact hnext
    · simp only [hpresent, hfailed, Bool.true_eq_false, if_false]
      exact .broken _ k _ ⟨rfl, hcomplete, nofun⟩ hbreaks hsent

theorem Idle.wait (hs : Idle s) : s.wait = s := by
  unfold Usblp.wait
  rw [if_pos hs.wcomplete]

theorem Idle.next (hs : Idle s) (hok : s.status = .ok) : Next outcome block s 0 s :=
  ⟨⟨hs.present, nofun, (List.append_nil s.sent).symm⟩, rfl, hs.wcomplete, hok⟩

/-- The loop from its first round on, unless an urb that was refused is still marked as in
progress. -/
theorem Idle.written (hs : Idle s) (hok : s.status = .ok) :
    Written outcome block s (usblpWrite outcome block fuel 0 0 s) := by
  have hn : Next outcome block s 0 s := hs.next hok
  cases fuel with
  | zero => exact .running 0 s hn.sent
  | succ fuel =>
    unfold usblpWrite
    by_cases hroom : block.length ≤ 0
    · rw [if_pos hroom]
      have hnil : block = [] := List.eq_nil_of_length_eq_zero (Nat.le_zero.mp hroom)
      refine .whole _ s hs (fun j hj ↦ absurd hj ?_) ?_
      · rw [hnil]
        exact Nat.not_lt_zero _
      · rw [hnil, List.append_nil]
    · rw [if_neg hroom]
      have hfirst : 0 + 0 ≠ block.length := by omega
      simp only [hs.wait, hs.present, hok, Bool.true_eq_false, if_false, if_neg hfirst]
      have hnext := @Next.written _ _ _ _ fuel _ hn (by unfold usblpBufSize; omega)
        fun s' hf ↦ hf.written
      rw [← urbBytes_eq] at hnext
      exact hnext

/-! ## The return of `usblp_write` -/

theorem Next.returns (hn : Next outcome block s₀ k s) (hroom : usblpBufSize * k < block.length)
    (hgo : ∀ s', Flying outcome block s₀ k (outcome (s₀.urbs + k)) s' →
      ∃ fuel,
        (usblpWrite outcome block fuel (usblpBufSize * k) (urbLength block k) s').1.isSome) :
    ∃ fuel,
      (match s.submit (outcome s.urbs) (urbBytes block k) with
      | (some err, s) =>
          if err ≠ -enomem then (some (-eio), s)
          else
            (some (if usblpBufSize * k ≠ 0 then ((usblpBufSize * k : Nat) : Int) else -enomem), s)
      | (none, s) =>
          usblpWrite outcome block fuel (usblpBufSize * k) (urbLength block k) s).1.isSome := by
  have hsubmit := hn.submit hroom
  generalize s.submit (outcome s.urbs) (urbBytes block k) = r at hsubmit ⊢
  obtain ⟨err, s'⟩ := r
  rcases hsubmit with ⟨err', pending, -, herr, -⟩ | ⟨hnone, hflying⟩
  · change err = some err' at herr
    subst herr
    refine ⟨0, ?_⟩
    dsimp only
    split <;> rfl
  · change err = none at hnone
    subst hnone
    exact hgo s' hflying

/-- An urb that ends late ends. -/
theorem Flying.returns_later {later : Nat} {good : Bool}
    (hf : Flying outcome block s₀ k (.ends later good) s)
    (hzero : ∀ s', Flying outcome block s₀ k (.ends 0 good) s' → ∃ fuel,
      (usblpWrite outcome block fuel (usblpBufSize * k) (urbLength block k) s').1.isSome) :
    ∃ fuel, (usblpWrite outcome block fuel (usblpBufSize * k) (urbLength block k) s).1.isSome := by
  induction later generalizing s with
  | zero => exact hzero s hf
  | succ later ih =>
    have hlater := hf.later
    obtain ⟨fuel, hreturns⟩ := ih hlater
    refine ⟨fuel + 1, ?_⟩
    unfold usblpWrite
    rw [if_neg (Nat.not_le_of_lt hf.room)]
    simp only [hlater.present, hlater.status, Bool.true_eq_false, if_false]
    exact hreturns

/-- If urb `K` breaks the block, the loop comes to it and returns. -/
theorem Flying.returns {K : Nat} (hbreaks : Breaks outcome s₀.urbs block.length K) (hk : k ≤ K)
    (hf : Flying outcome block s₀ k o s) :
    ∃ fuel, (usblpWrite outcome block fuel (usblpBufSize * k) (urbLength block k) s).1.isSome := by
  obtain ⟨-, hdelivered, hfails⟩ := hbreaks
  obtain ⟨d, rfl⟩ := Nat.exists_eq_add_of_le hk
  induction d generalizing k o s with
  | zero =>
    have hremains := hf.remains
    generalize hsubmitted : outcome (s₀.urbs + k) = submitted at hremains
    rw [Nat.add_zero, hsubmitted] at hfails
    cases hremains with
    | never => cases hfails
    | ends late later good =>
      cases good with
      | true => cases hfails
      | false =>
        refine hf.returns_later fun s' hf' ↦ ⟨1, ?_⟩
        obtain ⟨-, hfailed, hpresent, -⟩ := hf'.fails
        unfold usblpWrite
        rw [if_neg (Nat.not_le_of_lt hf'.room)]
        simp only [hpresent, hfailed, Bool.true_eq_false, if_false]
        rfl
  | succ d ih =>
    have hremains := hf.remains
    have hdelivers := hdelivered k (by omega)
    generalize hsubmitted : outcome (s₀.urbs + k) = submitted at hremains
    rw [hsubmitted] at hdelivers
    cases hremains with
    | never => cases hdelivers
    | ends late later good =>
      cases good with
      | false => cases hdelivers
      | true =>
        refine hf.returns_later fun s' hf' ↦ ?_
        have hn := hf'.arrives
        have hshift : k + (d + 1) = k + 1 + d := by omega
        rw [hshift] at hdelivered hfails
        rcases urb_end hf'.room with ⟨hend, -⟩ | ⟨hend, hmore⟩
        · refine ⟨1, ?_⟩
          unfold usblpWrite
          rw [if_neg (Nat.not_le_of_lt hf'.room)]
          simp only [hn.present, hn.status, Bool.true_eq_false, if_false, if_pos hend]
          rfl
        · have hnext := hn.returns hmore fun s' hf' ↦
            ih hf' (Nat.le_add_right (k + 1) d) hdelivered hfails
          obtain ⟨fuel, hreturns⟩ := hnext
          refine ⟨fuel + 1, ?_⟩
          unfold usblpWrite
          rw [if_neg (Nat.not_le_of_lt hf'.room)]
          simp only [hn.present, hn.status, Bool.true_eq_false, if_false]
          rw [if_neg (by omega), hend]
          rw [← urbBytes_eq] at hreturns
          exact hreturns

theorem Idle.returns (hs : Idle s) (hok : s.status = .ok)
    (hbreaks : Breaks outcome s.urbs block.length k) :
    ∃ fuel, (usblpWrite outcome block fuel 0 0 s).1.isSome := by
  have hlen : 0 < block.length := Nat.zero_lt_of_lt hbreaks.1
  obtain ⟨fuel, hreturns⟩ := (hs.next hok).returns hlen fun s' hf ↦
    hf.returns hbreaks (Nat.zero_le k)
  refine ⟨fuel + 1, ?_⟩
  have hfirst : 0 + 0 ≠ block.length := by omega
  unfold usblpWrite
  rw [if_neg (Nat.not_le_of_lt hlen)]
  simp only [hs.wait, hs.present, hok, Bool.true_eq_false, if_false, if_neg hfirst]
  rw [← urbBytes_eq] at hreturns
  exact hreturns

/-- An urb that was refused and is marked as in progress is waited for without end. -/
theorem Idle.pending (hs : Idle s) (hpending : s.status = .inProgress) (hlen : 0 < block.length) :
    usblpWrite outcome block fuel 0 0 s = (none, s) := by
  induction fuel with
  | zero => rfl
  | succ fuel ih =>
    unfold usblpWrite
    rw [if_neg (Nat.not_le_of_lt hlen)]
    simp only [hs.wait, hs.present, hpending, Bool.true_eq_false, if_false]
    exact ih

/-! ## PortNWrite -/

/-- The do-while loop has one round, whatever `usblp_write` returns. -/
theorem portNWrite_eq (hpresent : s.present = true) :
    portNWrite outcome block (fuel + 1) block.length s =
      ((usblpWrite outcome block (fuel + 1) 0 0 s).1.map fun _ ↦ 0,
        (usblpWrite outcome block (fuel + 1) 0 0 s).2) := by
  unfold portNWrite usbprnWrite
  rw [if_pos hpresent, List.take_length]
  generalize usblpWrite outcome block (fuel + 1) 0 0 s = r
  obtain ⟨v, s'⟩ := r
  cases v with
  | none => rfl
  | some v =>
    dsimp only
    rw [if_neg (Nat.lt_irrefl _), Nat.sub_self]
    rfl

theorem Idle.portNWrite {dataSize : Nat} (hs : Idle s)
    (hcall : portNWrite outcome block fuel block.length s = (some dataSize, s')) : Idle s' := by
  cases fuel with
  | zero => cases hcall
  | succ fuel =>
    rw [portNWrite_eq hs.present] at hcall
    by_cases hlen : 0 < block.length
    · by_cases hok : s.status = .ok
      · have hwritten := @Idle.written outcome block s (fuel + 1) hs hok
        generalize usblpWrite outcome block (fuel + 1) 0 0 s = r at hcall hwritten
        cases hwritten with
        | running => cases hcall
        | broken v k t hidle =>
          cases hcall
          exact hidle
        | whole v t hidle =>
          cases hcall
          exact hidle
      · have hpending : s.status = .inProgress := by
          have hnot := hs.status
          cases h : s.status with
          | ok => exact absurd h hok
          | inProgress => rfl
          | failed => exact absurd h hnot
        rw [hs.pending hpending hlen] at hcall
        cases hcall
    · unfold usblpWrite at hcall
      rw [if_pos (Nat.le_of_not_lt hlen)] at hcall
      cases hcall
      exact hs

theorem Between.idle (hs : Between outcome s) : Idle s := by
  induction hs with
  | opened => exact ⟨rfl, rfl, nofun⟩
  | block _ hcall ih => exact ih.portNWrite hcall

theorem Fails.not_delivers (hf : Fails o) : ¬ Delivers o := by
  match o with
  | .refused _ _ => exact nofun
  | .ends _ false => exact nofun

/-- What `PortNWrite` makes of what `usblp_write` has done. -/
theorem Written.keeps {r : Option Int × Usblp} (hw : Written outcome block s r)
    (hgood : ∀ k, ¬ Breaks outcome s.urbs block.length k) :
    (∃ arrived, r.2.sent = s.sent ++ arrived ∧ arrived <+: block) ∧
      (r.1.isSome → r.2.sent = s.sent ++ block) := by
  cases hw with
  | running k t hsent => exact ⟨⟨_, hsent, List.take_prefix _ _⟩, nofun⟩
  | broken v k t _ hbreaks => exact absurd hbreaks (hgood k)
  | whole v t _ _ hsent => exact ⟨⟨block, hsent, List.prefix_refl block⟩, fun _ ↦ hsent⟩

/-- A block that was broken has not arrived. -/
theorem Written.not_whole {v : Int} {t : Usblp} (hw : Written outcome block s (some v, t))
    (hbreaks : Breaks outcome s.urbs block.length k) : t.sent ≠ s.sent ++ block := by
  intro hall
  cases hw with
  | broken _ k' _ _ hbreaks' hsent =>
    have hlen := congrArg List.length (List.append_cancel_left (hsent.symm.trans hall))
    have hroom := hbreaks'.1
    rw [List.length_take] at hlen
    omega
  | whole _ _ _ hdelivered => exact hbreaks.2.2.not_delivers (hdelivered k hbreaks.1)

theorem Idle.ok_or_pending (hs : Idle s) : s.status = .ok ∨ s.status = .inProgress := by
  have hnot := hs.status
  cases h : s.status with
  | ok => exact Or.inl rfl
  | inProgress => exact Or.inr rfl
  | failed => exact absurd h hnot

/-- The data of a block is kept if and only if none of its urbs fails after those before it have
arrived, or an urb refused earlier is still marked as in progress: then the writer stays where it
is. -/
theorem keeps_data_iff (hs : Between outcome s) (block : List UInt8) :
    KeepsData outcome block s ↔
      s.status = .inProgress ∨ ∀ k, ¬ Breaks outcome s.urbs block.length k := by
  have hidle := hs.idle
  constructor
  · intro hkeeps
    refine hidle.ok_or_pending.symm.imp_right fun hok k hbreaks ↦ ?_
    obtain ⟨fuel, hreturns⟩ := hidle.returns hok hbreaks
    cases fuel with
    | zero => cases hreturns
    | succ fuel =>
      have hwritten := @Idle.written outcome block s (fuel + 1) hidle hok
      have hall := (hkeeps (fuel + 1)).2
      rw [portNWrite_eq hidle.present] at hall
      generalize usblpWrite outcome block (fuel + 1) 0 0 s = r at hreturns hwritten hall
      obtain ⟨v, t⟩ := r
      obtain ⟨v, rfl⟩ := Option.isSome_iff_exists.mp hreturns
      exact hwritten.not_whole hbreaks (hall 0 rfl).2
  · intro hgood fuel
    have hstart : ∃ arrived, s.sent = s.sent ++ arrived ∧ arrived <+: block :=
      ⟨[], (List.append_nil _).symm, List.nil_prefix⟩
    cases fuel with
    | zero => exact ⟨hstart, nofun⟩
    | succ fuel =>
      rw [portNWrite_eq hidle.present]
      have hkeeps : (∃ arrived, (usblpWrite outcome block (fuel + 1) 0 0 s).2.sent =
            s.sent ++ arrived ∧ arrived <+: block) ∧
          ((usblpWrite outcome block (fuel + 1) 0 0 s).1.isSome →
            (usblpWrite outcome block (fuel + 1) 0 0 s).2.sent = s.sent ++ block) := by
        by_cases hlen : 0 < block.length
        · rcases hidle.ok_or_pending with hok | hpending
          · refine (hidle.written hok).keeps (hgood.resolve_left ?_)
            rw [hok]
            exact nofun
          · rw [hidle.pending hpending hlen]
            exact ⟨hstart, nofun⟩
        · unfold usblpWrite
          rw [if_pos (Nat.le_of_not_lt hlen), List.eq_nil_of_length_eq_zero (Nat.le_zero.mp
            (Nat.le_of_not_lt hlen))]
          exact ⟨⟨[], (List.append_nil _).symm, List.nil_prefix⟩, fun _ ↦ (List.append_nil _).symm⟩
      generalize usblpWrite outcome block (fuel + 1) 0 0 s = r at hkeeps ⊢
      refine ⟨hkeeps.1, fun dataSize hcall ↦ ?_⟩
      obtain ⟨v, hv, rfl⟩ := Option.map_eq_some_iff.mp hcall
      exact ⟨rfl, hkeeps.2 (by rw [hv]; rfl)⟩

theorem keeps_data_one : KeepsData (fun _ ↦ .ends 1 true) [0x40] .opened :=
  (keeps_data_iff .opened [0x40]).mpr (Or.inr fun _ hbreaks ↦ hbreaks.2.2)

/-- The only urb of the block fails, and the block is dropped. -/
theorem block_dropped : ¬ ∀ s, Between (fun _ ↦ .ends 0 false) s →
    KeepsData (fun _ ↦ .ends 0 false) [0x40] s := by
  intro hall
  have hsent := ((hall .opened .opened 3).2 0 rfl).2
  revert hsent
  decide

end PrintServer.Usb
