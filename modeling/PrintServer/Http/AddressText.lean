import PrintServer.Http.Decimal

/-!
# AddrToIP in place

`AddrToIP` writes a NUL behind each number of the text it is given, for `atoi`, and puts the
character back.  `Dotted` is the form of an address without a bound on its numbers.
-/

namespace PrintServer.Http

/-- The inner loop: how far `IPAddr` moves, `none` at a character that is no digit. -/
def partLength : List UInt8 → Option Nat
  | [] => some 0
  | c :: s =>
      if c = chr '.' ∨ c = chr ' ' ∨ c = 0 then some 0
      else if c < chr '0' ∨ c > chr '9' then none
      else (partLength s).map (· + 1)

/-- What a call leaves: the memory of the text and what it returns. -/
structure AddrResult where
  mem : List UInt8
  ip : Option (List UInt8)
deriving DecidableEq

/-- The `do` loop with `n` numbers to come behind this one, `Startp` at index `startp` and `ip`
what is in `IP`. -/
def addrTurns : Nat → List UInt8 → Nat → List UInt8 → AddrResult
  | n, mem, startp, ip =>
      match partLength (mem.drop startp) with
      | none => ⟨mem, none⟩
      | some k =>
          let ipAddr := startp + k
          let tmp := mem.getD ipAddr 0
          let endIP : Bool := tmp ≠ chr '.'
          let mem := mem.set ipAddr 0
          let tempIP := (atol (cstr mem startp)).toInt16
          if k = 0 ∨ tempIP < 0 ∨ tempIP > 255 then ⟨mem.set ipAddr tmp, none⟩
          else
            let mem := mem.set ipAddr tmp
            let ip := ip ++ [tempIP.toUInt16.toUInt8]
            match n with
            | 0 =>
                if ¬ endIP then ⟨mem, none⟩
                else if ((mem.drop ipAddr).dropWhile (· = chr ' ')).head? = some 0 then
                  ⟨mem, some ip⟩
                else ⟨mem, none⟩
            | n + 1 => if endIP then ⟨mem, none⟩ else addrTurns n mem (ipAddr + 1) ip

/-- `AddrToIP` of the string at the start of `mem`. -/
def addrToIPAt (mem : List UInt8) : AddrResult := addrTurns 3 mem 0 []

theorem set_getD {mem : List UInt8} {i : Nat} : (mem.set i 0).set i (mem.getD i 0) = mem := by
  rw [List.set_set]
  apply List.ext_getElem?
  intro j
  rw [List.getElem?_set]
  split
  · rename_i heq
    subst heq
    split
    · rename_i hlt
      rw [List.getD_eq_getElem?_getD, List.getElem?_eq_getElem hlt, Option.getD_some]
    · rw [List.getElem?_eq_none (by omega)]
  · rfl

/-- The text is as it was. -/
theorem addrTurns_mem {n : Nat} {mem ip : List UInt8} {startp : Nat} :
    (addrTurns n mem startp ip).mem = mem := by
  induction n generalizing startp ip with
  | zero =>
      unfold addrTurns
      simp only [set_getD]
      split
      · rfl
      · split_ifs <;> rfl
  | succ n ih =>
      unfold addrTurns
      simp only [set_getD]
      split
      · rfl
      · split_ifs
        · rfl
        · rfl
        · exact ih

/-! ## The same on the text alone -/

variable {s : Str}

theorem partLength_text (hs : 0 ∉ s) {rest : List UInt8} :
    partLength (s ++ 0 :: rest) =
      if (s.takeWhile inPart).all isDigit then some (s.takeWhile inPart).length else none := by
  induction s with
  | nil => rfl
  | cons c s ih =>
      obtain ⟨hc, hs⟩ := not_or.mp fun h ↦ hs (List.mem_cons.mpr h)
      have hdigit : (c < chr '0' ∨ c > chr '9') ↔ isDigit c = false := by
        simp only [isDigit, decide_eq_false_iff_not, not_and_or, UInt8.not_le, gt_iff_lt]
      have hstop : (c = chr '.' ∨ c = chr ' ' ∨ c = 0) ↔ ¬ inPart c = true := by
        simp only [inPart, decide_eq_true_eq, Ne.symm hc, or_false, not_and_or, not_not]
      rw [List.cons_append, partLength]
      by_cases hpart : inPart c = true
      · rw [if_neg (fun h ↦ hstop.mp h hpart), List.takeWhile_cons_of_pos hpart, List.all_cons,
          List.length_cons, ih hs]
        by_cases hd : isDigit c = true
        · rw [if_neg (fun h ↦ absurd (hdigit.mp h) (by rw [hd]; exact Bool.noConfusion)), hd,
            Bool.true_and]
          split
          · rfl
          · rfl
        · have hfalse : isDigit c = false := Bool.not_eq_true _ ▸ hd
          rw [if_pos (hdigit.mpr hfalse), hfalse, Bool.false_and, if_neg Bool.false_ne_true]
      · rw [if_pos (hstop.mpr hpart), List.takeWhile_cons_of_neg hpart]
        rfl

/-- `atoi` sees the number alone. -/
theorem cstr_part {pre part behind : List UInt8} (hpart : 0 ∉ part) (hbehind : behind ≠ []) :
    cstr ((pre ++ (part ++ behind)).set (pre.length + part.length) 0) pre.length = part := by
  obtain ⟨c, behind, rfl⟩ := List.exists_cons_of_ne_nil hbehind
  unfold cstr
  rw [List.set_append_right _ _ (by omega), Nat.add_sub_cancel_left,
    List.set_append_right _ _ le_rfl, Nat.sub_self, List.set_cons_zero, List.drop_left]
  rw [List.takeWhile_append_of_pos, List.takeWhile_cons_of_neg (by decide), List.append_nil]
  intro d hd
  exact decide_eq_true fun h ↦ hpart (h ▸ hd)

theorem dropWhile_head_zero {t rest : List UInt8} (ht : 0 ∉ t) :
    ((t ++ 0 :: rest).dropWhile (· = chr ' ')).head? = some 0 ↔
      t.dropWhile (· = chr ' ') = [] := by
  induction t with
  | nil => exact iff_of_true rfl rfl
  | cons c t ih =>
      obtain ⟨hc, ht⟩ := not_or.mp fun h ↦ ht (List.mem_cons.mpr h)
      rw [List.cons_append, List.dropWhile_cons, List.dropWhile_cons]
      by_cases hblank : c = chr ' '
      · rw [if_pos (decide_eq_true hblank), if_pos (decide_eq_true hblank)]
        exact ih ht
      · have hneg : ¬ decide (c = chr ' ') = true := fun h ↦ hblank (of_decide_eq_true h)
        rw [if_neg hneg, if_neg hneg]
        exact iff_of_false (fun h ↦ hc (Option.some.inj h).symm) (List.cons_ne_nil c t)

theorem not_mem_takeWhile {p : UInt8 → Bool} {c : UInt8} (h : c ∉ s) : c ∉ s.takeWhile p :=
  fun hc ↦ h (List.takeWhile_subset p hc)

theorem not_mem_dropWhile {p : UInt8 → Bool} {c : UInt8} (h : c ∉ s) : c ∉ s.dropWhile p :=
  fun hc ↦ h (List.dropWhile_subset p hc)

theorem headD_dot {t : Str} : t.head?.getD 0 ≠ chr '.' ↔ t.head? ≠ some (chr '.') := by
  cases t with
  | nil => exact iff_of_true (by decide) (Option.some_ne_none _).symm
  | cons c t => exact not_congr (by rw [List.head?_cons, Option.getD_some, Option.some_inj])

/-- One turn, in terms of the number it reads and what is behind it. -/
theorem addrTurns_turn {n : Nat} {pre rest ip : List UInt8} (hs : 0 ∉ s) :
    let mem := pre ++ (s ++ 0 :: rest)
    let part := s.takeWhile inPart
    let behind := s.dropWhile inPart
    let b := (tempIP part).toUInt16.toUInt8
    addrTurns n mem pre.length ip =
      if part.all isDigit = false then ⟨mem, none⟩
      else if part = [] ∨ tempIP part < 0 ∨ tempIP part > 255 then ⟨mem, none⟩
      else match n with
        | 0 =>
            if behind.head? = some (chr '.') then ⟨mem, none⟩
            else if behind.dropWhile (· = chr ' ') = [] then ⟨mem, some (ip ++ [b])⟩
            else ⟨mem, none⟩
        | n + 1 =>
            if behind.head? ≠ some (chr '.') then ⟨mem, none⟩
            else addrTurns n mem (pre.length + part.length + 1) (ip ++ [b]) := by
  intro mem part behind b
  have hsplit : s ++ 0 :: rest = part ++ (behind ++ 0 :: rest) := by
    rw [← List.append_assoc, List.takeWhile_append_dropWhile]
  have hlength : partLength (mem.drop pre.length) =
      if part.all isDigit then some part.length else none := by
    rw [List.drop_left, partLength_text hs]
  have hatoi : (atol (cstr (mem.set (pre.length + part.length) 0) pre.length)).toInt16 =
      tempIP part := by
    change (atol (cstr ((pre ++ (s ++ 0 :: rest)).set _ 0) _)).toInt16 = _
    rw [hsplit, cstr_part (not_mem_takeWhile hs) (by simp), tempIP]
  have hbehind : mem.drop (pre.length + part.length) = behind ++ 0 :: rest := by
    change (pre ++ (s ++ 0 :: rest)).drop _ = _
    rw [hsplit, ← List.append_assoc, ← List.length_append, List.drop_left]
  have htmp : mem.getD (pre.length + part.length) 0 = behind.head?.getD 0 := by
    rw [List.getD_eq_getElem?_getD, ← List.head?_drop, hbehind]
    cases behind <;> rfl
  have hdot : (decide (mem.getD (pre.length + part.length) 0 ≠ chr '.') = true) =
      (behind.head? ≠ some (chr '.')) := by
    rw [htmp, decide_eq_true_eq, headD_dot]
  have hend := @dropWhile_head_zero behind rest (not_mem_dropWhile hs)
  rw [addrTurns]
  simp only [hlength]
  by_cases hall : part.all isDigit = true
  · simp only [hall, if_true, set_getD, hatoi, hdot, Bool.true_eq_false, if_false,
      List.length_eq_zero_iff, hbehind, hend]
    cases n with
    | zero =>
        simp only [not_not]
        rfl
    | succ n => rfl
  · simp only [hall, Bool.false_eq_true, if_false, if_true]

/-- In memory as on the text. -/
theorem addrTurns_ip {n : Nat} {pre rest ip : List UInt8} (hs : 0 ∉ s) :
    (addrTurns n (pre ++ (s ++ 0 :: rest)) pre.length ip).ip = (addrLoop n s).map (ip ++ ·) := by
  induction n generalizing s pre ip with
  | zero =>
      rw [addrTurns_turn hs, addrLoop]
      simp only
      split_ifs <;> rfl
  | succ n ih =>
      rw [addrTurns_turn hs, addrLoop]
      simp only
      split
      · rfl
      split
      · rfl
      cases hbehind : s.dropWhile inPart with
      | nil => rfl
      | cons c t =>
          simp only [List.head?_cons, Option.some_inj, ne_eq, ite_not]
          split
          · rename_i hdot
            have hsplit : s = s.takeWhile inPart ++ c :: t := by
              rw [← hbehind, List.takeWhile_append_dropWhile]
            have ht : 0 ∉ t := fun h ↦
              not_mem_dropWhile hs (hbehind ▸ List.mem_cons_of_mem c h)
            have hmem : pre ++ (s ++ 0 :: rest) =
                (pre ++ s.takeWhile inPart ++ [c]) ++ (t ++ 0 :: rest) := by
              conv => lhs; rw [hsplit]
              simp only [List.append_assoc, List.cons_append, List.nil_append]
            have hlength : pre.length + (s.takeWhile inPart).length + 1 =
                (pre ++ s.takeWhile inPart ++ [c]).length := by
              rw [List.length_append, List.length_append, List.length_singleton]
            rw [hmem, hlength, ih ht, Option.map_map]
            congr 1
            funext u
            simp only [Function.comp_apply, List.append_assoc, List.singleton_append]
          · rfl

/-! ## Dotted numbers -/

/-- `ns` are the numbers of runs of digits with dots between them, and behind the last run are
blanks. -/
inductive Dotted : List Nat → Str → Prop
  | last {run : Str} {k : Nat} : IsDigits run →
      Dotted [decimalValue run] (run ++ List.replicate k (chr ' '))
  | more {run s : Str} {ns : List Nat} : IsDigits run → Dotted ns s →
      Dotted (decimalValue run :: ns) (run ++ chr '.' :: s)

theorem isDigits_iff {run : Str} : IsDigits run ↔ run ≠ [] ∧ ∀ c ∈ run, isDigit c = true := by
  unfold IsDigits isDigit
  simp only [decide_eq_true_eq]

theorem takeWhile_run {run t : Str} (hrun : ∀ c ∈ run, isDigit c = true)
    (ht : ∀ c ∈ t.head?, isDigit c = false) :
    (run ++ t).takeWhile isDigit = run ∧ (run ++ t).dropWhile isDigit = t := by
  rw [List.takeWhile_append_of_pos hrun, List.dropWhile_append_of_pos hrun]
  cases t with
  | nil => exact ⟨List.append_nil run, rfl⟩
  | cons c t =>
      have hc : ¬ isDigit c = true := by
        rw [ht c rfl]
        exact Bool.false_ne_true
      rw [List.takeWhile_cons_of_neg hc, List.dropWhile_cons_of_neg hc]
      exact ⟨List.append_nil run, rfl⟩

/-- The quads are the texts whose numbers pass. -/
theorem quad_iff_dotted {ok : Nat → Prop} {n : Nat} :
    Quad ok n s ↔ ∃ ns, ns.length = n + 1 ∧ Dotted ns s ∧ ∀ m ∈ ns, ok m := by
  induction n generalizing s with
  | zero =>
      rw [quad_iff]
      constructor
      · intro ⟨hne, hok, hblank⟩
        refine ⟨[decimalValue (s.takeWhile isDigit)], rfl, ?_, by simpa using hok⟩
        have hrest : s.dropWhile isDigit =
            List.replicate (s.dropWhile isDigit).length (chr ' ') :=
          List.eq_replicate_of_mem hblank
        have hlast := @Dotted.last (s.takeWhile isDigit) (s.dropWhile isDigit).length
          (isDigits_iff.mpr ⟨hne, fun c hc ↦ List.mem_takeWhile_imp hc⟩)
        rwa [← hrest, List.takeWhile_append_dropWhile] at hlast
      · intro ⟨ns, hlength, hdotted, hok⟩
        cases hdotted with
        | @last run k hrun =>
            obtain ⟨hne, hdigits⟩ := isDigits_iff.mp hrun
            obtain ⟨htake, hdrop⟩ := @takeWhile_run run (List.replicate k (chr ' ')) hdigits
              (fun c hc ↦ by rw [List.eq_of_mem_replicate (List.mem_of_mem_head? hc)]; decide)
            rw [htake, hdrop]
            exact ⟨hne, hok _ List.mem_cons_self, fun c hc ↦ List.eq_of_mem_replicate hc⟩
        | more _ hmore => cases hmore <;> cases hlength
  | succ n ih =>
      rw [quad_iff]
      constructor
      · intro ⟨hne, hok, t, hrest, ht⟩
        obtain ⟨ns, hlength, hdotted, hns⟩ := ih.mp ht
        refine ⟨decimalValue (s.takeWhile isDigit) :: ns, congrArg (· + 1) hlength, ?_,
          List.forall_mem_cons.mpr ⟨hok, hns⟩⟩
        have hmore := Dotted.more
          (isDigits_iff.mpr ⟨hne, fun c hc ↦ List.mem_takeWhile_imp hc⟩) hdotted
        rwa [← hrest, List.takeWhile_append_dropWhile] at hmore
      · intro ⟨ns, hlength, hdotted, hok⟩
        cases hdotted with
        | last _ => cases hlength
        | @more run t ns hrun hmore =>
            obtain ⟨hne, hdigits⟩ := isDigits_iff.mp hrun
            obtain ⟨htake, hdrop⟩ := @takeWhile_run run (chr '.' :: t) hdigits
              (fun c hc ↦ by rw [← Option.mem_some.mp hc]; decide)
            rw [htake, hdrop]
            obtain ⟨hhead, htail⟩ := List.forall_mem_cons.mp hok
            exact ⟨hne, hhead, t, rfl, ih.mpr ⟨ns, Nat.succ.inj hlength, hmore, htail⟩⟩

/-- A text has its numbers but once. -/
theorem Dotted.unique {ns ms : List Nat} (hn : Dotted ns s) (hm : Dotted ms s) : ns = ms := by
  have hdigit {run t : Str} (hrun : IsDigits run) (ht : ∀ c ∈ t.head?, isDigit c = false) :=
    @takeWhile_run run t (isDigits_iff.mp hrun).2 ht
  have hblank {k : Nat} : ∀ c ∈ (List.replicate k (chr ' ')).head?, isDigit c = false := by
    intro c hc
    rw [List.eq_of_mem_replicate (List.mem_of_mem_head? hc)]
    decide
  have hdot {t : Str} : ∀ c ∈ (chr '.' :: t).head?, isDigit c = false := by
    intro c hc
    rw [← Option.mem_some.mp hc]
    decide
  induction hn generalizing ms with
  | @last run k hrun =>
      obtain ⟨htake, hdrop⟩ := hdigit hrun (@hblank k)
      generalize hs : run ++ List.replicate k (chr ' ') = s at hm htake hdrop
      cases hm with
      | @last run' j hrun' =>
          rw [(hdigit hrun' hblank).1] at htake
          rw [htake]
      | @more run' t ns' hrun' hmore =>
          rw [(hdigit hrun' hdot).2] at hdrop
          have hmem : chr '.' ∈ List.replicate k (chr ' ') := hdrop ▸ List.mem_cons_self
          exact absurd (List.eq_of_mem_replicate hmem) (by decide)
  | @more run t ns hrun hmore ih =>
      obtain ⟨htake, hdrop⟩ := hdigit hrun (@hdot t)
      generalize hs : run ++ chr '.' :: t = s at hm htake hdrop
      cases hm with
      | @last run' j hrun' =>
          rw [(hdigit hrun' hblank).2] at hdrop
          have hmem : chr '.' ∈ List.replicate j (chr ' ') := hdrop ▸ List.mem_cons_self
          exact absurd (List.eq_of_mem_replicate hmem) (by decide)
      | @more run' u ms' hrun' hmore' =>
          rw [(hdigit hrun' hdot).1] at htake
          rw [(hdigit hrun' hdot).2] at hdrop
          rw [htake, ih ((List.cons.inj hdrop).2 ▸ hmore')]

/-! ## What it returns -/

/-- The tests of `TempIP` see a number modulo 65536, and the largest `int32` for all above it. -/
theorem fitsTempIP_iff_mod {n : Nat} :
    FitsTempIP n ↔ n < 2147483647 ∧ n % 65536 ≤ 255 := by
  have hnonneg : 0 ≤ (min 2147483647 n : Int) := by omega
  have hle : (min 2147483647 n : Int) ≤ 2147483647 := by omega
  have hint : ((Int32.ofInt (min 2147483647 n)).toInt16).toInt =
      (min 2147483647 n : Int).bmod 65536 := by
    rw [Int32.toInt_toInt16, Int32.toInt_ofInt_of_le (by omega) (by omega)]
  unfold FitsTempIP
  simp only
  rw [Int16.le_iff_toInt_le, Int16.le_iff_toInt_le, hint]
  change 0 ≤ (min 2147483647 n : Int).bmod 65536 ∧ (min 2147483647 n : Int).bmod 65536 ≤ 255 ↔ _
  rw [Int.bmod_def]
  omega

theorem Dotted.ne_nil {ns : List Nat} (h : Dotted ns s) : ns ≠ [] := by
  cases h <;> exact List.cons_ne_nil _ _

/-- The byte kept of a number that passes. -/
theorem tempIP_byte {run : Str} (hrun : IsDigits run) (hfits : FitsTempIP (decimalValue run)) :
    (tempIP run).toUInt16.toUInt8 = UInt8.ofNat (decimalValue run) := by
  have hatol := @atol_blanks run 0 hrun
  rw [List.replicate_zero, List.nil_append] at hatol
  obtain ⟨hlt, -⟩ := fitsTempIP_iff_mod.mp hfits
  have hmin : min (2147483647 : Int) (decimalValue run) = decimalValue run := by omega
  unfold tempIP
  rw [hatol, hmin]
  rw [Int32.ofInt_eq_ofNat, Int32.toInt16_ofNat', Int16.toUInt16_ofNat', UInt16.toUInt8_ofNat']

/-- The loop at a number that passes. -/
theorem addrLoop_run {n : Nat} {run t : Str} (hrun : IsDigits run)
    (hfits : FitsTempIP (decimalValue run)) (ht : ∀ c ∈ t.head?, inPart c = false) :
    addrLoop n (run ++ t) =
      match n, t with
      | 0, t =>
          if t.head? = some (chr '.') then none
          else if t.dropWhile (· = chr ' ') = [] then some [UInt8.ofNat (decimalValue run)]
          else none
      | n + 1, c :: t =>
          if c = chr '.' then (addrLoop n t).map (UInt8.ofNat (decimalValue run) :: ·) else none
      | _ + 1, [] => none := by
  obtain ⟨hne, hdigits⟩ := isDigits_iff.mp hrun
  have hnone : ∀ c ∈ t.head?, isDigit c = false := fun c hc ↦ by
    cases hd : isDigit c with
    | false => rfl
    | true => exact absurd (inPart_of_isDigit c hd) (by rw [ht c hc]; exact Bool.false_ne_true)
  obtain ⟨htake, hdrop⟩ := takeWhile_run hdigits hnone
  have hstop : ∀ c ∈ ((run ++ t).dropWhile isDigit).head?, inPart c = false := by rwa [hdrop]
  obtain ⟨htake', hdrop'⟩ := part_eq_digits hstop
  rw [htake] at htake'
  rw [hdrop] at hdrop'
  have hall : run.all isDigit = true := List.all_eq_true.mpr hdigits
  have hpass := (tempIP_digits hne hdigits).mpr hfits
  rw [addrLoop]
  simp only
  rw [← htake', ← hdrop', hall, if_neg Bool.noConfusion, if_neg (not_or.mpr ⟨hne, hpass⟩),
    tempIP_byte hrun hfits]
  cases n <;> cases t <;> rfl

/-- The bytes of the numbers that pass. -/
theorem Dotted.addrLoop_eq {ns : List Nat} (h : Dotted ns s) (hfits : ∀ m ∈ ns, FitsTempIP m)
    {n : Nat} (hlength : ns.length = n + 1) : addrLoop n s = some (ns.map UInt8.ofNat) := by
  induction h generalizing n with
  | @last run k hrun =>
      cases n with
      | succ n => cases hlength
      | zero =>
          have hblank : ∀ c ∈ List.replicate k (chr ' '), c = chr ' ' :=
            fun c hc ↦ List.eq_of_mem_replicate hc
          obtain ⟨hdot, hdrop⟩ := dropWhile_blank_eq_nil.mpr hblank
          rw [addrLoop_run hrun (hfits _ List.mem_cons_self) fun c hc ↦ by
            rw [hblank c (List.mem_of_mem_head? hc)]; decide]
          simp only [hdot, hdrop, if_false, if_true, List.map_cons, List.map_nil]
  | @more run t ns hrun hmore ih =>
      obtain ⟨hhead, htail⟩ := List.forall_mem_cons.mp hfits
      cases n with
      | zero => exact absurd (List.length_eq_zero_iff.mp (Nat.succ.inj hlength)) hmore.ne_nil
      | succ n =>
          rw [addrLoop_run hrun hhead fun c hc ↦ by rw [← Option.mem_some.mp hc]; decide]
          simp only [if_true, ih htail (Nat.succ.inj hlength), Option.map_some, List.map_cons]

theorem addrToIPAt_mem {mem : List UInt8} : (addrToIPAt mem).mem = mem := addrTurns_mem

theorem addrToIPAt_ip {rest : List UInt8} (hs : 0 ∉ s) :
    (addrToIPAt (s ++ 0 :: rest)).ip = addrToIP s := by
  have hip := @addrTurns_ip s 3 [] rest [] hs
  rw [List.nil_append, List.length_nil] at hip
  unfold addrToIPAt addrToIP
  rw [hip]
  cases addrLoop 3 s <;> rfl

/-- Four numbers from 0 to 255 are accepted, and nothing else, the bytes are those numbers and
the text stays. -/
def ExactQuad (s : Str) (rest : List UInt8) : Prop :=
  let r := addrToIPAt (s ++ 0 :: rest)
  r.mem = s ++ 0 :: rest ∧
    (r.ip.isSome = true ↔ ∃ ns, ns.length = 4 ∧ Dotted ns s ∧ ∀ n ∈ ns, n ≤ 255) ∧
    ∀ ip, r.ip = some ip → ip.length = 4 ∧ Dotted (ip.map UInt8.toNat) s

/-- `AddrToIP` is exact unless the four numbers pass its tests modulo 65536 only. -/
theorem exactQuad_iff (hs : 0 ∉ s) (rest : List UInt8) :
    ExactQuad s rest ↔ ∀ ns, ns.length = 4 → Dotted ns s →
      (∀ n ∈ ns, n < 2147483647 ∧ n % 65536 ≤ 255) → ∀ n ∈ ns, n ≤ 255 := by
  have haccept : (addrToIP s).isSome = true ↔
      ∃ ns, ns.length = 4 ∧ Dotted ns s ∧ ∀ n ∈ ns, FitsTempIP n :=
    addrToIP_isSome.trans quad_iff_dotted
  unfold ExactQuad
  simp only [addrToIPAt_mem, addrToIPAt_ip hs, true_and]
  constructor
  · intro ⟨hiff, _⟩ ns hlength hdotted hpass
    have hfits : ∀ n ∈ ns, FitsTempIP n := fun n hn ↦ fitsTempIP_iff_mod.mpr (hpass n hn)
    obtain ⟨ms, -, hms, hle⟩ := hiff.mp (haccept.mpr ⟨ns, hlength, hdotted, hfits⟩)
    rwa [hdotted.unique hms]
  · intro h
    have hle {ns : List Nat} (hlength : ns.length = 4) (hdotted : Dotted ns s)
        (hfits : ∀ n ∈ ns, FitsTempIP n) : ∀ n ∈ ns, n ≤ 255 :=
      h ns hlength hdotted fun n hn ↦ fitsTempIP_iff_mod.mp (hfits n hn)
    constructor
    · rw [haccept]
      constructor
      · intro ⟨ns, hlength, hdotted, hfits⟩
        exact ⟨ns, hlength, hdotted, hle hlength hdotted hfits⟩
      · intro ⟨ns, hlength, hdotted, hbyte⟩
        refine ⟨ns, hlength, hdotted, fun n hn ↦ fitsTempIP_iff_mod.mpr ?_⟩
        have hn := hbyte n hn
        omega
    · intro ip hip
      obtain ⟨ns, hlength, hdotted, hfits⟩ := haccept.mp (Option.isSome_of_eq_some hip)
      have hbytes := hdotted.addrLoop_eq hfits hlength
      unfold addrToIP at hip
      obtain rfl := Option.some.inj (hip.symm.trans hbytes)
      have hvalues : (ns.map UInt8.ofNat).map UInt8.toNat = ns := by
        rw [List.map_map]
        conv => rhs; rw [← List.map_id ns]
        apply List.map_congr_left
        intro n hn
        have hbyte := hle hlength hdotted hfits n hn
        change n % 256 = n
        omega
      rw [hvalues, List.length_map]
      exact ⟨hlength, hdotted⟩

/-- `65537.2.3.4` is accepted as `1.2.3.4`. -/
theorem addrToIP_wraps : ¬ ExactQuad (bytes "65537.2.3.4") [] := by
  intro ⟨_, hiff, _⟩
  have hsome : (addrToIPAt (bytes "65537.2.3.4" ++ [0])).ip.isSome = true := by decide +kernel
  have hdotted : Dotted [65537, 2, 3, 4] (bytes "65537.2.3.4") :=
    @Dotted.more (bytes "65537") _ _ (isDigits_iff.mpr (by decide +kernel))
      (@Dotted.more (bytes "2") _ _ (isDigits_iff.mpr (by decide +kernel))
        (@Dotted.more (bytes "3") _ _ (isDigits_iff.mpr (by decide +kernel))
          (@Dotted.last (bytes "4") 0 (isDigits_iff.mpr (by decide +kernel)))))
  obtain ⟨ns, -, hns, hle⟩ := hiff.mp hsome
  have hbound := hle 65537 (hdotted.unique hns ▸ List.mem_cons_self)
  omega

/-- An address of the form is accepted. -/
theorem exactQuad_leading_zero : ExactQuad (bytes "1.2.3.04 ") [] := by
  have hdotted : Dotted [1, 2, 3, 4] (bytes "1.2.3.04 ") :=
    @Dotted.more (bytes "1") _ _ (isDigits_iff.mpr (by decide +kernel))
      (@Dotted.more (bytes "2") _ _ (isDigits_iff.mpr (by decide +kernel))
        (@Dotted.more (bytes "3") _ _ (isDigits_iff.mpr (by decide +kernel))
          (@Dotted.last (bytes "04") 1 (isDigits_iff.mpr (by decide +kernel)))))
  refine (exactQuad_iff (by decide +kernel) []).mpr fun ns _ hns _ ↦ ?_
  rw [hns.unique hdotted]
  decide

end PrintServer.Http
