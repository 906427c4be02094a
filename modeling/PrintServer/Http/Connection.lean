import PrintServer.Http.Httpd
import PrintServer.Http.ZotFile

/-!
# httpd on a connection

The reading half of `httpd` with its calls of `zot_fgets` and `zot_recv`, as opposed to
`receive`, which is given what these calls return.  Each call waits until something arrives, so a
result is `none` for as long as the handler has not decided what to do; `fuel` bounds its calls.
-/

namespace PrintServer.Http

variable {ε : Type}

/-- The array that a call of `zot_fgets` overwrites. -/
def contents (b : List UInt8) (i : Nat) : UInt8 := b.getD i 0

/-- What the handler decides, the lengths that it calls `zot_recv` with, and the length that it
hands to `ApUpgradeFirmware`. -/
structure Handled where
  received : Received
  recvLens : List Int32
  bsize : Int32

/-- No upload. -/
def Handled.of (r : Received) : Handled := ⟨r, [], 0⟩

@[simp] theorem Handled.of_received (r : Received) : (Handled.of r).received = r := rfl

/-- The part headers of an upload: `tsize`, or `none` for a NULL. -/
def readPartHeaders : Nat → List UInt8 → Int32 → ZotFile → List Recv →
    Option (Option Int32 × ZotFile × List Recv)
  | 0, _, _, _, _ => none
  | fuel + 1, b, tsize, f, rs =>
      match zotFgets (contents b) hlinelen f rs with
      | none => none
      | some (none, f, rs) => some (none, f, rs)
      | some (some line, f, rs) =>
          let b := store line b
          let tsize := tsize + Int32.ofNat (cstr b 0).length + 1
          if cstr (rip b) 0 = [] then some (some tsize, f, rs)
          else readPartHeaders fuel (rip b) tsize f rs

/-- The state of the read loop of an upload. -/
structure Upload where
  lens : List Int32
  bsize : Int32
  temp : List UInt8

/-- The read loop of an upload. -/
def readUpload (qsize : Int32) : Nat → Upload → ZotFile → List Recv → Option Upload
  | 0, _, _, _ => none
  | fuel + 1, u, f, rs =>
      let len := if qsize - u.bsize > 1024 then 1024 else qsize - u.bsize
      let u := { u with lens := u.lens ++ [len] }
      match zotRecv f len.toInt rs with
      | none => none
      | some ((bread, data), f, rs) =>
          -- 0 ends the loop, a negative number breaks it
          if bread ≤ 0 then some u
          else
            let u := { u with bsize := u.bsize + Int32.ofInt bread, temp := u.temp ++ data }
            if u.bsize > code2MaxSize * upgradeBlockSize ∨ u.bsize ≥ qsize then some u
            else readUpload qsize fuel u f rs

/-- The upload behind the blank line of the headers. -/
def uploadFrom (env : HttpEnv ε) (fuel : Nat) (h : Headers) (boundary : Str) (f : ZotFile)
    (rs : List Recv) : Option Handled :=
  match readPartHeaders fuel h.inlineBuf 0 f rs with
  | none => none
  | some (none, _, _) => some (.of .quit)
  | some (some tsize, f, rs) =>
      let qsize := h.qsize - Int32.ofNat (boundary.length + 4 + 4) - tsize
      let reject := !env.allocCode2Memory || qsize > code2MaxSize * upgradeBlockSize
      (readUpload qsize fuel ⟨[], 0, []⟩ f rs).map fun u ↦
        ⟨.upload h.rq reject u.temp, u.lens, u.bsize⟩

/-- The form behind the blank line of the headers. -/
def formFrom (env : HttpEnv ε) (h : Headers) (f : ZotFile) (rs : List Recv) : Option Handled :=
  match zotFgets (contents env.heap) (h.qsize + 1).toInt.toNat f rs with
  | none => none
  | some (line, _, _) => some (.of (endOfHeaders env h line.toList []))

/-- The blank line after the headers. -/
def endOfHeadersFrom (env : HttpEnv ε) (fuel : Nat) (h : Headers) (f : ZotFile)
    (rs : List Recv) : Option Handled :=
  if ¬ h.ippreq ∧ h.qsize ≠ 0 ∧ h.rq.method = .post then
    match h.rq.boundary with
    | some boundary => uploadFrom env fuel h boundary f rs
    | none => formFrom env h f rs
  else some (.of (endOfHeaders env h [] []))

def headerLoopFrom (env : HttpEnv ε) : Nat → Headers → ZotFile → List Recv → Option Handled
  | 0, _, _, _ => none
  | fuel + 1, h, f, rs =>
      match zotFgets (contents h.inlineBuf) hlinelen f rs with
      | none => none
      | some (none, _, _) => some (.of (.request h.rq))
      | some (some line, f, rs) =>
          let h := { h with inlineBuf := rip (store line h.inlineBuf) }
          if cstr h.inlineBuf 0 = [] then endOfHeadersFrom env fuel h f rs
          else headerLoopFrom env fuel (headerLine env h) f rs

/-- The reading half of `httpd`. -/
def receiveFrom (env : HttpEnv ε) (fuel : Nat) (f : ZotFile) (rs : List Recv) : Option Handled :=
  match zotFgets (contents env.heap) hlinelen f rs with
  | none => none
  | some (none, _, _) => some (.of .quit)
  | some (some line, f, rs) =>
      let (rq, b, hasQuery) := requestLine env line
      if rq.method = .unknown ∨ (rq.version = 0 ∧ (rq.method ≠ .get ∨ hasQuery)) ∨
          (rq.method ≠ .get ∧ hasQuery) ∨ rq.version = 0 then
        some (.of (receive env ⟨[line], []⟩))
      else headerLoopFrom env fuel ⟨rq, false, false, 0, b⟩ f rs

/-- The handler of a new connection ends with `r`. -/
def Handles (env : HttpEnv ε) (behind : Nat → UInt8) (rs : List Recv) (r : Handled) : Prop :=
  ∃ fuel, receiveFrom env fuel (zotFopen behind) rs = some r

/-! ## What the calls return -/

variable {env : HttpEnv ε} {fuel : Nat} {f : ZotFile} {rs : List Recv}

theorem zotRecv_length {len bread : Int} {data : List UInt8} {f' : ZotFile} {rs' : List Recv}
    (h : zotRecv f len rs = some ((bread, data), f', rs')) (hpos : 0 < bread) :
    (data.length : Int) = bread ∧ bread ≤ len := by
  unfold zotRecv at h
  split at h
  · cases h
  · obtain ⟨⟨rfl, -⟩, -⟩ : ((-1 : Int) = bread ∧ _) ∧ _ := by simpa using h
    omega
  · obtain ⟨⟨rfl, rfl⟩, -⟩ : (_ = bread ∧ _ = data) ∧ _ := by simpa using h
    rw [ZotFile.length_peek]
    omega

theorem uploadBody_of_readUpload {qsize : Int32} {u u' : Upload}
    (h : readUpload qsize fuel u f rs = some u') :
    ∃ body, uploadBody qsize body u.bsize u.temp = u'.temp := by
  induction fuel generalizing u f rs with
  | zero => cases h
  | succ fuel ih =>
      unfold readUpload at h
      simp only at h
      generalize hlen : (if qsize - u.bsize > 1024 then 1024 else qsize - u.bsize) = len at h
      split at h
      · cases h
      · rename_i bread data f' rs' hrecv
        split at h
        · obtain rfl := Option.some.inj h
          exact ⟨[], rfl⟩
        · rename_i hpos
          obtain ⟨hdata, hle⟩ := zotRecv_length hrecv (by omega)
          have hne : data ≠ [] := by
            rintro rfl
            exact hpos (by rw [← hdata]; exact Int.le_refl 0)
          have htake : data.take len.toInt.toNat = data :=
            List.take_of_length_le (by omega)
          have hstep (body : List (Option (List UInt8))) :
              uploadBody qsize (some data :: body) u.bsize u.temp =
                if u.bsize + Int32.ofInt bread > code2MaxSize * upgradeBlockSize ∨
                    u.bsize + Int32.ofInt bread ≥ qsize then u.temp ++ data
                else uploadBody qsize body (u.bsize + Int32.ofInt bread) (u.temp ++ data) := by
            rw [← hdata, Int32.ofInt_eq_ofNat]
            conv_lhs => unfold uploadBody
            simp only [hlen, htake, if_neg hne]
          split at h
          · rename_i hend
            obtain rfl := Option.some.inj h
            exact ⟨[some data], by rw [hstep, if_pos hend]⟩
          · rename_i hend
            obtain ⟨body, hbody⟩ := ih h
            exact ⟨some data :: body, by rw [hstep, if_neg hend]; exact hbody⟩

theorem uploadHeaders_of_readPartHeaders {b : List UInt8} {tsize : Int32} {t : Option Int32}
    {f' : ZotFile} {rs' : List Recv}
    (h : readPartHeaders fuel b tsize f rs = some (t, f', rs')) :
    ∃ lines, uploadHeaders lines b tsize = t := by
  induction fuel generalizing b tsize f rs with
  | zero => cases h
  | succ fuel ih =>
      unfold readPartHeaders at h
      split at h
      · cases h
      · obtain ⟨rfl, -⟩ : none = t ∧ _ := by simpa using h
        exact ⟨[], rfl⟩
      · rename_i line f₁ rs₁ _
        simp only at h
        split at h
        · rename_i hblank
          obtain ⟨rfl, -⟩ : _ = t ∧ _ := by simpa using h
          exact ⟨[line], by simp [uploadHeaders, hblank]⟩
        · rename_i hblank
          obtain ⟨lines, hlines⟩ := ih h
          refine ⟨line :: lines, ?_⟩
          unfold uploadHeaders
          simp only [if_neg hblank]
          exact hlines

theorem endOfHeaders_of_from {h : Headers} {r : Handled}
    (hr : endOfHeadersFrom env fuel h f rs = some r) :
    ∃ lines body, endOfHeaders env h lines body = r.received := by
  unfold endOfHeadersFrom at hr
  split at hr
  · rename_i hpost
    obtain ⟨hipp, hq, hm⟩ := hpost
    cases hb : h.rq.boundary with
    | none =>
        simp only [hb, formFrom] at hr
        split at hr
        · cases hr
        · obtain rfl := Option.some.inj hr
          exact ⟨_, [], rfl⟩
    | some boundary =>
        simp only [hb, uploadFrom] at hr
        split at hr
        · cases hr
        · rename_i hparts
          obtain rfl := Option.some.inj hr
          obtain ⟨lines, hlines⟩ := uploadHeaders_of_readPartHeaders hparts
          refine ⟨lines, [], ?_⟩
          unfold endOfHeaders
          simp [hipp, hq, hm, hb, hlines]
        · rename_i tsize f' rs' hparts
          obtain ⟨u, hread, rfl⟩ := Option.map_eq_some_iff.mp hr
          obtain ⟨lines, hlines⟩ := uploadHeaders_of_readPartHeaders hparts
          obtain ⟨body, hbody⟩ := uploadBody_of_readUpload hread
          refine ⟨lines, body, ?_⟩
          unfold endOfHeaders
          rw [if_neg hipp, if_pos ⟨hq, hm⟩]
          simp only [hb, hlines]
          exact congrArg _ hbody
  · obtain rfl := Option.some.inj hr
    exact ⟨[], [], rfl⟩

theorem headerLoop_of_from {h : Headers} {r : Handled}
    (hr : headerLoopFrom env fuel h f rs = some r) :
    ∃ lines body, headerLoop env body lines h = r.received := by
  induction fuel generalizing h f rs with
  | zero => cases hr
  | succ fuel ih =>
      unfold headerLoopFrom at hr
      split at hr
      · cases hr
      · obtain rfl := Option.some.inj hr
        exact ⟨[], [], rfl⟩
      · rename_i line f' rs' _
        simp only at hr
        split at hr
        · rename_i hblank
          obtain ⟨lines, body, hlines⟩ := endOfHeaders_of_from hr
          refine ⟨line :: lines, body, ?_⟩
          unfold headerLoop
          simp only [if_pos hblank]
          exact hlines
        · rename_i hblank
          obtain ⟨lines, body, hlines⟩ := ih hr
          refine ⟨line :: lines, body, ?_⟩
          unfold headerLoop
          simp only [if_neg hblank]
          exact hlines

/-- What a handler decides on a connection is what it decides for the strings that its calls
return. -/
theorem receive_of_from {r : Handled} (hr : receiveFrom env fuel f rs = some r) :
    ∃ req, receive env req = r.received := by
  unfold receiveFrom at hr
  split at hr
  · cases hr
  · obtain rfl := Option.some.inj hr
    exact ⟨⟨[], []⟩, rfl⟩
  · rename_i line f' rs' _
    simp only at hr
    split at hr
    · obtain rfl := Option.some.inj hr
      exact ⟨⟨[line], []⟩, (Handled.of_received _).symm⟩
    · rename_i hgo
      obtain ⟨lines, body, hlines⟩ := headerLoop_of_from hr
      refine ⟨⟨line :: lines, body⟩, ?_⟩
      simp only [not_or] at hgo
      obtain ⟨hm, hv, hq, hv'⟩ := hgo
      unfold receive
      simp only [if_neg hm, if_neg hv, if_neg hq, if_neg hv']
      exact hlines

/-! ## The number of calls does not matter -/

theorem readPartHeaders_mono {b : List UInt8} {tsize : Int32} {n m : Nat} (hle : n ≤ m)
    {r : Option Int32 × ZotFile × List Recv} (h : readPartHeaders n b tsize f rs = some r) :
    readPartHeaders m b tsize f rs = some r := by
  induction n generalizing m b tsize f rs with
  | zero => cases h
  | succ n ih =>
      obtain ⟨m, rfl⟩ : ∃ k, m = k + 1 := ⟨m - 1, by omega⟩
      unfold readPartHeaders at h ⊢
      split at h
      · cases h
      · exact h
      · simp only at h ⊢
        split at h
        · rename_i hblank
          rw [if_pos hblank]
          exact h
        · rename_i hblank
          rw [if_neg hblank]
          exact ih (by omega) h

theorem readUpload_mono {qsize : Int32} {u u' : Upload} {n m : Nat} (hle : n ≤ m)
    (h : readUpload qsize n u f rs = some u') : readUpload qsize m u f rs = some u' := by
  induction n generalizing m u f rs with
  | zero => cases h
  | succ n ih =>
      obtain ⟨m, rfl⟩ : ∃ k, m = k + 1 := ⟨m - 1, by omega⟩
      unfold readUpload at h ⊢
      simp only at h ⊢
      split at h
      · cases h
      · split at h
        · rename_i hpos
          rw [if_pos hpos]
          exact h
        · rename_i hpos
          rw [if_neg hpos]
          split at h
          · rename_i hend
            rw [if_pos hend]
            exact h
          · rename_i hend
            rw [if_neg hend]
            exact ih (by omega) h

theorem endOfHeadersFrom_mono {h : Headers} {r : Handled} {n m : Nat} (hle : n ≤ m)
    (hr : endOfHeadersFrom env n h f rs = some r) : endOfHeadersFrom env m h f rs = some r := by
  unfold endOfHeadersFrom at hr ⊢
  split at hr
  · rename_i hpost
    rw [if_pos hpost]
    cases hb : h.rq.boundary with
    | none =>
        rw [hb] at hr
        exact hr
    | some boundary =>
        simp only [hb, uploadFrom] at hr ⊢
        split at hr
        · cases hr
        · rename_i hparts
          rw [readPartHeaders_mono hle hparts]
          exact hr
        · rename_i hparts
          rw [readPartHeaders_mono hle hparts]
          obtain ⟨u, hread, rfl⟩ := Option.map_eq_some_iff.mp hr
          simp only [readUpload_mono hle hread, Option.map_some]
  · rename_i hpost
    rw [if_neg hpost]
    exact hr

theorem headerLoopFrom_mono {h : Headers} {r : Handled} {n m : Nat} (hle : n ≤ m)
    (hr : headerLoopFrom env n h f rs = some r) : headerLoopFrom env m h f rs = some r := by
  induction n generalizing m h f rs with
  | zero => cases hr
  | succ n ih =>
      obtain ⟨m, rfl⟩ : ∃ k, m = k + 1 := ⟨m - 1, by omega⟩
      unfold headerLoopFrom at hr ⊢
      split at hr
      · cases hr
      · exact hr
      · simp only at hr ⊢
        split at hr
        · rename_i hblank
          rw [if_pos hblank]
          exact endOfHeadersFrom_mono (by omega) hr
        · rename_i hblank
          rw [if_neg hblank]
          exact ih (by omega) hr

theorem receiveFrom_mono {r : Handled} {n m : Nat} (hle : n ≤ m)
    (hr : receiveFrom env n f rs = some r) : receiveFrom env m f rs = some r := by
  unfold receiveFrom at hr ⊢
  split at hr
  · cases hr
  · exact hr
  · simp only at hr ⊢
    split at hr
    · rename_i hend
      rw [if_pos hend]
      exact hr
    · rename_i hend
      rw [if_neg hend]
      exact headerLoopFrom_mono hle hr

/-- A connection is handled in one way. -/
theorem Handles.unique {behind : Nat → UInt8} {r r' : Handled} (h : Handles env behind rs r)
    (h' : Handles env behind rs r') : r = r' := by
  obtain ⟨n, hn⟩ := h
  obtain ⟨m, hm⟩ := h'
  have hmax := receiveFrom_mono (Nat.le_max_left n m) hn
  rw [receiveFrom_mono (Nat.le_max_right n m) hm] at hmax
  exact (Option.some.inj hmax).symm

end PrintServer.Http
