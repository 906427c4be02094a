import PrintServer.Http.EchoName
import PrintServer.Lib.Chunked

/-!
# The text of a settings form

A form is a list of item names and values.  A browser sends it URL-encoded, `decode` undoes that
with 0xFF for each `&`, and `CGIBoxSetting` splits the result in place.
-/

namespace PrintServer.Http

open Lib

/-- A character that may stand for itself. -/
def plain (c : UInt8) : Bool :=
  0x21 ≤ c ∧ c ≤ 0x7e ∧ c ≠ chr '%' ∧ c ≠ chr '+' ∧ c ≠ chr '&'

/-- The ways to send a text: a character stands for itself, a blank is `+`, each byte can be a
percent escape, and `&` is what 0xFF is used for here, which no name or value has. -/
inductive Encodes : Str → Str → Prop
  | nil : Encodes [] []
  | char {c : UInt8} {s e : Str} : plain c → Encodes s e → Encodes (c :: s) (c :: e)
  | blank {s e : Str} : Encodes s e → Encodes (chr ' ' :: s) (chr '+' :: e)
  | amp {s e : Str} : Encodes s e → Encodes (0xff :: s) (chr '&' :: e)
  | escape {a b : UInt8} {hi lo : Nat} {s e : Str} : hexDigit a = some hi → hexDigit b = some lo →
      Encodes s e → Encodes (UInt8.ofNat (16 * hi + lo) :: s) (chr '%' :: a :: b :: e)

/-- A name or a value that can be in a form. -/
def FormText (s : Str) : Prop := ∀ c ∈ s, c ≠ 0 ∧ c ≠ 0xff

instance (s : Str) : Decidable (FormText s) := inferInstanceAs (Decidable (∀ c ∈ s, _))

abbrev Pairs := List (Str × Str)

/-- What is sent for a form. -/
inductive Submits : Pairs → Str → Prop
  | nil : Submits [] []
  | last {n v en ev : Str} : Encodes n en → Encodes v ev →
      Submits [(n, v)] (en ++ chr '=' :: ev)
  | cons {n v en ev e : Str} {p : Str × Str} {ps : Pairs} : Encodes n en → Encodes v ev →
      Submits (p :: ps) e → Submits ((n, v) :: p :: ps) (en ++ chr '=' :: (ev ++ chr '&' :: e))

/-- The pairs, with `c` between them. -/
def joinPairs (c : UInt8) : Pairs → Str
  | [] => []
  | [(n, v)] => n ++ chr '=' :: v
  | (n, v) :: p :: ps => n ++ chr '=' :: (v ++ c :: joinPairs c (p :: ps))

/-- The query that a form decodes to. -/
def formQuery (ps : Pairs) : Str := joinPairs 0xff ps

/-- Names of items, and values without NUL and 0xFF. -/
structure FormPairs (ps : Pairs) : Prop where
  names : ∀ p ∈ ps, p.1 ∈ echoNames ∧ p.1 ≠ echoNames.getD echoSetFsname.toNat []
  distinct : (ps.map Prod.fst).Nodup
  values : ∀ p ∈ ps, FormText p.2

/-- The number of an item. -/
def echoItemOf (n : Str) : UInt8 := UInt8.ofNat (echoNames.idxOf n)

/-- `p[item]` points to the value for each pair, and is NULL for every other item. -/
structure PointsTo (q : Query) (ps : Pairs) : Prop where
  value : ∀ p ∈ ps, ∃ k, q.p (echoItemOf p.1) = some k ∧ cstr q.mem k = p.2
  null : ∀ i < echoNames.length, (∀ p ∈ ps, echoNames.idxOf p.1 ≠ i) → q.p (UInt8.ofNat i) = none

/-- The items of all names are items of the form, and the last value does not end with a line
feed. -/
structure SplitOk (ps : Pairs) : Prop where
  form : ∀ p ∈ ps, echoBoxName ≤ echoNames.idxOf p.1
  last : ∀ p ∈ ps.getLast?, p.2.getLast? ≠ some (chr '\n')

variable {s e t n v : Str} {ps : Pairs}

/-! ## Decoding -/

theorem hexDigit_cases (a : UInt8) : hexDigit a = none ∨ a ≠ chr 'x' ∧
    ((chr '0' ≤ a ∧ a ≤ chr '9') ∧ hexDigit a = some (a - chr '0').toNat ∨
      ¬ (chr '0' ≤ a ∧ a ≤ chr '9') ∧ (chr 'a' ≤ a ∧ a ≤ chr 'f') ∧
        hexDigit a = some ((a - chr 'a').toNat + 10) ∨
      ¬ (chr '0' ≤ a ∧ a ≤ chr '9') ∧ ¬ (chr 'a' ≤ a ∧ a ≤ chr 'f') ∧
        (chr 'A' ≤ a ∧ a ≤ chr 'F') ∧ hexDigit a = some ((a - chr 'A').toNat + 10)) := by
  revert a
  refine forall_byte ?_
  decide +kernel

theorem htoi_cons {a : UInt8} {d : Nat} (ha : hexDigit a = some d) (i : Int) (s : Str) :
    htoi.go i (a :: s) = htoi.go (i * 16 + d) s := by
  rcases hexDigit_cases a with hnone | ⟨hx, ⟨h, hd⟩ | ⟨h0, h, hd⟩ | ⟨h0, h1, h, hd⟩⟩
  · rw [hnone] at ha
    cases ha
  · obtain rfl := Option.some.inj (ha.symm.trans hd)
    rw [htoi.go, if_neg hx, if_pos h]
  · obtain rfl := Option.some.inj (ha.symm.trans hd)
    rw [htoi.go, if_neg hx, if_neg h0, if_pos h]
    congr 1
    push_cast
    omega
  · obtain rfl := Option.some.inj (ha.symm.trans hd)
    rw [htoi.go, if_neg hx, if_neg h0, if_neg h1, if_pos h]
    congr 1
    push_cast
    omega

theorem hexDigit_lt {a : UInt8} {d : Nat} (ha : hexDigit a = some d) : d < 16 := by
  have hall : ∀ a : UInt8, ∀ d ∈ hexDigit a, d < 16 := by
    refine forall_byte ?_
    decide +kernel
  exact hall a d ha

theorem ofInt_natCast (n : Nat) : UInt8.ofInt n = UInt8.ofNat n := by
  unfold UInt8.ofInt
  apply UInt8.toNat_inj.mp
  simp only [UInt8.toNat_ofNat']
  omega

theorem ofInt_htoi_one {a : UInt8} {d : Nat} (ha : hexDigit a = some d) :
    UInt8.ofInt (htoi [a]) = UInt8.ofNat d := by
  unfold htoi
  rw [htoi_cons ha, htoi.go, Int.zero_mul, Int.zero_add, ofInt_natCast]

theorem ofInt_htoi_two {a b : UInt8} {hi lo : Nat} (ha : hexDigit a = some hi)
    (hb : hexDigit b = some lo) : UInt8.ofInt (htoi [a, b]) = UInt8.ofNat (16 * hi + lo) := by
  unfold htoi
  rw [htoi_cons ha, htoi_cons hb, htoi.go, ← ofInt_natCast]
  congr 1
  push_cast
  omega

theorem decodeBytes_plain {c : UInt8} (hc : plain c) (s : Str) :
    decodeBytes false (c :: s) = c :: decodeBytes false s := by
  obtain ⟨-, -, hpercent, hplus, hamp⟩ : _ ∧ _ ∧ c ≠ chr '%' ∧ c ≠ chr '+' ∧ c ≠ chr '&' := by
    simpa [plain] using hc
  rw [decodeBytes.eq_def]
  simp [hpercent, hplus, hamp]

theorem decodeBytes_encodes (h : Encodes s e) :
    decodeBytes false (e ++ t) = s ++ decodeBytes false t := by
  induction h with
  | nil => rfl
  | char hc _ ih => rw [List.cons_append, decodeBytes_plain hc, ih, List.cons_append]
  | blank _ ih =>
      rw [List.cons_append, decodeBytes.eq_def]
      simp [ih, (by decide : ¬ chr '+' = chr '%')]
  | amp _ ih =>
      rw [List.cons_append, decodeBytes.eq_def]
      simp [ih, (by decide : ¬ chr '&' = chr '%'), (by decide : ¬ chr '&' = chr '+')]
  | escape ha hb _ ih =>
      rw [List.cons_append, List.cons_append, List.cons_append, decodeBytes.eq_def]
      simp [ih, ofInt_htoi_two ha hb]

theorem Encodes.append {f : Str} (h : Encodes s e) (hf : Encodes t f) :
    Encodes (s ++ t) (e ++ f) := by
  induction h with
  | nil => exact hf
  | char hc _ ih => exact .char hc ih
  | blank _ ih => exact .blank ih
  | amp _ ih => exact .amp ih
  | escape ha hb _ ih => exact .escape ha hb ih

/-- Characters can stand for themselves. -/
theorem encodes_plain (h : ∀ c ∈ s, plain c) : Encodes s s := by
  induction s with
  | nil => exact .nil
  | cons c s ih =>
      obtain ⟨hc, hrest⟩ := List.forall_mem_cons.mp h
      exact .char hc (ih hrest)

theorem Submits.encodes (h : Submits ps e) : Encodes (formQuery ps) e := by
  have hequals : plain (chr '=') := by decide
  induction h with
  | nil => exact .nil
  | last hn hv => exact hn.append (.char hequals hv)
  | cons hn hv _ ih => exact hn.append (.char hequals (hv.append (.amp ih)))

/-- A form decodes to its query. -/
theorem decode_encodes (heap : List UInt8) (h : Encodes s e) (hs : 0 ∉ s) :
    decode heap e false = s := by
  have hbytes := decodeBytes_encodes (t := []) h
  rw [List.append_nil] at hbytes
  unfold decode
  simp only [hbytes]
  rw [List.append_assoc, cstr_append hs]
  simp [decodeBytes, cstr]

theorem cstr_decodeBytes_ne (g : List UInt8) (h : Encodes s e) (hs : 0 ∉ s) (ht : t <+: e)
    (hne : t ≠ e) : cstr (decodeBytes false t ++ g) 0 ≠ s := by
  have hcons {c : UInt8} {u s : Str} (hc : c ≠ 0)
      (hu : cstr (decodeBytes false u ++ g) 0 ≠ s) :
      cstr (c :: decodeBytes false u ++ g) 0 ≠ c :: s := by
    intro heq
    apply hu
    simpa [cstr, hc] using heq
  induction h generalizing t with
  | nil => exact absurd (List.prefix_nil.mp ht) hne
  | @char c s e hc _ ih =>
      obtain ⟨hc0, hs⟩ : c ≠ 0 ∧ 0 ∉ s := by simpa [eq_comm] using hs
      rcases List.prefix_cons_iff.mp ht with rfl | ⟨u, rfl, hu⟩
      · simp [decodeBytes, cstr]
      · rw [decodeBytes_plain hc]
        exact hcons hc0 (ih hs hu fun h ↦ hne (h ▸ rfl))
  | @blank s e _ ih =>
      obtain ⟨hc0, hs⟩ : chr ' ' ≠ 0 ∧ 0 ∉ s := by simpa [eq_comm] using hs
      rcases List.prefix_cons_iff.mp ht with rfl | ⟨u, rfl, hu⟩
      · simp [decodeBytes, cstr]
      · have hstep : decodeBytes false (chr '+' :: u) = chr ' ' :: decodeBytes false u := by
          rw [decodeBytes.eq_def]
          simp [(by decide : ¬ chr '+' = chr '%')]
        rw [hstep]
        exact hcons hc0 (ih hs hu fun h ↦ hne (h ▸ rfl))
  | @amp s e _ ih =>
      obtain ⟨hc0, hs⟩ : (0xff : UInt8) ≠ 0 ∧ 0 ∉ s := by simpa [eq_comm] using hs
      rcases List.prefix_cons_iff.mp ht with rfl | ⟨u, rfl, hu⟩
      · simp [decodeBytes, cstr]
      · have hstep : decodeBytes false (chr '&' :: u) = 0xff :: decodeBytes false u := by
          rw [decodeBytes.eq_def]
          simp [(by decide : ¬ chr '&' = chr '%'), (by decide : ¬ chr '&' = chr '+')]
        rw [hstep]
        exact hcons hc0 (ih hs hu fun h ↦ hne (h ▸ rfl))
  | @escape a b hi lo s e ha hb _ ih =>
      have hlt := hexDigit_lt ha
      have hlt' := hexDigit_lt hb
      obtain ⟨hc0, hs⟩ : UInt8.ofNat (16 * hi + lo) ≠ 0 ∧ 0 ∉ s := by
        simpa [eq_comm] using hs
      rcases List.prefix_cons_iff.mp ht with rfl | ⟨u₁, rfl, hu₁⟩
      · simp [decodeBytes, cstr]
      rcases List.prefix_cons_iff.mp hu₁ with rfl | ⟨u₂, rfl, hu₂⟩
      · simp [decodeBytes, cstr]
      rcases List.prefix_cons_iff.mp hu₂ with rfl | ⟨u, rfl, hu⟩
      · -- one digit is left, and what `htoi` makes of it is not the byte
        have hstep : decodeBytes false [chr '%', a] = [UInt8.ofNat hi] := by
          rw [decodeBytes.eq_def]
          simp [ofInt_htoi_one ha]
        rw [hstep]
        intro heq
        have hhead : UInt8.ofNat hi = UInt8.ofNat (16 * hi + lo) := by
          unfold cstr at heq
          rw [List.drop_zero, List.cons_append, List.takeWhile_cons] at heq
          split at heq
          · exact (List.cons.inj heq).1
          · cases heq
        apply hc0
        have hnat := congrArg UInt8.toNat hhead
        have hmod : (16 * hi + lo) % 256 = 16 * hi + lo := Nat.mod_eq_of_lt (by omega)
        have hmod' : hi % 256 = hi := Nat.mod_eq_of_lt (by omega)
        rw [UInt8.toNat_ofNat', UInt8.toNat_ofNat', hmod, hmod'] at hnat
        rw [(by omega : 16 * hi + lo = 0)]
        rfl
      · have hstep : decodeBytes false (chr '%' :: a :: b :: u) =
            UInt8.ofNat (16 * hi + lo) :: decodeBytes false u := by
          rw [decodeBytes.eq_def]
          simp [ofInt_htoi_two ha hb]
        rw [hstep]
        exact hcons hc0 (ih hs hu fun h ↦ hne (h ▸ rfl))

/-- A form that is cut off decodes to something else. -/
theorem decode_ne_of_prefix (heap : List UInt8) (h : Encodes s e) (hs : 0 ∉ s) (ht : t <+: e)
    (hne : t ≠ e) : decode heap t false ≠ s := cstr_decodeBytes_ne _ h hs ht hne

/-! ## Splitting -/

/-- The item through which a pointer is stored for a name of the table. -/
def itemStored (n : Str) : UInt8 := UInt8.ofInt (found n).1

/-- The pointers that the loop stores for pairs from index `k` on. -/
def storePointers : Nat → Pairs → (UInt8 → Option Nat) → UInt8 → Option Nat
  | _, [], p => p
  | k, (n, v) :: ps, p =>
      storePointers (k + (n ++ chr '=' :: v).length + 1) ps
        (Function.update p (itemStored n) (some (k + (found n).2)))

/-- What the loop needs of a pair. -/
def PairOk (p : Str × Str) : Prop :=
  p.1 ∈ echoNames ∧ p.1 ≠ echoNames.getD echoSetFsname.toNat [] ∧ FormText p.2

theorem itemStored_of_form (hn : n ∈ formNames) : itemStored n = echoItemOf n := by
  unfold itemStored found
  rw [if_pos (List.contains_iff_mem.mpr hn), ofInt_natCast]
  rfl

theorem idxOf_lt (hn : n ∈ echoNames) : echoNames.idxOf n < 206 := by
  have hlt := List.idxOf_lt_length_of_mem hn
  have hlen : echoNames.length = 206 := by decide +kernel
  omega

theorem itemStored_ne_fsname (hn : n ∈ echoNames)
    (hne : n ≠ echoNames.getD echoSetFsname.toNat []) : itemStored n ≠ echoSetFsname := by
  unfold itemStored found
  split
  · intro heq
    apply hne
    have hlt := idxOf_lt hn
    have hidx := List.idxOf_lt_length_of_mem hn
    have hnat := congrArg UInt8.toNat heq
    rw [ofInt_natCast, UInt8.toNat_ofNat_of_lt' (Nat.lt_of_lt_of_le hlt (by decide))] at hnat
    rw [← hnat, List.getD_eq_getElem?_getD, List.getElem?_eq_getElem hidx, Option.getD_some,
      List.getElem_idxOf hidx]
  · decide

theorem takeWhile_pair (hn : n ∈ echoNames) (hv : FormText v) {c : UInt8} (hc : isEnd c)
    (more : List UInt8) : (n ++ chr '=' :: v ++ c :: more).takeWhile (fun c ↦ !isEnd c) =
      n ++ chr '=' :: v := by
  obtain ⟨-, hn0, hnff⟩ := echoNames_plain hn
  have hpair : ∀ d ∈ n ++ chr '=' :: v, (!isEnd d) = true := by
    intro d hd
    have hne : d ≠ 0xff ∧ d ≠ 0 := by
      rcases List.mem_append.mp hd with hd | hd
      · exact ⟨fun h ↦ hnff (h ▸ hd), fun h ↦ hn0 (h ▸ hd)⟩
      · rcases List.mem_cons.mp hd with rfl | hd
        · decide
        · exact (hv d hd).symm
    simp [isEnd, hne.1, hne.2]
  rw [List.takeWhile_append_of_pos hpair, List.takeWhile_cons_of_neg (by simp [hc]),
    List.append_nil]

/-- One round of the loop. -/
theorem splitQuery_step {fuel cp2 : Nat} {pre more : List UInt8} {c : UInt8}
    {p : UInt8 → Option Nat} (hp : PairOk (n, v)) (hc : isEnd c) (hlt : pre.length < cp2) :
    splitQuery (fuel + 1) pre.length cp2 ⟨pre ++ (n ++ chr '=' :: v ++ c :: more), p⟩ =
      splitQuery fuel (pre.length + (n ++ chr '=' :: v).length + 1) cp2
        ⟨pre ++ (n ++ chr '=' :: v ++ 0 :: more),
          Function.update p (itemStored n) (some (pre.length + (found n).2))⟩ := by
  obtain ⟨hn, hfs, hv⟩ := hp
  have hsearch : searchEchoName (n ++ chr '=' :: v ++ c :: more) = found n := by
    rw [List.append_assoc, List.cons_append, searchEchoName_pair hn]
  have hset : (pre ++ (n ++ chr '=' :: v ++ c :: more)).set
      (pre.length + (n ++ chr '=' :: v).length) 0 = pre ++ (n ++ chr '=' :: v ++ 0 :: more) := by
    rw [List.set_append_right _ _ (Nat.le_add_right _ _), Nat.add_sub_cancel_left,
      List.set_append_right _ _ (Nat.le_refl _), Nat.sub_self, List.set_cons_zero]
  conv_lhs => unfold splitQuery
  rw [if_pos hlt]
  simp only [List.drop_left, takeWhile_pair hn hv hc, hsearch, hset]
  have hne : UInt8.ofInt (found n).1 ≠ echoSetFsname := itemStored_ne_fsname hn hfs
  rw [if_pos hne]
  rfl

theorem splitQuery_end {fuel cp0 cp2 : Nat} {q : Query} (h : cp2 ≤ cp0) :
    splitQuery fuel cp0 cp2 q = q := by
  cases fuel with
  | zero => rfl
  | succ fuel =>
      unfold splitQuery
      rw [if_neg (Nat.not_lt.mpr h)]

/-- The loop on the query of a form. -/
theorem splitQuery_pairs (hps : ∀ p ∈ ps, PairOk p) {fuel : Nat} (hfuel : ps.length ≤ fuel)
    (pre after : List UInt8) (p : UInt8 → Option Nat) :
    splitQuery fuel pre.length (pre.length + (formQuery ps).length)
        ⟨pre ++ (formQuery ps ++ 0 :: after), p⟩ =
      ⟨pre ++ (joinPairs 0 ps ++ 0 :: after), storePointers pre.length ps p⟩ := by
  induction ps generalizing fuel pre p with
  | nil => exact splitQuery_end (Nat.le_refl _)
  | cons x ps ih =>
      obtain ⟨n, v⟩ := x
      obtain ⟨fuel, rfl⟩ : ∃ k, fuel = k + 1 := ⟨fuel - 1, by
        rw [List.length_cons] at hfuel
        omega⟩
      have hx := hps _ List.mem_cons_self
      cases ps with
      | nil =>
          change splitQuery _ _ (_ + (n ++ chr '=' :: v).length)
            ⟨pre ++ (n ++ chr '=' :: v ++ 0 :: after), p⟩ = _
          have hlt : pre.length < pre.length + (n ++ chr '=' :: v).length := by
            rw [List.length_append, List.length_cons]
            omega
          rw [splitQuery_step hx (by decide) hlt, splitQuery_end (by omega)]
          rfl
      | cons y ps =>
          have htext (c : UInt8) : joinPairs c ((n, v) :: y :: ps) ++ 0 :: after =
              n ++ chr '=' :: v ++ c :: (joinPairs c (y :: ps) ++ 0 :: after) := by
            simp [joinPairs]
          have hlen : (formQuery ((n, v) :: y :: ps)).length =
              (n ++ chr '=' :: v).length + 1 + (formQuery (y :: ps)).length := by
            simp only [formQuery, joinPairs, List.length_append, List.length_cons]
            omega
          have hrest := @ih (fun q hq ↦ hps q (List.mem_cons_of_mem _ hq)) fuel
            (by simpa using hfuel) (pre ++ (n ++ chr '=' :: v ++ [0]))
            (Function.update p (itemStored n) (some (pre.length + (found n).2)))
          have hpre : (pre ++ (n ++ chr '=' :: v ++ [0])).length =
              pre.length + (n ++ chr '=' :: v).length + 1 := by
            simp only [List.length_append, List.length_cons, List.length_nil]
            omega
          have hassoc (t : List UInt8) : pre ++ (n ++ chr '=' :: v ++ [0]) ++ t =
              pre ++ (n ++ chr '=' :: v ++ 0 :: t) := by simp
          rw [hpre, hassoc, hassoc] at hrest
          change splitQuery _ _ _ ⟨pre ++ (joinPairs 0xff _ ++ _), p⟩ = _
          rw [htext, htext, hlen, splitQuery_step hx (by decide) (by omega), ← Nat.add_assoc,
            ← Nat.add_assoc]
          exact hrest

/-! ## Where the pointers lead -/

theorem itemStored_eq_iff (hn : n ∈ echoNames) {i : Nat} (hi : i < 206) :
    itemStored n = UInt8.ofNat i ↔ n ∈ formNames ∧ echoNames.idxOf n = i := by
  have hlt := idxOf_lt hn
  by_cases hform : n ∈ formNames
  · rw [itemStored_of_form hform, and_iff_right hform]
    unfold echoItemOf
    constructor
    · intro h
      have hnat := congrArg UInt8.toNat h
      rwa [UInt8.toNat_ofNat_of_lt' (Nat.lt_of_lt_of_le hlt (by decide)),
        UInt8.toNat_ofNat_of_lt' (Nat.lt_of_lt_of_le hi (by decide))] at hnat
    · rintro rfl
      rfl
  · -- the pointer went to `p[255]`
    have hitem : itemStored n = 255 := by
      unfold itemStored found
      rw [if_neg fun h ↦ hform (List.contains_iff_mem.mp h)]
      rfl
    simp only [hform, false_and, iff_false, hitem]
    intro h
    have hnat := congrArg UInt8.toNat h
    rw [UInt8.toNat_ofNat_of_lt' (Nat.lt_of_lt_of_le hi (by decide))] at hnat
    exact absurd hi (by rw [← hnat]; decide)

theorem storePointers_of_ne {k : Nat} {p : UInt8 → Option Nat} {i : UInt8}
    (h : ∀ x ∈ ps, itemStored x.1 ≠ i) : storePointers k ps p i = p i := by
  induction ps generalizing k p with
  | nil => rfl
  | cons x ps ih =>
      obtain ⟨n, v⟩ := x
      obtain ⟨hne, hrest⟩ := List.forall_mem_cons.mp h
      unfold storePointers
      rw [ih hrest, Function.update_of_ne hne.symm]

theorem storePointers_mem (hform : ∀ x ∈ ps, x.1 ∈ formNames ∧ FormText x.2)
    (hnodup : (ps.map fun x ↦ itemStored x.1).Nodup) (pre after : List UInt8)
    (p : UInt8 → Option Nat) {x : Str × Str} (hx : x ∈ ps) :
    ∃ k, storePointers pre.length ps p (itemStored x.1) = some k ∧
      cstr (pre ++ (joinPairs 0 ps ++ 0 :: after)) k = x.2 := by
  induction ps generalizing pre p with
  | nil => cases hx
  | cons y ps ih =>
      obtain ⟨n, v⟩ := y
      obtain ⟨⟨hn, hv⟩, hrest⟩ := List.forall_mem_cons.mp hform
      obtain ⟨hfresh, hnodup'⟩ := List.nodup_cons.mp hnodup
      have htext : ∃ more, joinPairs 0 ((n, v) :: ps) ++ 0 :: after =
          n ++ chr '=' :: v ++ 0 :: more ∧ (ps ≠ [] → more = joinPairs 0 ps ++ 0 :: after) := by
        cases ps with
        | nil => exact ⟨after, rfl, fun h ↦ absurd rfl h⟩
        | cons y ps => exact ⟨joinPairs 0 (y :: ps) ++ 0 :: after, by simp [joinPairs], fun _ ↦ rfl⟩
      obtain ⟨more, htext, hmore⟩ := htext
      unfold storePointers
      rcases List.mem_cons.mp hx with rfl | hx
      · refine ⟨pre.length + (n.length + 1), ?_, ?_⟩
        · rw [storePointers_of_ne, Function.update_self]
          · unfold found
            rw [if_pos (List.contains_iff_mem.mpr hn)]
          · intro z hz heq
            exact hfresh (List.mem_map.mpr ⟨z, hz, heq⟩)
        · have hv0 : 0 ∉ v := fun h ↦ (hv 0 h).1 rfl
          have hdrop : (pre ++ (n ++ chr '=' :: v ++ 0 :: more)).drop
              (pre.length + (n.length + 1)) = v ++ 0 :: more := by
            have hsplit : pre ++ (n ++ chr '=' :: v ++ 0 :: more) =
                (pre ++ (n ++ [chr '='])) ++ (v ++ 0 :: more) := by simp
            rw [hsplit]
            exact List.drop_left' (by simp)
          have hcstr : cstr (v ++ 0 :: more) 0 = v := by
            rw [cstr_append hv0]
            simp [cstr]
          rw [htext]
          change List.takeWhile _ _ = _
          rw [hdrop]
          exact hcstr
      · have hne : ps ≠ [] := List.ne_nil_of_mem hx
        obtain ⟨k, hk, hval⟩ := ih hrest hnodup' (pre ++ (n ++ chr '=' :: v ++ [0]))
          (Function.update p (itemStored n) (some (pre.length + (found n).2))) hx
        have hpre : (pre ++ (n ++ chr '=' :: v ++ [0])).length =
            pre.length + (n ++ chr '=' :: v).length + 1 := by
          simp only [List.length_append, List.length_cons, List.length_nil]
          omega
        rw [hpre] at hk
        refine ⟨k, hk, ?_⟩
        rw [htext, hmore hne]
        simpa using hval

theorem FormPairs.pairOk (h : FormPairs ps) : ∀ x ∈ ps, PairOk x :=
  fun x hx ↦ ⟨(h.names x hx).1, (h.names x hx).2, h.values x hx⟩

/-- A pointer is stored for no other item than those of the form. -/
theorem mem_formNames_of_stored (hps : FormPairs ps) (hn : n ∈ echoNames) {k : Nat}
    (hk : storePointers 0 ps (fun _ ↦ none) (echoItemOf n) = some k) : n ∈ formNames := by
  by_contra hform
  have hnone : storePointers 0 ps (fun _ ↦ none) (echoItemOf n) = none := by
    refine storePointers_of_ne fun y hy heq ↦ ?_
    obtain ⟨hy', hidx⟩ := (itemStored_eq_iff (hps.names y hy).1 (idxOf_lt hn)).mp heq
    rw [List.idxOf_inj (hps.names y hy).1] at hidx
    exact hform (hidx ▸ hy')
  cases hnone.symm.trans hk

/-- After the loop `p` is as the items say if all are items of the form. -/
theorem pointsTo_iff (hps : FormPairs ps) (after : List UInt8) :
    PointsTo ⟨joinPairs 0 ps ++ 0 :: after, storePointers 0 ps fun _ ↦ none⟩ ps ↔
      ∀ x ∈ ps, x.1 ∈ formNames := by
  constructor
  · intro h x hx
    obtain ⟨k, hk, -⟩ := h.value x hx
    exact mem_formNames_of_stored hps (hps.names x hx).1 hk
  · intro hform
    have hitem : ∀ x ∈ ps, itemStored x.1 = echoItemOf x.1 :=
      fun x hx ↦ itemStored_of_form (hform x hx)
    have hnodup : (ps.map fun x ↦ itemStored x.1).Nodup := by
      have hdistinct := hps.distinct
      have hnodup := List.Nodup.of_map _ hdistinct
      rw [List.nodup_map_iff_inj_on hnodup] at hdistinct ⊢
      intro x hx y hy heq
      refine hdistinct x hx y hy ?_
      have hlt := idxOf_lt (hps.names y hy).1
      rw [hitem y hy] at heq
      obtain ⟨-, hidx⟩ := (itemStored_eq_iff (hps.names x hx).1 hlt).mp heq
      exact (List.idxOf_inj (hps.names x hx).1).mp hidx
    constructor
    · intro x hx
      obtain ⟨k, hk, hval⟩ := storePointers_mem (fun y hy ↦ ⟨hform y hy, hps.values y hy⟩) hnodup
        [] after (fun _ ↦ none) hx
      rw [hitem x hx] at hk
      exact ⟨k, hk, hval⟩
    · intro i hi hne
      refine storePointers_of_ne fun x hx heq ↦ ?_
      have hlen : echoNames.length = 206 := by decide +kernel
      exact hne x hx ((itemStored_eq_iff (hps.names x hx).1 (by omega)).mp heq).2

/-! ## The whole query -/

theorem parseQuery_of_ne (hs : 0 ∉ s) (hlast : s.getLast? ≠ some (chr '\n'))
    (after : List UInt8) : parseQuery (s ++ 0 :: after) =
      splitQuery s.length 0 s.length ⟨s ++ 0 :: after, fun _ ↦ none⟩ := by
  have hcstr : cstr (s ++ 0 :: after) 0 = s := by
    rw [cstr_append hs]
    simp [cstr]
  unfold parseQuery
  simp only [hcstr]
  rw [if_neg]
  rintro ⟨hne, hlf⟩
  apply hlast
  rw [List.getLast?_eq_getElem?, ← hlf, List.getD_eq_getElem?_getD, List.getElem?_append_left
    (by omega), List.getElem?_eq_getElem (by omega), Option.getD_some]

/-- The line feed at the end of a query is cut off. -/
theorem parseQuery_lf (hs : 0 ∉ s) (after : List UInt8) :
    parseQuery (s ++ chr '\n' :: 0 :: after) =
      splitQuery (s.length + 1) 0 s.length ⟨s ++ 0 :: 0 :: after, fun _ ↦ none⟩ := by
  have hcstr : cstr (s ++ chr '\n' :: 0 :: after) 0 = s ++ [chr '\n'] := by
    rw [cstr_append hs]
    simp [cstr, (by decide : ¬ chr '\n' = 0)]
  unfold parseQuery
  simp only [hcstr, List.length_append, List.length_singleton]
  rw [if_pos ⟨by omega, by simp⟩]
  simp

theorem formQuery_snoc (ps : Pairs) (n v : Str) :
    ∃ pre, ∀ w, formQuery (ps ++ [(n, v ++ w)]) = pre ++ (n ++ chr '=' :: (v ++ w)) := by
  induction ps with
  | nil => exact ⟨[], fun w ↦ rfl⟩
  | cons x ps ih =>
      obtain ⟨pre, hpre⟩ := ih
      refine ⟨x.1 ++ chr '=' :: (x.2 ++ 0xff :: pre), fun w ↦ ?_⟩
      cases ps with
      | nil =>
          have hw := hpre w
          simp only [formQuery, List.nil_append] at hw
          simp [formQuery, joinPairs, ← hw]
      | cons y ps =>
          have hw := hpre w
          simp only [formQuery, List.cons_append] at hw
          simp [formQuery, joinPairs, hw]

theorem formQuery_no_nul (hps : ∀ x ∈ ps, PairOk x) : 0 ∉ formQuery ps := by
  induction ps with
  | nil => simp [formQuery, joinPairs]
  | cons x ps ih =>
      obtain ⟨⟨hn, -, hv⟩, hrest⟩ := List.forall_mem_cons.mp hps
      have hn0 := (echoNames_plain hn).2.1
      have hv0 : 0 ∉ x.2 := fun h ↦ (hv 0 h).1 rfl
      have hequals : ¬ (0 : UInt8) = chr '=' := by decide
      cases ps with
      | nil => simp [formQuery, joinPairs, hn0, hv0, hequals]
      | cons y ps =>
          have hrest := ih hrest
          simp only [formQuery] at hrest
          simp [formQuery, joinPairs, hn0, hv0, hequals, hrest]

theorem length_le_formQuery (ps : Pairs) : ps.length ≤ (formQuery ps).length := by
  induction ps with
  | nil => exact Nat.le_refl 0
  | cons x ps ih =>
      cases ps with
      | nil =>
          simp only [formQuery, joinPairs, List.length_append, List.length_cons, List.length_nil]
          omega
      | cons y ps =>
          simp only [formQuery, joinPairs, List.length_append, List.length_cons] at ih ⊢
          omega

theorem splitQuery_form (hps : ∀ x ∈ ps, PairOk x) {fuel : Nat} (hfuel : ps.length ≤ fuel)
    (after : List UInt8) :
    splitQuery fuel 0 (formQuery ps).length ⟨formQuery ps ++ 0 :: after, fun _ ↦ none⟩ =
      ⟨joinPairs 0 ps ++ 0 :: after, storePointers 0 ps fun _ ↦ none⟩ := by
  have hsplit := splitQuery_pairs hps hfuel [] after fun _ ↦ none
  simpa using hsplit

/-- The pointers are those of the items, and lead to their values, under the two conditions. -/
theorem pointsTo_parseQuery_iff (hps : FormPairs ps) (after : List UInt8) :
    PointsTo (parseQuery (formQuery ps ++ 0 :: after)) ps ↔ SplitOk ps := by
  have hform_iff : (∀ x ∈ ps, x.1 ∈ formNames) ↔ ∀ x ∈ ps, echoBoxName ≤ echoNames.idxOf x.1 :=
    forall₂_congr fun x hx ↦ mem_formNames_iff (hps.names x hx).1
  have hnul := formQuery_no_nul hps.pairOk
  by_cases hlast : ∀ x ∈ ps.getLast?, x.2.getLast? ≠ some (chr '\n')
  · have hquery : (formQuery ps).getLast? ≠ some (chr '\n') := by
      rcases List.eq_nil_or_concat ps with rfl | ⟨init, ⟨n, v⟩, rfl⟩
      · simp [formQuery, joinPairs]
      · obtain ⟨pre, hpre⟩ := formQuery_snoc init n v
        have hpre := hpre []
        rw [List.append_nil] at hpre
        have hv := hlast (n, v) (by simp)
        rw [List.concat_eq_append, hpre]
        cases v with
        | nil => simp [(by decide : ¬ chr '=' = chr '\n')]
        | cons c v => simpa [List.getLast?_append, List.getLast?_cons] using hv
    rw [parseQuery_of_ne hnul hquery, splitQuery_form hps.pairOk (length_le_formQuery ps),
      pointsTo_iff hps, hform_iff]
    exact ⟨fun h ↦ ⟨h, hlast⟩, fun h ↦ h.form⟩
  · -- the line feed of the last value is lost
    refine iff_of_false (fun h ↦ ?_) fun h ↦ hlast h.last
    obtain ⟨⟨n, v⟩, hx, hv⟩ : ∃ x ∈ ps.getLast?, x.2.getLast? = some (chr '\n') := by
      simpa using hlast
    obtain ⟨init, rfl⟩ := List.getLast?_eq_some_iff.mp hx
    obtain ⟨w, rfl⟩ := List.getLast?_eq_some_iff.mp hv
    obtain ⟨pre, hpre⟩ := formQuery_snoc init n w
    have hcut : formQuery (init ++ [(n, w ++ [chr '\n'])]) =
        formQuery (init ++ [(n, w)]) ++ [chr '\n'] := by
      have hw := hpre []
      rw [List.append_nil] at hw
      rw [hpre, hw]
      simp
    have hnames : (init ++ [(n, w ++ [chr '\n'])]).map Prod.fst =
        (init ++ [(n, w)]).map Prod.fst := by simp
    have hps' : FormPairs (init ++ [(n, w)]) := by
      obtain ⟨hname, hdistinct, hvalue⟩ := hps
      simp only [List.forall_mem_append, List.forall_mem_singleton] at hname hvalue
      refine ⟨?_, hnames ▸ hdistinct, ?_⟩
      · simp only [List.forall_mem_append, List.forall_mem_singleton]
        exact hname
      · simp only [List.forall_mem_append, List.forall_mem_singleton]
        exact ⟨hvalue.1, fun c hc ↦ hvalue.2 c (List.mem_append_left _ hc)⟩
    have hnul' := formQuery_no_nul hps'.pairOk
    rw [hcut, List.append_assoc, List.singleton_append, parseQuery_lf hnul',
      splitQuery_form hps'.pairOk (Nat.le_succ_of_le (length_le_formQuery _))] at h
    have hform : ∀ x ∈ init ++ [(n, w)], x.1 ∈ formNames := by
      intro x hx
      have hmem : x.1 ∈ (init ++ [(n, w ++ [chr '\n'])]).map Prod.fst :=
        hnames ▸ List.mem_map_of_mem hx
      obtain ⟨y, hy, hyx⟩ := List.mem_map.mp hmem
      obtain ⟨k, hk, -⟩ := h.value y hy
      exact hyx ▸ mem_formNames_of_stored hps' (hps.names y hy).1 hk
    obtain ⟨k, hk, hval⟩ := h.value (n, w ++ [chr '\n']) (by simp)
    obtain ⟨k', hk', hval'⟩ :=
      ((pointsTo_iff hps' (0 :: after)).mpr hform).value (n, w) (by simp)
    obtain rfl := Option.some.inj (hk.symm.trans hk')
    have hlen := congrArg List.length (hval.symm.trans hval')
    simp at hlen

end PrintServer.Http
