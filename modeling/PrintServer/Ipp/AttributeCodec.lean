import Mathlib.Data.Vector.Basic
import PrintServer.Ipp.BodyTransport

/-!
# Reading back what was written

`ippGetAttribute` on the bytes of `ippAddAttribute`, and on a value with a language as the protocol
lays it out.
-/

namespace PrintServer.Ipp

variable {σ α β : Type} {T : Transport σ} {calloc : Nat → Nat → Bool}

/-! ## Reading -/

theorem ippReadLoop_spec {fuel : Nat} {n : Int} {s : σ} (hn : 0 ≤ n)
    (hfuel : (T.pending s).length < fuel) :
    (ippReadLoop T fuel n s).1 = (T.pending s).take n.toNat ∧
      T.pending (ippReadLoop T fuel n s).2 = (T.pending s).drop n.toNat := by
  induction fuel generalizing n s with
  | zero => exact absurd hfuel (Nat.not_lt_zero _)
  | succ fuel ih =>
    unfold ippReadLoop
    split
    · have hzero := ‹n = 0›
      subst hzero
      exact ⟨rfl, rfl⟩
    have hpos : 0 < n := by omega
    have hpiece := T.piece n s hpos
    simp only
    split
    · -- the body has ended
      have hempty := ‹(T.httpRead n s).1 = []›
      have hnil : T.pending s = [] := by
        by_contra hne
        exact T.piece_ne_nil n s hpos hne hempty
      rw [hempty, List.nil_append] at hpiece
      rw [hpiece, hnil, List.take_nil, List.drop_nil]
      exact ⟨rfl, rfl⟩
    · have hne := List.length_pos_iff.mpr ‹¬ (T.httpRead n s).1 = []›
      have hle := T.piece_le n s hpos
      generalize hr : T.httpRead n s = r at *
      rw [← hpiece, List.length_append] at hfuel
      obtain ⟨hread, hrest⟩ := @ih (n - r.1.length) r.2 (by omega) (by omega)
      have hsub : (n - (r.1.length : Int)).toNat = n.toNat - r.1.length := by omega
      rw [hread, hrest, hsub, ← hpiece, List.take_append, List.drop_append,
        List.take_of_length_le hle, List.drop_eq_nil_of_le hle, List.nil_append]
      exact ⟨rfl, rfl⟩

theorem ippRead_spec {n : Int} {s : σ} (hn : 0 ≤ n) :
    (ippRead T n s).1 = (T.pending s).take n.toNat ∧
      T.pending (ippRead T n s).2 = (T.pending s).drop n.toNat :=
  ippReadLoop_spec hn (Nat.lt_succ_self _)

variable (T)

/-- The bytes are read as a value, whatever follows them. -/
def Gets (x : Getter σ α) (bs : List UInt8) (a : α) : Prop :=
  ∀ p rest, T.pending p.conn = bs ++ rest → (x p).1 = some a ∧ T.pending (x p).2.conn = rest

/-- The bytes are not accepted. -/
def Rejects (x : Getter σ α) (bs : List UInt8) : Prop :=
  ∀ p rest, T.pending p.conn = bs ++ rest → (x p).1 = none

variable {T} {x : Getter σ α} {f : α → Getter σ β} {a : α} {b : β} {bs bs' : List UInt8}

theorem gets_pure : Gets T (pure a : Getter σ α) [] a := fun _ _ h ↦ ⟨rfl, h⟩

theorem bind_of_some {p : Parsing σ} (h : (x p).1 = some a) : (x >>= f) p = f a (x p).2 := by
  change Getter.bind x f p = _
  have hx : x p = (some a, (x p).2) := Prod.ext h rfl
  unfold Getter.bind
  rw [hx]

theorem bind_of_none {p : Parsing σ} (h : (x p).1 = none) : (x >>= f) p = (none, (x p).2) := by
  change Getter.bind x f p = _
  have hx : x p = (none, (x p).2) := Prod.ext h rfl
  unfold Getter.bind
  rw [hx]

theorem Gets.bind (hx : Gets T x bs a) (hf : Gets T (f a) bs' b) :
    Gets T (x >>= f) (bs ++ bs') b := by
  intro p rest h
  rw [List.append_assoc] at h
  obtain ⟨hsome, hpending⟩ := hx p _ h
  rw [bind_of_some hsome]
  exact hf _ rest hpending

theorem Gets.bind_rejects (hx : Gets T x bs a) (hf : Rejects T (f a) bs') :
    Rejects T (x >>= f) (bs ++ bs') := by
  intro p rest h
  rw [List.append_assoc] at h
  obtain ⟨hsome, hpending⟩ := hx p _ h
  rw [bind_of_some hsome]
  exact hf _ rest hpending

theorem rejects_fail : Rejects T (.fail : Getter σ α) bs := fun _ _ _ ↦ rfl

theorem Rejects.bind (hx : Rejects T x bs) : Rejects T (x >>= f) (bs ++ bs') := by
  intro p rest h
  rw [List.append_assoc] at h
  rw [bind_of_none (hx p _ h)]

/-- The last step of a `do` block. -/
theorem Gets.map {g : α → β} (hx : Gets T x bs a) : Gets T (x >>= fun a ↦ pure (g a)) bs (g a) := by
  have h := hx.bind (f := fun a ↦ pure (g a)) (b := g a) gets_pure
  rwa [List.append_nil] at h

theorem gets_readOr (size : Nat) {n : Int} (h : (bs.length : Int) = n) :
    Gets T (readOr T size n) bs bs := by
  intro p rest hp
  obtain ⟨hread, hrest⟩ := @ippRead_spec _ T n p.conn (by omega)
  have hn : n.toNat = bs.length := by omega
  rw [hp, hn, List.take_left] at hread
  rw [hp, hn, List.drop_left] at hrest
  unfold readOr
  simp only [hread]
  rw [if_neg (by omega)]
  exact ⟨rfl, hrest⟩

theorem gets_terminate {i : Int} : Gets T (terminate i : Getter σ Unit) [] () :=
  fun _ _ h ↦ ⟨rfl, h⟩

/-! ## Numbers -/

theorem int16_be16 {n : Nat} (h : n < 32768) :
    int16 ((be16 n).getD 0 0) ((be16 n).getD 1 0) = n := by
  unfold int16 be16
  simp only [List.getD_cons_zero, List.getD_cons_succ, UInt8.toNat_ofNat']
  have hnat : n / 256 % 2 ^ 8 * 256 + n % 2 ^ 8 = n := by omega
  rw [hnat, if_pos h]

theorem int32_be32 (x : Int32) : int32 (be32 x) = x := by
  have hlt := x.toUInt32.toNat_lt
  unfold int32 be32
  simp only [List.getD_cons_zero, List.getD_cons_succ, UInt8.toNat_ofNat']
  have hnat : x.toUInt32.toNat / 16777216 % 2 ^ 8 * 16777216 + x.toUInt32.toNat / 65536 % 2 ^ 8 * 65536 +
      x.toUInt32.toNat / 256 % 2 ^ 8 * 256 + x.toUInt32.toNat % 2 ^ 8 = x.toUInt32.toNat := by
    generalize x.toUInt32.toNat = n at hlt ⊢
    omega
  rw [hnat, UInt32.ofNat_toNat, Int32.toInt32_toUInt32]

theorem gets_readInt16 {n : Nat} (h : n < 32768) : Gets T (readInt16 T) (be16 n) (n : Int) := by
  have hbytes : Gets T (readOr T 2 2) (be16 n) (be16 n) := gets_readOr 2 rfl
  have hread := hbytes.map (g := fun bs ↦ int16 (bs.getD 0 0) (bs.getD 1 0))
  rw [int16_be16 h] at hread
  exact hread

/-! ## Attributes -/

def NoNul (bs : List UInt8) : Prop := ∀ c ∈ bs, c ≠ 0

instance (bs : List UInt8) : Decidable (NoNul bs) :=
  inferInstanceAs (Decidable (∀ c ∈ bs, c ≠ 0))

/-- Strings are text, and the lengths fit a positive `int16`. -/
def Value.Valid : {k : Kind} → Value k → Prop
  | _, .string text => NoNul text ∧ text.length < 32768
  | _, .language charset text =>
      NoNul charset ∧ NoNul text ∧ charset.length + text.length < 32768
  | _, .unknown length data => length = data.length ∧ data.length < 32768
  | _, _ => True

structure Attribute.Valid (a : Attribute) : Prop where
  tag_ge : 0x10 ≤ a.tag
  tag_le : a.tag ≤ 0x7F
  name_le : a.name.length ≤ ippMaxAttribName
  name_noNul : NoNul a.name
  value : a.value.Valid

/-- There is memory for the longest value. -/
def Heap (calloc : Nat → Nat → Bool) : Prop := ∀ i n, n ≤ 32768 → calloc i n = true

theorem cString_eq (h : NoNul bs) : cString bs = bs :=
  List.takeWhile_eq_self_iff.mpr fun c hc ↦ decide_eq_true (h c hc)

theorem sizeT_eq {n : Nat} (h : n < 4294967296) : sizeT n = n := by
  unfold sizeT
  omega

theorem gets_getText (hheap : Heap calloc) (i : Nat) (h : bs.length < 32768) :
    Gets T (getText T calloc i bs.length) bs bs := by
  have hsize : sizeT ((bs.length : Int) + 1) = bs.length + 1 :=
    sizeT_eq (n := bs.length + 1) (by omega)
  unfold getText
  rw [hsize, hheap i (bs.length + 1) h, if_pos rfl]
  exact gets_readOr _ rfl

theorem gets_name : Gets T (getName T bs.length) bs bs := by
  unfold getName
  split
  · have hzero := ‹(bs.length : Int) = 0›
    have hnil : bs = [] := List.length_eq_zero_iff.mp (by omega)
    rw [hnil]
    exact gets_terminate.bind gets_pure
  · have hread : Gets T (readOr T ippMaxAttribName bs.length) bs bs := gets_readOr _ rfl
    have hrest : Gets T ((terminate bs.length : Getter σ Unit) >>= fun _ ↦ pure bs) [] bs :=
      gets_terminate.bind gets_pure
    have hall := hread.bind (f := fun name ↦ terminate bs.length >>= fun _ ↦ pure name) hrest
    rwa [List.append_nil] at hall

theorem gets_be32 (x : Int32) : Gets T (readOr T 4 4) (be32 x) (be32 x) := gets_readOr 4 rfl

/-- What is written behind the name: a length, and what is read with it. -/
theorem gets_value (hheap : Heap calloc) {k : Kind} (v : Value k) (hv : v.Valid) :
    ∃ n < 32768, ∃ body, ippAddValue v = be16 n ++ body ∧
      Gets T (getValue T calloc n k) body v := by
  cases v with
  | integer n =>
    refine ⟨4, by decide, be32 n, rfl, ?_⟩
    have hread := (gets_be32 (T := T) n).map (g := fun n32 ↦ Value.integer (int32 n32))
    rw [int32_be32] at hread
    exact hread
  | boolean b =>
    refine ⟨1, by decide, [b], rfl, ?_⟩
    have hread : Gets T (readOr T 1 1) [b] [b] := gets_readOr 1 rfl
    exact hread.map (g := fun n8 ↦ Value.boolean (n8.getD 0 0))
  | string text =>
    obtain ⟨htext, hlen⟩ := hv
    refine ⟨text.length, hlen, text, ?_, (gets_getText hheap 0 hlen).map⟩
    change be16 (cString text).length ++ cString text = _
    rw [cString_eq htext]
  | date bytes =>
    refine ⟨11, by decide, bytes.toList, rfl, ?_⟩
    have hlen : (bytes.toList.length : Int) = 11 := congrArg Nat.cast bytes.length_toList
    have hread := (gets_readOr (T := T) 11 hlen).map (g := fun bs ↦
      Value.date (Vector.ofFn fun i ↦ bs.getD i 0))
    have hsame : (Vector.ofFn fun i : Fin 11 ↦ bytes.toList.getD i 0) = bytes := by
      apply Vector.ext
      intro i hi
      have hi' : i < bytes.toList.length := by rw [Vector.length_toList]; exact hi
      rw [Vector.getElem_ofFn, List.getD_eq_getElem?_getD, List.getElem?_eq_getElem hi']
      exact Vector.getElem_toList _
    rw [hsame] at hread
    exact hread
  | resolution xres yres units =>
    refine ⟨9, by decide, be32 xres ++ (be32 yres ++ [units]), rfl, ?_⟩
    have hunits : Gets T (readOr T 1 1) [units] [units] := gets_readOr 1 rfl
    change Gets T (readOr T 4 4 >>= fun x ↦ readOr T 4 4 >>= fun y ↦ readOr T 1 1 >>= fun u ↦
      pure (Value.resolution (int32 x) (int32 y) (u.getD 0 0))) _ _
    refine (gets_be32 xres).bind ((gets_be32 yres).bind ?_)
    rw [int32_be32, int32_be32]
    exact hunits.map (g := fun u ↦ Value.resolution xres yres (u.getD 0 0))
  | range lower upper =>
    refine ⟨8, by decide, be32 lower ++ be32 upper, rfl, ?_⟩
    change Gets T (readOr T 4 4 >>= fun l ↦ readOr T 4 4 >>= fun u ↦
      pure (Value.range (int32 l) (int32 u))) _ _
    refine (gets_be32 lower).bind ?_
    have hread := (gets_be32 (T := T) upper).map (g := fun u ↦
      Value.range (int32 (be32 lower)) (int32 u))
    rw [int32_be32, int32_be32] at hread
    rw [int32_be32]
    exact hread
  | language charset text =>
    obtain ⟨hcharset, htext, hlen⟩ := hv
    refine ⟨charset.length + text.length, hlen, be16 charset.length ++ (charset ++
      (be16 text.length ++ text)), ?_, ?_⟩
    · change be16 ((cString charset).length + (cString text).length) ++ _ = _
      rw [cString_eq hcharset, cString_eq htext]
    · refine (gets_readInt16 (by omega)).bind ((gets_getText hheap 0 (by omega)).bind
        ((gets_readInt16 (by omega)).bind ?_))
      have hsum : ((charset.length + text.length : Nat) : Int) - charset.length = text.length := by
        omega
      rw [if_neg (not_not_intro hsum)]
      exact (gets_getText hheap 1 (by omega)).map
  | unknown length data =>
    obtain ⟨rfl, hlen⟩ := hv
    refine ⟨data.length, hlen, data, ?_, ?_⟩
    · change be16 ((data.length : Int) % 65536).toNat ++ data.take (data.length : Int).toNat = _
      have hmod : ((data.length : Int) % 65536).toNat = data.length := by omega
      rw [hmod, Int.toNat_natCast, List.take_length]
    · change Gets T (if (data.length : Int) > 0 then
        if calloc 0 (sizeT data.length) = true then
          readOr T (sizeT data.length) data.length >>= fun d ↦ pure (Value.unknown data.length d)
        else .fail
        else pure (Value.unknown data.length [])) _ _
      split
      · rw [sizeT_eq (by omega), hheap 0 data.length (Nat.le_of_lt hlen), if_pos rfl]
        exact (gets_readOr _ rfl).map
      · have hnil : data = [] := List.length_eq_zero_iff.mp (by omega)
        subst hnil
        exact gets_pure

/-- An attribute is read back as it was written, and nothing behind it is read. -/
theorem gets_attribute (hheap : Heap calloc) {a : Attribute} (ha : a.Valid) :
    Gets T (ippGetAttribute T calloc) (ippAddAttribute a) (.attribute a) := by
  obtain ⟨tag, name, value⟩ := a
  obtain ⟨n, hn, body, hbody, hvalue⟩ := gets_value (T := T) hheap value ha.value
  have htag : Gets T (readOr T 1 1) [tag] [tag] := gets_readOr 1 rfl
  have hge : ¬ tag < 0x10 := UInt8.not_lt.mpr ha.tag_ge
  have hname : name.length ≤ 80 := ha.name_le
  have hwritten : ippAddAttribute ⟨tag, name, value⟩ =
      [tag] ++ (be16 name.length ++ (name ++ (be16 n ++ body))) := by
    change tag :: (be16 (cString name).length ++ (cString name ++ ippAddValue value)) = _
    rw [cString_eq ha.name_noNul, hbody]
    rfl
  rw [hwritten]
  refine htag.bind ?_
  change Gets T (if tag < 0x10 then pure (Got.group tag) else _) _ _
  rw [if_neg hge]
  refine (gets_readInt16 (by omega)).bind ?_
  rw [if_neg (by change ¬ (name.length : Int) > (80 : Nat); omega)]
  exact gets_name.bind ((gets_readInt16 hn).bind hvalue.map)

/-! ## The property -/

/-- What `ippAddAttribute` wrote is read back, however it arrives, and nothing behind it is
read. -/
theorem attribute_round_trip (T : Transport σ) (calloc : Nat → Nat → Bool) (hheap : Heap calloc)
    (a : Attribute) (ha : a.Valid) (p : Parsing σ) (rest : List UInt8)
    (h : T.pending p.conn = ippAddAttribute a ++ rest) :
    (ippGetAttribute T calloc p).1 = some (.attribute a) ∧
      T.pending (ippGetAttribute T calloc p).2.conn = rest :=
  gets_attribute hheap ha p rest h

/-- `nameWithLanguage` "hi" in "en" under the name "n". -/
def hiInEnglish : Attribute := ⟨0x36, [0x6E], .language [0x65, 0x6E] [0x68, 0x69]⟩

/-- It arrives in two pieces, of which the second holds a byte more. -/
def hiArriving : Conn :=
  ⟨({ chunked := false, qsize := 15, timedOut := false, network := Http.zotFopen fun _ ↦ 0 },
    [.piece ⟨[0x36, 0, 1, 0x6E, 0, 4, 0], by decide, by decide⟩,
      .piece ⟨[2, 0x65, 0x6E, 0, 2, 0x68, 0x69, 3], by decide, by decide⟩]),
    rfl, fun _ ↦ by decide⟩

theorem attribute_round_trip_hi :
    (ippGetAttribute (Conn.transport fun _ ↦ 0) (fun _ _ ↦ true) ⟨hiArriving, []⟩).1 =
        some (.attribute hiInEnglish) ∧
      (ippGetAttribute (Conn.transport fun _ ↦ 0) (fun _ _ ↦ true) ⟨hiArriving, []⟩).2.conn.pending =
        [3] :=
  attribute_round_trip (Conn.transport fun _ ↦ 0) (fun _ _ ↦ true) (fun _ _ _ ↦ rfl) hiInEnglish
    ⟨by decide +kernel, by decide +kernel, by decide +kernel, by decide +kernel, by decide +kernel,
      by decide +kernel, by decide +kernel⟩ ⟨hiArriving, []⟩ [3] (by decide)

/-! ## Values with a language -/

/-- The octets of `textWithLanguage` and `nameWithLanguage` in the protocol. -/
def languageOctets (charset text : List UInt8) : List UInt8 :=
  be16 charset.length ++ (charset ++ (be16 text.length ++ text))

/-- Such an attribute in the protocol: `value-length` counts all the octets of the value. -/
def languageOnWire (tag : UInt8) (name charset text : List UInt8) : List UInt8 :=
  [tag] ++ (be16 name.length ++ (name ++ (be16 (languageOctets charset text).length ++
    languageOctets charset text)))

/-- `value-length` is the number of octets behind it. -/
def CountsOctets (value : List UInt8) : Prop := value.take 2 = be16 (value.length - 2)

instance (value : List UInt8) : Decidable (CountsOctets value) :=
  inferInstanceAs (Decidable (_ = _))

theorem length_languageOctets (charset text : List UInt8) :
    (languageOctets charset text).length = charset.length + text.length + 4 := by
  unfold languageOctets be16
  simp only [List.length_append, List.length_cons, List.length_nil]
  omega

theorem kindOf_eq_language {tag : UInt8} (h : kindOf tag = .language) : tag = 0x35 ∨ tag = 0x36 := by
  unfold kindOf at h
  repeat' split at h
  all_goals first | assumption | cases h

theorem rejects_getText {f : List UInt8 → Getter σ α} {i : Nat} (hlen : bs.length < 32768)
    (hf : Rejects T (f bs) bs') : Rejects T (getText T calloc i bs.length >>= f) (bs ++ bs') := by
  have hsize : sizeT ((bs.length : Int) + 1) = bs.length + 1 :=
    sizeT_eq (n := bs.length + 1) (by omega)
  unfold getText
  split
  · rw [hsize]
    exact (gets_readOr _ rfl).bind_rejects hf
  · exact rejects_fail.bind

theorem rejects_language {charset text : List UInt8}
    (hlen : (languageOctets charset text).length < 32768) :
    Rejects T (getValue T calloc (languageOctets charset text).length .language)
      (languageOctets charset text) := by
  rw [length_languageOctets] at hlen ⊢
  refine (gets_readInt16 (by omega)).bind_rejects (rejects_getText (by omega)
    ((gets_readInt16 (by omega)).bind_rejects ?_))
  -- the two lengths in the value were not counted by the reader
  have hne : ((charset.length + text.length + 4 : Nat) : Int) - charset.length ≠ text.length := by
    omega
  rw [if_pos hne]
  exact rejects_fail

theorem rejects_languageOnWire {tag : UInt8} {name charset text : List UInt8}
    (hkind : kindOf tag = .language) (hname : name.length ≤ ippMaxAttribName)
    (hlen : (languageOctets charset text).length < 32768) :
    Rejects T (ippGetAttribute T calloc) (languageOnWire tag name charset text) := by
  have htag : Gets T (readOr T 1 1) [tag] [tag] := gets_readOr 1 rfl
  have hge : ¬ tag < 0x10 := by
    rcases kindOf_eq_language hkind with rfl | rfl <;> decide
  have hname' : name.length ≤ 80 := hname
  refine htag.bind_rejects ?_
  change Rejects T (if tag < 0x10 then pure (Got.group tag) else _) _
  rw [if_neg hge]
  refine (gets_readInt16 (by omega)).bind_rejects ?_
  rw [if_neg (by change ¬ (name.length : Int) > (80 : Nat); omega)]
  refine gets_name.bind_rejects ((gets_readInt16 hlen).bind_rejects ?_)
  have hvalue : Rejects T (getValue T calloc (languageOctets charset text).length (kindOf tag))
      (languageOctets charset text) := by
    rw [hkind]
    exact rejects_language hlen
  have hall := @Rejects.bind _ _ _ _ _ (fun v ↦ pure (Got.attribute ⟨tag, name, v⟩)) _ [] hvalue
  rwa [List.append_nil] at hall

theorem be16_ne {m n : Nat} (h : m % 256 ≠ n % 256) : be16 m ≠ be16 n := by
  intro heq
  have hlow : UInt8.ofNat m = UInt8.ofNat n := (List.cons.inj (List.cons.inj heq).2).1
  have hnat := congrArg UInt8.toNat hlow
  rw [UInt8.toNat_ofNat', UInt8.toNat_ofNat'] at hnat
  exact h hnat

/-- The written `value-length` leaves out the two lengths in the value. -/
theorem not_countsOctets (charset text : List UInt8) :
    ¬ CountsOctets (ippAddValue (.language charset text)) := by
  have hlen := length_languageOctets (cString charset) (cString text)
  change be16 ((cString charset).length + (cString text).length) ≠
    be16 (languageOctets (cString charset) (cString text)).length
  rw [hlen]
  exact be16_ne (by omega)

/-- An attribute with a language that counts its octets as the protocol does is not accepted, and
none is written so. -/
theorem language_uncounted (T : Transport σ) (calloc : Nat → Nat → Bool) (tag : UInt8)
    (name charset text : List UInt8) (hkind : kindOf tag = .language)
    (hname : name.length ≤ ippMaxAttribName)
    (hlen : (languageOctets charset text).length < 32768) (p : Parsing σ) (rest : List UInt8)
    (h : T.pending p.conn = languageOnWire tag name charset text ++ rest) :
    (ippGetAttribute T calloc p).1 = none ∧
      ¬ CountsOctets (ippAddValue (.language charset text)) :=
  ⟨rejects_languageOnWire hkind hname hlen p rest h, not_countsOctets charset text⟩

/-- "hi" in "en" as the protocol has it. -/
def hiOnWire : Conn :=
  ⟨({ chunked := false, qsize := 14, timedOut := false, network := Http.zotFopen fun _ ↦ 0 },
    [.piece ⟨languageOnWire 0x36 [0x6E] [0x65, 0x6E] [0x68, 0x69], by decide, by decide⟩]),
    rfl, fun _ ↦ by decide⟩

theorem language_uncounted_hi :
    (ippGetAttribute (Conn.transport fun _ ↦ 0) (fun _ _ ↦ true) ⟨hiOnWire, []⟩).1 = none ∧
      ¬ CountsOctets (ippAddValue (.language [0x65, 0x6E] [0x68, 0x69])) :=
  language_uncounted (Conn.transport fun _ ↦ 0) (fun _ _ ↦ true) 0x36 [0x6E] [0x65, 0x6E]
    [0x68, 0x69] rfl (by decide) (by decide) ⟨hiOnWire, []⟩ [] (by decide)

/-- The reader refuses this value, and the writer counts four octets less. -/
theorem hi_refused :
    hiOnWire.pending = languageOnWire 0x36 [0x6E] [0x65, 0x6E] [0x68, 0x69] ∧
      (ippGetAttribute (Conn.transport fun _ ↦ 0) (fun _ _ ↦ true) ⟨hiOnWire, []⟩).1.isNone ∧
        ¬ CountsOctets (ippAddValue (.language [0x65, 0x6E] [0x68, 0x69])) := by
  exact ⟨by decide, by decide, by decide⟩

end PrintServer.Ipp
