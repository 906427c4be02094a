import PrintServer.Ipp.AttributeCodec

/-!
# Lengths that a client sends

The lengths with which `ippGetAttribute` calls `ippRead` come from the body as `int16`.
-/

namespace PrintServer.Ipp

variable {σ α β : Type} {T : Transport σ} {calloc : Nat → Nat → Bool}

/-! ## The property -/

/-- What is read fits its destination, and `attrib_name` has 81 bytes. -/
def ReadEvent.InBounds : ReadEvent → Prop
  | .read size length => 0 ≤ length ∧ length ≤ size
  | .terminate index => 0 ≤ index ∧ index ≤ ippMaxAttribName

instance : (e : ReadEvent) → Decidable e.InBounds
  | .read _ _ => inferInstanceAs (Decidable (_ ∧ _))
  | .terminate _ => inferInstanceAs (Decidable (_ ∧ _))

/-- What a call of `ippGetAttribute` has done when it returns. -/
structure WellRead (r : Option Got × Parsing σ) : Prop where
  inBounds : ∀ e ∈ r.2.events, e.InBounds
  terminated : ∀ a, r.1 = some (.attribute a) → ∃ i, .terminate i ∈ r.2.events

/-- `P` holds of the `int16` at the front and of what is behind it, if it is there. -/
def Int16Ok (P : Int → List UInt8 → Prop) : List UInt8 → Prop
  | a :: b :: rest => P (int16 a b) rest
  | _ => True

/-- A text of the length `n` is not read, or `n` is not negative and `P` holds of what is behind
the text. -/
def TextOk (calloc : Nat → Nat → Bool) (i : Nat) (n : Int) (P : List UInt8 → Prop)
    (bs : List UInt8) : Prop :=
  calloc i (sizeT (n + 1)) = true → 0 ≤ n ∧ P (bs.drop n.toNat)

def ValueOk (calloc : Nat → Nat → Bool) (n : Int) (bs : List UInt8) : Kind → Prop
  | .string => TextOk calloc 0 n (fun _ ↦ True) bs
  | .language => Int16Ok (fun charsetLen bs ↦ TextOk calloc 0 charsetLen (fun bs ↦
      Int16Ok (fun textLen bs ↦ n - charsetLen = textLen →
        TextOk calloc 1 textLen (fun _ ↦ True) bs) bs) bs) bs
  | _ => True

/-- The name is refused for its length, or that is not negative and neither is one of the value
for which there is memory. -/
def LengthsOk (calloc : Nat → Nat → Bool) : List UInt8 → Prop
  | [] => True
  | tag :: bs => ¬ tag < 0x10 → Int16Ok (fun n bs ↦ n ≤ ippMaxAttribName → 0 ≤ n ∧
      Int16Ok (fun n bs ↦ ValueOk calloc n bs (kindOf tag)) (bs.drop n.toNat)) bs

/-! ## Events -/

/-- The log is only appended to. -/
def Grows (x : Getter σ α) : Prop := ∀ p, ∀ e ∈ p.events, e ∈ (x p).2.events

variable {x : Getter σ α} {f : α → Getter σ β} {p : Parsing σ}

theorem grows_pure {a : α} : Grows (pure a : Getter σ α) := fun _ _ h ↦ h

theorem grows_fail : Grows (.fail : Getter σ α) := fun _ _ h ↦ h

theorem bind_cases (x : Getter σ α) (f : α → Getter σ β) (p : Parsing σ) :
    ((x p).1 = none ∧ (x >>= f) p = (none, (x p).2)) ∨
      ∃ a, (x p).1 = some a ∧ (x >>= f) p = f a (x p).2 := by
  cases h : (x p).1 with
  | none => exact .inl ⟨rfl, bind_of_none h⟩
  | some a => exact .inr ⟨a, rfl, bind_of_some h⟩

theorem Grows.bind (hx : Grows x) (hf : ∀ a, Grows (f a)) : Grows (x >>= f) := by
  intro p e he
  rcases bind_cases x f p with ⟨-, hbind⟩ | ⟨a, -, hbind⟩
  · rw [hbind]
    exact hx p e he
  · rw [hbind]
    exact hf a _ e (hx p e he)

theorem grows_readOr {size : Nat} {n : Int} : Grows (readOr T size n) := by
  intro p e he
  unfold readOr
  simp only
  split <;> exact List.mem_append_left _ he

theorem grows_readInt16 : Grows (readInt16 T) := grows_readOr.bind fun _ ↦ grows_pure

theorem grows_terminate {i : Int} : Grows (terminate i : Getter σ Unit) :=
  fun _ _ h ↦ List.mem_append_left _ h

theorem grows_getText {i : Nat} {n : Int} : Grows (getText T calloc i n) := by
  unfold getText
  split
  · exact grows_readOr
  · exact grows_fail

theorem grows_ite {c : Prop} [Decidable c] {x y : Getter σ α} (hx : Grows x) (hy : Grows y) :
    Grows (if c then x else y) := by
  split
  · exact hx
  · exact hy

theorem grows_getValue {n : Int} : (k : Kind) → Grows (getValue T calloc n k)
  | .integer => grows_ite grows_fail (grows_readOr.bind fun _ ↦ grows_pure)
  | .boolean => grows_ite grows_fail (grows_readOr.bind fun _ ↦ grows_pure)
  | .string => grows_getText.bind fun _ ↦ grows_pure
  | .date => grows_ite grows_fail (grows_readOr.bind fun _ ↦ grows_pure)
  | .resolution => grows_ite grows_fail (grows_readOr.bind fun _ ↦ grows_readOr.bind fun _ ↦
      grows_readOr.bind fun _ ↦ grows_pure)
  | .range => grows_ite grows_fail (grows_readOr.bind fun _ ↦ grows_readOr.bind fun _ ↦
      grows_pure)
  | .language => grows_readInt16.bind fun _ ↦ grows_getText.bind fun _ ↦ grows_readInt16.bind
      fun _ ↦ grows_ite grows_fail (grows_getText.bind fun _ ↦ grows_pure)
  | .unknown => grows_ite (grows_ite (grows_readOr.bind fun _ ↦ grows_pure) grows_fail) grows_pure

/-! ## Runs that stay in bounds -/

/-- A part of the reader, from a log that is in bounds, stays in bounds iff `P` holds of the
bytes to come. -/
def SafeIff (T : Transport σ) (x : Getter σ α) (P : List UInt8 → Prop) : Prop :=
  ∀ p, (∀ e ∈ p.events, e.InBounds) →
    ((∀ e ∈ (x p).2.events, e.InBounds) ↔ P (T.pending p.conn))

variable {P : List UInt8 → Prop} {Q : Int → List UInt8 → Prop} {n : Int} {size : Nat}

theorem safe_pure {a : α} : SafeIff T (pure a : Getter σ α) fun _ ↦ True :=
  fun _ h ↦ iff_of_true h trivial

theorem safe_fail : SafeIff T (.fail : Getter σ α) fun _ ↦ True :=
  fun _ h ↦ iff_of_true h trivial

theorem forall_mem_concat {es : List ReadEvent} {last : ReadEvent} (h : ∀ e ∈ es, e.InBounds)
    (hlast : last.InBounds) : ∀ e ∈ es ++ [last], e.InBounds := by
  intro e he
  rcases List.mem_append.mp he with h' | h'
  · exact h e h'
  · rw [List.mem_singleton.mp h']
    exact hlast

theorem readOr_events (p : Parsing σ) :
    (readOr T size n p).2.events = p.events ++ [.read size n] := by
  unfold readOr
  simp only
  split <;> rfl

theorem readOr_conn (p : Parsing σ) : (readOr T size n p).2.conn = (ippRead T n p.conn).2 := by
  unfold readOr
  simp only
  split <;> rfl

/-- A read that fits its destination. -/
theorem safe_readOr {f : List UInt8 → Getter σ β} {Q : List UInt8 → List UInt8 → Prop}
    (hn : 0 ≤ n) (hsize : n ≤ size) (hf : ∀ bs, SafeIff T (f bs) (Q bs)) :
    SafeIff T (readOr T size n >>= f) fun bs ↦
      n ≤ bs.length → Q (bs.take n.toNat) (bs.drop n.toNat) := by
  intro p hp
  obtain ⟨hread, hrest⟩ := ippRead_spec (T := T) (n := n) (s := p.conn) hn
  have hlog : ∀ e ∈ (readOr T size n p).2.events, e.InBounds := by
    rw [readOr_events]
    exact forall_mem_concat hp (show (ReadEvent.read size n).InBounds from ⟨hn, hsize⟩)
  have hlen : ((ippRead T n p.conn).1.length : Int) < n ↔ ¬ n ≤ (T.pending p.conn).length := by
    rw [hread, List.length_take]
    omega
  by_cases hshort : n ≤ (T.pending p.conn).length
  · have hsome : (readOr T size n p).1 = some ((T.pending p.conn).take n.toNat) := by
      unfold readOr
      simp only
      rw [if_neg (by rw [hlen]; exact not_not_intro hshort), hread]
    rw [bind_of_some hsome]
    have hiff := hf ((T.pending p.conn).take n.toNat) _ hlog
    rw [readOr_conn, hrest] at hiff
    exact hiff.trans ⟨fun h _ ↦ h, fun h ↦ h hshort⟩
  · have hnone : (readOr T size n p).1 = none := by
      unfold readOr
      simp only
      rw [if_pos (hlen.mpr hshort)]
    rw [bind_of_none hnone]
    exact iff_of_true hlog fun h ↦ absurd h hshort

/-- A read of a negative length. -/
theorem unsafe_readOr {f : List UInt8 → Getter σ β} (hn : n < 0) (hf : ∀ bs, Grows (f bs)) :
    SafeIff T (readOr T size n >>= f) fun _ ↦ False := by
  intro p _
  refine iff_of_false (fun h ↦ ?_) id
  have hmem : ReadEvent.read size n ∈ (readOr T size n p).2.events := by
    rw [readOr_events]
    exact List.mem_append_right _ (List.mem_singleton_self _)
  have hbad : (ReadEvent.read size n).InBounds := by
    rcases bind_cases (readOr T size n) f p with ⟨-, hbind⟩ | ⟨bs, -, hbind⟩
    · rw [hbind] at h
      exact h _ hmem
    · rw [hbind] at h
      exact h _ (hf bs _ _ hmem)
  exact absurd hbad.1 (Int.not_le.mpr hn)

theorem bind_assoc {γ : Type} (x : Getter σ α) (g : α → Getter σ β) (f : β → Getter σ γ) :
    x >>= g >>= f = x >>= fun a ↦ g a >>= f := by
  funext p
  rcases bind_cases x g p with ⟨hx, hg⟩ | ⟨a, hx, hg⟩
  · have hnone : ((x >>= g) p).1 = none := by rw [hg]
    rw [bind_of_none hx, bind_of_none hnone, hg]
  · rw [bind_of_some hx]
    rcases bind_cases (g a) f (x p).2 with ⟨hy, hf⟩ | ⟨b, hy, hf⟩
    · rw [hf, bind_of_none (by rw [hg]; exact hy), hg]
    · rw [hf, bind_of_some (a := b) (by rw [hg]; exact hy), hg]

theorem int16_lt (a b : UInt8) : int16 a b < 32768 := by
  have ha := a.toNat_lt
  have hb := b.toNat_lt
  unfold int16
  simp only
  split <;> omega

theorem safe_readInt16 {f : Int → Getter σ β} (hf : ∀ n < 32768, SafeIff T (f n) (Q n)) :
    SafeIff T (readInt16 T >>= f) (Int16Ok Q) := by
  have hread := @safe_readOr _ _ T 2 2 _ _ (by decide) (by decide)
    fun bs ↦ hf (int16 (bs.getD 0 0) (bs.getD 1 0)) (int16_lt _ _)
  have hbind : readInt16 T >>= f =
      readOr T 2 2 >>= fun bs ↦ f (int16 (bs.getD 0 0) (bs.getD 1 0)) := bind_assoc _ _ _
  rw [hbind]
  intro p hp
  refine (hread p hp).trans ?_
  generalize T.pending p.conn = bs
  rcases bs with _ | ⟨a, _ | ⟨b, rest⟩⟩
  · exact iff_of_true (fun h ↦ absurd h (by decide)) trivial
  · refine iff_of_true (fun h ↦ absurd h ?_) trivial
    change ¬ (2 : Int) ≤ (1 : Nat)
    decide
  · refine ⟨fun h ↦ h ?_, fun h _ ↦ h⟩
    change (2 : Int) ≤ ((rest.length + 1 + 1 : Nat) : Int)
    omega

theorem drop_short {bs : List UInt8} (h : ¬ n ≤ bs.length) : bs.drop n.toNat = [] :=
  List.drop_eq_nil_of_le (by omega)

/-- A text and what is read behind it, of which nothing is left when the text is short. -/
theorem safe_text {f : List UInt8 → Getter σ β} (hsize : n ≤ size) (hgrows : ∀ bs, Grows (f bs))
    (hnil : P []) (hf : ∀ bs, SafeIff T (f bs) P) :
    SafeIff T (readOr T size n >>= f) fun bs ↦ 0 ≤ n ∧ P (bs.drop n.toNat) := by
  by_cases hn : 0 ≤ n
  · intro p hp
    refine (safe_readOr hn hsize hf p hp).trans ⟨fun h ↦ ⟨hn, ?_⟩, fun h _ ↦ h.2⟩
    by_cases hlen : n ≤ (T.pending p.conn).length
    · exact h hlen
    · rw [drop_short hlen]
      exact hnil
  · intro p hp
    exact (unsafe_readOr (Int.not_le.mp hn) hgrows p hp).trans
      ⟨False.elim, fun h ↦ absurd h.1 hn⟩

theorem safe_getText {f : List UInt8 → Getter σ β} {i : Nat} (hn : n < 32768)
    (hgrows : ∀ bs, Grows (f bs)) (hnil : P []) (hf : ∀ bs, SafeIff T (f bs) P) :
    SafeIff T (getText T calloc i n >>= f) (TextOk calloc i n P) := by
  unfold getText
  split
  · rename_i hcalloc
    intro p hp
    have hsize : n ≤ (sizeT (n + 1) : Int) := by
      unfold sizeT
      omega
    exact (safe_text hsize hgrows hnil hf p hp).trans ⟨fun h _ ↦ h, fun h ↦ h hcalloc⟩
  · rename_i hcalloc
    exact fun p hp ↦ iff_of_true hp fun h ↦ absurd h hcalloc

theorem safe_terminate {f : Getter σ β} (hn : 0 ≤ n) (hle : n ≤ ippMaxAttribName)
    (hf : SafeIff T f P) : SafeIff T (terminate n >>= fun _ ↦ f) P := by
  intro p hp
  have hin : (ReadEvent.terminate n).InBounds := ⟨hn, hle⟩
  exact hf ⟨p.conn, p.events ++ [.terminate n]⟩ (forall_mem_concat hp hin)

theorem safe_getName {f : List UInt8 → Getter σ β} (hn : n ≤ ippMaxAttribName)
    (hgrows : ∀ bs, Grows (f bs)) (hnil : P []) (hf : ∀ bs, SafeIff T (f bs) P) :
    SafeIff T (getName T n >>= f) fun bs ↦ 0 ≤ n ∧ P (bs.drop n.toNat) := by
  unfold getName
  split
  · rename_i hzero
    subst hzero
    intro p hp
    exact (safe_terminate (Int.le_refl 0) hn (hf []) p hp).trans
      ⟨fun h ↦ ⟨Int.le_refl 0, h⟩, fun h ↦ h.2⟩
  · rw [bind_assoc]
    by_cases hneg : 0 ≤ n
    · exact safe_text hn (fun bs ↦ grows_terminate.bind fun _ ↦ hgrows bs) hnil fun bs ↦
        safe_terminate hneg hn (hf bs)
    · intro p hp
      exact (unsafe_readOr (Int.not_le.mp hneg)
        (fun bs ↦ (grows_terminate.bind fun _ ↦ grows_pure).bind hgrows) p hp).trans
        ⟨False.elim, fun h ↦ absurd h.1 hneg⟩

/-! ## A whole attribute -/

theorem safe_map {g : α → β} (hx : SafeIff T x P) : SafeIff T (x >>= fun a ↦ pure (g a)) P := by
  intro p hp
  have hevents : ((x >>= fun a ↦ pure (g a)) p).2.events = (x p).2.events := by
    rcases bind_cases x (fun a ↦ pure (g a)) p with ⟨-, hbind⟩ | ⟨a, -, hbind⟩
    · rw [hbind]
    · rw [hbind]
      rfl
  rw [hevents]
  exact hx p hp

theorem safe_ite {c : Prop} [Decidable c] {x y : Getter σ α} (hx : SafeIff T x fun _ ↦ True)
    (hy : SafeIff T y P) : SafeIff T (if c then x else y) fun bs ↦ ¬ c → P bs := by
  intro p hp
  split
  · exact (hx p hp).trans ⟨fun _ hc ↦ absurd ‹c› hc, fun _ ↦ trivial⟩
  · exact (hy p hp).trans ⟨fun h _ ↦ h, fun h ↦ h ‹¬ c›⟩

/-- Numbers are read with the sizes of their variables. -/
theorem safe_fixed {f : List UInt8 → Getter σ β} (hn : 0 ≤ n) (hsize : n ≤ size)
    (hf : ∀ bs, SafeIff T (f bs) fun _ ↦ True) : SafeIff T (readOr T size n >>= f) fun _ ↦ True :=
  fun p hp ↦ (safe_readOr hn hsize hf p hp).trans ⟨fun _ ↦ trivial, fun _ _ ↦ trivial⟩

theorem safe_refuse {c : Prop} [Decidable c] (hx : SafeIff T x fun _ ↦ True) :
    SafeIff T (if c then .fail else x) fun _ ↦ True :=
  fun p hp ↦ (safe_ite safe_fail hx p hp).trans ⟨fun _ ↦ trivial, fun _ _ ↦ trivial⟩

/-- What `getValue` does behind `charset-length` and `charset`. -/
def getLanguageText (T : Transport σ) (calloc : Nat → Nat → Bool) (n charsetLen : Int)
    (charset : List UInt8) : Getter σ (Value .language) :=
  readInt16 T >>= fun textLen ↦
    if n - charsetLen ≠ textLen then .fail
    else getText T calloc 1 textLen >>= fun text ↦ pure (.language charset text)

theorem grows_getLanguageText {charsetLen : Int} {charset : List UInt8} :
    Grows (getLanguageText T calloc n charsetLen charset) :=
  grows_readInt16.bind fun _ ↦ grows_ite grows_fail (grows_getText.bind fun _ ↦ grows_pure)

theorem safe_getLanguageText {charsetLen : Int} {charset : List UInt8} :
    SafeIff T (getLanguageText T calloc n charsetLen charset)
      (Int16Ok fun textLen bs ↦ n - charsetLen = textLen →
        TextOk calloc 1 textLen (fun _ ↦ True) bs) := by
  refine safe_readInt16 fun textLen hlt ↦ ?_
  have htext := @safe_getText _ _ T calloc _ _ _ 1 hlt (fun _ ↦ grows_pure) trivial
    fun text ↦ safe_pure (a := Value.language charset text)
  have hread := safe_ite (T := T) (c := n - charsetLen ≠ textLen) safe_fail htext
  exact fun p hp ↦ (hread p hp).trans (by rw [not_not])

theorem safe_language : SafeIff T (getValue T calloc n .language) fun bs ↦
    ValueOk calloc n bs .language := by
  have hread : SafeIff T (readInt16 T >>= fun charsetLen ↦ getText T calloc 0 charsetLen >>=
      fun charset ↦ getLanguageText T calloc n charsetLen charset) _ :=
    safe_readInt16 fun charsetLen hlt ↦
      safe_getText hlt (fun _ ↦ grows_getLanguageText) trivial fun _ ↦ safe_getLanguageText
  exact hread

theorem safe_getValue (hn : n < 32768) :
    (k : Kind) → SafeIff T (getValue T calloc n k) fun bs ↦ ValueOk calloc n bs k
  | .integer => safe_refuse (safe_fixed (by decide) (by decide) fun _ ↦ safe_pure)
  | .boolean => safe_refuse (safe_fixed (by decide) (by decide) fun _ ↦ safe_pure)
  | .string => safe_getText hn (fun _ ↦ grows_pure) trivial fun _ ↦ safe_pure
  | .date => safe_refuse (safe_fixed (by decide) (by decide) fun _ ↦ safe_pure)
  | .resolution => safe_refuse (safe_fixed (by decide) (by decide) fun _ ↦
      safe_fixed (by decide) (by decide) fun _ ↦ safe_fixed (by decide) (by decide) fun _ ↦
        safe_pure)
  | .range => safe_refuse (safe_fixed (by decide) (by decide) fun _ ↦
      safe_fixed (by decide) (by decide) fun _ ↦ safe_pure)
  | .language => safe_language
  | .unknown => by
      change SafeIff T (if n > 0 then if calloc 0 (sizeT n) = true then
        readOr T (sizeT n) n >>= fun data ↦ pure (Value.unknown n data) else .fail
        else pure (Value.unknown n [])) fun _ ↦ True
      split
      · split
        · have hsize : n ≤ (sizeT n : Int) := by
            unfold sizeT
            omega
          exact safe_fixed (by omega) hsize fun _ ↦ safe_pure
        · exact safe_fail
      · exact safe_pure

/-- What `ippGetAttribute` does behind the name. -/
def getAttributeValue (T : Transport σ) (calloc : Nat → Nat → Bool) (tag : UInt8)
    (name : List UInt8) : Getter σ Got :=
  readInt16 T >>= fun n ↦ getValue T calloc n (kindOf tag) >>= fun value ↦
    pure (.attribute ⟨tag, name, value⟩)

theorem grows_getAttributeValue {tag : UInt8} {name : List UInt8} :
    Grows (getAttributeValue T calloc tag name) :=
  grows_readInt16.bind fun _ ↦ (grows_getValue _).bind fun _ ↦ grows_pure

theorem ippGetAttribute_eq : ippGetAttribute T calloc = readOr T 1 1 >>= fun n8 ↦
    if n8.getD 0 0 < 0x10 then pure (.group (n8.getD 0 0))
    else readInt16 T >>= fun n ↦
      if n > ippMaxAttribName then .fail
      else getName T n >>= getAttributeValue T calloc (n8.getD 0 0) := rfl

theorem safe_ippGetAttribute : SafeIff T (ippGetAttribute T calloc) (LengthsOk calloc) := by
  have hname (tag : UInt8) (n : Int) : SafeIff T
      (if n > ippMaxAttribName then .fail else getName T n >>= getAttributeValue T calloc tag)
      fun bs ↦ n ≤ ippMaxAttribName → 0 ≤ n ∧
        Int16Ok (fun n bs ↦ ValueOk calloc n bs (kindOf tag)) (bs.drop n.toNat) := by
    by_cases hn : n > ippMaxAttribName
    · rw [if_pos hn]
      exact fun p hp ↦ iff_of_true hp fun h ↦ absurd h (Int.not_le.mpr hn)
    · rw [if_neg hn]
      have hread := safe_getName (Int.not_lt.mp hn)
        (fun name ↦ @grows_getAttributeValue _ T calloc tag name)
        (P := Int16Ok fun n bs ↦ ValueOk calloc n bs (kindOf tag)) trivial
        fun name ↦ safe_readInt16 fun n hlt ↦ safe_map (safe_getValue hlt (kindOf tag))
      exact fun p hp ↦ (hread p hp).trans ⟨fun h _ ↦ h, fun h ↦ h (Int.not_lt.mp hn)⟩
  have htag (tag : UInt8) := safe_ite (T := T) (c := tag < 0x10) (safe_pure (a := Got.group tag))
    (safe_readInt16 fun n _ ↦ hname tag n)
  have hall := safe_readOr (T := T) (n := 1) (by decide) (le_refl 1)
    fun bs ↦ htag (bs.getD 0 0)
  intro p hp
  refine (hall p hp).trans ?_
  generalize T.pending p.conn = bs
  cases bs with
  | nil => exact iff_of_true (fun h ↦ absurd h (by decide)) trivial
  | cons tag rest =>
      refine ⟨fun h ↦ h ?_, fun h _ ↦ h⟩
      change (1 : Int) ≤ ((rest.length + 1 : Nat) : Int)
      omega

/-! ## The name -/

theorem bind_eq_some {b : β} (h : ((x >>= f) p).1 = some b) :
    ∃ a, (x p).1 = some a ∧ (f a (x p).2).1 = some b ∧ (x >>= f) p = f a (x p).2 := by
  rcases bind_cases x f p with ⟨-, hbind⟩ | ⟨a, ha, hbind⟩
  · rw [hbind] at h
    cases h
  · exact ⟨a, ha, by rw [← hbind]; exact h, hbind⟩

theorem getName_terminates {name : List UInt8} (h : (getName T n p).1 = some name) :
    ∃ i, .terminate i ∈ (getName T n p).2.events := by
  unfold getName at h ⊢
  split
  · exact ⟨0, List.mem_append_right _ (List.mem_singleton_self _)⟩
  · rw [if_neg ‹_›] at h
    obtain ⟨bs, -, -, hbind⟩ := bind_eq_some h
    rw [hbind]
    exact ⟨n, List.mem_append_right _ (List.mem_singleton_self _)⟩

/-- An attribute that is returned has a name that was terminated. -/
theorem ippGetAttribute_terminates {a : Attribute}
    (h : (ippGetAttribute T calloc p).1 = some (.attribute a)) :
    ∃ i, .terminate i ∈ (ippGetAttribute T calloc p).2.events := by
  rw [ippGetAttribute_eq] at h ⊢
  obtain ⟨n8, -, h, hbind⟩ := bind_eq_some h
  rw [hbind]
  split at h
  · cases h
  rw [if_neg ‹_›]
  obtain ⟨n, -, h, hbind⟩ := bind_eq_some h
  rw [hbind]
  split at h
  · cases h
  rw [if_neg ‹_›]
  obtain ⟨name, hname, -, hbind⟩ := bind_eq_some h
  rw [hbind]
  obtain ⟨i, hi⟩ := getName_terminates hname
  exact ⟨i, grows_getAttributeValue _ _ hi⟩

/-! ## The theorem -/

/-- Every length is good iff the client sends no negative one where it counts. -/
theorem wellRead_iff (T : Transport σ) (calloc : Nat → Nat → Bool) (conn : σ) :
    WellRead (ippGetAttribute T calloc ⟨conn, []⟩) ↔ LengthsOk calloc (T.pending conn) := by
  have hsafe := @safe_ippGetAttribute _ T calloc ⟨conn, []⟩
    fun e he ↦ absurd he List.not_mem_nil
  exact ⟨fun h ↦ hsafe.mp h.inBounds,
    fun h ↦ ⟨hsafe.mpr h, fun _ ha ↦ ippGetAttribute_terminates ha⟩⟩

/-- An attribute whose name has the length 0xFFFF. -/
def negativeName : Conn :=
  ⟨({ chunked := false, qsize := 3, timedOut := false, network := Http.zotFopen fun _ ↦ 0 },
    [.piece ⟨[0x21, 0xFF, 0xFF], by decide, by decide⟩]), rfl, fun _ ↦ by decide⟩

/-- It passes the test for the longest name and is read with the length -1, and `attrib_name` is
terminated in front of its first byte. -/
theorem negativeName_read :
    (ippGetAttribute (Conn.transport fun _ ↦ 0) (fun _ _ ↦ true) ⟨negativeName, []⟩).2.events =
        [.read 1 1, .read 2 2, .read 80 (-1), .terminate (-1), .read 2 2] ∧
      ¬ WellRead
        (ippGetAttribute (Conn.transport fun _ ↦ 0) (fun _ _ ↦ true) ⟨negativeName, []⟩) := by
  have hevents : (ippGetAttribute (Conn.transport fun _ ↦ 0) (fun _ _ ↦ true)
      ⟨negativeName, []⟩).2.events =
        [.read 1 1, .read 2 2, .read 80 (-1), .terminate (-1), .read 2 2] := by
    decide
  refine ⟨hevents, fun h ↦ ?_⟩
  have hread := h.inBounds (.read 80 (-1)) (by rw [hevents]; decide)
  exact absurd hread (by decide)

end PrintServer.Ipp
