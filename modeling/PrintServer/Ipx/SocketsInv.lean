import Mathlib.Algebra.Group.Nat.Defs
import Mathlib.Data.List.Perm.Subperm
import PrintServer.Ipx.Sockets

/-!
# What the socket layer keeps

Distinct numbers, one list for each socket, and in it exactly the outstanding ECBs of its number.
-/

namespace PrintServer.Ipx

open Lib

variable {s t : Layer} {e h : Ptr} {n m : UInt16} {xs ys : List Ptr} {ks : List Socket}

/-! ## Tables with distinct numbers -/

theorem numbers_updateSocket {f : Socket → Socket}
    (hf : ∀ k, (f k).socketNumber = k.socketNumber) :
    (updateSocket n f ks).map (·.socketNumber) = ks.map (·.socketNumber) := by
  induction ks with
  | nil => rfl
  | cons k ks ih =>
      by_cases hk : k.socketNumber = n
      · simp only [updateSocket, if_pos hk, List.map_cons, hf]
      · simp only [updateSocket, if_neg hk, List.map_cons, ih]

theorem mem_updateSocket_of_ne {f : Socket → Socket} {k : Socket} (hk : k ∈ ks)
    (hne : k.socketNumber ≠ n) : k ∈ updateSocket n f ks := by
  induction ks with
  | nil => cases hk
  | cons a ks ih =>
      unfold updateSocket
      rcases List.mem_cons.mp hk with rfl | hk
      · rw [if_neg hne]
        exact List.mem_cons_self
      · split
        · exact List.mem_cons_of_mem _ hk
        · exact List.mem_cons_of_mem _ (ih hk)

theorem lookup_eq_none : lookup n ks = none ↔ n ∉ ks.map (·.socketNumber) := by
  unfold lookup
  rw [List.find?_eq_none, List.mem_map]
  constructor
  · rintro h ⟨k, hk, hn⟩
    exact h k hk (decide_eq_true hn)
  · intro h k hk hn
    exact h ⟨k, hk, of_decide_eq_true hn⟩

theorem lookup_eq_some {k : Socket} (h : lookup n ks = some k) :
    k ∈ ks ∧ k.socketNumber = n := by
  unfold lookup at h
  exact ⟨List.mem_of_find?_eq_some h, by simpa using List.find?_some h⟩

theorem mem_updateSocket_self {f : Socket → Socket} {k : Socket} (h : lookup n ks = some k) :
    f k ∈ updateSocket n f ks := by
  induction ks with
  | nil => cases h
  | cons a ks ih =>
      unfold updateSocket
      by_cases ha : a.socketNumber = n
      · have hfind : lookup n (a :: ks) = some a := List.find?_cons_of_pos (decide_eq_true ha)
        obtain rfl : a = k := Option.some.inj (hfind.symm.trans h)
        rw [if_pos ha]
        exact List.mem_cons_self
      · have hfind : lookup n (a :: ks) = lookup n ks := by
          apply List.find?_cons_of_neg
          simp [ha]
        rw [if_neg ha]
        exact List.mem_cons_of_mem _ (ih (hfind ▸ h))

theorem updateSocket_same {f : Socket → Socket} {k : Socket} (h : lookup n ks = some k)
    (hf : f k = k) : updateSocket n f ks = ks := by
  induction ks with
  | nil => rfl
  | cons a ks ih =>
      unfold updateSocket
      by_cases ha : a.socketNumber = n
      · have hfind : lookup n (a :: ks) = some a := List.find?_cons_of_pos (decide_eq_true ha)
        obtain rfl : a = k := Option.some.inj (hfind.symm.trans h)
        rw [if_pos ha, hf]
      · have hfind : lookup n (a :: ks) = lookup n ks := by
          apply List.find?_cons_of_neg
          simp [ha]
        rw [if_neg ha, ih (hfind ▸ h)]

namespace Layer

def link (s : Layer) (e : Ptr) : Ptr := (s.ecb e).linkAddress

/-- The list of the socket with number `n` holds exactly `xs`, in this order. -/
def Listed (s : Layer) (n : UInt16) (xs : List Ptr) : Prop :=
  ∃ k ∈ s.socketTable, k.socketNumber = n ∧ Linked s.link 0 k.ecbLinkList xs

theorem Listed.mem_numbers (hl : s.Listed n xs) : n ∈ s.numbers := by
  obtain ⟨k, hk, hn, -⟩ := hl
  exact List.mem_map.mpr ⟨k, hk, hn⟩

/-- With distinct numbers a socket has one list. -/
theorem Listed.unique (hd : s.numbers.Nodup) (hx : s.Listed n xs) (hy : s.Listed n ys) :
    xs = ys := by
  obtain ⟨k, hk, hkn, hkl⟩ := hx
  obtain ⟨k', hk', hkn', hkl'⟩ := hy
  obtain rfl : k = k' := List.inj_on_of_nodup_map hd hk hk' (hkn.trans hkn'.symm)
  exact hkl.unique hkl'

theorem Listed.of_lookup {k : Socket} (hd : s.numbers.Nodup) (hl : s.Listed n xs)
    (hk : lookup n s.socketTable = some k) : Linked s.link 0 k.ecbLinkList xs := by
  obtain ⟨k', hk', hkn', hkl'⟩ := hl
  obtain ⟨hmem, hkn⟩ := lookup_eq_some hk
  obtain rfl : k = k' := List.inj_on_of_nodup_map hd hmem hk' (hkn.trans hkn'.symm)
  exact hkl'

/-- The other sockets keep their lists when one head is stored and links outside them change. -/
theorem Listed.other {f : Socket → Socket} (hl : s.Listed m xs) (hne : m ≠ n)
    (htable : t.socketTable = updateSocket n f s.socketTable)
    (hlink : ∀ x ∈ xs, t.link x = s.link x) : t.Listed m xs := by
  obtain ⟨k, hk, rfl, hlinked⟩ := hl
  refine ⟨k, ?_, rfl, hlinked.congr hlink⟩
  rw [htable]
  exact mem_updateSocket_of_ne hk hne

theorem Listed.same (hl : s.Listed m xs) (htable : t.socketTable = s.socketTable)
    (hlink : ∀ x ∈ xs, t.link x = s.link x) : t.Listed m xs := by
  obtain ⟨k, hk, hn, hlinked⟩ := hl
  exact ⟨k, htable ▸ hk, hn, hlinked.congr hlink⟩

/-- The socket whose head is stored has the list behind the new head. -/
theorem listed_of_head {k : Socket} (hk : lookup n s.socketTable = some k)
    (htable : t.socketTable = updateSocket n (fun k ↦ { k with ecbLinkList := h }) s.socketTable)
    (hlinked : Linked t.link 0 h xs) : t.Listed n xs := by
  refine ⟨{ k with ecbLinkList := h }, ?_, (lookup_eq_some hk).2, hlinked⟩
  rw [htable]
  exact mem_updateSocket_self (f := fun k ↦ { k with ecbLinkList := h }) hk

@[simp] theorem link_setListened (b : Bool) : (s.setListened e b).link = s.link := rfl

end Layer

/-! ## The invariant -/

structure SocketsOk (s : Layer) : Prop where
  distinct : s.numbers.Nodup
  lists : ∀ n ∈ s.numbers, ∃ xs, s.Listed n xs ∧ xs.Nodup
  listed : ∀ n xs, s.Listed n xs →
    ∀ e, e ∈ xs ↔ e ≠ 0 ∧ (s.ecb e).socketNumber = n ∧ s.outstanding e
  opened : ∀ e ≠ 0, s.outstanding e → (s.ecb e).socketNumber ∈ s.numbers

theorem ipxInitialize_ok (ecb : Ptr → ECB) : SocketsOk (ipxInitialize ecb) where
  distinct := List.nodup_nil
  lists := fun _ hn ↦ absurd hn List.not_mem_nil
  listed := fun _ _ hl ↦ absurd hl.mem_numbers List.not_mem_nil
  opened := fun _ _ ho ↦ absurd ho.2 Bool.false_ne_true

namespace SocketsOk

theorem notMem (hs : SocketsOk s) (ho : ¬s.outstanding e) (hl : s.Listed n xs) : e ∉ xs :=
  fun he ↦ ho ((hs.listed n xs hl e).mp he).2.2

/-- The lists of the next state are read off the lists of this one. -/
theorem relist (hs : SocketsOk s) (g : UInt16 → List Ptr → List Ptr)
    (hnumbers : t.numbers = s.numbers) (hlists : ∀ n xs, s.Listed n xs → t.Listed n (g n xs))
    (hmem : ∀ n xs, s.Listed n xs →
      ∀ e, e ∈ g n xs ↔ e ≠ 0 ∧ (t.ecb e).socketNumber = n ∧ t.outstanding e)
    (hopen : ∀ e ≠ 0, t.outstanding e → (t.ecb e).socketNumber ∈ s.numbers) : SocketsOk t where
  distinct := hnumbers ▸ hs.distinct
  lists := by
    intro n hn
    obtain ⟨xs, hxs, -⟩ := hs.lists n (hnumbers ▸ hn)
    have hl := hlists n xs hxs
    obtain ⟨k, -, -, hlinked⟩ := id hl
    exact ⟨g n xs, hl, hlinked.nodup⟩
  listed := by
    intro n ys hys
    obtain ⟨xs, hxs, -⟩ := hs.lists n (hnumbers ▸ hys.mem_numbers)
    rw [hys.unique (hnumbers ▸ hs.distinct) (hlists n xs hxs)]
    exact hmem n xs hxs
  opened := fun e he ho ↦ hnumbers ▸ hopen e he ho

/-- Nothing but ECBs that are not outstanding, before and after, changes. -/
theorem frame (hs : SocketsOk s) (htable : t.socketTable = s.socketTable)
    (ho : ¬s.outstanding e) (ho' : ¬t.outstanding e)
    (hecb : ∀ x, x ≠ e → t.ecb x = s.ecb x ∧ t.listened x = s.listened x) : SocketsOk t := by
  have hlink : ∀ n xs, s.Listed n xs → ∀ x ∈ xs, t.link x = s.link x := by
    intro n xs hl x hx
    have hxe : x ≠ e := fun hxe ↦ hs.notMem ho hl (hxe ▸ hx)
    exact congrArg ECB.linkAddress (hecb x hxe).1
  have hout : ∀ x, x ≠ e → (t.outstanding x ↔ s.outstanding x) := by
    intro x hxe
    unfold Layer.outstanding
    rw [(hecb x hxe).1, (hecb x hxe).2]
  apply hs.relist (fun _ xs ↦ xs)
  · unfold Layer.numbers
    rw [htable]
  · exact fun n xs hl ↦ hl.same htable (hlink n xs hl)
  · intro n xs hl x
    by_cases hxe : x = e
    · rw [hxe]
      exact iff_of_false (hs.notMem ho hl) (fun hx ↦ ho' hx.2.2)
    · rw [hout x hxe, (hecb x hxe).1]
      exact hs.listed n xs hl x
  · intro x hx hox
    have hxe : x ≠ e := fun hxe ↦ ho' (hxe ▸ hox)
    rw [(hecb x hxe).1]
    exact hs.opened x hx ((hout x hxe).mp hox)

end SocketsOk

/-! ## One operation -/

/-- When an operation does what it is for.

A search for a free number that meets a used one ends with a number whose second byte the caller
does not get; a full table hides open sockets from `IPXListenForPacket`, and so does the
`inUseFlag` that a cancelled ECB keeps; `IPXCancelEvent` stores the link of the ECB as the new
head wherever the ECB stands. -/
def SocketOk (s : Layer) : Op → Prop
  | .openSocket b _ =>
      s.socketTable.length < socketTableLength → nget16 b = anyNumber →
        wordSwap s.startSocket ∉ s.numbers
  | .listen e =>
      (s.ecb e).inUseFlag ≠ receiving ∧
        ((s.ecb e).socketNumber ∈ s.numbers → s.socketTable.length < socketTableLength)
  | .cancel e =>
      ∀ k ∈ lookup (s.ecb e).socketNumber s.socketTable,
        k.ecbLinkList = if s.outstanding e then e else s.link e
  | _ => True

instance (s : Layer) (op : Op) : Decidable (SocketOk s op) := by
  cases op <;> unfold SocketOk <;> infer_instance

/-- What the callers of the layer are told: a listen registers, a cancel removes the ECB alone,
and the two bytes of the caller are the number that was registered for it. -/
def Serves (s t : Layer) : Op → Prop
  | .openSocket b ty =>
      ∃ o, ipxOpenSocket s b ty = some (t, o) ∧
        (o.ccode = successful → nget16 b = anyNumber →
          t.numbers = s.numbers ++ [nget16 o.socketNumber])
  | .listen e =>
      ∀ n xs, s.Listed n xs →
        t.Listed n (if (s.ecb e).socketNumber = n then e :: xs else xs)
  | .cancel e => ∀ n xs, s.Listed n xs → t.Listed n (xs.erase e)
  | _ => True

theorem numbers_of_head
    (htable : t.socketTable = updateSocket n (fun k ↦ { k with ecbLinkList := h }) s.socketTable) :
    t.numbers = s.numbers := by
  unfold Layer.numbers
  rw [htable]
  exact numbers_updateSocket fun _ ↦ rfl

/-- A closed socket: the ECB is only told so. -/
theorem listen_closed (hs : SocketsOk s) (ho : ¬s.outstanding e)
    (hflag : (s.ecb e).inUseFlag ≠ receiving)
    (hk : lookup (s.ecb e).socketNumber s.socketTable = none) :
    SocketsOk (ipxListenForPacket s e) ∧ Serves s (ipxListenForPacket s e) (.listen e) := by
  have hlisten : ipxListenForPacket s e =
      (s.setECB e { s.ecb e with completionCode := socketNotOpen }).setListened e true := by
    simp only [ipxListenForPacket, hk, ite_self]
  rw [hlisten]
  have hecb (y : ECB) : ∀ x, x ≠ e → ((s.setECB e y).setListened e true).ecb x = s.ecb x ∧
      ((s.setECB e y).setListened e true).listened x = s.listened x :=
    fun x hx ↦ ⟨Function.update_of_ne hx .., Function.update_of_ne hx ..⟩
  refine ⟨hs.frame rfl ho ?_ (hecb _), fun n xs hl ↦ ?_⟩
  · intro h
    apply hflag
    have hrecv := h.1
    simp only [Layer.setListened, Layer.setECB, Function.update_self] at hrecv
    exact hrecv
  · have hne : (s.ecb e).socketNumber ≠ n :=
      fun h ↦ lookup_eq_none.mp hk (h ▸ hl.mem_numbers)
    rw [if_neg hne]
    refine hl.same rfl fun x hx ↦ ?_
    have hxe : x ≠ e := fun h ↦ hs.notMem ho hl (h ▸ hx)
    exact congrArg ECB.linkAddress (hecb _ x hxe).1

/-- An open socket: the ECB goes in front of the list. -/
theorem listen_open {k : Socket} (hs : SocketsOk s) (he : e ≠ 0) (ho : ¬s.outstanding e)
    (hflag : (s.ecb e).inUseFlag ≠ receiving) (hfull : s.socketTable.length < socketTableLength)
    (hk : lookup (s.ecb e).socketNumber s.socketTable = some k) :
    SocketsOk (ipxListenForPacket s e) ∧ Serves s (ipxListenForPacket s e) (.listen e) := by
  generalize ht : ipxListenForPacket s e = t
  simp only [ipxListenForPacket, if_pos hfull, hk, if_neg hflag] at ht
  have htable : t.socketTable = updateSocket (s.ecb e).socketNumber
      (fun k ↦ { k with ecbLinkList := e }) s.socketTable := by
    rw [← ht]
  have hself : t.ecb e = { s.ecb e with linkAddress := k.ecbLinkList, inUseFlag := receiving } := by
    rw [← ht]
    exact Function.update_self ..
  have hother : ∀ x, x ≠ e → t.ecb x = s.ecb x ∧ t.listened x = s.listened x := by
    intro x hx
    rw [← ht]
    exact ⟨Function.update_of_ne hx .., Function.update_of_ne hx ..⟩
  have hnow : t.outstanding e := by
    constructor
    · rw [hself]
    · rw [← ht]
      exact Function.update_self ..
  have hout : ∀ x, x ≠ e → (t.outstanding x ↔ s.outstanding x) := by
    intro x hxe
    unfold Layer.outstanding
    rw [(hother x hxe).1, (hother x hxe).2]
  have hlink : ∀ n xs, s.Listed n xs → ∀ x ∈ xs, t.link x = s.link x := by
    intro n xs hl x hx
    have hxe : x ≠ e := fun h ↦ hs.notMem ho hl (h ▸ hx)
    exact congrArg ECB.linkAddress (hother x hxe).1
  have hserves : Serves s t (.listen e) := by
    intro n xs hl
    split
    · rename_i hn
      rw [← hn] at hl ⊢
      apply Layer.listed_of_head hk htable
      apply (hl.of_lookup hs.distinct hk).push he _ (hlink _ xs hl)
      show (t.ecb e).linkAddress = k.ecbLinkList
      rw [hself]
    · rename_i hn
      exact hl.other (Ne.symm hn) htable (hlink n xs hl)
  refine ⟨?_, hserves⟩
  apply hs.relist _ (numbers_of_head htable) hserves
  · intro n xs hl x
    by_cases hxe : x = e
    · subst hxe
      by_cases hn : (s.ecb x).socketNumber = n
      · rw [if_pos hn, hself]
        exact iff_of_true List.mem_cons_self ⟨he, hn, hnow⟩
      · rw [if_neg hn, hself]
        exact iff_of_false (hs.notMem ho hl) (fun hx ↦ hn hx.2.1)
    · rw [hout x hxe, (hother x hxe).1, ← hs.listed n xs hl x]
      split
      · exact List.mem_cons.trans (or_iff_right hxe)
      · exact Iff.rfl
  · intro x hx hox
    by_cases hxe : x = e
    · rw [hxe, hself]
      obtain ⟨hmem, hn⟩ := lookup_eq_some hk
      exact List.mem_map.mpr ⟨k, hmem, hn⟩
    · rw [(hother x hxe).1]
      exact hs.opened x hx ((hout x hxe).mp hox)

theorem listen_spec (hs : SocketsOk s) (he : e ≠ 0) (ho : ¬s.outstanding e)
    (hok : SocketOk s (.listen e)) :
    SocketsOk (ipxListenForPacket s e) ∧ Serves s (ipxListenForPacket s e) (.listen e) := by
  obtain ⟨hflag, hfull⟩ := hok
  cases hk : lookup (s.ecb e).socketNumber s.socketTable with
  | none => exact listen_closed hs ho hflag hk
  | some k =>
      obtain ⟨hmem, hn⟩ := lookup_eq_some hk
      exact listen_open hs he ho hflag (hfull (List.mem_map.mpr ⟨k, hmem, hn⟩)) hk

/-- The head of a list is taken off and is no longer outstanding. -/
theorem SocketsOk.pop {k : Socket} (hs : SocketsOk s) (hl : s.Listed n (e :: xs))
    (hk : lookup n s.socketTable = some k)
    (htable : t.socketTable =
      updateSocket n (fun k ↦ { k with ecbLinkList := s.link e }) s.socketTable)
    (hself : t.link e = s.link e ∧ ¬t.outstanding e)
    (hother : ∀ x, x ≠ e → t.ecb x = s.ecb x ∧ t.listened x = s.listened x) :
    SocketsOk t ∧ ∀ m ys, s.Listed m ys → t.Listed m (ys.erase e) := by
  have hlink : ∀ x, t.link x = s.link x := by
    intro x
    by_cases hxe : x = e
    · rw [hxe]
      exact hself.1
    · exact congrArg ECB.linkAddress (hother x hxe).1
  have hnumber : (s.ecb e).socketNumber = n := ((hs.listed n _ hl e).mp List.mem_cons_self).2.1
  have hlists : ∀ m ys, s.Listed m ys → t.Listed m (ys.erase e) := by
    intro m ys hys
    by_cases hm : m = n
    · subst hm
      rw [hys.unique hs.distinct hl, List.erase_cons_head]
      apply Layer.listed_of_head hk htable
      exact (hl.of_lookup hs.distinct hk).tail.congr fun x _ ↦ hlink x
    · have hnot : e ∉ ys := by
        intro he
        exact hm (((hs.listed m ys hys e).mp he).2.1.symm.trans hnumber)
      rw [List.erase_of_not_mem hnot]
      exact hys.other hm htable fun x _ ↦ hlink x
  refine ⟨?_, hlists⟩
  have hout : ∀ x, x ≠ e → (t.outstanding x ↔ s.outstanding x) := by
    intro x hxe
    unfold Layer.outstanding
    rw [(hother x hxe).1, (hother x hxe).2]
  apply hs.relist _ (numbers_of_head htable) hlists
  · intro m ys hys x
    obtain ⟨zs, hzs, hnodup⟩ := hs.lists m hys.mem_numbers
    obtain rfl := hys.unique hs.distinct hzs
    rw [hnodup.mem_erase_iff]
    by_cases hxe : x = e
    · exact iff_of_false (fun h ↦ h.1 hxe) (fun h ↦ hself.2 (hxe ▸ h.2.2))
    · rw [hout x hxe, (hother x hxe).1, ← hs.listed m ys hys x]
      exact and_iff_right hxe
  · intro x hx hox
    have hxe : x ≠ e := fun h ↦ hself.2 (h ▸ hox)
    rw [(hother x hxe).1]
    exact hs.opened x hx ((hout x hxe).mp hox)

/-- The list of an open socket whose head is an ECB. -/
theorem SocketsOk.head {k : Socket} (hs : SocketsOk s) (hk : lookup n s.socketTable = some k)
    (he : k.ecbLinkList = e) (hne : e ≠ 0) :
    ∃ xs, s.Listed n (e :: xs) ∧ s.outstanding e := by
  obtain ⟨hmem, hn⟩ := lookup_eq_some hk
  obtain ⟨xs, hl, -⟩ := hs.lists n (List.mem_map.mpr ⟨k, hmem, hn⟩)
  have hlinked := hl.of_lookup hs.distinct hk
  cases xs with
  | nil => exact absurd (he.symm.trans hlinked) hne
  | cons x xs =>
      obtain rfl : x = e := hlinked.1.symm.trans he
      exact ⟨xs, hl, ((hs.listed n _ hl x).mp List.mem_cons_self).2.2⟩

theorem cancel_spec (hs : SocketsOk s) (he : e ≠ 0) (hok : SocketOk s (.cancel e)) :
    SocketsOk (ipxCancelEvent s e).1 ∧ Serves s (ipxCancelEvent s e).1 (.cancel e) := by
  have hgone : ∀ u : Layer, u.listened e = false → ¬u.outstanding e :=
    fun u hu ho ↦ Bool.false_ne_true (hu.symm.trans ho.2)
  have hnow : (Function.update s.listened e false) e = false := Function.update_self ..
  have hother : ∀ x, x ≠ e → (Function.update s.listened e false) x = s.listened x :=
    fun x hx ↦ Function.update_of_ne hx ..
  -- without the ECB in a list there is nothing to take out
  have hkept (ho : ¬s.outstanding e) (t : Layer) (htable : t.socketTable = s.socketTable)
      (hecb : t.ecb = s.ecb) (hlistened : t.listened = Function.update s.listened e false) :
      SocketsOk t ∧ Serves s t (.cancel e) := by
    constructor
    · apply hs.frame htable ho (hgone t (hlistened ▸ hnow))
      exact fun x hx ↦ ⟨congrFun hecb x, hlistened ▸ hother x hx⟩
    · intro n xs hl
      rw [List.erase_of_not_mem (hs.notMem ho hl)]
      exact hl.same htable fun x _ ↦ congrArg ECB.linkAddress (congrFun hecb x)
  cases hk : lookup (s.ecb e).socketNumber s.socketTable with
  | none =>
      have ho : ¬s.outstanding e := fun ho ↦ lookup_eq_none.mp hk (hs.opened e he ho)
      simp only [ipxCancelEvent, hk]
      exact hkept ho _ rfl rfl rfl
  | some k =>
      have hhead := hok k hk
      simp only [ipxCancelEvent, hk]
      by_cases ho : s.outstanding e
      · rw [if_pos ho] at hhead
        obtain ⟨xs, hl, -⟩ := hs.head hk hhead he
        exact hs.pop hl hk rfl ⟨rfl, hgone _ hnow⟩ fun x hx ↦ ⟨rfl, hother x hx⟩
      · rw [if_neg ho] at hhead
        refine hkept ho _ (updateSocket_same hk ?_) rfl rfl
        show { k with ecbLinkList := s.link e } = k
        rw [← hhead]

/-- A packet that is taken fills the ECB at the head of its list. -/
theorem input_cases (hs : SocketsOk s) (p : Packet) :
    ipxInput s p = s ∨ ∃ h, s.outstanding h ∧ (s.ecb h).socketNumber = nget16 p.destination ∧
      (ipxInput s p).numbers = s.numbers ∧
      (ipxInput s p).ecb = Function.update s.ecb h ((s.ecb h).fill p) ∧
      ¬(ipxInput s p).outstanding h ∧
      (∀ x, x ≠ h → (ipxInput s p).listened x = s.listened x) ∧
      SocketsOk (ipxInput s p) ∧
      ∀ m ys, s.Listed m ys → (ipxInput s p).Listed m (ys.erase h) := by
  unfold ipxInput
  cases hk : lookup (nget16 p.destination) s.socketTable with
  | none => exact Or.inl rfl
  | some k =>
      by_cases hne : k.ecbLinkList = 0
      · exact Or.inl (if_pos hne)
      · obtain ⟨xs, hl, ho⟩ := hs.head hk rfl hne
        simp only [if_neg hne, if_pos ho.1]
        have hgone : ∀ u : Layer, u.listened = Function.update s.listened k.ecbLinkList false →
            ¬u.outstanding k.ecbLinkList := by
          intro u hu ho
          have hlistened := ho.2
          rw [hu, Function.update_self] at hlistened
          exact Bool.false_ne_true hlistened
        apply Or.inr
        refine ⟨k.ecbLinkList, ho, ((hs.listed _ _ hl _).mp List.mem_cons_self).2.1,
          numbers_of_head rfl, rfl, hgone _ rfl, fun x hx ↦ Function.update_of_ne hx .., ?_⟩
        apply hs.pop hl hk rfl
        · constructor
          · simp only [Layer.link, Layer.setListened, Layer.setECB, Function.update_self, ECB.fill]
          · exact hgone _ rfl
        · intro x hx
          exact ⟨Function.update_of_ne hx .., Function.update_of_ne hx ..⟩

theorem input_spec (hs : SocketsOk s) (p : Packet) : SocketsOk (ipxInput s p) := by
  obtain heq | ⟨h, -, -, -, -, -, -, hok, -⟩ := input_cases hs p
  · rw [heq]
    exact hs
  · exact hok

/-! ## Opening -/

theorem opened_spec {k : Socket} (hs : SocketsOk s) (hk : k.socketNumber ∉ s.numbers)
    (hnil : k.ecbLinkList = 0) (htable : t.socketTable = s.socketTable ++ [k])
    (hecb : t.ecb = s.ecb) (hlistened : t.listened = s.listened) : SocketsOk t := by
  have hnumbers : t.numbers = s.numbers ++ [k.socketNumber] := by
    unfold Layer.numbers
    rw [htable, List.map_append, List.map_singleton]
  have hlink : t.link = s.link := funext fun x ↦ congrArg ECB.linkAddress (congrFun hecb x)
  have hout : ∀ e, t.outstanding e ↔ s.outstanding e := by
    intro e
    unfold Layer.outstanding
    rw [hecb, hlistened]
  have hold : ∀ n xs, s.Listed n xs → t.Listed n xs := by
    rintro n xs ⟨k', hk', hn, hlinked⟩
    exact ⟨k', htable ▸ List.mem_append_left _ hk', hn, hlink ▸ hlinked⟩
  have hnew : t.Listed k.socketNumber [] :=
    ⟨k, htable ▸ List.mem_append_right _ List.mem_cons_self, rfl, hnil⟩
  have hdistinct : t.numbers.Nodup := by
    rw [hnumbers]
    exact List.nodup_append.mpr ⟨hs.distinct, List.nodup_singleton _, by
      rintro a ha b hb rfl
      exact hk (List.mem_singleton.mp hb ▸ ha)⟩
  constructor
  · exact hdistinct
  · intro n hn
    rw [hnumbers] at hn
    rcases List.mem_append.mp hn with hn | hn
    · obtain ⟨xs, hl, hnodup⟩ := hs.lists n hn
      exact ⟨xs, hold n xs hl, hnodup⟩
    · rw [List.mem_singleton.mp hn]
      exact ⟨[], hnew, List.nodup_nil⟩
  · intro n ys hys e
    rw [hout, hecb]
    have hn := hys.mem_numbers
    rw [hnumbers] at hn
    rcases List.mem_append.mp hn with hn | hn
    · obtain ⟨xs, hl, -⟩ := hs.lists n hn
      rw [hys.unique hdistinct (hold n xs hl)]
      exact hs.listed n xs hl e
    · rw [List.mem_singleton.mp hn] at hys ⊢
      rw [hys.unique hdistinct hnew]
      refine iff_of_false List.not_mem_nil fun h ↦ hk ?_
      rw [← h.2.1]
      exact hs.opened e h.1 h.2.2
  · intro e he ho
    rw [hnumbers, hecb]
    exact List.mem_append_left _ (hs.opened e he ((hout e).mp ho))

theorem nget16_eq_any {b : UInt8 × UInt8} (h : nget16 b = anyNumber) : b.2 = 0 := by
  have h₁ := b.1.toNat_lt
  have h₂ := b.2.toNat_lt
  have hnat := congrArg UInt16.toNat h
  rw [nget16, UInt16.toNat_ofNat', Nat.mod_eq_of_lt (by omega)] at hnat
  apply UInt8.toNat_inj.mp
  change b.1.toNat + 256 * b.2.toNat = 0 at hnat
  change b.2.toNat = 0
  omega

theorem freeNumber_unused {numbers : List UInt16} {start : UInt16}
    (h : wordSwap start ∉ numbers) :
    freeNumber numbers (numbers.length + 1) start 0 = some start := by
  rw [freeNumber, List.drop_zero, if_neg h]

theorem mem_of_freeNumber_eq_none {numbers : List UInt16} {fuel : Nat} {start : UInt16} {i : Nat}
    (h : freeNumber numbers fuel start i = none) :
    ∀ j < fuel, wordSwap (start + UInt16.ofNat j) ∈ numbers := by
  induction fuel generalizing start i with
  | zero => exact fun j hj ↦ absurd hj (Nat.not_lt_zero j)
  | succ fuel ih =>
      rw [freeNumber] at h
      split at h
      · rename_i hmem
        intro j hj
        cases j with
        | zero => simpa using List.mem_of_mem_drop hmem
        | succ j =>
            have hnext := ih h j (Nat.lt_of_succ_lt_succ hj)
            rwa [UInt16.add_assoc, UInt16.add_comm 1, ← UInt16.ofNat_one, ← UInt16.ofNat_add]
              at hnext
      · cases h

theorem toNat_wordSwap (n : UInt16) :
    (wordSwap n).toNat = n.toNat % 256 * 256 + n.toNat / 256 := by
  have hn := n.toNat_lt
  rw [wordSwap, UInt16.toNat_ofNat', Nat.mod_eq_of_lt (by omega)]

theorem wordSwap_wordSwap (n : UInt16) : wordSwap (wordSwap n) = n := by
  have hn := n.toNat_lt
  apply UInt16.toNat_inj.mp
  rw [toNat_wordSwap, toNat_wordSwap]
  omega

/-- Each restart passes a number of the table by, and they are all different. -/
theorem freeNumber_isSome (numbers : List UInt16) (start : UInt16) (i : Nat)
    (hlen : numbers.length < 2 ^ 16) :
    (freeNumber numbers (numbers.length + 1) start i).isSome := by
  by_contra hnone
  have hmem := mem_of_freeNumber_eq_none (Option.not_isSome_iff_eq_none.mp hnone)
  let tried := (List.range (numbers.length + 1)).map fun j ↦ wordSwap (start + UInt16.ofNat j)
  have hnodup : tried.Nodup := by
    apply List.Nodup.map_on _ List.nodup_range
    intro a ha b hb hab
    rw [List.mem_range] at ha hb
    have hsum := congrArg wordSwap hab
    rw [wordSwap_wordSwap, wordSwap_wordSwap] at hsum
    have hnat := congrArg UInt16.toNat (UInt16.add_right_inj start |>.mp hsum)
    rwa [UInt16.toNat_ofNat', UInt16.toNat_ofNat', Nat.mod_eq_of_lt (by omega),
      Nat.mod_eq_of_lt (by omega)] at hnat
  have hsub : tried ⊆ numbers := by
    intro n hn
    obtain ⟨j, hj, rfl⟩ := List.mem_map.mp hn
    exact hmem j (List.mem_range.mp hj)
  have hle := (hnodup.subperm hsub).length_le
  rw [List.length_map, List.length_range] at hle
  omega

theorem ipxOpenSocket_isSome (s : Layer) (b : UInt8 × UInt8) (ty : UInt8) :
    (ipxOpenSocket s b ty).isSome := by
  unfold ipxOpenSocket
  split
  · rfl
  · rename_i hlen
    split
    · rw [Option.isSome_map]
      have hnumbers : s.numbers.length = s.socketTable.length := List.length_map ..
      rw [← hnumbers]
      apply freeNumber_isSome
      rw [hnumbers]
      unfold socketTableLength at hlen
      omega
    · split <;> rfl

theorem open_spec {b : UInt8 × UInt8} {ty : UInt8} {o : Opened} (hs : SocketsOk s)
    (hstart : s.startSocket = 0x4000) (hok : SocketOk s (.openSocket b ty))
    (hopen : ipxOpenSocket s b ty = some (t, o)) :
    (SocketsOk t ∧ t.startSocket = 0x4000) ∧ Serves s t (.openSocket b ty) := by
  have hcase := hopen
  unfold ipxOpenSocket at hcase
  split at hcase
  · obtain ⟨rfl, rfl⟩ := Prod.mk.inj (Option.some.inj hcase)
    refine ⟨⟨hs, hstart⟩, _, hopen, fun hc _ ↦ ?_⟩
    exact absurd hc (show socketTableFull ≠ successful by decide)
  · rename_i hlen
    split at hcase
    · rename_i hany
      have hfree := hok (Nat.lt_of_not_le hlen) hany
      have hsearch : freeNumber s.numbers (s.socketTable.length + 1) s.startSocket 0 =
          some s.startSocket := by
        have hnumbers : s.numbers.length = s.socketTable.length := List.length_map ..
        rw [← hnumbers]
        exact freeNumber_unused hfree
      rw [hsearch, Option.map_some] at hcase
      obtain ⟨rfl, rfl⟩ := Prod.mk.inj (Option.some.inj hcase)
      refine ⟨⟨opened_spec hs hfree rfl rfl rfl rfl, hstart⟩, _, hopen, fun _ _ ↦ ?_⟩
      -- the second byte of the first dynamic number is the 0 that the caller asked with
      simp only [Layer.numbers, List.map_append, List.map_singleton, hstart, nget16_eq_any hany]
      congr 1
    · rename_i hany
      split at hcase
      · obtain ⟨rfl, rfl⟩ := Prod.mk.inj (Option.some.inj hcase)
        exact ⟨⟨hs, hstart⟩, _, hopen, fun _ h ↦ absurd h hany⟩
      · rename_i hnot
        obtain ⟨rfl, rfl⟩ := Prod.mk.inj (Option.some.inj hcase)
        refine ⟨⟨opened_spec hs hnot rfl rfl rfl rfl, hstart⟩, _, hopen, fun _ h ↦ absurd h hany⟩

/-! ## Runs -/

theorem startSocket_listen (s : Layer) (e : Ptr) :
    (ipxListenForPacket s e).startSocket = s.startSocket := by
  unfold ipxListenForPacket
  dsimp only
  generalize (if s.socketTable.length < socketTableLength then
    lookup (s.ecb e).socketNumber s.socketTable else none) = found
  cases found with
  | none => rfl
  | some k =>
      show Layer.startSocket (if _ then _ else _) = _
      split <;> rfl

theorem startSocket_cancel (s : Layer) (e : Ptr) :
    (ipxCancelEvent s e).1.startSocket = s.startSocket := by
  unfold ipxCancelEvent
  dsimp only
  generalize lookup (s.ecb e).socketNumber s.socketTable = found
  cases found <;> rfl

theorem startSocket_input (s : Layer) (p : Packet) :
    (ipxInput s p).startSocket = s.startSocket := by
  unfold ipxInput
  cases lookup (nget16 p.destination) s.socketTable with
  | none => rfl
  | some k =>
      show Layer.startSocket (if k.ecbLinkList = 0 then s else _) = _
      split
      · rfl
      · show Layer.startSocket (if _ then _ else _) = _
        split <;> rfl

theorem step_spec {op : Op} (hs : SocketsOk s) (hstart : s.startSocket = 0x4000)
    (hok : SocketOk s op) (hstep : step s op = some t) :
    (SocketsOk t ∧ t.startSocket = 0x4000) ∧ Serves s t op := by
  cases op with
  | openSocket b ty =>
      obtain ⟨⟨u, o⟩, hopen, rfl⟩ := Option.map_eq_some_iff.mp hstep
      exact open_spec hs hstart hok hopen
  | setup e n fs =>
      obtain ⟨⟨-, ho⟩, hnext⟩ := Option.ite_none_right_eq_some.mp hstep
      obtain rfl := Option.some.inj hnext
      refine ⟨⟨hs.frame rfl ho ?_ fun x hx ↦ ⟨Function.update_of_ne hx .., rfl⟩, hstart⟩, trivial⟩
      intro h
      refine ho ⟨?_, h.2⟩
      have hflag := h.1
      simp only [Layer.setECB, Function.update_self] at hflag
      exact hflag
  | reset e =>
      obtain ⟨⟨-, ho⟩, hnext⟩ := Option.ite_none_right_eq_some.mp hstep
      obtain rfl := Option.some.inj hnext
      refine ⟨⟨hs.frame rfl ho ?_ fun x hx ↦ ⟨Function.update_of_ne hx .., rfl⟩, hstart⟩, trivial⟩
      intro h
      have hflag := h.1
      simp only [Layer.setECB, Function.update_self] at hflag
      exact absurd hflag (by decide)
  | listen e =>
      obtain ⟨⟨he, ho⟩, hnext⟩ := Option.ite_none_right_eq_some.mp hstep
      obtain rfl := Option.some.inj hnext
      obtain ⟨hlisten, hserves⟩ := listen_spec hs he ho hok
      exact ⟨⟨hlisten, (startSocket_listen s e).trans hstart⟩, hserves⟩
  | cancel e =>
      obtain ⟨he, hnext⟩ := Option.ite_none_right_eq_some.mp hstep
      obtain rfl := Option.some.inj hnext
      obtain ⟨hcancel, hserves⟩ := cancel_spec hs he hok
      exact ⟨⟨hcancel, (startSocket_cancel s e).trans hstart⟩, hserves⟩
  | input p =>
      obtain rfl := Option.some.inj hstep
      exact ⟨⟨input_spec hs p, (startSocket_input s p).trans hstart⟩, trivial⟩

/-- In every run whose operations all do what they are for, the layer keeps its lists, opening
returns, and so does the next such operation serve its caller. -/
theorem socket_layer_of_socketOk (ecb : Ptr → ECB) (ops : List Op) (s : Layer)
    (hok : (sockets ecb).Along SocketOk (ipxInitialize ecb) ops)
    (hrun : (sockets ecb).run ops = some s) :
    SocketsOk s ∧ (∀ b ty, (ipxOpenSocket s b ty).isSome) ∧
      ∀ op t, SocketOk s op → step s op = some t → Serves s t op := by
  let inv : Layer → Prop := fun s ↦ SocketsOk s ∧ s.startSocket = 0x4000
  have hstep : ∀ s op t, inv s → SocketOk s op → (sockets ecb).step s op = some t → inv t :=
    fun s op t hi ho hstep ↦ (step_spec hi.1 hi.2 ho hstep).1
  have hinv : inv s := Machine.run_invariant ⟨ipxInitialize_ok ecb, rfl⟩ hstep hok hrun
  refine ⟨hinv.1, ipxOpenSocket_isSome s, fun op t ho hstep ↦ ?_⟩
  exact (step_spec hinv.1 hinv.2 ho hstep).2

def blankECB : Ptr → ECB := fun _ ↦ ⟨0, okay, okay, 0, 0, [], []⟩

/-- A dynamic socket with two ECBs: the later one is cancelled and the other one is filled. -/
theorem socket_layer_two_ecbs :
    ∃ s, (sockets blankECB).run [.openSocket (0, 0) 0, .setup 1 0x40 [⟨some [1, 2, 3], 2, 0⟩],
        .listen 1, .setup 2 0x40 [], .listen 2, .cancel 2, .input ⟨0, [], (0x40, 0), [7, 8, 9]⟩] =
          some s ∧ (s.ecb 1).fragments = [⟨some [7, 8, 3], 2, 2⟩] ∧ SocketsOk s :=
  ⟨_, rfl, by decide, (socket_layer_of_socketOk blankECB [.openSocket (0, 0) 0,
    .setup 1 0x40 [⟨some [1, 2, 3], 2, 0⟩], .listen 1, .setup 2 0x40 [], .listen 2, .cancel 2,
    .input ⟨0, [], (0x40, 0), [7, 8, 9]⟩] _ (by decide) rfl).1⟩

/-- Cancelling the older of two ECBs loses the other one, which still says that it receives. -/
theorem cancel_loses_ecb :
    ¬ ∀ (ecb : Ptr → ECB) (ops : List Op) (s : Layer), (sockets ecb).run ops = some s →
        SocketsOk s ∧ (∀ b ty, (ipxOpenSocket s b ty).isSome) ∧
          ∀ op t, step s op = some t → Serves s t op := by
  intro h
  obtain ⟨hs, -⟩ := h blankECB [.openSocket (0x40, 0) 0, .setup 1 0x40 [], .listen 1,
    .setup 2 0x40 [], .listen 2, .cancel 1] _ rfl
  have hmem := hs.listed 0x40 [] ⟨_, List.mem_cons_self, rfl, rfl⟩ 2
  exact List.not_mem_nil (hmem.mpr ⟨by decide, by decide, by decide⟩)

/-- The second dynamic number is 0x4001 on the wire, and the caller is told 0x4000. -/
example : (((sockets blankECB).run [.openSocket (0, 0) 0]).bind fun s ↦
    (ipxOpenSocket s (0, 0) 0).map fun r ↦ (r.1.numbers, nget16 r.2.socketNumber)) =
      some ([0x0040, 0x0140], 0x0040) := by decide

/-- The search that passes 0x4000 by does not look at the first entry again. -/
example : ((sockets blankECB).run [.openSocket (0x40, 1) 0, .openSocket (0, 0) 0,
    .openSocket (0, 0) 0]).map Layer.numbers = some [0x0140, 0x0040, 0x0140] := by decide

end PrintServer.Ipx
