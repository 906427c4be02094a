import PrintServer.Kernel.Release

/-!
# The heap over its calls

`kmallocinit` chains the blocks of the heap, but closes the ring at the header of the packet heap.
What stands in memory behind the last block decides whether the free list is a ring; if it is one,
all calls keep it.
-/

namespace PrintServer.Kernel

open Lib

/-- The chunks `l` are the free list, next to the pointers handed out. -/
structure IsFreeList (h : Heap) (l live : List Nat) : Prop where
  circular : Follows h.next (kBase :: (l ++ [kBase]))
  ordered : (kBase :: l).Pairwise (· < ·)
  disjoint : l.Pairwise (Apart h)
  inside : ∀ a ∈ l, 1 ≤ h.mcbSize a ∧
    ∃ i < kmemBlocks, kFarHeap i ≤ a ∧ h.ends a ≤ kFarHeap i + block2Size
  unused : ∀ a ∈ l, ∀ block ∈ live, Apart h a (header block)
  joined : (kBase :: (l ++ [kBase])).IsChain fun a b ↦ h.ends a ≠ b

def FreeListOk (h : Heap) (live : List Nat) : Prop := ∃ l, IsFreeList h l live

variable {ram h h' : Heap} {nodes live l : List Nat} {a b c p x block : Nat}

theorem Inv.isFreeList (hi : Inv h (kBase :: l) (live.map header)) : IsFreeList h l live := by
  have hsorted := hi.sorted
  have habove := (List.pairwise_cons.mp hsorted).1
  have hbelow := List.pairwise_cons.mp hi.below
  have hchunk : ∀ a ∈ l, Chunk h a := by
    intro a ha
    have hlt := habove a ha
    exact hi.chunk a (List.mem_cons_of_mem kBase ha) (by omega)
  refine ⟨hi.follows, hsorted, hbelow.2.imp fun hlt ↦ Or.inl (Nat.le_of_lt hlt), ?_, ?_, ?_⟩
  · intro a ha
    obtain ⟨hpos, i, hi, hlo, hhi⟩ := hchunk a ha
    exact ⟨hpos, i, hi, hlo, Nat.le_trans hhi (Nat.add_le_add_left (by decide) _)⟩
  · intro a ha block hblock
    by_cases hbase : header block = kBase
    · rw [hbase]
      exact Or.inr (Nat.le_of_lt (hbelow.1 a ha))
    · have howned := hi.owned (header block) (List.mem_map_of_mem hblock) hbase
      exact howned.2.2 a (List.mem_cons_of_mem kBase ha)
  · -- no chunk ends at `kBase`, which is below all of them
    have hchain : (kBase :: l).IsChain fun a b ↦ h.ends a ≠ b :=
      (hi.below.imp fun hlt ↦ Nat.ne_of_lt hlt).isChain
    apply List.isChain_append.mpr ⟨hchain, List.isChain_singleton kBase, ?_⟩
    intro a ha b hb
    have hgt := hi.ends_gt (List.mem_of_getLast? ha)
    have hle : kBase ≤ a := by
      rcases List.mem_cons.mp (List.mem_of_getLast? ha) with rfl | ha
      · exact Nat.le_refl kBase
      · exact Nat.le_of_lt (habove a ha)
    cases hb
    omega

theorem Inv.freeListOk (hi : Inv h nodes (live.map header)) : FreeListOk h live := by
  obtain ⟨l, rfl⟩ := hi.exists_cons
  exact ⟨l, hi.isFreeList⟩

/-! ## Calls -/

theorem Inv.sublist {live' : List Nat} (hi : Inv h nodes live) (hsub : live'.Sublist live) :
    Inv h nodes live' :=
  { hi with
    owned := fun c hc ↦ hi.owned c (hsub.subset hc)
    ownedApart := hi.ownedApart.sublist hsub }

theorem owned_symm (hab : a = kBase ∨ b = kBase ∨ Apart h a b) :
    b = kBase ∨ a = kBase ∨ Apart h b a := by
  rcases hab with ha | hb | hab
  · exact Or.inr (Or.inl ha)
  · exact Or.inl hb
  · exact Or.inr (Or.inr hab.symm)

theorem Inv.perm {live' : List Nat} (hi : Inv h nodes live) (hperm : live.Perm live') :
    Inv h nodes live' :=
  { hi with
    owned := fun c hc ↦ hi.owned c (hperm.mem_iff.mpr hc)
    ownedApart := (hperm.pairwise_iff owned_symm).mp hi.ownedApart }

/-- A header that is its own ring has no place on it. -/
theorem findPlace_self {fuel : Nat} (hc : h.next c = c) : findPlace h c fuel c = none := by
  induction fuel with
  | zero => rfl
  | succ fuel ih =>
    unfold findPlace
    rw [hc, if_neg (by omega), if_neg (by omega)]
    exact ih

theorem Inv.kfree {fuel : Nat} (hi : Inv h nodes (live.map header)) (hblock : block ∈ live) :
    (∀ h', kfree fuel block false h = some h' →
      ∃ nodes', Inv h' nodes' ((live.erase block).map header)) ∧
      (header block ≠ kBase → nodes.length ≤ fuel → (kfree fuel block false h).isSome) := by
  have hkept := hi.sublist ((List.erase_sublist (a := block) (l := live)).map header)
  unfold Kernel.kfree
  by_cases hnull : block = 0
  · rw [if_pos hnull]
    refine ⟨fun h' hh' ↦ ?_, fun _ _ ↦ rfl⟩
    cases hh'
    exact ⟨nodes, hkept⟩
  · by_cases haudit : h.next (header block) ≠ header block
    · simp only [if_neg hnull, if_pos haudit]
      refine ⟨fun h' hh' ↦ ?_, fun _ _ ↦ rfl⟩
      cases hh'
      exact ⟨nodes, hkept⟩
    · simp only [if_neg hnull, if_neg haudit, Bool.false_eq_true, if_false]
      generalize hh : ({ h with kAvailmem := _ } : Heap) = g
      have hg : Inv g nodes (header block :: (live.erase block).map header) := by
        rw [← hh]
        exact (hi.perm ((List.perm_cons_erase hblock).map header)).congr
          (fun _ _ ↦ ⟨rfl, rfl⟩) rfl rfl
      have hgnext : g.next = h.next := by rw [← hh]
      rw [hi.allocp]
      by_cases hbase : header block = kBase
      · -- the walk for `kBase` does not end
        have hnone : Kernel.findPlace g kBase fuel kBase = none := by
          apply findPlace_self
          rw [hgnext, ← hbase]
          exact Decidable.not_not.mp haudit
        rw [hbase, hnone]
        exact ⟨nofun, fun hne ↦ absurd rfl hne⟩
      · obtain ⟨l, rfl⟩ := hg.exists_cons
        obtain ⟨hback, hend⟩ := @Inv.back _ _ _ _ fuel hg hbase
        refine ⟨fun h' hh' ↦ ?_, fun _ hlen ↦ ?_⟩
        · obtain ⟨f, hf, rfl⟩ := Option.map_eq_some_iff.mp hh'
          obtain ⟨nodes', hinv, -⟩ := hback f hf
          exact ⟨nodes', hinv⟩
        · rw [Option.isSome_map]
          exact hend hlen

/-! ## kmallocinit -/

theorem kFarHeap_ne {i j : Nat} (hij : i ≠ j) : kFarHeap i ≠ kFarHeap j := by
  unfold kFarHeap
  omega

theorem kFarHeap_gt (i : Nat) : kPktBase < kFarHeap i := by
  unfold kFarHeap kFarHeapBase kPktBase
  omega

/-- The first `n` blocks are linked, `r.2` is the last of them. -/
structure Linking (h : Heap) (n : Nat) (r : Heap × Nat) : Prop where
  last : ∃ u, kBase :: (List.range n).map kFarHeap = u ++ [r.2] ∧ r.2 ∉ u
  follows : Follows r.1.next (kBase :: (List.range n).map kFarHeap)
  size : ∀ i < n, r.1.mcbSize (kFarHeap i) = 5461
  base : r.1.mcbSize kBase = h.mcbSize kBase
  next : ∀ i, n ≤ i + 1 → r.1.next (kFarHeap i) = h.next (kFarHeap i)
  allocp : r.1.kAllocp = h.kAllocp

theorem linkBlocks_linking (h : Heap) (n : Nat) : Linking h n (linkBlocks h n) := by
  induction n with
  | zero =>
    exact ⟨⟨[], rfl, List.not_mem_nil⟩, List.isChain_singleton kBase, nofun, rfl,
      fun _ _ ↦ rfl, rfl⟩
  | succ n ih =>
    have hstep : linkBlocks h (n + 1) = linkBlock (linkBlocks h n) n := by
      unfold linkBlocks
      rw [List.range_succ, List.foldl_append]
      rfl
    generalize linkBlocks h n = r at ih hstep
    obtain ⟨u, hu, hlast⟩ := ih.last
    have hnodes : kBase :: (List.range (n + 1)).map kFarHeap = (u ++ [r.2]) ++ [kFarHeap n] := by
      rw [List.range_succ, List.map_append, ← List.cons_append, hu]
      rfl
    -- the new block is not yet on the chain
    have hfresh : ∀ i, n ≤ i → kFarHeap i ∉ u ++ [r.2] := by
      intro i hi hmem
      rw [← hu] at hmem
      rcases List.mem_cons.mp hmem with hbase | hmem
      · have hgt := kFarHeap_gt i
        rw [hbase] at hgt
        revert hgt
        decide
      · obtain ⟨j, hj, heq⟩ := List.mem_map.mp hmem
        exact kFarHeap_ne (by have := List.mem_range.mp hj; omega) heq
    have hsize : ∀ x, x ≠ kFarHeap n → (linkBlock r n).1.mcbSize x = r.1.mcbSize x :=
      fun x hx ↦ Heap.mcbSize_setSize_of_ne hx
    have hnext : ∀ x, x ≠ r.2 → (linkBlock r n).1.next x = r.1.next x :=
      fun x hx ↦ Heap.next_setNext_of_ne hx
    have hlink : (linkBlock r n).1.next r.2 = kFarHeap n := Heap.next_setNext_self
    rw [hstep]
    refine ⟨⟨u ++ [r.2], hnodes, hfresh n (Nat.le_refl n)⟩, ?_, ?_, ?_, ?_, ih.allocp⟩
    · rw [hnodes, List.append_assoc]
      have hfollows := ih.follows
      rw [hu] at hfollows
      apply follows_split.mpr
      refine ⟨hfollows.congr fun y hy ↦ hnext y fun heq ↦ hlast (heq ▸ hy), ?_⟩
      exact follows_cons_cons.mpr ⟨hlink, List.isChain_singleton _⟩
    · intro i hi
      by_cases hin : i = n
      · rw [hin]
        exact Heap.mcbSize_setSize_self
      · rw [hsize _ (kFarHeap_ne hin)]
        exact ih.size i (by omega)
    · have hgt := kFarHeap_gt n
      have hlt : kBase < kPktBase := by decide
      rw [hsize kBase (by omega)]
      exact ih.base
    · intro i hi
      rw [hnext _ fun heq ↦ hfresh i (by omega) (by rw [heq]; simp)]
      exact ih.next i (by omega)

/-- The blocks of the heap. -/
def blocks : List Nat := (List.range kmemBlocks).map kFarHeap

theorem mem_blocks : a ∈ blocks ↔ ∃ i < kmemBlocks, kFarHeap i = a := by
  unfold blocks
  simp only [List.mem_map, List.mem_range]

theorem mem_chain_ne (hx : x ∈ kBase :: blocks) : x ≠ kPktBase := by
  rcases List.mem_cons.mp hx with rfl | hx
  · decide
  · obtain ⟨i, -, rfl⟩ := mem_blocks.mp hx
    exact Nat.ne_of_gt (kFarHeap_gt i)

theorem kmallocinit_linking (ram : Heap) : ∃ r : Heap × Nat,
    Linking { ram.setSize kBase 1 with kAllocp := kBase } kmemBlocks r ∧
      kmallocinit ram = { ({ r.1 with kPktAllocp := kPktBase } : Heap).setNext kPktBase kBase with
        kminiAvailmem := r.1.kAvailmem } :=
  ⟨linkBlocks { ram.setSize kBase 1 with kAllocp := kBase } kmemBlocks,
    linkBlocks_linking _ kmemBlocks, by unfold kmallocinit; rfl⟩

/-- `kmallocinit` links the blocks, but leaves the link of the last one. -/
theorem kmallocinit_follows (ram : Heap) : Follows (kmallocinit ram).next (kBase :: blocks) := by
  obtain ⟨r, hlink, heq⟩ := kmallocinit_linking ram
  obtain ⟨u, hu, -⟩ := hlink.last
  have hfollows : Follows r.1.next (kBase :: blocks) := hlink.follows
  have hmem := @mem_chain_ne
  change kBase :: blocks = _ at hu
  rw [hu] at hfollows hmem ⊢
  rw [heq]
  apply hfollows.congr
  intro y hy
  exact Heap.next_setNext_of_ne (hmem (List.mem_append_left _ hy))

theorem kmallocinit_last (ram : Heap) : (kmallocinit ram).next (kFarHeap (kmemBlocks - 1)) =
    ram.next (kFarHeap (kmemBlocks - 1)) := by
  obtain ⟨r, hlink, heq⟩ := kmallocinit_linking ram
  rw [heq]
  change (r.1.setNext kPktBase kBase).next (kFarHeap (kmemBlocks - 1)) = _
  rw [Heap.next_setNext_of_ne (Nat.ne_of_gt (kFarHeap_gt _))]
  exact hlink.next _ (by decide)

theorem kmallocinit_size (ram : Heap) {i : Nat} (hi : i < kmemBlocks) :
    (kmallocinit ram).mcbSize (kFarHeap i) = 5461 := by
  obtain ⟨r, hlink, heq⟩ := kmallocinit_linking ram
  rw [heq]
  exact hlink.size i hi

theorem kmallocinit_base (ram : Heap) : (kmallocinit ram).mcbSize kBase = 1 := by
  obtain ⟨r, hlink, heq⟩ := kmallocinit_linking ram
  rw [heq]
  apply hlink.base.trans
  exact @Heap.mcbSize_setSize_self ram kBase 1

theorem kmallocinit_allocp (ram : Heap) :
    (kmallocinit ram).kAllocp = kBase ∧ (kmallocinit ram).kPktAllocp = kPktBase := by
  obtain ⟨r, hlink, heq⟩ := kmallocinit_linking ram
  rw [heq]
  exact ⟨hlink.allocp, rfl⟩

theorem blocks_eq : blocks = (List.range (kmemBlocks - 1)).map kFarHeap ++
    [kFarHeap (kmemBlocks - 1)] := by
  unfold blocks
  rw [show kmemBlocks = kmemBlocks - 1 + 1 from rfl, List.range_succ, List.map_append]
  rfl

theorem kmallocinit_inv (hring : ram.next (kFarHeap (kmemBlocks - 1)) = kBase) :
    Inv (kmallocinit ram) (kBase :: blocks) [] := by
  have hbase := kmallocinit_base ram
  have hends : ∀ i < kmemBlocks, (kmallocinit ram).ends (kFarHeap i) = kFarHeap i + 65532 := by
    intro i hi
    unfold Heap.ends
    rw [kmallocinit_size ram hi]
    rfl
  refine ⟨rfl, ?_, ?_, ?_, hbase, nofun, List.Pairwise.nil,
    (kmallocinit_allocp ram).1, (kmallocinit_allocp ram).2⟩
  · have hfollows := kmallocinit_follows ram
    rw [blocks_eq] at hfollows ⊢
    rw [← List.cons_append] at hfollows ⊢
    rw [List.append_assoc]
    apply follows_split.mpr ⟨hfollows, ?_⟩
    apply follows_cons_cons.mpr ⟨?_, List.isChain_singleton kBase⟩
    rw [kmallocinit_last, hring]
  · apply List.pairwise_cons.mpr
    constructor
    · intro a ha
      obtain ⟨i, -, rfl⟩ := mem_blocks.mp ha
      have hgt := kFarHeap_gt i
      unfold Heap.ends sizeofMCB
      rw [hbase]
      unfold kPktBase at hgt
      unfold kBase
      omega
    · unfold blocks
      rw [List.pairwise_map]
      apply List.pairwise_lt_range.imp_of_mem
      intro i j hi _ hij
      rw [hends i (List.mem_range.mp hi)]
      unfold kFarHeap
      omega
  · intro a ha habase
    obtain ⟨i, hi, rfl⟩ := mem_blocks.mp ((List.mem_cons.mp ha).resolve_left habase)
    refine ⟨?_, i, hi, Nat.le_refl _, Nat.le_of_eq (hends i hi)⟩
    rw [kmallocinit_size ram hi]
    omega

/-- The free list of `kmallocinit` is a ring only if the memory closes it. -/
theorem closed_of_freeListOk (hok : FreeListOk (kmallocinit ram) []) :
    ram.next (kFarHeap (kmemBlocks - 1)) = kBase := by
  obtain ⟨l, hl⟩ := hok
  have hmem : kBase ∉ blocks := by
    intro hmem
    obtain ⟨i, -, heq⟩ := mem_blocks.mp hmem
    have hgt := kFarHeap_gt i
    rw [heq] at hgt
    revert hgt
    decide
  obtain ⟨v, rfl⟩ := hl.circular.exists_append (kmallocinit_follows ram) hmem
  have hshape : kBase :: (blocks ++ v ++ [kBase]) =
      (kBase :: (List.range (kmemBlocks - 1)).map kFarHeap) ++
        kFarHeap (kmemBlocks - 1) :: (v ++ [kBase]) := by
    rw [blocks_eq]
    simp
  have hlink := hl.circular
  rw [hshape, follows_split] at hlink
  rw [← kmallocinit_last ram]
  cases v with
  | nil => exact (follows_cons_cons.mp hlink.2).1
  | cons x v =>
    -- no chunk has room behind the last block
    exfalso
    have hlast : kFarHeap (kmemBlocks - 1) ∈ blocks := by
      rw [blocks_eq]
      simp
    obtain ⟨hpos, i, hi, -, hhi⟩ := hl.inside x (by simp)
    have hlt := (List.pairwise_append.mp (List.pairwise_cons.mp hl.ordered).2).2.2 _ hlast x
      List.mem_cons_self
    have hapart := (List.pairwise_append.mp hl.disjoint).2.2 _ hlast x List.mem_cons_self
    unfold Apart Heap.ends sizeofMCB at hapart
    rw [kmallocinit_size ram (by decide)] at hapart
    unfold Heap.ends sizeofMCB at hhi
    unfold kFarHeap block2Size at *
    change i < 32 at hi
    change kFarHeapBase + 31 * 65536 < x at hlt
    change kFarHeapBase + 31 * 65536 + _ ≤ x ∨ _ ≤ kFarHeapBase + 31 * 65536 at hapart
    omega

/-! ## All runs -/

theorem Inv.kBase_or_chunk (hi : Inv h nodes live) (hx : x ∈ nodes ++ live) :
    x = kBase ∨ Chunk h x := by
  by_cases hbase : x = kBase
  · exact Or.inl hbase
  · rcases List.mem_append.mp hx with hx | hx
    · exact Or.inr (hi.chunk x hx hbase)
    · exact Or.inr (hi.owned x hx hbase).1

/-- The owner of a block reaches no header of the heap. -/
theorem Inv.not_touches (hi : Inv h nodes live) (hc : c ∈ live) (hx : x ∈ nodes ++ live) :
    ¬ Touches h c x := by
  rintro ⟨hlo, hhi⟩
  have hxkind := hi.kBase_or_chunk hx
  by_cases hbase : c = kBase
  · -- there is no room behind `kBase`
    rw [hbase, hi.ends_kBase] at hhi
    rcases hxkind with rfl | hchunk
    · omega
    · have hxlo := hchunk.bounds.1
      unfold kFarHeapBase at hxlo
      unfold kBase at hhi
      omega
  · obtain ⟨hcchunk, -, hcapart⟩ := hi.owned c hc hbase
    have hclo := hcchunk.bounds.1
    unfold kFarHeapBase at hclo
    have hxbase : x ≠ kBase := by
      unfold kBase
      omega
    have hgt := (hxkind.resolve_left hxbase).ends_gt
    have hapart : Apart h x c := by
      rcases List.mem_append.mp hx with hx | hx
      · exact hcapart x hx
      · have : Std.Symm fun a b ↦ a = kBase ∨ b = kBase ∨ Apart h a b :=
          ⟨fun _ _ ↦ owned_symm⟩
        have hpair := hi.ownedApart.forall hx hc (by omega)
        exact (hpair.resolve_left hxbase).resolve_left hbase
    unfold Apart at hapart
    omega

theorem reaches_inv (hring : ram.next (kFarHeap (kmemBlocks - 1)) = kBase)
    (hrun : Reaches ram h live) : ∃ nodes, Inv h nodes (live.map header) := by
  induction hrun with
  | init => exact ⟨_, kmallocinit_inv hring⟩
  | alloc _ _ hcall ih =>
    obtain ⟨nodes, hi⟩ := ih
    rcases hi.kmalloc.1 _ hcall with heq | ⟨hne, nodes', hi'⟩
    · cases heq
      exact ⟨nodes, hi⟩
    · rw [if_neg hne]
      exact ⟨nodes', hi'⟩
  | free _ hblock hcall ih =>
    obtain ⟨nodes, hi⟩ := ih
    exact (hi.kfree hblock).1 _ hcall
  | store _ hsame ih =>
    obtain ⟨nodes, hi⟩ := ih
    refine ⟨nodes, hi.congr (fun x hx ↦ hsame x fun block hblock ↦ ?_) rfl rfl⟩
    exact hi.not_touches (List.mem_map_of_mem hblock) hx

/-- All calls keep the free list if and only if the first word of the last block of the heap, which
`kmallocinit` does not write, is the address of `kBase`.  Then the calls also return, but for
`kfree` of the header `kBase` itself. -/
theorem free_list_ok_iff (ram : Heap) :
    ((∀ h live, Reaches ram h live → FreeListOk h live) ↔
      ram.next (kFarHeap (kmemBlocks - 1)) = kBase) ∧
    (ram.next (kFarHeap (kmemBlocks - 1)) = kBase → ∀ h live, Reaches ram h live →
      (∀ nb, ∃ fuel, (kmalloc fuel nb false h).isSome) ∧
        ∀ block ∈ live, header block ≠ kBase → ∃ fuel, (kfree fuel block false h).isSome) := by
  refine ⟨⟨fun hok ↦ closed_of_freeListOk (hok _ _ .init), fun hring h live hrun ↦ ?_⟩, ?_⟩
  · obtain ⟨nodes, hi⟩ := reaches_inv hring hrun
    exact hi.freeListOk
  · intro hring h live hrun
    obtain ⟨nodes, hi⟩ := reaches_inv hring hrun
    refine ⟨fun nb ↦ ⟨nodes.length, hi.kmalloc.2 (Nat.le_refl _)⟩, fun block hblock hne ↦ ?_⟩
    exact ⟨nodes.length, (hi.kfree hblock).2 hne (Nat.le_refl _)⟩

/-- Memory that is zero. -/
def zeroRam : Heap := ⟨fun _ ↦ 0, fun _ ↦ 0, 0, 0, 0, 0, 0⟩

/-- With zeroes in the last block, `kmallocinit` leaves no ring. -/
theorem free_list_open : ¬ ∀ h live, Reaches zeroRam h live → FreeListOk h live := by
  intro hok
  have hclosed := closed_of_freeListOk (hok _ _ .init)
  revert hclosed
  decide

end PrintServer.Kernel
