import PrintServer.Kernel.HeapRuns

/-!
# The memory of the heap is conserved

The chunks on the free list and those handed out are always what `kmallocinit` laid out, cut or
joined: `kAvailmem` counts the free ones, and when all blocks are back the free list is the one of
`kmallocinit` again.
-/

namespace PrintServer.Kernel

open Lib

/-- The request ends.  It is refused if no chunk of the free list `l` is large enough, and else it
gets a block of its own. -/
def Served (h : Heap) (l live : List Nat) (nb : UInt32) : Prop :=
  ∃ rounds, ∀ fuel ≥ rounds, ∃ block h', kmalloc fuel nb false h = some (block, h') ∧
    (block = 0 ↔ nb = 0 ∨ ∀ a ∈ l, h.mcbSize a < btou nb) ∧
    (block ≠ 0 → block + nb.toNat ≤ h'.ends (header block) ∧
      ∀ other ∈ live, Apart h' (header block) (header other))

/-- The call of `kfree` ends. -/
def Returns (h : Heap) (block : Nat) : Prop :=
  ∃ rounds, ∀ fuel ≥ rounds, (kfree fuel block false h).isSome

/-- What is to hold of the heap with the free list `l` next to the pointers handed out. -/
structure Conserved (h : Heap) (l live : List Nat) : Prop where
  list : IsFreeList h l live
  count : h.kAvailmem.toNat = units h l
  served : ∀ nb, Served h l live nb ↔ nb.toNat + 11 < 2 ^ 32
  returns : ∀ block ∈ live, Returns h block
  whole : live = [] → l = blocks ∧ ∀ a ∈ blocks, h.mcbSize a = 5461

/-- The sizes asked for do not wrap around when they are rounded up. -/
abbrev Fitting (ram : Heap) : Heap → List Nat → Prop := Asking (fun nb ↦ nb.toNat + 11 < 2 ^ 32) ram

/-- The memory when the program starts, with the variables of the module at 0. -/
def atStart (next mcbSize : Nat → Nat) : Heap := ⟨next, mcbSize, 0, 0, 0, 0, 0⟩

variable {ram h h' : Heap} {nodes live l : List Nat} {a b c x block nu : Nat} {nb : UInt32}
  {r : Nat × Heap}

/-! ## The free list and the blocks in use -/

/-- The ring and the blocks in use make up what `kmallocinit` laid out. -/
structure Kept (h : Heap) (nodes live : List Nat) : Prop where
  inv : Inv h nodes (live.map header)
  real : ∀ block ∈ live, header block ≠ kBase
  count : h.kAvailmem.toNat + 1 = units h nodes
  cover : ∀ i < kmemBlocks, ∀ x, kFarHeap i ≤ x → x < kFarHeap i + 65532 →
    Covers h (nodes ++ live.map header) x

/-- The ring has fewer units than there are addresses. -/
theorem Inv.units_le (hi : Inv h nodes live) : 12 * units h nodes ≤ 0x7FFFFC := by
  have hends : ∀ a ∈ nodes, h.ends a ≤ 0x7FFFFC := by
    intro a ha
    by_cases hbase : a = kBase
    · rw [hbase, hi.ends_kBase]
      decide
    · exact (hi.chunk a ha hbase).bounds.2
  have hle := Kernel.units_le (fun a _ ↦ Nat.zero_le a) hends (by decide) hi.below
  omega

theorem Kept.congr (hk : Kept h nodes live)
    (hn : ∀ x ∈ nodes ++ live.map header, h'.next x = h.next x ∧ h'.mcbSize x = h.mcbSize x)
    (ha : h'.kAllocp = h.kAllocp) (hp : h'.kPktAllocp = h.kPktAllocp)
    (hc : h'.kAvailmem = h.kAvailmem) : Kept h' nodes live := by
  refine ⟨hk.inv.congr hn ha hp, hk.real, ?_, fun i hi x hlo hhi ↦ ?_⟩
  · rw [hc, units_congr fun a ha ↦ (hn a (List.mem_append_left _ ha)).2]
    exact hk.count
  · apply (covers_congr fun a ha ↦ (hn a ha).2).mpr
    exact hk.cover i hi x hlo hhi

/-- A chunk leaves the ring for the blocks in use. -/
theorem Kept.granted (hk : Kept h nodes live) (hg : Granted h nodes (live.map header) nu r) :
    ∃ nodes', Kept r.2 nodes' (r.1 :: live) := by
  obtain ⟨nodes', hinv, hconserves⟩ := hg.taken
  refine ⟨nodes', hinv, ?_, ?_, ?_⟩
  · intro block hblock
    rcases List.mem_cons.mp hblock with rfl | hblock
    · exact hg.real
    · exact hk.real block hblock
  · obtain ⟨l, rfl⟩ := hinv.exists_cons
    have hbound := hk.inv.units_le
    have hcount := hk.count
    have hunits := hconserves.units
    rw [units_cons, units_cons, hinv.base] at hunits
    have hsize : (UInt32.ofNat (r.2.mcbSize (header r.1))).toNat = r.2.mcbSize (header r.1) :=
      UInt32.toNat_ofNat_of_lt' (show _ < 2 ^ 32 by omega)
    rw [hg.count, UInt32.toNat_sub_of_le _ _ (UInt32.le_iff_toNat_le.mpr (by omega)), hsize,
      units_cons, hinv.base]
    omega
  · intro i hi x hlo hhi
    have hcover := hk.cover i hi x hlo hhi
    rw [covers_append] at hcover
    rw [List.map_cons, covers_append, covers_cons]
    rcases hcover with hfree | hused
    · rw [← hconserves.covers, covers_cons] at hfree
      tauto
    · have hsame : ∀ d ∈ live.map header, r.2.mcbSize d = h.mcbSize d := by
        intro d hd
        obtain ⟨block, hblock, rfl⟩ := List.mem_map.mp hd
        exact hg.kept _ hd (hk.real block hblock)
      exact Or.inr (Or.inr ((covers_congr hsame).mpr hused))

/-- A block in use goes back to the ring. -/
theorem Kept.kfree {fuel : Nat} (hk : Kept h nodes live) (hblock : block ∈ live) :
    (∀ h', kfree fuel block false h = some h' → ∃ nodes', Kept h' nodes' (live.erase block)) ∧
      (nodes.length ≤ fuel → (kfree fuel block false h).isSome) := by
  have hbase := hk.real block hblock
  refine ⟨fun h' hcall ↦ ?_, (hk.inv.kfree hblock).2 hbase⟩
  obtain ⟨hchunk, hself, -⟩ := hk.inv.owned _ (List.mem_map_of_mem hblock) hbase
  have hlo := hchunk.bounds.1
  have hnull : block ≠ 0 := by
    rintro rfl
    revert hlo
    decide
  unfold Kernel.kfree at hcall
  simp only [if_neg hnull, ne_eq, hself, not_true_eq_false, Bool.false_eq_true, if_false] at hcall
  have hperm := (List.perm_cons_erase hblock).map header
  generalize hg : ({ h with kAvailmem := _ } : Heap) = g at hcall
  have hinv : Inv g nodes (header block :: (live.erase block).map header) := by
    rw [← hg]
    exact (hk.inv.perm hperm).congr (fun _ _ ↦ ⟨rfl, rfl⟩) rfl rfl
  have hcount : g.kAvailmem = h.kAvailmem + UInt32.ofNat (h.mcbSize (header block)) := by
    rw [← hg]
  have hsize : g.mcbSize = h.mcbSize := by rw [← hg]
  rw [hk.inv.allocp] at hcall
  obtain ⟨l, rfl⟩ := hinv.exists_cons
  obtain ⟨f, hf, rfl⟩ := Option.map_eq_some_iff.mp hcall
  obtain ⟨nodes', hinv', hconserves, hkept⟩ := (hinv.back hbase).1 f hf
  have hunits : units g (kBase :: l) = units h (kBase :: l) := units_congr fun a _ ↦ by rw [hsize]
  refine ⟨nodes', hinv', fun block hmem ↦ hk.real block (List.mem_of_mem_erase hmem), ?_, ?_⟩
  · have hbound := hinv'.units_le
    have hcount' := hk.count
    rw [hconserves.units, units_cons, hsize, hunits] at hbound ⊢
    have hofNat : (UInt32.ofNat (h.mcbSize (header block))).toNat = h.mcbSize (header block) :=
      UInt32.toNat_ofNat_of_lt' (show _ < 2 ^ 32 by omega)
    rw [kAvailmem_join, hcount, UInt32.toNat_add, hofNat]
    omega
  · intro i hi x hlo hhi
    have hcover := hk.cover i hi x hlo hhi
    have hsplit : Covers h (live.map header) x ↔
        Covers h (header block :: (live.erase block).map header) x :=
      (Conserves.of_perm hperm fun _ _ ↦ rfl).covers x
    have hends : g.ends = h.ends := by
      unfold Heap.ends
      rw [hsize]
    have hsame : ∀ d ∈ (live.erase block).map header,
        (joinEnd (header block) f (joinFront (header block) f g)).mcbSize d = h.mcbSize d := by
      intro d hd
      obtain ⟨other, hother, rfl⟩ := List.mem_map.mp hd
      rw [hkept _ hd (hk.real other (List.mem_of_mem_erase hother)), hsize]
    have hfree : Covers g (kBase :: l) x ↔ Covers h (kBase :: l) x :=
      covers_congr fun a _ ↦ by rw [hsize]
    rw [covers_append, hsplit, @covers_cons h _ (header block)] at hcover
    rw [covers_append, hconserves.covers, covers_cons, covers_congr hsame, hfree, hends]
    tauto

/-! ## All runs -/

theorem linkBlocks_kAvailmem (h : Heap) (n : Nat) :
    (linkBlocks h n).1.kAvailmem = h.kAvailmem + UInt32.ofNat (5461 * n) := by
  induction n with
  | zero => exact (UInt32.add_zero h.kAvailmem).symm
  | succ n ih =>
    have hstep : linkBlocks h (n + 1) = linkBlock (linkBlocks h n) n := by
      unfold linkBlocks
      rw [List.range_succ, List.foldl_append]
      rfl
    rw [hstep]
    change (linkBlocks h n).1.kAvailmem + UInt32.ofNat 5461 = _
    rw [ih, UInt32.add_assoc, ← UInt32.ofNat_add, Nat.mul_succ]

theorem kmallocinit_kept {next mcbSize : Nat → Nat}
    (hring : next (kFarHeap (kmemBlocks - 1)) = kBase) :
    Kept (kmallocinit (atStart next mcbSize)) (kBase :: blocks) [] := by
  have hsize : ∀ a ∈ blocks, (kmallocinit (atStart next mcbSize)).mcbSize a = 5461 := by
    intro a ha
    obtain ⟨i, hi, rfl⟩ := mem_blocks.mp ha
    exact kmallocinit_size _ hi
  refine ⟨kmallocinit_inv hring, nofun, ?_, ?_⟩
  · have hcount : (kmallocinit (atStart next mcbSize)).kAvailmem =
        (linkBlocks _ kmemBlocks).1.kAvailmem := rfl
    have hunits : units (kmallocinit (atStart next mcbSize)) blocks =
        (blocks.map fun _ ↦ 5461).sum := congrArg List.sum (List.map_congr_left hsize)
    rw [hcount, linkBlocks_kAvailmem, units_cons, kmallocinit_base, hunits]
    change (0 + UInt32.ofNat (5461 * kmemBlocks)).toNat + 1 = 1 + (blocks.map fun _ ↦ 5461).sum
    decide
  · intro i hi x hlo hhi
    have hmem : kFarHeap i ∈ kBase :: blocks :=
      List.mem_cons_of_mem _ (mem_blocks.mpr ⟨i, hi, rfl⟩)
    refine ⟨kFarHeap i, List.mem_append_left _ hmem, hlo, ?_⟩
    unfold Heap.ends sizeofMCB
    rw [kmallocinit_size _ hi]
    exact hhi

theorem one_lt_btou (hnb : nb.toNat + 11 < 2 ^ 32) (hne : nb ≠ 0) : 1 < btou nb := by
  have hpos : nb.toNat ≠ 0 := fun hzero ↦ hne (UInt32.toNat_inj.mp hzero)
  rw [btou_eq]
  omega

theorem fitting_kept {next mcbSize : Nat → Nat}
    (hring : next (kFarHeap (kmemBlocks - 1)) = kBase)
    (hrun : Fitting (atStart next mcbSize) h live) : ∃ nodes, Kept h nodes live := by
  induction hrun with
  | init => exact ⟨_, kmallocinit_kept hring⟩
  | @alloc h h' live fuel nb block _ hfits hcall ih =>
    obtain ⟨nodes, hk⟩ := ih
    obtain ⟨l, rfl⟩ := hk.inv.exists_cons
    by_cases hnb : nb = 0
    · rw [hnb] at hcall
      cases hcall
      exact ⟨_, hk⟩
    · rcases (hk.inv.request hnb (one_lt_btou hfits hnb)).1 _ hcall with ⟨heq, -⟩ | ⟨hg, -⟩
      · cases heq
        exact ⟨_, hk⟩
      · have hblock : block = header block + 12 := hg.chunk.2
        rw [if_neg (by omega)]
        exact hk.granted hg
  | free _ hblock hcall ih =>
    obtain ⟨nodes, hk⟩ := ih
    exact (hk.kfree hblock).1 _ hcall
  | store _ hsame ih =>
    obtain ⟨nodes, hk⟩ := ih
    refine ⟨nodes, hk.congr (fun x hx ↦ hsame x fun block hblock ↦ ?_) rfl rfl rfl⟩
    exact hk.inv.not_touches (List.mem_map_of_mem hblock) hx

/-! ## What a kept heap does -/

theorem Inv.before_or_behind (hi : Inv h nodes live) (ha : a ∈ nodes) (hb : b ∈ nodes)
    (hne : a ≠ b) : h.ends a < b ∨ h.ends b < a := by
  have : Std.Symm fun x y ↦ h.ends x < y ∨ h.ends y < x := ⟨fun _ _ ↦ Or.symm⟩
  have hpair : nodes.Pairwise fun x y ↦ h.ends x < y ∨ h.ends y < x := hi.below.imp Or.inl
  exact hpair.forall ha hb hne

/-- With no block in use, each block of the heap is one chunk. -/
theorem Kept.oneChunk {i : Nat} (hk : Kept h (kBase :: l) []) (hi : i < kmemBlocks) :
    kFarHeap i ∈ l ∧ h.ends (kFarHeap i) = kFarHeap i + 65532 := by
  have hbase := hk.inv.ends_kBase
  have habove : ∀ j, kBase + 12 ≤ kFarHeap j := by
    intro j
    unfold kBase kFarHeap kFarHeapBase
    omega
  have hfree : ∀ x, kFarHeap i ≤ x → x < kFarHeap i + 65532 →
      ∃ a ∈ l, a ≤ x ∧ x < h.ends a ∧ kFarHeap i ≤ a ∧ h.ends a ≤ kFarHeap i + 65532 := by
    intro x hlo hhi
    obtain ⟨a, ha, hax, hxa⟩ := hk.cover i hi x hlo hhi
    rw [List.map_nil, List.append_nil] at ha
    have hne : a ≠ kBase := by
      rintro rfl
      have hle := habove i
      omega
    obtain ⟨-, j, hj, hlow, hhigh⟩ := hk.inv.chunk a ha hne
    have hij : i = j := by
      unfold kFarHeap at *
      omega
    rw [← hij] at hlow hhigh
    exact ⟨a, (List.mem_cons.mp ha).resolve_left hne, hax, hxa, hlow, hhigh⟩
  obtain ⟨a, ha, hax, -, hlo, hhi⟩ := hfree (kFarHeap i) (Nat.le_refl _) (by omega)
  obtain rfl : a = kFarHeap i := Nat.le_antisymm hax hlo
  refine ⟨ha, Nat.le_antisymm hhi (Nat.le_of_not_lt fun hshort ↦ ?_)⟩
  -- a chunk that begins where this one ends would have been joined
  have hgt := hk.inv.ends_gt (List.mem_cons_of_mem kBase ha)
  obtain ⟨b, hb, hbx, hxb, -⟩ := hfree (h.ends (kFarHeap i)) (by omega) hshort
  have hne : kFarHeap i ≠ b := by
    rintro rfl
    omega
  have hapart := hk.inv.before_or_behind (List.mem_cons_of_mem kBase ha)
    (List.mem_cons_of_mem kBase hb) hne
  omega

theorem Kept.whole (hk : Kept h (kBase :: l) []) :
    l = blocks ∧ ∀ a ∈ blocks, h.mcbSize a = 5461 := by
  have hbelow := List.pairwise_cons.mp hk.inv.sorted
  have hsub : ∀ a, a ∈ l ↔ a ∈ blocks := by
    intro a
    rw [mem_blocks]
    constructor
    · intro ha
      have hmem := List.mem_cons_of_mem kBase ha
      have hgt := hk.inv.ends_gt hmem
      obtain ⟨-, i, hi, hlo, hhi⟩ := hk.inv.chunk a hmem (Nat.ne_of_gt (hbelow.1 a ha))
      obtain ⟨hblock, hends⟩ := hk.oneChunk hi
      refine ⟨i, hi, by_contra fun hne ↦ ?_⟩
      have hapart := hk.inv.before_or_behind (List.mem_cons_of_mem kBase hblock) hmem hne
      omega
    · rintro ⟨i, hi, rfl⟩
      exact (hk.oneChunk hi).1
  have hsorted : blocks.Pairwise (· < ·) := by
    unfold blocks
    rw [List.pairwise_map]
    apply List.pairwise_lt_range.imp
    intro i j hij
    unfold kFarHeap
    omega
  have hnodup : l.Nodup := hbelow.2.imp fun hlt ↦ Nat.ne_of_lt hlt
  have hnodup' : blocks.Nodup := hsorted.imp fun hlt ↦ Nat.ne_of_lt hlt
  refine ⟨?_, fun a ha ↦ ?_⟩
  · apply List.Perm.eq_of_pairwise (fun a b _ _ hab hba ↦ absurd hab (Nat.lt_asymm hba)) hbelow.2
      hsorted
    exact (List.perm_ext_iff_of_nodup hnodup hnodup').mpr hsub
  · obtain ⟨i, hi, rfl⟩ := mem_blocks.mp ha
    have hends := (hk.oneChunk hi).2
    unfold Heap.ends sizeofMCB at hends
    omega

/-- A request is served as it should be if and only if its size does not wrap around. -/
theorem Kept.served_iff (hk : Kept h (kBase :: l) live) :
    Served h l live nb ↔ nb.toNat + 11 < 2 ^ 32 := by
  constructor
  · rintro ⟨rounds, hserved⟩
    by_contra hwraps
    have hunit : btou nb = 1 := by
      have hlt := nb.toNat_lt
      rw [btou_eq]
      omega
    have hnb : nb ≠ 0 := by
      rintro rfl
      exact hwraps (by decide)
    obtain ⟨block, h', hcall, -, hroom⟩ := hserved (rounds + 1) (Nat.le_succ rounds)
    obtain ⟨hne, nodes', hinv⟩ := (hk.inv.unitRequest hnb hunit).1 _ hcall
    have hbound := (hroom hne).1
    have hends : h'.ends (header block) ≤ 0x7FFFFC := by
      by_cases hbase : header block = kBase
      · rw [hbase, hinv.ends_kBase]
        decide
      · exact (hinv.owned _ List.mem_cons_self hbase).1.bounds.2
    omega
  · intro hfits
    refine ⟨l.length + 1, fun fuel hfuel ↦ ?_⟩
    by_cases hnb : nb = 0
    · rw [hnb]
      exact ⟨0, h, rfl, ⟨fun _ ↦ Or.inl rfl, fun _ ↦ rfl⟩, fun hne ↦ absurd rfl hne⟩
    · obtain ⟨hres, hend⟩ := @Inv.request _ _ fuel nb l hk.inv hnb (one_lt_btou hfits hnb)
      obtain ⟨⟨block, h'⟩, hcall⟩ := Option.isSome_iff_exists.mp (hend hfuel)
      refine ⟨block, h', hcall, ?_⟩
      rcases hres _ hcall with ⟨heq, hsmall⟩ | ⟨hg, a, ha, hlarge⟩
      · cases heq
        exact ⟨⟨fun _ ↦ Or.inr hsmall, fun _ ↦ rfl⟩, fun hne ↦ absurd rfl hne⟩
      · obtain ⟨hchunk, hblock⟩ := hg.chunk
        have hroom := hg.room
        obtain ⟨nodes', hinv, -⟩ := hg.taken
        refine ⟨⟨fun hnull ↦ ?_, fun hnone ↦ ?_⟩, fun _ ↦ ⟨?_, fun other hother ↦ ?_⟩⟩
        · change block = header block + 12 at hblock
          omega
        · have hlt := hnone.resolve_left hnb a ha
          omega
        · change btou nb ≤ h'.mcbSize (header block) at hroom
          change block = header block + 12 at hblock
          rw [btou_eq] at hroom
          unfold Heap.ends sizeofMCB
          omega
        · have happ := (List.pairwise_cons.mp hinv.ownedApart).1 _ (List.mem_map_of_mem hother)
          exact (happ.resolve_left hg.real).resolve_left (hk.real other hother)

theorem Kept.conserved (hk : Kept h (kBase :: l) live) : Conserved h l live := by
  refine ⟨hk.inv.isFreeList, ?_, fun nb ↦ hk.served_iff, fun block hblock ↦ ?_, ?_⟩
  · have hcount := hk.count
    rw [units_cons, hk.inv.base] at hcount
    omega
  · exact ⟨_, fun fuel hfuel ↦ (hk.kfree hblock).2 hfuel⟩
  · rintro rfl
    exact hk.whole

/-- Memory is conserved if and only if the first word of the last block of the heap holds the
address of `kBase` when the program starts, as long as no size asked for wraps around. -/
theorem memory_conserved_iff (next mcbSize : Nat → Nat) :
    (∀ h live, Fitting (atStart next mcbSize) h live → ∃ l, Conserved h l live) ↔
      next (kFarHeap (kmemBlocks - 1)) = kBase := by
  constructor
  · intro hall
    obtain ⟨l, hl⟩ := hall _ _ .init
    exact closed_of_freeListOk ⟨l, hl.list⟩
  · intro hring h live hrun
    obtain ⟨nodes, hk⟩ := fitting_kept hring hrun
    obtain ⟨l, rfl⟩ := hk.inv.exists_cons
    exact ⟨l, hk.conserved⟩

/-- With zeroes in the last block, nothing is conserved: there is no ring. -/
theorem memory_conserved_open : ¬ ∀ h live,
    Fitting (atStart (fun _ ↦ 0) fun _ ↦ 0) h live → ∃ l, Conserved h l live := by
  intro hall
  obtain ⟨l, hl⟩ := hall _ _ .init
  have hclosed := closed_of_freeListOk ⟨l, hl.list⟩
  revert hclosed
  decide

end PrintServer.Kernel
