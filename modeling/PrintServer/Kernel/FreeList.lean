import PrintServer.Lib.Ring
import PrintServer.Kernel.Units

/-!
# The free list of the kernel heap

The headers from `kBase` on form a ring in address order.  `kmalloc` takes a chunk out of it or the
end off a chunk, and `kfree` puts one back and joins it with its neighbours.
-/

namespace PrintServer.Kernel

open Lib

/-! ## The invariant -/

/-- A block of the heap is handed out in units, which leaves its last four bytes. -/
def Chunk (h : Heap) (a : Nat) : Prop :=
  1 ≤ h.mcbSize a ∧ ∃ i < kmemBlocks, kFarHeap i ≤ a ∧ h.ends a ≤ kFarHeap i + 65532

def Apart (h : Heap) (a b : Nat) : Prop := h.ends a ≤ b ∨ h.ends b ≤ a

/-- The headers `nodes` are on the ring, and those of `live` are handed out. -/
structure Inv (h : Heap) (nodes live : List Nat) : Prop where
  entry : nodes.head? = some kBase
  follows : Follows h.next (nodes ++ [kBase])
  below : nodes.Pairwise fun a b ↦ h.ends a < b
  chunk : ∀ a ∈ nodes, a ≠ kBase → Chunk h a
  base : h.mcbSize kBase = 1
  owned : ∀ c ∈ live, c ≠ kBase → Chunk h c ∧ h.next c = c ∧ ∀ a ∈ nodes, Apart h a c
  ownedApart : live.Pairwise fun c d ↦ c = kBase ∨ d = kBase ∨ Apart h c d
  allocp : h.kAllocp = kBase
  pktAllocp : h.kPktAllocp = kPktBase

variable {h h' : Heap} {nodes live u v : List Nat} {a b c p x : Nat}

theorem Chunk.bounds (hc : Chunk h a) : kFarHeapBase ≤ a ∧ h.ends a ≤ 0x7FFFFC := by
  obtain ⟨-, i, hi, hlo, hhi⟩ := hc
  unfold kFarHeap kFarHeapBase at *
  change i < 32 at hi
  omega

theorem Chunk.ends_gt (hc : Chunk h a) : a + 12 ≤ h.ends a := by
  have hpos := hc.1
  unfold Heap.ends sizeofMCB
  omega

theorem Chunk.mcbAdd (hc : Chunk h a) : mcbAdd a (h.mcbSize a) = h.ends a := by
  have hhi := hc.bounds.2
  unfold Kernel.mcbAdd
  apply Nat.mod_eq_of_lt
  change h.ends a < 2 ^ 32
  omega

theorem Chunk.ne_kBase (hc : Chunk h a) : a ≠ kBase := by
  have hlo := hc.bounds.1
  unfold kFarHeapBase kBase at *
  omega

theorem Chunk.congr (hc : Chunk h a) (hs : h'.mcbSize a = h.mcbSize a) : Chunk h' a := by
  unfold Chunk Heap.ends at *
  rw [hs]
  exact hc

theorem Apart.symm (hab : Apart h a b) : Apart h b a := Or.symm hab

theorem Apart.congr (hab : Apart h a b) (ha : h'.mcbSize a = h.mcbSize a)
    (hb : h'.mcbSize b = h.mcbSize b) : Apart h' a b := by
  unfold Apart Heap.ends at *
  rw [ha, hb]
  exact hab

theorem Apart.ne (hab : Apart h a b) (ha : a < h.ends a) (hb : b < h.ends b) : a ≠ b := by
  unfold Apart at hab
  omega

namespace Inv

theorem ends_kBase (hi : Inv h nodes live) : h.ends kBase = kBase + 12 := by
  unfold Heap.ends
  rw [hi.base]
  rfl

theorem ends_gt (hi : Inv h nodes live) (ha : a ∈ nodes) : a < h.ends a := by
  by_cases hbase : a = kBase
  · rw [hbase, hi.ends_kBase]
    omega
  · have hgt := (hi.chunk a ha hbase).ends_gt
    omega

/-- What is in front of a node is below it, and what is behind it above. -/
theorem around (hi : Inv h (u ++ c :: v) live) :
    (∀ x ∈ u, h.ends x < c) ∧ (∀ x ∈ v, h.ends c < x) ∧
      (u ++ v).Pairwise fun a b ↦ h.ends a < b := by
  have hbelow := List.pairwise_append.mp hi.below
  have hcons := List.pairwise_cons.mp hbelow.2.1
  refine ⟨fun x hx ↦ hbelow.2.2 x hx c List.mem_cons_self, hcons.1, ?_⟩
  apply List.pairwise_append.mpr ⟨hbelow.1, hcons.2, ?_⟩
  intro x hx y hy
  exact hbelow.2.2 x hx y (List.mem_cons_of_mem c hy)

theorem next_cons (hi : Inv h (u ++ p :: c :: v) live) : h.next p = c := by
  have hfollows := hi.follows
  rw [List.append_assoc] at hfollows
  exact (follows_cons_cons.mp (follows_split.mp hfollows).2).1

theorem next_last (hi : Inv h (u ++ [p]) live) : h.next p = kBase := by
  have hfollows := hi.follows
  rw [List.append_assoc] at hfollows
  exact (follows_cons_cons.mp (follows_split.mp hfollows).2).1

theorem ne_kBase (hi : Inv h (u ++ p :: c :: v) live) : c ≠ kBase := by
  rintro rfl
  have hhead := hi.entry
  have hfront : kBase ∈ u ++ [p] := by
    apply List.mem_of_head?
    rw [← hhead]
    cases u <;> rfl
  have hi' : Inv h ((u ++ [p]) ++ kBase :: v) live := by simpa using hi
  have hlt := hi'.around.1 kBase hfront
  rw [hi.ends_kBase] at hlt
  omega

theorem sorted (hi : Inv h nodes live) : nodes.Pairwise (· < ·) :=
  hi.below.imp_of_mem fun ha _ hlt ↦ Nat.lt_trans (hi.ends_gt ha) hlt

theorem owned_ne (hi : Inv h nodes live) (ha : a ∈ nodes) (hc : c ∈ live) (hbase : c ≠ kBase) :
    a ≠ c := by
  obtain ⟨hchunk, -, hapart⟩ := hi.owned c hc hbase
  have hgt := hchunk.ends_gt
  exact (hapart a ha).ne (hi.ends_gt ha) (by omega)

end Inv

theorem ownedApart_congr
    (hp : live.Pairwise fun c d ↦ c = kBase ∨ d = kBase ∨ Apart h c d)
    (hs : ∀ c ∈ live, c ≠ kBase → h'.mcbSize c = h.mcbSize c) :
    live.Pairwise fun c d ↦ c = kBase ∨ d = kBase ∨ Apart h' c d := by
  apply hp.imp_of_mem
  intro c d hc hd hcd
  by_cases hcbase : c = kBase
  · exact Or.inl hcbase
  · by_cases hdbase : d = kBase
    · exact Or.inr (Or.inl hdbase)
    · have happ := (hcd.resolve_left hcbase).resolve_left hdbase
      exact Or.inr (Or.inr (happ.congr (hs c hc hcbase) (hs d hd hdbase)))

/-- Only the headers on the ring and those handed out count. -/
theorem Inv.congr (hi : Inv h nodes live)
    (hn : ∀ x ∈ nodes ++ live, h'.next x = h.next x ∧ h'.mcbSize x = h.mcbSize x)
    (ha : h'.kAllocp = h.kAllocp) (hp : h'.kPktAllocp = h.kPktAllocp) : Inv h' nodes live := by
  have hnode : ∀ x ∈ nodes, h'.next x = h.next x ∧ h'.mcbSize x = h.mcbSize x :=
    fun x hx ↦ hn x (List.mem_append_left live hx)
  have hlive : ∀ x ∈ live, h'.next x = h.next x ∧ h'.mcbSize x = h.mcbSize x :=
    fun x hx ↦ hn x (List.mem_append_right nodes hx)
  refine ⟨hi.entry, hi.follows.congr fun y hy ↦ (hnode y hy).1, ?_, ?_, ?_, ?_, ?_,
    ha.trans hi.allocp, hp.trans hi.pktAllocp⟩
  · apply hi.below.imp_of_mem
    intro a b hmem _ hab
    rw [ends_congr (hnode a hmem).2]
    exact hab
  · exact fun a hmem hbase ↦ (hi.chunk a hmem hbase).congr (hnode a hmem).2
  · rw [(hnode kBase (List.mem_of_head? hi.entry)).2]
    exact hi.base
  · intro c hc hbase
    obtain ⟨hchunk, hnext, hapart⟩ := hi.owned c hc hbase
    refine ⟨hchunk.congr (hlive c hc).2, (hlive c hc).1.trans hnext, fun a hmem ↦ ?_⟩
    exact (hapart a hmem).congr (hnode a hmem).2 (hlive c hc).2
  · exact ownedApart_congr hi.ownedApart fun c hc _ ↦ (hlive c hc).2

/-! ## kmalloc -/

theorem ne_of_nodup (hn : (u ++ p :: c :: v).Nodup) :
    p ≠ c ∧ ∀ y ∈ u ++ v, y ≠ p ∧ y ≠ c := by
  have hperm := (@List.perm_middle _ p u (c :: v)).trans (List.perm_middle.cons p)
  have hp := List.nodup_cons.mp (hperm.nodup_iff.mp hn)
  have hc := List.nodup_cons.mp hp.2
  refine ⟨fun heq ↦ hp.1 (heq ▸ List.mem_cons_self), fun y hy ↦ ⟨?_, ?_⟩⟩
  · rintro rfl
    exact hp.1 (List.mem_cons_of_mem c hy)
  · rintro rfl
    exact hc.1 hy

/-- A chunk is taken out of the ring. -/
theorem Inv.take (hi : Inv h (u ++ p :: c :: v) live) :
    Inv ((h.setNext p (h.next c)).setNext c c) (u ++ p :: v) (c :: live) := by
  have hbase := hi.ne_kBase
  have hshape : u ++ p :: c :: v = (u ++ [p]) ++ c :: v := by simp
  have hshape' : u ++ p :: v = (u ++ [p]) ++ v := by simp
  have hsub : ∀ a ∈ u ++ p :: v, a ∈ u ++ p :: c :: v := by
    intro a ha
    rw [hshape'] at ha
    rw [hshape]
    exact (List.mem_append.mp ha).elim (List.mem_append_left _)
      fun hv ↦ List.mem_append_right _ (List.mem_cons_of_mem c hv)
  have hc : c ∈ u ++ p :: c :: v := by simp
  have hp : p ∈ u ++ p :: c :: v := by simp
  have hnodup : (u ++ p :: c :: v).Nodup := hi.sorted.imp fun hlt ↦ Nat.ne_of_lt hlt
  have hchunk := hi.chunk c hc hbase
  have hgt := hchunk.ends_gt
  have haround := (show Inv h ((u ++ [p]) ++ c :: v) live from hshape ▸ hi).around
  -- the links of all but `p` and `c` stay
  have hnext : ∀ x, x ≠ p → x ≠ c → ((h.setNext p (h.next c)).setNext c c).next x = h.next x := by
    intro x hxp hxc
    rw [Heap.next_setNext_of_ne hxc, Heap.next_setNext_of_ne hxp]
  have hapart : ∀ a ∈ u ++ p :: v, Apart h a c := by
    intro a ha
    rw [hshape'] at ha
    rcases List.mem_append.mp ha with hu | hv
    · exact Or.inl (Nat.le_of_lt (haround.1 a hu))
    · exact Or.inr (Nat.le_of_lt (haround.2.1 a hv))
  refine ⟨?_, ?_, ?_, fun a ha ↦ hi.chunk a (hsub a ha), hi.base, ?_, ?_, hi.allocp, hi.pktAllocp⟩
  · have hentry := hi.entry
    cases u <;> exact hentry
  · have hfollows := hi.follows
    rw [List.append_assoc] at hfollows ⊢
    obtain ⟨hpc, hother⟩ := ne_of_nodup hnodup
    apply Follows.unlink hfollows
    · rw [Heap.next_setNext_of_ne hpc, Heap.next_setNext_self]
    · intro y hy
      exact hnext y (hother y hy).1 (hother y hy).2
  · rw [hshape']
    exact haround.2.2
  · intro d hd hdbase
    rcases List.mem_cons.mp hd with rfl | hd
    · exact ⟨hchunk, Heap.next_setNext_self, hapart⟩
    · obtain ⟨hdchunk, hdnext, hdapart⟩ := hi.owned d hd hdbase
      refine ⟨hdchunk, ?_, fun a ha ↦ hdapart a (hsub a ha)⟩
      rw [hnext d (hi.owned_ne hp hd hdbase).symm (hi.owned_ne hc hd hdbase).symm]
      exact hdnext
  · apply List.pairwise_cons.mpr ⟨fun d hd ↦ ?_, hi.ownedApart⟩
    by_cases hdbase : d = kBase
    · exact Or.inr (Or.inl hdbase)
    · exact Or.inr (Or.inr ((hi.owned d hd hdbase).2.2 c hc))

/-- The end of a chunk is cut off. -/
theorem Inv.carve {n e : Nat} (hi : Inv h (u ++ c :: v) live) (hbase : c ≠ kBase) (hn : 1 ≤ n)
    (hlt : n < h.mcbSize c) (he : e = c + 12 * (h.mcbSize c - n)) :
    let h' := ((h.setSize c (h.mcbSize c - n)).setSize e n).setNext e e
    Inv h' (u ++ c :: v) (e :: live) ∧ Conserves h (u ++ c :: v) h' (e :: (u ++ c :: v)) ∧
      ∀ d ∈ live, d ≠ kBase → h'.mcbSize d = h.mcbSize d := by
  have hc : c ∈ u ++ c :: v := by simp
  have hchunk := hi.chunk c hc hbase
  have hends : h.ends c = c + 12 * h.mcbSize c := rfl
  have hce : c ≠ e := by omega
  generalize hh' : ((h.setSize c (h.mcbSize c - n)).setSize e n).setNext e e = h'
  have hsizec : h'.mcbSize c = h.mcbSize c - n := by
    rw [← hh', Heap.mcbSize_setNext, Heap.mcbSize_setSize_of_ne hce, Heap.mcbSize_setSize_self]
  have hsizee : h'.mcbSize e = n := by
    rw [← hh', Heap.mcbSize_setNext, Heap.mcbSize_setSize_self]
  have hsize : ∀ x, x ≠ c → x ≠ e → h'.mcbSize x = h.mcbSize x := by
    intro x hxc hxe
    rw [← hh', Heap.mcbSize_setNext, Heap.mcbSize_setSize_of_ne hxe,
      Heap.mcbSize_setSize_of_ne hxc]
  have hnext : ∀ x, x ≠ e → h'.next x = h.next x := by
    intro x hxe
    rw [← hh', Heap.next_setNext_of_ne hxe]
    rfl
  have hnexte : h'.next e = e := by rw [← hh', Heap.next_setNext_self]
  -- the chunk and its end share what the chunk was
  have hendsc : h'.ends c = e := by
    unfold Heap.ends sizeofMCB
    rw [hsizec, he]
  have hendse : h'.ends e = h.ends c := by
    unfold Heap.ends sizeofMCB
    rw [hsizee]
    omega
  have hwithin : c < e ∧ e < h.ends c := by omega
  have hne : ∀ x, Apart h x c → x ≠ e := by
    intro x hx
    have hx' : x ≤ h.ends x := Nat.le_add_right ..
    unfold Apart at hx
    omega
  have haround := hi.around
  have hnodes : ∀ x ∈ u ++ c :: v, x ≠ c → Apart h x c := by
    intro x hx hxc
    rcases List.mem_append.mp hx with hu | hv
    · exact Or.inl (Nat.le_of_lt (haround.1 x hu))
    · exact Or.inr (Nat.le_of_lt (haround.2.1 x ((List.mem_cons.mp hv).resolve_left hxc)))
  have hnode : ∀ x ∈ u ++ c :: v, x ≠ e := by
    intro x hx
    by_cases hxc : x = c
    · rw [hxc]
      exact hce
    · exact hne x (hnodes x hx hxc)
  -- whatever is apart from the old chunk is apart from both of its parts
  have hkeep : ∀ x, Apart h x c → Apart h' x c ∧ Apart h' x e := by
    intro x hx
    have hxc : x ≠ c := by
      rintro rfl
      unfold Apart at hx
      omega
    have hendsx := ends_congr (hsize x hxc (hne x hx))
    unfold Apart at *
    omega
  have hchunkc : Chunk h' c := by
    obtain ⟨-, i, hi, hlo, hhi⟩ := hchunk
    exact ⟨by omega, i, hi, hlo, by omega⟩
  have hchunke : Chunk h' e := by
    obtain ⟨-, i, hi, hlo, hhi⟩ := hchunk
    exact ⟨by omega, i, hi, by omega, by omega⟩
  -- no node ends later than before, so the order of the list stays
  have hbelow : ∀ x ∈ u ++ c :: v, h'.ends x ≤ h.ends x := by
    intro x hx
    by_cases hxc : x = c
    · rw [hxc]
      omega
    · rw [ends_congr (hsize x hxc (hnode x hx))]
  have hlive : ∀ d ∈ live, d ≠ kBase → h'.mcbSize d = h.mcbSize d := by
    intro d hd hdbase
    have hdc := (hi.owned d hd hdbase).2.2 c hc
    exact hsize d (hi.owned_ne hc hd hdbase).symm (hne d hdc.symm)
  have hconserves : Conserves h (u ++ c :: v) h' (e :: (u ++ c :: v)) := by
    -- the other nodes are neither `c` nor `e`
    have hrest : ∀ x ∈ u ++ v, h.mcbSize x = h'.mcbSize x := by
      intro x hx
      have hmem : x ∈ u ++ c :: v := by
        simp only [List.mem_append, List.mem_cons] at hx ⊢
        tauto
      have hxc : x ≠ c := by
        have hgt := hi.ends_gt hc
        rcases List.mem_append.mp hx with hu | hv
        · have hlt := haround.1 x hu
          have hgt' := hi.ends_gt hmem
          omega
        · have hlt := haround.2.1 x hv
          omega
      exact (hsize x hxc (hnode x hmem)).symm
    refine .trans (.of_perm List.perm_middle.symm fun _ _ ↦ rfl) ?_
    refine .trans (Conserves.join hendsc hendse.symm hrest).symm (.of_perm ?_ fun _ _ ↦ rfl)
    exact (List.perm_middle.cons e).trans (List.Perm.swap c e (u ++ v))
  refine ⟨⟨hi.entry, ?_, ?_, ?_, ?_, ?_, ?_, ?_, ?_⟩, hconserves, hlive⟩
  · exact hi.follows.congr fun y hy ↦ hnext y (hnode y hy)
  · apply hi.below.imp_of_mem
    intro a b ha _ hab
    exact Nat.lt_of_le_of_lt (hbelow a ha) hab
  · intro a ha habase
    by_cases hac : a = c
    · rw [hac]
      exact hchunkc
    · exact (hi.chunk a ha habase).congr (hsize a hac (hnode a ha))
  · rw [hsize kBase hbase.symm hchunke.ne_kBase.symm]
    exact hi.base
  · intro d hd hdbase
    rcases List.mem_cons.mp hd with rfl | hd
    · refine ⟨hchunke, hnexte, fun a ha ↦ ?_⟩
      by_cases hac : a = c
      · rw [hac]
        exact Or.inl (by omega)
      · exact (hkeep a (hnodes a ha hac)).2
    · obtain ⟨hdchunk, hdnext, hdapart⟩ := hi.owned d hd hdbase
      have hdc := (hdapart c hc).symm
      have hne' := hne d hdc
      have hdc' := (hi.owned_ne hc hd hdbase).symm
      refine ⟨hdchunk.congr (hsize d hdc' hne'), ?_, fun a ha ↦ ?_⟩
      · rw [hnext d hne']
        exact hdnext
      · by_cases hac : a = c
        · rw [hac]
          exact (hkeep d hdc).1.symm
        · exact (hdapart a ha).congr (hsize a hac (hnode a ha)) (hsize d hdc' hne')
  · apply List.pairwise_cons.mpr
    constructor
    · intro d hd
      by_cases hdbase : d = kBase
      · exact Or.inr (Or.inl hdbase)
      · exact Or.inr (Or.inr (hkeep d ((hi.owned d hd hdbase).2.2 c hc).symm).2.symm)
    · exact ownedApart_congr hi.ownedApart hlive
  · rw [← hh']
    exact hi.allocp
  · rw [← hh']
    exact hi.pktAllocp

/-- The result of a call of `kmalloc`: nothing was changed, or a chunk was handed out. -/
def Allocated (h : Heap) (live : List Nat) (r : Nat × Heap) : Prop :=
  r = (0, h) ∨ r.1 ≠ 0 ∧ ∃ nodes', Inv r.2 nodes' (header r.1 :: live)

/-- The chunk in front of the pointer was on the ring `nodes` or is the end of one that is. -/
structure Granted (h : Heap) (nodes live : List Nat) (nu : Nat) (r : Nat × Heap) : Prop where
  real : header r.1 ≠ kBase
  room : nu ≤ r.2.mcbSize (header r.1)
  taken : ∃ nodes', Inv r.2 nodes' (header r.1 :: live) ∧
    Conserves h nodes r.2 (header r.1 :: nodes')
  count : r.2.kAvailmem = h.kAvailmem - UInt32.ofNat (r.2.mcbSize (header r.1))
  kept : ∀ d ∈ live, d ≠ kBase → r.2.mcbSize d = h.mcbSize d

theorem Granted.chunk {nu : Nat} {r : Nat × Heap} (hg : Granted h nodes live nu r) :
    Chunk r.2 (header r.1) ∧ r.1 = header r.1 + 12 := by
  obtain ⟨nodes', hi, -⟩ := hg.taken
  have hchunk := (hi.owned _ List.mem_cons_self hg.real).1
  have hlo := hchunk.bounds.1
  unfold kFarHeapBase at hlo
  refine ⟨hchunk, ?_⟩
  unfold header sizeofMCB at *
  omega

theorem Granted.allocated {nu : Nat} {r : Nat × Heap} (hg : Granted h nodes live nu r) :
    Allocated h live r := by
  obtain ⟨nodes', hi, -⟩ := hg.taken
  have heq := hg.chunk.2
  exact Or.inr ⟨by omega, nodes', hi⟩

theorem mcbAdd_one (h : a < 2 ^ 31) : mcbAdd a 1 ≠ 0 ∧ header (mcbAdd a 1) = a := by
  unfold mcbAdd header sizeofMCB
  omega

theorem btou_pos (nb : UInt32) : 1 ≤ btou nb := by
  unfold btou
  rw [UInt32.toNat_add, UInt32.toNat_div]
  have hlt := (nb + 12 - 1).toNat_lt
  change 1 ≤ ((nb + 12 - 1).toNat / 12 + 1) % 2 ^ 32
  omega

theorem Inv.handOut {nu : Nat} (hi : Inv h (u ++ p :: c :: v) live) (hn : 1 ≤ nu)
    (hfit : nu ≤ h.mcbSize c) : Granted h (u ++ p :: c :: v) live nu (handOut false nu p c h) := by
  have hbase := hi.ne_kBase
  have hshape : u ++ p :: c :: v = (u ++ [p]) ++ c :: v := by simp
  have hchunk := hi.chunk c (by simp) hbase
  have hbounds := hchunk.bounds
  have hends : h.ends c = c + 12 * h.mcbSize c := rfl
  unfold kFarHeapBase at hbounds
  unfold Kernel.handOut
  by_cases hwhole : h.mcbSize c ≤ nu + 1
  · -- the whole chunk
    have hheader := (@mcbAdd_one c (by omega)).2
    simp only [if_pos hwhole, Bool.false_eq_true, if_false]
    refine ⟨?_, ?_, ⟨u ++ p :: v, ?_, ?_⟩, ?_, fun _ _ _ ↦ rfl⟩ <;> rw [hheader]
    · exact hbase
    · exact hfit
    · exact hi.take.congr (fun _ _ ↦ ⟨rfl, rfl⟩) rfl rfl
    · have hperm : (c :: (u ++ p :: v)).Perm (u ++ p :: c :: v) := by
        have hmiddle := @List.perm_middle _ c (u ++ [p]) v
        simpa using hmiddle.symm
      exact .of_perm hperm fun _ _ ↦ rfl
    · rfl
  · -- the end of the chunk
    have he : mcbAdd c (h.mcbSize c - nu) = c + 12 * (h.mcbSize c - nu) := by
      unfold mcbAdd sizeofMCB
      omega
    have hheader := (@mcbAdd_one (mcbAdd c (h.mcbSize c - nu)) (by omega)).2
    rw [hshape] at hi ⊢
    obtain ⟨hinv, hconserves, hkept⟩ := hi.carve hbase hn (by omega) he
    simp only [if_neg hwhole, Bool.false_eq_true, if_false, Heap.mcbSize_setSize_self]
    refine ⟨?_, ?_, ⟨(u ++ [p]) ++ c :: v, ?_, ?_⟩, ?_, hkept⟩ <;> rw [hheader]
    · rw [he]
      unfold kBase
      omega
    · exact Nat.le_of_eq Heap.mcbSize_setSize_self.symm
    · exact hinv.congr (fun _ _ ↦ ⟨rfl, rfl⟩) rfl rfl
    · exact ⟨hconserves.units, hconserves.covers⟩
    · rfl

/-- The search past `p`: what it returns, and that it ends. -/
theorem Inv.search {nu fuel : Nat} (hi : Inv h (u ++ p :: v) live) (hn : 1 < nu) :
    (∀ r, search false nu h fuel p (h.next p) = some r →
      r = (0, h) ∧ (∀ a ∈ v, h.mcbSize a < nu) ∨
        Granted h (u ++ p :: v) live nu r ∧ ∃ a ∈ v, nu ≤ h.mcbSize a) ∧
      (v.length < fuel → (search false nu h fuel p (h.next p)).isSome) := by
  induction v generalizing u p fuel with
  | nil =>
    cases fuel with
    | zero => exact ⟨nofun, nofun⟩
    | succ fuel =>
      -- the search is back at `kBase`, which is too small
      have hsmall : ¬ nu ≤ h.mcbSize kBase := by
        rw [hi.base]
        omega
      unfold Kernel.search
      rw [hi.next_last, if_neg hsmall, if_pos (Or.inl hi.allocp.symm)]
      refine ⟨fun r hr ↦ ?_, fun _ ↦ rfl⟩
      cases hr
      exact Or.inl ⟨rfl, nofun⟩
  | cons c v ih =>
    cases fuel with
    | zero => exact ⟨nofun, nofun⟩
    | succ fuel =>
      have hbase := hi.ne_kBase
      have hbounds := (hi.chunk c (by simp) hbase).bounds
      have hstop : ¬ (c = h.kAllocp ∨ c = h.kPktAllocp) := by
        rw [hi.allocp, hi.pktAllocp]
        unfold kFarHeapBase at hbounds
        unfold kBase kPktBase at *
        omega
      unfold Kernel.search
      rw [hi.next_cons]
      by_cases hfit : nu ≤ h.mcbSize c
      · rw [if_pos hfit]
        refine ⟨fun r hr ↦ ?_, fun _ ↦ rfl⟩
        cases hr
        exact Or.inr ⟨hi.handOut (Nat.le_of_lt hn) hfit, c, List.mem_cons_self, hfit⟩
      · rw [if_neg hfit, if_neg hstop]
        have hi' : Inv h ((u ++ [p]) ++ c :: v) live := by simpa using hi
        obtain ⟨hres, hend⟩ := @ih (u ++ [p]) c fuel hi'
        refine ⟨fun r hr ↦ ?_, fun hlen ↦ hend (Nat.lt_of_succ_lt_succ hlen)⟩
        rcases hres r hr with ⟨heq, hsmall⟩ | ⟨hgranted, a, ha, hroom⟩
        · refine Or.inl ⟨heq, fun a ha ↦ ?_⟩
          rcases List.mem_cons.mp ha with rfl | ha
          · exact Nat.lt_of_not_le hfit
          · exact hsmall a ha
        · rw [List.append_assoc] at hgranted
          exact Or.inr ⟨hgranted, a, List.mem_cons_of_mem c ha, hroom⟩

/-- With an empty ring, a call whose size wraps around is given `kBase` itself. -/
theorem Inv.handOut_kBase {nu : Nat} (hi : Inv h [kBase] live) :
    let r := Kernel.handOut false nu kBase kBase h
    r.1 ≠ 0 ∧ ∃ nodes', Inv r.2 nodes' (header r.1 :: live) := by
  have hnext : h.next kBase = kBase := @next_last h live [] kBase hi
  have hwhole : h.mcbSize kBase ≤ nu + 1 := by
    rw [hi.base]
    omega
  have hi' : Inv h [kBase] (kBase :: live) := by
    refine ⟨hi.entry, hi.follows, hi.below, hi.chunk, hi.base, ?_, ?_, hi.allocp, hi.pktAllocp⟩
    · intro c hc hbase
      exact hi.owned c ((List.mem_cons.mp hc).resolve_left hbase) hbase
    · exact List.pairwise_cons.mpr ⟨fun _ _ ↦ Or.inl rfl, hi.ownedApart⟩
  obtain ⟨hne, hheader⟩ := @mcbAdd_one kBase (by decide)
  unfold Kernel.handOut
  simp only [if_pos hwhole, Bool.false_eq_true, if_false]
  rw [hheader]
  refine ⟨hne, [kBase], hi'.congr (fun x _ ↦ ⟨?_, rfl⟩) rfl rfl⟩
  change ((h.setNext kBase (h.next kBase)).setNext kBase kBase).next x = h.next x
  rw [Heap.next_setNext, Heap.next_setNext]
  split
  · rename_i heq
    rw [heq, hnext]
  · rfl

theorem Inv.exists_cons (hi : Inv h nodes live) : ∃ l, nodes = kBase :: l := by
  have hentry := hi.entry
  cases nodes with
  | nil => cases hentry
  | cons a l =>
    cases hentry
    exact ⟨l, rfl⟩

/-- A request for more than a header is refused only if no chunk is large enough. -/
theorem Inv.request {fuel : Nat} {nb : UInt32} {l : List Nat} (hi : Inv h (kBase :: l) live)
    (hnb : nb ≠ 0) (hone : 1 < btou nb) :
    (∀ r, kmalloc fuel nb false h = some r →
      r = (0, h) ∧ (∀ a ∈ l, h.mcbSize a < btou nb) ∨
        Granted h (kBase :: l) live (btou nb) r ∧ ∃ a ∈ l, btou nb ≤ h.mcbSize a) ∧
      (l.length < fuel → (kmalloc fuel nb false h).isSome) := by
  have hinit : h.kAllocp ≠ 0 := by
    rw [hi.allocp]
    decide
  have hi' : Inv h ([] ++ kBase :: l) live := hi
  unfold Kernel.kmalloc
  simp only [if_neg hnb, if_neg hinit, Bool.false_eq_true, if_false]
  rw [hi.allocp]
  exact hi'.search hone

/-- A request for a header alone is never refused: the first chunk does, or `kBase` itself. -/
theorem Inv.unitRequest {fuel : Nat} {nb : UInt32} (hi : Inv h nodes live) (hnb : nb ≠ 0)
    (hone : btou nb = 1) :
    (∀ r, kmalloc fuel nb false h = some r →
      r.1 ≠ 0 ∧ ∃ nodes', Inv r.2 nodes' (header r.1 :: live)) ∧
      (0 < fuel → (kmalloc fuel nb false h).isSome) := by
  obtain ⟨l, rfl⟩ := hi.exists_cons
  have hinit : h.kAllocp ≠ 0 := by
    rw [hi.allocp]
    decide
  unfold Kernel.kmalloc
  simp only [if_neg hnb, if_neg hinit, Bool.false_eq_true, if_false]
  rw [hi.allocp, hone]
  cases fuel with
  | zero => exact ⟨nofun, nofun⟩
  | succ fuel =>
    unfold Kernel.search
    cases l with
    | nil =>
      have hnext : h.next kBase = kBase := @next_last h live [] kBase hi
      rw [hnext, hi.base, if_pos (Nat.le_refl 1)]
      refine ⟨fun r hr ↦ ?_, fun _ ↦ rfl⟩
      cases hr
      exact hi.handOut_kBase
    | cons c v =>
      have hi' : Inv h ([] ++ kBase :: c :: v) live := hi
      have hfit := (hi.chunk c (by simp) hi'.ne_kBase).1
      rw [hi'.next_cons, if_pos hfit]
      refine ⟨fun r hr ↦ ?_, fun _ ↦ rfl⟩
      cases hr
      have hgranted := hi'.handOut (Nat.le_refl 1) hfit
      obtain ⟨nodes', hinv, -⟩ := hgranted.taken
      have heq := hgranted.chunk.2
      exact ⟨by omega, nodes', hinv⟩

theorem Inv.kmalloc {fuel : Nat} {nb : UInt32} (hi : Inv h nodes live) :
    (∀ r, kmalloc fuel nb false h = some r → Allocated h live r) ∧
      (nodes.length ≤ fuel → (kmalloc fuel nb false h).isSome) := by
  obtain ⟨l, rfl⟩ := hi.exists_cons
  by_cases hnb : nb = 0
  · unfold Kernel.kmalloc
    rw [if_pos hnb]
    refine ⟨fun r hr ↦ ?_, fun _ ↦ rfl⟩
    cases hr
    exact Or.inl rfl
  · by_cases hone : 1 < btou nb
    · obtain ⟨hres, hend⟩ := @Inv.request _ _ fuel nb l hi hnb hone
      refine ⟨fun r hr ↦ ?_, hend⟩
      rcases hres r hr with ⟨heq, -⟩ | ⟨hgranted, -⟩
      · exact Or.inl heq
      · exact hgranted.allocated
    · have hpos := btou_pos nb
      obtain ⟨hres, hend⟩ := @Inv.unitRequest _ _ _ fuel nb hi hnb (by omega)
      exact ⟨fun r hr ↦ Or.inr (hres r hr), fun hlen ↦ hend (Nat.zero_lt_of_lt hlen)⟩

end PrintServer.Kernel
