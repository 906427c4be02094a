import PrintServer.Kernel.FreeList

/-!
# Back to the free list

`kfree` walks to the place of the chunk, joins it with the chunk behind it or links it to that one,
and does the same in front.
-/

namespace PrintServer.Kernel

open Lib

variable {h h' : Heap} {nodes live u v : List Nat} {a b c p x : Nat}

/-! ## The place on the ring -/

/-- The walk past `p` to the place of `c`: where it stops, and that it ends. -/
theorem Inv.findPlace {fuel : Nat} (hi : Inv h (u ++ p :: v) live) (hbase : kBase < c)
    (hlow : ∀ x ∈ u ++ [p], x < c) (hne : ∀ x ∈ v, x ≠ c) :
    (∀ f, findPlace h c fuel p = some f → ∃ u' v', u ++ p :: v = u' ++ f :: v' ∧
      (∀ x ∈ u' ++ [f], x < c) ∧ ∀ x ∈ v', c < x) ∧
      (v.length < fuel → (findPlace h c fuel p).isSome) := by
  have hpc : p < c := hlow p (by simp)
  induction v generalizing u p fuel with
  | nil =>
    cases fuel with
    | zero => exact ⟨nofun, nofun⟩
    | succ fuel =>
      have hle : kBase ≤ p := by
        by_cases hp : p = kBase
        · exact Nat.le_of_eq hp.symm
        · have hlo := (hi.chunk p (by simp) hp).bounds.1
          unfold kFarHeapBase at hlo
          unfold kBase
          omega
      unfold Kernel.findPlace
      rw [hi.next_last, if_neg (by omega), if_pos ⟨hle, Or.inl hpc⟩]
      refine ⟨fun f hf ↦ ?_, fun _ ↦ rfl⟩
      cases hf
      exact ⟨u, [], rfl, hlow, nofun⟩
  | cons w v ih =>
    cases fuel with
    | zero => exact ⟨nofun, nofun⟩
    | succ fuel =>
      have hi' : Inv h ((u ++ [p]) ++ w :: v) live := by simpa using hi
      have hpw : p < w := by
        have hlt := hi'.around.1 p (by simp)
        have hgt := hi.ends_gt (show p ∈ u ++ p :: w :: v by simp)
        omega
      have hwc := hne w List.mem_cons_self
      unfold Kernel.findPlace
      rw [hi.next_cons]
      by_cases hcw : c < w
      · rw [if_pos ⟨hpc, hcw⟩]
        refine ⟨fun f hf ↦ ?_, fun _ ↦ rfl⟩
        cases hf
        refine ⟨u, w :: v, rfl, hlow, fun x hx ↦ ?_⟩
        rcases List.mem_cons.mp hx with rfl | hx
        · exact hcw
        · have hgt := hi.ends_gt (show w ∈ u ++ p :: w :: v by simp)
          have hlt := hi'.around.2.1 x hx
          omega
      · have hlow' : ∀ x ∈ (u ++ [p]) ++ [w], x < c := by
          intro x hx
          rcases List.mem_append.mp hx with hx | hx
          · exact hlow x hx
          · rw [List.mem_singleton.mp hx]
            omega
        rw [if_neg (by omega), if_neg (by omega)]
        obtain ⟨hres, hend⟩ := @ih (u ++ [p]) w fuel hi' hlow'
          (fun x hx ↦ hne x (List.mem_cons_of_mem w hx)) (by omega)
        refine ⟨fun f hf ↦ ?_, fun hlen ↦ hend (Nat.lt_of_succ_lt_succ hlen)⟩
        obtain ⟨u', v', heq, hrest⟩ := hres f hf
        exact ⟨u', v', by rw [← heq]; simp, hrest⟩

/-! ## Joining -/

/-- The chunk at `a` takes over the one at `b`. -/
theorem merged (h : Heap) (a b : Nat) :
    let h' := (h.setSize a ((h.mcbSize a + h.mcbSize b) % 2 ^ 32)).setNext a (h.next b)
    h'.mcbSize a = (h.mcbSize a + h.mcbSize b) % 2 ^ 32 ∧ h'.next a = h.next b ∧
      (∀ x, x ≠ a → h'.mcbSize x = h.mcbSize x) ∧ ∀ x, x ≠ a → h'.next x = h.next x :=
  ⟨Heap.mcbSize_setSize_self, Heap.next_setNext_self, fun _ hx ↦ Heap.mcbSize_setSize_of_ne hx,
    fun _ hx ↦ Heap.next_setNext_of_ne hx⟩

theorem mcbSize_joinFront (hx : x ≠ c) : (joinFront c p h).mcbSize x = h.mcbSize x := by
  unfold joinFront
  split
  · exact Heap.mcbSize_setSize_of_ne hx
  · rfl

theorem mcbSize_joinEnd (hx : x ≠ p) : (joinEnd c p h).mcbSize x = h.mcbSize x := by
  unfold joinEnd
  split
  · exact Heap.mcbSize_setSize_of_ne hx
  · rfl

theorem kAvailmem_join :
    (joinEnd c p (joinFront c p h)).kAvailmem = h.kAvailmem := by
  unfold joinEnd joinFront
  split
  · split <;> rfl
  · split <;> rfl

/-- Two chunks in a row are in one block. -/
theorem Chunk.join (ha : Chunk h a) (hb : Chunk h b) (hab : h.ends a = b)
    (hs : h'.mcbSize a = (h.mcbSize a + h.mcbSize b) % 2 ^ 32) :
    Chunk h' a ∧ h'.ends a = h.ends b := by
  have hendsa : h.ends a = a + 12 * h.mcbSize a := rfl
  have hendsb : h.ends b = b + 12 * h.mcbSize b := rfl
  have hends' : h'.ends a = a + 12 * h'.mcbSize a := rfl
  have ha' := ha.bounds
  have hb' := hb.bounds
  have hsum : h'.mcbSize a = h.mcbSize a + h.mcbSize b := by omega
  have hends : h'.ends a = h.ends b := by omega
  obtain ⟨hpos, i, hi, hlo, hhi⟩ := ha
  obtain ⟨hpos', j, hj, hlo', hhi'⟩ := hb
  have hij : i = j := by
    unfold kFarHeap at *
    omega
  refine ⟨⟨by omega, i, hi, hlo, ?_⟩, hends⟩
  · rw [hends, hij]
    exact hhi'

/-- What is apart from two chunks in a row is apart from both as one. -/
theorem Apart.join (ha : Apart h a c) (hb : Apart h b c) (hab : h.ends a = b) (hc : c < h.ends c)
    (hends : h'.ends a = h.ends b) (hendsc : h'.ends c = h.ends c) : Apart h' a c := by
  unfold Apart at *
  omega

/-- The chunk `c` is on its way back: it is linked to what is behind `p`, but not yet from `p`. -/
structure Staged (h : Heap) (u : List Nat) (p c : Nat) (v live : List Nat) : Prop where
  entry : (u ++ [p]).head? = some kBase
  front : Follows h.next (u ++ [p])
  behind : Follows h.next (c :: (v ++ [kBase]))
  below : (u ++ p :: v).Pairwise fun a b ↦ h.ends a < b
  chunk : ∀ a ∈ u ++ p :: v, a ≠ kBase → Chunk h a
  back : Chunk h c
  lower : ∀ a ∈ u ++ [p], h.ends a ≤ c
  upper : ∀ a ∈ v, h.ends c < a
  base : h.mcbSize kBase = 1
  owned : ∀ d ∈ live, d ≠ kBase →
    Chunk h d ∧ h.next d = d ∧ (∀ a ∈ u ++ p :: v, Apart h a d) ∧ Apart h c d
  ownedApart : live.Pairwise fun c d ↦ c = kBase ∨ d = kBase ∨ Apart h c d
  allocp : h.kAllocp = kBase
  pktAllocp : h.kPktAllocp = kPktBase

/-- The first half of the way back; no unit is lost. -/
theorem Inv.joinFront (hi : Inv h (u ++ p :: v) (c :: live)) (hbase : c ≠ kBase)
    (hlow : ∀ x ∈ u ++ [p], x < c) (hhigh : ∀ x ∈ v, c < x) :
    ∃ v', Staged (joinFront c p h) u p c v' live ∧
      Conserves h (c :: (u ++ p :: v)) (Kernel.joinFront c p h) (c :: (u ++ p :: v')) := by
  obtain ⟨hback, -, hapart⟩ := hi.owned c List.mem_cons_self hbase
  have hcgt := hback.ends_gt
  have hcne : ∀ a ∈ u ++ p :: v, a ≠ c := by
    intro a ha
    exact hi.owned_ne ha List.mem_cons_self hbase
  have hfront : ∀ a ∈ u ++ [p], a ∈ u ++ p :: v := by
    intro a ha
    rcases List.mem_append.mp ha with ha | ha
    · exact List.mem_append_left _ ha
    · rw [List.mem_singleton.mp ha]
      simp
  -- the chunk given back lies between its neighbours in the list
  have hlower : ∀ a ∈ u ++ [p], h.ends a ≤ c := by
    intro a ha
    have hlt := hlow a ha
    rcases hapart a (hfront a ha) with hle | hle <;> omega
  have hupper : ∀ a ∈ v, h.ends c ≤ a := by
    intro a ha
    have hlt := hhigh a ha
    have hgt := hi.ends_gt (show a ∈ u ++ p :: v by simp [ha])
    rcases hapart a (by simp [ha]) with hle | hle <;> omega
  have hlive : ∀ d ∈ live, d ≠ kBase → Apart h c d := by
    intro d hd hdbase
    have happ := (List.pairwise_cons.mp hi.ownedApart).1 d hd
    exact (happ.resolve_left hbase).resolve_left hdbase
  have hlivene : ∀ d ∈ live, d ≠ kBase → d ≠ c := by
    intro d hd hdbase
    have hgt := (hi.owned d (List.mem_cons_of_mem c hd) hdbase).1.ends_gt
    exact ((hlive d hd hdbase).ne (by omega) (by omega)).symm
  have hentry : (u ++ [p]).head? = some kBase := by
    have hentry := hi.entry
    cases u <;> exact hentry
  have hfollows := hi.follows
  rw [List.append_assoc, List.cons_append, follows_split] at hfollows
  unfold Kernel.joinFront
  rw [hback.mcbAdd]
  by_cases hjoin : h.ends c = h.next p
  · cases v with
    | nil =>
      -- behind the last chunk the list returns to `kBase`, below every chunk
      rw [hi.next_last] at hjoin
      have hlo := hback.bounds.1
      unfold kFarHeapBase at hlo
      unfold kBase at hjoin
      omega
    | cons w v =>
      rw [hi.next_cons] at hjoin ⊢
      rw [if_pos hjoin]
      have hi' : Inv h ((u ++ [p]) ++ w :: v) (c :: live) := by simpa using hi
      have hwmem : w ∈ u ++ p :: w :: v := by simp
      have hw := hi.chunk w hwmem hi.ne_kBase
      have hsub : ∀ a ∈ u ++ p :: v, a ∈ u ++ p :: w :: v := by
        intro a ha
        simp only [List.mem_append, List.mem_cons] at ha ⊢
        tauto
      simp only [Heap.next_setSize, hi.next_cons]
      obtain ⟨hsizec, hnextc, hsize, hnext⟩ := merged h c w
      generalize hh' : (h.setSize c ((h.mcbSize c + h.mcbSize w) % 2 ^ 32)).setNext c (h.next w) =
        h' at hsizec hnextc hsize hnext ⊢
      obtain ⟨hback', hends⟩ := hback.join hw hjoin hsizec
      have hsame : ∀ a ∈ u ++ p :: w :: v, h'.ends a = h.ends a :=
        fun a ha ↦ ends_congr (hsize a (hcne a ha))
      -- the chunk and the one behind it become one, of the units of both
      have hperm : (w :: (u ++ p :: v)).Perm (u ++ p :: w :: v) := by
        have hmiddle := @List.perm_middle _ w (u ++ [p]) v
        simpa using hmiddle.symm
      have hconserves : Conserves h (c :: (u ++ p :: w :: v)) h' (c :: (u ++ p :: v)) :=
        (Conserves.of_perm (hperm.cons c) fun _ _ ↦ rfl).trans
          (.join hjoin hends fun x hx ↦ hsize x (hcne x (hsub x hx)))
      refine ⟨v, ⟨hentry, hfollows.1.congr fun y hy ↦ hnext y (hcne y (by simp [hy])), ?_, ?_,
        ?_, hback', ?_, ?_, ?_, ?_, ?_, ?_, ?_⟩, hconserves⟩
      · apply hfollows.2.tail.cons_congr hnextc
        exact hfollows.2.tail.tail.congr fun y hy ↦ hnext y (hcne y (by simp [hy]))
      · have hbelow := hi'.around.2.2
        rw [List.append_assoc] at hbelow
        apply hbelow.imp_of_mem
        intro a b ha _ hab
        rw [hsame a (hsub a ha)]
        exact hab
      · intro a ha habase
        exact (hi.chunk a (hsub a ha) habase).congr (hsize a (hcne a (hsub a ha)))
      · intro a ha
        rw [hsame a (hsub a (by
          simp only [List.mem_append, List.mem_cons] at ha ⊢
          tauto))]
        exact hlower a ha
      · intro a ha
        rw [hends]
        exact hi'.around.2.1 a ha
      · rw [hsize kBase hbase.symm]
        exact hi.base
      · intro d hd hdbase
        obtain ⟨hchunk, hdnext, hdapart⟩ := hi.owned d (List.mem_cons_of_mem c hd) hdbase
        have hgt := hchunk.ends_gt
        have hcd := hlivene d hd hdbase
        refine ⟨hchunk.congr (hsize d hcd), (hnext d hcd).trans hdnext, fun a ha ↦ ?_, ?_⟩
        · exact (hdapart a (hsub a ha)).congr (hsize a (hcne a (hsub a ha))) (hsize d hcd)
        · exact (hlive d hd hdbase).join (hdapart w hwmem) hjoin (by omega) hends
            (ends_congr (hsize d hcd))
      · apply ownedApart_congr (List.pairwise_cons.mp hi.ownedApart).2
        exact fun d hd hdbase ↦ hsize d (hlivene d hd hdbase)
      · rw [← hh']
        exact hi.allocp
      · rw [← hh']
        exact hi.pktAllocp
  · -- nothing begins where the chunk ends
    rw [if_neg hjoin]
    have hnext : ∀ a ∈ u ++ p :: v, (h.setNext c (h.next p)).next a = h.next a :=
      fun a ha ↦ Heap.next_setNext_of_ne (hcne a ha)
    refine ⟨v, ⟨hentry, hfollows.1.congr fun y hy ↦ hnext y (by simp [hy]), ?_, hi.below,
      hi.chunk, hback, hlower, ?_, hi.base, ?_, (List.pairwise_cons.mp hi.ownedApart).2,
      hi.allocp, hi.pktAllocp⟩, .of_perm (.refl _) fun _ _ ↦ rfl⟩
    · apply hfollows.2.cons_congr Heap.next_setNext_self
      exact hfollows.2.tail.congr fun y hy ↦ hnext y (by simp [hy])
    · intro a ha
      cases v with
      | nil => cases ha
      | cons w v =>
        rw [hi.next_cons] at hjoin
        change h.ends c < a
        -- its end is not the next chunk, so it lies below it
        have hw := hupper w List.mem_cons_self
        rcases List.mem_cons.mp ha with rfl | ha
        · omega
        · have hi' : Inv h ((u ++ [p]) ++ w :: v) (c :: live) := by simpa using hi
          have hlt := hi'.around.2.1 a ha
          have hgt := hi'.ends_gt (show w ∈ (u ++ [p]) ++ w :: v by simp)
          omega
    · intro d hd hdbase
      obtain ⟨hchunk, hdnext, hdapart⟩ := hi.owned d (List.mem_cons_of_mem c hd) hdbase
      have hdc := hlivene d hd hdbase
      exact ⟨hchunk, (Heap.next_setNext_of_ne hdc).trans hdnext, hdapart, hlive d hd hdbase⟩

/-- The second half. -/
theorem Staged.joinEnd (hs : Staged h u p c v live) : ∃ nodes, Inv (joinEnd c p h) nodes live ∧
    Conserves h (c :: (u ++ p :: v)) (Kernel.joinEnd c p h) nodes := by
  have hcbase := hs.back.ne_kBase
  have hcgt := hs.back.ends_gt
  have hsorted : ∀ a ∈ u ++ p :: v, a < h.ends a := by
    intro a ha
    by_cases habase : a = kBase
    · rw [habase]
      unfold Heap.ends sizeofMCB
      rw [hs.base]
      omega
    · have hgt := (hs.chunk a ha habase).ends_gt
      omega
  have hpgt := hsorted p (by simp)
  have hple := hs.lower p (by simp)
  have hbelow := List.pairwise_append.mp hs.below
  -- the chunks before `p` end below it, those behind it begin above its end
  have hu : ∀ a ∈ u, h.ends a < p := fun a ha ↦ hbelow.2.2 a ha p List.mem_cons_self
  have hv : ∀ a ∈ v, h.ends p < a := (List.pairwise_cons.mp hbelow.2.1).1
  have hune : ∀ a ∈ u, a ≠ p := by
    intro a ha
    have hlt := hu a ha
    have hgt := hsorted a (by simp [ha])
    omega
  have hvne : ∀ a ∈ v, a ≠ p := by
    intro a ha
    have hlt := hv a ha
    omega
  have hownedne : ∀ d ∈ live, d ≠ kBase → d ≠ p := by
    intro d hd hdbase
    obtain ⟨hchunk, -, hapart, -⟩ := hs.owned d hd hdbase
    have hgt := hchunk.ends_gt
    exact ((hapart p (by simp)).ne hpgt (by omega)).symm
  -- the end of `p` is an address, so the sum of `mcbAdd` does not wrap
  have hplace : mcbAdd p (h.mcbSize p) = h.ends p := by
    have hback := hs.back.bounds.2
    unfold mcbAdd
    apply Nat.mod_eq_of_lt
    change h.ends p < 2 ^ 32
    omega
  unfold Kernel.joinEnd
  rw [hplace]
  by_cases hjoin : h.ends p = c
  · rw [if_pos hjoin]
    -- `kBase` does not end where a chunk begins
    have hpbase : p ≠ kBase := by
      rintro rfl
      have hlo := hs.back.bounds.1
      unfold Heap.ends sizeofMCB at hjoin
      rw [hs.base] at hjoin
      unfold kFarHeapBase at hlo
      unfold kBase at hjoin
      omega
    have hchunkp := hs.chunk p (by simp) hpbase
    simp only [Heap.next_setSize]
    obtain ⟨hsizep, hnextp, hsize, hnext⟩ := merged h p c
    generalize hh' : (h.setSize p ((h.mcbSize p + h.mcbSize c) % 2 ^ 32)).setNext p (h.next c) =
      h' at hsizep hnextp hsize hnext ⊢
    obtain ⟨hchunkp', hends⟩ := hchunkp.join hs.back hjoin hsizep
    -- the joined chunk has the units of both
    have hfirst : (p :: c :: (u ++ v)).Perm (c :: (u ++ p :: v)) :=
      (List.Perm.swap c p _).trans (List.perm_middle.symm.cons c)
    have hconserves : Conserves h (c :: (u ++ p :: v)) h' (u ++ p :: v) := by
      refine (Conserves.of_perm hfirst fun _ _ ↦ rfl).trans ?_
      refine (Conserves.join hjoin hends fun x hx ↦ hsize x ?_).trans
        (.of_perm List.perm_middle fun _ _ ↦ rfl)
      exact (List.mem_append.mp hx).elim (hune x) (hvne x)
    refine ⟨u ++ p :: v, ⟨?_, ?_, ?_, ?_, ?_, ?_, ?_, ?_, ?_⟩, hconserves⟩
    · have hentry := hs.entry
      cases u <;> exact hentry
    · rw [List.append_assoc, List.cons_append, follows_split]
      refine ⟨hs.front.congr fun y hy ↦ hnext y (hune y hy), hs.behind.cons_congr hnextp ?_⟩
      exact hs.behind.tail.congr fun y hy ↦ hnext y (hvne y hy)
    · apply hs.below.imp_of_mem
      intro a b ha hb hab
      by_cases hap : a = p
      · rw [hap] at hab ⊢
        rw [hends]
        rcases List.mem_append.mp hb with hb | hb
        · have hlt := hu b hb
          have hgt := hsorted b (by simp [hb])
          omega
        · rcases List.mem_cons.mp hb with rfl | hb
          · omega
          · exact hs.upper b hb
      · rw [ends_congr (hsize a hap)]
        exact hab
    · intro a ha habase
      by_cases hap : a = p
      · rw [hap]
        exact hchunkp'
      · exact (hs.chunk a ha habase).congr (hsize a hap)
    · rw [hsize kBase hpbase.symm]
      exact hs.base
    · intro d hd hdbase
      obtain ⟨hchunk, hdnext, hapart, hapartc⟩ := hs.owned d hd hdbase
      have hdp := hownedne d hd hdbase
      have hgt := hchunk.ends_gt
      refine ⟨hchunk.congr (hsize d hdp), (hnext d hdp).trans hdnext, fun a ha ↦ ?_⟩
      by_cases hap : a = p
      · rw [hap]
        exact (hapart p (by simp)).join hapartc hjoin (by omega) hends (ends_congr (hsize d hdp))
      · exact (hapart a ha).congr (hsize a hap) (hsize d hdp)
    · exact ownedApart_congr hs.ownedApart fun d hd hdbase ↦ hsize d (hownedne d hd hdbase)
    · rw [← hh']
      exact hs.allocp
    · rw [← hh']
      exact hs.pktAllocp
  · rw [if_neg hjoin]
    -- a gap is left between them, and `c` becomes a node of its own behind `p`
    have hpc : c ≠ p := by omega
    have hnext : ∀ a, a ≠ p → (h.setNext p c).next a = h.next a :=
      fun a ha ↦ Heap.next_setNext_of_ne ha
    have hlower : ∀ a ∈ u ++ [p], h.ends a < c := by
      intro a ha
      rcases List.mem_append.mp ha with ha | ha
      · have hlt := hu a ha
        omega
      · rw [List.mem_singleton.mp ha]
        omega
    have hconserves : Conserves h (c :: (u ++ p :: v)) (h.setNext p c) (u ++ p :: c :: v) := by
      refine .of_perm ?_ fun _ _ ↦ rfl
      have hmiddle := @List.perm_middle _ c (u ++ [p]) v
      simpa using hmiddle
    refine ⟨u ++ p :: c :: v, ⟨?_, ?_, ?_, ?_, hs.base, ?_, hs.ownedApart, hs.allocp,
      hs.pktAllocp⟩, hconserves⟩
    · have hentry := hs.entry
      cases u <;> exact hentry
    · rw [List.append_assoc, List.cons_append, List.cons_append, follows_split]
      refine ⟨hs.front.congr fun y hy ↦ hnext y (hune y hy), ?_⟩
      apply follows_cons_cons.mpr ⟨Heap.next_setNext_self, ?_⟩
      apply hs.behind.cons_congr (hnext c hpc)
      exact hs.behind.tail.congr fun y hy ↦ hnext y (hvne y hy)
    · have hshape : u ++ p :: c :: v = (u ++ [p]) ++ c :: v := by simp
      have hbelow' := hs.below
      rw [show u ++ p :: v = (u ++ [p]) ++ v by simp, List.pairwise_append] at hbelow'
      rw [hshape]
      apply List.pairwise_append.mpr ⟨hbelow'.1, ?_, ?_⟩
      · exact List.pairwise_cons.mpr ⟨hs.upper, hbelow'.2.1⟩
      · intro a ha b hb
        rcases List.mem_cons.mp hb with rfl | hb
        · exact hlower a ha
        · exact hbelow'.2.2 a ha b hb
    · intro a ha habase
      by_cases hac : a = c
      · rw [hac]
        exact hs.back
      · refine hs.chunk a ?_ habase
        simp only [List.mem_append, List.mem_cons] at ha ⊢
        tauto
    · intro d hd hdbase
      obtain ⟨hchunk, hdnext, hapart, hapartc⟩ := hs.owned d hd hdbase
      refine ⟨hchunk, (hnext d (hownedne d hd hdbase)).trans hdnext, fun a ha ↦ ?_⟩
      by_cases hac : a = c
      · rw [hac]
        exact hapartc
      · apply hapart a
        simp only [List.mem_append, List.mem_cons] at ha ⊢
        tauto

/-- All of the way back, from the entry of the ring on: no unit is lost, and the chunks in use keep
their sizes. -/
theorem Inv.back {fuel : Nat} (hi : Inv h (kBase :: v) (c :: live)) (hbase : c ≠ kBase) :
    (∀ f, Kernel.findPlace h c fuel kBase = some f → ∃ nodes,
      Inv (Kernel.joinEnd c f (Kernel.joinFront c f h)) nodes live ∧
        Conserves h (c :: kBase :: v) (Kernel.joinEnd c f (Kernel.joinFront c f h)) nodes ∧
        ∀ d ∈ live, d ≠ kBase →
          (Kernel.joinEnd c f (Kernel.joinFront c f h)).mcbSize d = h.mcbSize d) ∧
      (v.length < fuel → (Kernel.findPlace h c fuel kBase).isSome) := by
  have hback := (hi.owned c List.mem_cons_self hbase).1
  have hlow : kBase < c := by
    have hlo := hback.bounds.1
    unfold kFarHeapBase at hlo
    unfold kBase
    omega
  have hi' : Inv h ([] ++ kBase :: v) (c :: live) := hi
  obtain ⟨hplace, hend⟩ := @Inv.findPlace h _ [] v c kBase fuel hi' hlow
    (fun x hx ↦ by rw [List.mem_singleton.mp hx]; exact hlow)
    fun x hx ↦ hi.owned_ne (List.mem_cons_of_mem kBase hx) List.mem_cons_self hbase
  refine ⟨fun f hf ↦ ?_, hend⟩
  obtain ⟨u, w, heq, hbelow, habove⟩ := hplace f hf
  rw [List.nil_append] at heq
  rw [heq] at hi ⊢
  obtain ⟨w', hstaged, hfront⟩ := hi.joinFront hbase hbelow habove
  obtain ⟨nodes, hinv, hends⟩ := hstaged.joinEnd
  refine ⟨nodes, hinv, hfront.trans hends, fun d hd hdbase ↦ ?_⟩
  have hdf : d ≠ f := (hi.owned_ne (by simp) (List.mem_cons_of_mem c hd) hdbase).symm
  have hdc : d ≠ c := by
    have happ := (List.pairwise_cons.mp hi.ownedApart).1 d hd
    have hdgt := (hi.owned d (List.mem_cons_of_mem c hd) hdbase).1.ends_gt
    have hcgt := hback.ends_gt
    exact (((happ.resolve_left hbase).resolve_left hdbase).ne (by omega) (by omega)).symm
  rw [mcbSize_joinEnd hdf, mcbSize_joinFront hdc]

end PrintServer.Kernel
