import SwitchSimulation.Heap

/-!
# When the heap returns a least element

Both loops rearrange the array. `heap_insert` keeps the root least. The loop
of `heap_pop_min` never leaves the root: it ends with the root not greater
than slots 1 and 2, so the new root is the least of the three top slots, which
is the least of all only if a least element was among them or came from the
last slot.
-/

namespace SwitchSimulation

section
variable {α : Type*} (C : Comparator α)

def RootLeast (h : Heap α) : Prop := ∀ k < h.size, C.le (h.elems 0) (h.elems k)

variable {C}

/-! ## Bubbling up -/

structure Climbing (C : Comparator α) (x : α) (s : Heap α × Nat) : Prop where
  at_index : s.1.elems s.2 = x
  index_lt : s.2 < s.1.size
  above : ∀ k < s.1.size, k ≠ s.2 → C.le (s.1.elems 0) (s.1.elems k)

theorem bubbleCond_iff {s : Heap α × Nat} :
    bubbleCond C s = true ↔ s.2 ≠ 0 ∧ ¬ C.le (s.1.elems (parentIndex s.2)) (s.1.elems s.2) := by
  unfold bubbleCond
  rw [Bool.and_eq_true, bne_iff_ne, beq_iff_eq, Comparator.cmp_lt_iff]

theorem Climbing.step {x : α} {s : Heap α × Nat} (hs : Climbing C x s) (hc : bubbleCond C s = true) :
    Climbing C x (bubbleBody s) := by
  obtain ⟨h, i⟩ := s
  obtain ⟨hi, hlt⟩ := bubbleCond_iff.mp hc
  have hp := parentIndex_lt hi
  have hx : h.elems i = x := hs.at_index
  have hil : i < h.size := hs.index_lt
  have habove : ∀ k < h.size, k ≠ i → C.le (h.elems 0) (h.elems k) := hs.above
  simp only [hx] at hi hp hlt
  refine ⟨?_, Nat.lt_trans hp hil, ?_⟩
  · simp only [bubbleBody, swapElem_elems, swapSlots_right, hx]
  intro k hk hkp
  simp only [bubbleBody, swapElem_size, swapElem_elems] at hk hkp ⊢
  -- the new root is the old one, or `x` when the parent is the root
  have hroot : C.le (swapSlots h.elems i (parentIndex i) 0) (h.elems 0) := by
    by_cases h0 : parentIndex i = 0
    · rw [h0] at hlt
      rw [h0, swapSlots_right, hx]
      exact Comparator.le_of_not_le hlt
    · rw [swapSlots_other _ (Ne.symm hi) (Ne.symm h0)]
      exact Comparator.le_refl _
  by_cases hki : k = i
  · subst hki
    rw [swapSlots_left]
    exact Comparator.le_trans hroot (habove _ (by omega) (by omega))
  · rw [swapSlots_other _ hki hkp]
    exact Comparator.le_trans hroot (habove k hk hki)

theorem bubbleUp_exit (h : Heap α) (index : Nat) : bubbleCond C (bubbleUp C h index) = false :=
  whileLoop_exit (bubbleCond C) bubbleBody (fun _ => True) Prod.snd (fun _ _ _ => trivial)
    (fun _ _ hc => parentIndex_lt (bubbleCond_iff.mp hc).1) index trivial (Nat.le_refl index)

theorem bubbleUp_rootLeast {h : Heap α} {index : Nat} {x : α} (hc : Climbing C x (h, index)) :
    RootLeast C (bubbleUp C h index).1 := by
  have hinv : Climbing C x (bubbleUp C h index) := whileLoop_inv (Climbing C x) (fun s hs => hs.step) index hc
  have hexit := bubbleUp_exit (C := C) h index
  have hlast := hinv.index_lt
  intro k hk
  by_cases hki : k = (bubbleUp C h index).2
  · by_cases h0 : k = 0
    · subst h0; exact Comparator.le_refl _
    · -- the loop stopped below the root, at a parent that is not greater
      rw [← Bool.not_eq_true, bubbleCond_iff, ← hki] at hexit
      have hp := parentIndex_lt h0
      have hstop : C.le ((bubbleUp C h index).1.elems (parentIndex k)) ((bubbleUp C h index).1.elems k) :=
        Classical.byContradiction fun hn => hexit ⟨h0, hn⟩
      exact Comparator.le_trans (hinv.above _ (by omega) (by omega)) hstop
  · exact hinv.above k hk hki

theorem bubbleUp_rearrange {h : Heap α} {index : Nat} (hi : index < h.size) :
    (bubbleUp C h index).1.size = h.size ∧ Rearrange h.size h.elems (bubbleUp C h index).1.elems := by
  let I (s : Heap α × Nat) := s.2 < h.size ∧ s.1.size = h.size ∧ Rearrange h.size h.elems s.1.elems
  have hinv : I (bubbleUp C h index) := by
    refine whileLoop_inv I ?_ index ⟨hi, rfl, .refl _ _⟩
    intro s ⟨hlt, hsize, hre⟩ hc
    have hp := parentIndex_lt (bubbleCond_iff.mp hc).1
    have hp' : parentIndex s.2 < h.size := by omega
    exact ⟨hp', hsize, hre.trans (swapSlots_rearrange _ hlt hp')⟩
  exact hinv.2

theorem heapGrow_size (h : Heap α) : (heapGrow h).size = h.size := by
  unfold heapGrow; split <;> rfl

theorem heapGrow_elems (h : Heap α) : (heapGrow h).elems = h.elems := by
  unfold heapGrow; split <;> rfl

theorem heapAppend_size (h : Heap α) (x : α) : (heapAppend (heapGrow h) x).size = h.size + 1 := by
  simp [heapAppend, heapGrow_size]

theorem heapAppend_last (h : Heap α) (x : α) : (heapAppend (heapGrow h) x).elems h.size = x := by
  simp [heapAppend, heapGrow_size]

theorem heapAppend_old (h : Heap α) (x : α) {k : Nat} (hk : k ≠ h.size) :
    (heapAppend (heapGrow h) x).elems k = h.elems k := by
  simp [heapAppend, heapGrow_size, heapGrow_elems, hk]

theorem heapInsert_rearrange (h : Heap α) (x : α) :
    (heapInsert C h x).size = h.size + 1 ∧
      Rearrange (h.size + 1) (heapAppend (heapGrow h) x).elems (heapInsert C h x).elems := by
  have hsize := heapAppend_size h x
  rw [← hsize]
  exact bubbleUp_rearrange (by omega)

theorem heapInsert_size (h : Heap α) (x : α) : (heapInsert C h x).size = h.size + 1 :=
  (heapInsert_rearrange h x).1

theorem heapInsert_source (h : Heap α) (x : α) {k : Nat} (hk : k < h.size + 1) :
    (heapInsert C h x).elems k = x ∨ ∃ j < h.size, (heapInsert C h x).elems k = h.elems j := by
  obtain ⟨j, hj, he⟩ := (heapInsert_rearrange (C := C) h x).2.source hk
  rw [he]
  by_cases hjs : j = h.size
  · left; rw [hjs, heapAppend_last]
  · right; exact ⟨j, by omega, heapAppend_old h x hjs⟩

theorem heapInsert_rootLeast {h : Heap α} (hr : RootLeast C h) (x : α) : RootLeast C (heapInsert C h x) := by
  have hsize := heapAppend_size h x
  unfold heapInsert
  apply bubbleUp_rootLeast (x := x)
  simp only [hsize, Nat.add_sub_cancel]
  refine ⟨heapAppend_last h x, by simp [hsize], fun k hk hki => ?_⟩
  simp only [hsize] at hk hki ⊢
  rw [heapAppend_old h x hki, heapAppend_old h x (by omega)]
  exact hr k (by omega)

/-! ## Sifting at the root -/

theorem largestChild_cases (h : Heap α) (i : Nat) :
    (largestChildGreaterThan C h i = 0 ∧
        (leftChildIndex i < h.size → C.le (h.elems i) (h.elems (leftChildIndex i))) ∧
        (rightChildIndex i < h.size → C.le (h.elems i) (h.elems (rightChildIndex i)))) ∨
      ∃ c, largestChildGreaterThan C h i = c ∧ (c = leftChildIndex i ∨ c = rightChildIndex i) ∧
        c < h.size ∧ ¬ C.le (h.elems i) (h.elems c) := by
  have hlr : leftChildIndex i < rightChildIndex i := by unfold leftChildIndex rightChildIndex; omega
  unfold largestChildGreaterThan
  simp only [Comparator.cmp_gt_iff]
  by_cases hr : rightChildIndex i < h.size
  · have hl : leftChildIndex i < h.size := Nat.lt_trans hlr hr
    rw [if_pos hr]
    by_cases hgl : C.le (h.elems i) (h.elems (leftChildIndex i))
    · by_cases hgr : C.le (h.elems i) (h.elems (rightChildIndex i))
      · exact Or.inl ⟨by simp [hgl, hgr], fun _ => hgl, fun _ => hgr⟩
      · exact Or.inr ⟨rightChildIndex i, by simp [hgl, hgr], Or.inr rfl, hr, hgr⟩
    · by_cases hgr : C.le (h.elems i) (h.elems (rightChildIndex i))
      · exact Or.inr ⟨leftChildIndex i, by simp [hgl, hgr], Or.inl rfl, hl, hgl⟩
      · -- the greater child is taken
        rw [if_pos ⟨hgl, hgr⟩]
        by_cases hle : C.le (h.elems (leftChildIndex i)) (h.elems (rightChildIndex i))
        · exact Or.inr ⟨rightChildIndex i, if_neg fun hn => hn hle, Or.inr rfl, hr, hgr⟩
        · exact Or.inr ⟨leftChildIndex i, if_pos hle, Or.inl rfl, hl, hgl⟩
  · rw [if_neg hr]
    by_cases hl : leftChildIndex i < h.size
    · rw [if_pos hl]
      by_cases hgl : C.le (h.elems i) (h.elems (leftChildIndex i))
      · exact Or.inl ⟨if_neg fun hn => hn hgl, fun _ => hgl, fun hr' => absurd hr' hr⟩
      · exact Or.inr ⟨leftChildIndex i, if_pos hgl, Or.inl rfl, hl, hgl⟩
    · exact Or.inl ⟨if_neg hl, fun hl' => absurd hl' hl, fun hr' => absurd hr' hr⟩

theorem siftCond_true {h : Heap α} (hc : siftCond C h = true) :
    ∃ c, largestChildGreaterThan C h 0 = c ∧ (c = 1 ∨ c = 2) ∧ c < h.size ∧
      ¬ C.le (h.elems 0) (h.elems c) := by
  unfold siftCond at hc
  rw [Bool.and_eq_true, bne_iff_ne] at hc
  exact (largestChild_cases h 0).resolve_left fun h0 => hc.2 h0.1

theorem siftCond_false {h : Heap α} (hc : siftCond C h = false) {c : Nat} (h12 : c = 1 ∨ c = 2)
    (hcs : c < h.size) : C.le (h.elems 0) (h.elems c) := by
  have hchild : hasChild h 0 = true := by
    have h1 : 1 < h.size := by omega
    simp [hasChild, leftChildIndex, h1]
  unfold siftCond at hc
  rw [hchild, Bool.true_and, bne_eq_false_iff_eq] at hc
  rcases largestChild_cases (C := C) h 0 with ⟨_, hl, hr⟩ | ⟨d, hd, hd12, _⟩
  · cases h12 with
    | inl h1 => subst h1; exact hl hcs
    | inr h2 => subst h2; exact hr hcs
  · -- a child is never slot 0
    have hd0 : d = 0 := hd.symm.trans hc
    unfold leftChildIndex rightChildIndex at hd12
    omega

def smallerBelow (C : Comparator α) (h : Heap α) : Nat :=
  (if 1 < h.size ∧ ¬ C.le (h.elems 0) (h.elems 1) then 1 else 0) +
    (if 2 < h.size ∧ ¬ C.le (h.elems 0) (h.elems 2) then 1 else 0)

theorem smallerBelow_le (h : Heap α) : smallerBelow C h ≤ h.size := by
  unfold smallerBelow
  split <;> split <;> omega

/-- A swap at the root brings a smaller element up, so the slot it came from
no longer counts and the other one counts at most as before. -/
theorem siftBody_smallerBelow {h : Heap α} (hc : siftCond C h = true) :
    smallerBelow C (siftBody C h) < smallerBelow C h := by
  obtain ⟨c, hlc, h12, hcs, hgt⟩ := siftCond_true hc
  unfold siftBody
  rw [hlc]
  have hup : C.le (h.elems c) (h.elems 0) := Comparator.le_of_not_le hgt
  rcases h12 with rfl | rfl
  · simp only [smallerBelow, swapElem_size, swapElem_elems, swapSlots_left, swapSlots_right, hup, hcs, hgt,
      swapSlots_other h.elems (show 2 ≠ 0 by omega) (show 2 ≠ 1 by omega)]
    by_cases h2 : 2 < h.size ∧ ¬ C.le (h.elems 1) (h.elems 2)
    · simp [h2, Comparator.not_le_trans h2.2 hup]
    · simp only [h2, not_true_eq_false, and_false, if_false, not_false_eq_true, and_self, if_true]
      omega
  · simp only [smallerBelow, swapElem_size, swapElem_elems, swapSlots_left, swapSlots_right, hup, hcs, hgt,
      swapSlots_other h.elems (show 1 ≠ 0 by omega) (show 1 ≠ 2 by omega)]
    by_cases h1 : 1 < h.size ∧ ¬ C.le (h.elems 2) (h.elems 1)
    · simp [h1, Comparator.not_le_trans h1.2 hup]
    · simp only [h1, not_true_eq_false, and_false, if_false, not_false_eq_true, and_self, if_true]
      omega

theorem siftRoot_exit (h : Heap α) : siftCond C (siftRoot C h) = false :=
  whileLoop_exit (siftCond C) (siftBody C) (fun _ => True) (smallerBelow C) (fun _ _ _ => trivial)
    (fun _ _ hc => siftBody_smallerBelow hc) h.size trivial (smallerBelow_le h)

theorem siftRoot_rearrange (h : Heap α) :
    (siftRoot C h).size = h.size ∧ Rearrange (min 3 h.size) h.elems (siftRoot C h).elems :=
  whileLoop_inv (fun t : Heap α => t.size = h.size ∧ Rearrange (min 3 h.size) h.elems t.elems)
    (fun t ht hc => by
      obtain ⟨c, hlc, h12, hcs, -⟩ := siftCond_true hc
      refine ⟨ht.1, ht.2.trans ?_⟩
      simp only [siftBody, hlc, swapElem_elems]
      exact swapSlots_rearrange _ (by omega) (by omega))
    h.size ⟨rfl, Rearrange.refl _ _⟩

theorem siftRoot_top (h : Heap α) {k : Nat} (hk : k < min 3 h.size) :
    C.le ((siftRoot C h).elems 0) (h.elems k) := by
  obtain ⟨hsize, hre⟩ := siftRoot_rearrange (C := C) h
  obtain ⟨j, hj, he⟩ := hre.target hk
  rw [← he]
  by_cases h0 : j = 0
  · subst h0; exact Comparator.le_refl _
  · exact siftCond_false (siftRoot_exit h) (by omega) (by omega)

/-! ## Popping -/

/-- A pop that leaves at least one element finds a least one of those it
leaves at slot 1, at slot 2 or in the last slot. -/
def LeastNearRoot (C : Comparator α) (h : Heap α) : HeapCall α → Prop
  | .popMin => h.size ≤ 1 ∨ ∃ j < h.size, (0 < j ∧ (j = 1 ∨ j = 2 ∨ j = h.size - 1)) ∧
      ∀ k < h.size, 0 < k → C.le (h.elems j) (h.elems k)
  | _ => True

instance (h : Heap α) : ∀ c, Decidable (LeastNearRoot C h c)
  | .popMin => inferInstanceAs (Decidable (_ ∨ ∃ j < h.size, (0 < j ∧ (j = 1 ∨ j = 2 ∨ j = h.size - 1)) ∧
      ∀ k < h.size, 0 < k → C.le (h.elems j) (h.elems k)))
  | .insert _ => inferInstanceAs (Decidable True)
  | .min => inferInstanceAs (Decidable True)

theorem heapMoveLast_elems (h : Heap α) (k : Nat) :
    (heapMoveLast h).elems k = h.elems (if k = 0 then h.size - 1 else k) := by
  by_cases hk : k = 0
  · subst hk; simp [heapMoveLast]
  · simp [heapMoveLast, hk]

theorem heapMoveLast_moved (h : Heap α) {j : Nat} (h0 : 0 < j) :
    (heapMoveLast h).elems (if j = h.size - 1 then 0 else j) = h.elems j := by
  rw [heapMoveLast_elems]
  by_cases hl : j = h.size - 1
  · rw [if_pos hl, if_pos rfl, hl]
  · rw [if_neg hl, if_neg (by omega)]

theorem heapPopMin_rearrange (h : Heap α) :
    (heapPopMin C h).1.size = h.size - 1 ∧
      Rearrange (min 3 (h.size - 1)) (heapMoveLast h).elems (heapPopMin C h).1.elems :=
  siftRoot_rearrange (heapMoveLast h)

theorem heapPopMin_size (h : Heap α) : (heapPopMin C h).1.size = h.size - 1 := (heapPopMin_rearrange h).1

theorem heapPopMin_source (h : Heap α) {k : Nat} (hk : k < (heapPopMin C h).1.size) :
    ∃ j < h.size, 0 < j ∧ (heapPopMin C h).1.elems k = h.elems j := by
  obtain ⟨hsize, hre⟩ := heapPopMin_rearrange (C := C) h
  obtain ⟨j, hj, he⟩ := (hre.mono (Nat.min_le_right _ _)).source (k := k) (by omega)
  rw [he, heapMoveLast_elems]
  refine ⟨_, ?_, ?_, rfl⟩ <;> split <;> omega

theorem heapPopMin_target (h : Heap α) {j : Nat} (h0 : 0 < j) (hj : j < h.size) :
    ∃ k < (heapPopMin C h).1.size, (heapPopMin C h).1.elems k = h.elems j := by
  obtain ⟨hsize, hre⟩ := heapPopMin_rearrange (C := C) h
  rw [← heapMoveLast_moved h h0, hsize]
  apply (hre.mono (Nat.min_le_right _ _)).target
  split <;> omega

theorem heapPopMin_top (h : Heap α) {j : Nat} (h0 : 0 < j) (hj : j < h.size)
    (hnear : j = 1 ∨ j = 2 ∨ j = h.size - 1) :
    C.le ((heapPopMin C h).1.elems 0) (h.elems j) := by
  have hn : (heapMoveLast h).size = h.size - 1 := rfl
  rw [← heapMoveLast_moved h h0]
  apply siftRoot_top
  split <;> omega

theorem heapPopMin_root (h : Heap α) (hs : 1 < h.size) :
    ∃ j < h.size, (0 < j ∧ (j = 1 ∨ j = 2 ∨ j = h.size - 1)) ∧
      (heapPopMin C h).1.elems 0 = h.elems j := by
  obtain ⟨j, hj, he⟩ := (heapPopMin_rearrange (C := C) h).2.source (k := 0) (by omega)
  rw [he, heapMoveLast_elems]
  refine ⟨_, ?_, ⟨?_, ?_⟩, rfl⟩ <;> split <;> omega

theorem heapPopMin_rootLeast_iff (h : Heap α) :
    RootLeast C (heapPopMin C h).1 ↔ LeastNearRoot C h .popMin := by
  have hn := heapPopMin_size (C := C) h
  constructor
  · intro hr
    rcases Nat.lt_or_ge 1 h.size with hs | hs
    · obtain ⟨j, hj, hnear, he⟩ := heapPopMin_root (C := C) h hs
      refine Or.inr ⟨j, hj, hnear, fun k hk h0 => ?_⟩
      obtain ⟨i, hi, hik⟩ := heapPopMin_target (C := C) h h0 hk
      rw [← he, ← hik]
      exact hr i hi
    · exact Or.inl hs
  · rintro (hs | ⟨j, hj, ⟨h0, hnear⟩, hleast⟩) k hk
    · omega
    · obtain ⟨i, hi, hi0, he⟩ := heapPopMin_source h hk
      rw [he]
      exact Comparator.le_trans (heapPopMin_top h h0 hj hnear) (hleast i hi hi0)

theorem leastNearRoot_of_small {h : Heap α} (hs : h.size ≤ 4) : LeastNearRoot C h .popMin := by
  rw [← heapPopMin_rootLeast_iff]
  have hn := heapPopMin_size (C := C) h
  intro k hk
  obtain ⟨i, hi, hi0, he⟩ := heapPopMin_source h hk
  rw [he]
  exact heapPopMin_top h hi0 hi (by omega)

/-! ## Runs -/

/-- What `heap_min` and `heap_pop_min` would return now is not greater than
any element in the heap. -/
def ReturnsLeast (C : Comparator α) (h : Heap α) : Prop :=
  ∀ k < h.size, C.le (heapMin h) (h.elems k) ∧ C.le (heapPopMin C h).2 (h.elems k)

theorem returnsLeast_iff (h : Heap α) : ReturnsLeast C h ↔ RootLeast C h :=
  forall₂_congr fun _ _ => and_self_iff

theorem heapStep_returnsLeast (h : Heap α) (c : HeapCall α) (hr : ReturnsLeast C h) :
    ReturnsLeast C (heapStep C h c).1 ↔ LeastNearRoot C h c := by
  rw [returnsLeast_iff] at hr ⊢
  cases c with
  | insert x => exact iff_of_true (heapInsert_rootLeast hr x) trivial
  | min => exact iff_of_true hr trivial
  | popMin => exact heapPopMin_rootLeast_iff h

theorem heapCreate_returnsLeast (fresh : Nat → α) : ReturnsLeast C (heapCreate fresh) :=
  fun k hk => absurd hk (Nat.not_lt_zero k)

theorem pops_sorted : ∀ (m : Nat) (h : Heap α), Always (heapStep C) (ReturnsLeast C) h (.replicate m .popMin) →
    Meets (heapStep C) HeapCall.Allowed h (.replicate m .popMin) →
    (outs (heapStep C) h (.replicate m .popMin)).Pairwise (fun a b => ∀ x ∈ a, ∀ y ∈ b, C.le x y) ∧
      ∀ a ∈ outs (heapStep C) h (.replicate m .popMin), ∀ x ∈ a, ∃ k < h.size, x = h.elems k
  | 0, _, _, _ => ⟨.nil, fun a ha => absurd ha List.not_mem_nil⟩
  | m + 1, h, hl, hpop => by
    rw [List.replicate_succ] at hl hpop ⊢
    obtain ⟨hsorted, hmem⟩ := pops_sorted m _ hl.2 hpop.2
    have hsrc : ∀ a ∈ outs (heapStep C) (heapPopMin C h).1 (.replicate m .popMin), ∀ x ∈ a,
        ∃ k < h.size, x = h.elems k := by
      intro a ha x hx
      obtain ⟨k, hk, rfl⟩ := hmem a ha x hx
      obtain ⟨j, hj, -, he⟩ := heapPopMin_source h hk
      exact ⟨j, hj, he⟩
    rw [outs_cons]
    refine ⟨List.pairwise_cons.mpr ⟨fun b hb x hx y hy => ?_, hsorted⟩, fun a ha x hx => ?_⟩
    · obtain ⟨k, hk, rfl⟩ := hsrc b hb y hy
      obtain rfl : heapMin h = x := by simpa [heapStep, heapPopMin, heapMin] using hx
      exact (hl.1 k hk).1
    · rcases List.mem_cons.mp ha with rfl | ha
      · exact ⟨0, hpop.1, by simpa [heapStep, heapPopMin, eq_comm] using hx⟩
      · exact hsrc a ha x hx

theorem heapRun_returnsLeast_iff (fresh : Nat → α) {calls : List (HeapCall α)}
    (hpop : Meets (heapStep C) HeapCall.Allowed (heapCreate fresh) calls) :
    Always (heapStep C) (ReturnsLeast C) (heapCreate fresh) calls ↔
      Meets (heapStep C) (LeastNearRoot C) (heapCreate fresh) calls :=
  always_iff_meets (ReturnsLeast C) (fun h c hr _ => heapStep_returnsLeast h c hr) (heapCreate_returnsLeast fresh)
    hpop

/-- A run returns least elements throughout just when each of its pops finds a
least one near the root, and then consecutive pops come out in order. -/
theorem heap_returns_least_iff (C : Comparator α) (fresh : Nat → α) (calls : List (HeapCall α))
    (hpop : Meets (heapStep C) HeapCall.Allowed (heapCreate fresh) calls) :
    (Always (heapStep C) (ReturnsLeast C) (heapCreate fresh) calls ↔
      Meets (heapStep C) (LeastNearRoot C) (heapCreate fresh) calls) ∧
    ∀ pre m, calls = pre ++ .replicate m .popMin →
      Meets (heapStep C) (LeastNearRoot C) (heapCreate fresh) calls →
      (outs (heapStep C) (exec (heapStep C) (heapCreate fresh) pre) (.replicate m .popMin)).Pairwise
        (fun a b => ∀ x ∈ a, ∀ y ∈ b, C.le x y) := by
  refine ⟨heapRun_returnsLeast_iff fresh hpop, fun pre m he hm => ?_⟩
  have hl := (heapRun_returnsLeast_iff fresh hpop).mpr hm
  subst he
  exact (pops_sorted m _ (always_append.mp hl).2 (meets_append.mp hpop).2).1

/-- The pops of this run find seven, six and six elements. -/
theorem heap_returns_least_mixed :
    Always (heapStep (.ofKey id)) (ReturnsLeast (.ofKey (id : Nat → Nat))) (heapCreate fun _ => 9)
      [.insert 1, .insert 2, .insert 3, .insert 4, .insert 5, .insert 6, .insert 7, .popMin, .popMin, .insert 1,
        .popMin, .min] :=
  (heap_returns_least_iff (.ofKey id) _ _ (by decide +kernel)).1.mpr (by decide +kernel)

theorem heap_not_least :
    let calls : List (HeapCall Nat) :=
      [.insert 1, .insert 2, .insert 5, .insert 3, .insert 6, .insert 7, .popMin, .popMin]
    Meets (heapStep (.ofKey id)) HeapCall.Allowed (heapCreate fun _ => 9) calls ∧
      ¬ Always (heapStep (.ofKey id)) (ReturnsLeast (.ofKey id)) (heapCreate fun _ => 9) calls := by
  intro calls
  refine ⟨by decide, fun h => ?_⟩
  have hmin := (h.last 3 (by decide +kernel)).1
  exact absurd hmin (by decide +kernel)

end

end SwitchSimulation
