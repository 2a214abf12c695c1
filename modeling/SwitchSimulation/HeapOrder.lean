import SwitchSimulation.HeapMin

/-!
# Does a pop restore the heap order?

The order is that of the tree in which `i` has the children `2i + 1` and
`2i + 2`. The loop of `heap_pop_min` moves the last element into the place of
the greater child of the root, and that child into the place of the other one
if both are smaller, but no further down.
-/

namespace SwitchSimulation

section
variable {α : Type*} (C : Comparator α)

/-- `x` is not greater than the children of slot `i` among the first `n` slots of `e`. -/
def LeChildren (e : Nat → α) (n i : Nat) (x : α) : Prop :=
  (leftChildIndex i < n → C.le x (e (leftChildIndex i))) ∧
    (rightChildIndex i < n → C.le x (e (rightChildIndex i)))

instance (e : Nat → α) (n i : Nat) (x : α) : Decidable (LeChildren C e n i x) :=
  inferInstanceAs (Decidable ((_ → _) ∧ (_ → _)))

def HeapOrdered (h : Heap α) : Prop := ∀ i < h.size, LeChildren C h.elems h.size i (h.elems i)

instance (h : Heap α) : Decidable (HeapOrdered C h) :=
  inferInstanceAs (Decidable (∀ i < h.size, LeChildren C h.elems h.size i (h.elems i)))

/-- The element of slot `n`, the last one, is not greater than the children of
the slot that it sinks to, and neither is the child that it moves aside. -/
def SinksInOrder (e : Nat → α) (n : Nat) : Prop :=
  if C.le (e n) (e 1) then C.le (e n) (e 2) ∨ LeChildren C e n 2 (e n)
  else if C.le (e n) (e 2) then LeChildren C e n 1 (e n)
  else if C.le (e 1) (e 2) then LeChildren C e n 1 (e 2) ∧ LeChildren C e n 2 (e n)
  else LeChildren C e n 1 (e n) ∧ LeChildren C e n 2 (e 1)

instance (e : Nat → α) (n : Nat) : Decidable (SinksInOrder C e n) :=
  inferInstanceAs (Decidable (@ite _ _ _ _ _))

variable {C}

theorem LeChildren.of_le {e : Nat → α} {n m i : Nat} {x y : α} (h : LeChildren C e n i y) (hm : m ≤ n)
    (hxy : C.le x y) : LeChildren C e m i x :=
  ⟨fun hl => Comparator.le_trans hxy (h.1 (by omega)), fun hr => Comparator.le_trans hxy (h.2 (by omega))⟩

theorem leChildren_congr {e e' : Nat → α} {n i : Nat} (he : ∀ c, 3 ≤ c → e' c = e c) (hi : 1 ≤ i) (x : α) :
    LeChildren C e' n i x ↔ LeChildren C e n i x := by
  have hl : 3 ≤ leftChildIndex i := by unfold leftChildIndex; omega
  have hr : 3 ≤ rightChildIndex i := by unfold rightChildIndex; omega
  unfold LeChildren
  rw [he _ hl, he _ hr]

/-! ## The three slots at the top -/

theorem largestChild_root {h : Heap α} (hs : 3 ≤ h.size) :
    largestChildGreaterThan C h 0 =
      if C.le (h.elems 0) (h.elems 1) then if C.le (h.elems 0) (h.elems 2) then 0 else 2
      else if C.le (h.elems 0) (h.elems 2) ∨ ¬ C.le (h.elems 1) (h.elems 2) then 1 else 2 := by
  have hr : rightChildIndex 0 < h.size := hs
  unfold largestChildGreaterThan
  simp only [Comparator.cmp_gt_iff, leftChildIndex, rightChildIndex, Nat.mul_zero, Nat.zero_add] at hr ⊢
  rw [if_pos hr]
  by_cases h1 : C.le (h.elems 0) (h.elems 1)
  · by_cases h2 : C.le (h.elems 0) (h.elems 2)
    · simp [h1, h2]
    · simp [h1, h2]
  · by_cases h2 : C.le (h.elems 0) (h.elems 2)
    · simp [h1, h2]
    · by_cases h12 : C.le (h.elems 1) (h.elems 2)
      · simp [h1, h2, h12]
      · simp [h1, h2, h12]

theorem siftLoop_stops {h : Heap α} (hs : 3 ≤ h.size) (h1 : C.le (h.elems 0) (h.elems 1))
    (h2 : C.le (h.elems 0) (h.elems 2)) (fuel : Nat) : whileLoop (siftCond C) (siftBody C) fuel h = h := by
  apply whileLoop_of_not
  rw [siftCond, largestChild_root hs, if_pos h1, if_pos h2]
  exact Bool.and_false _

theorem siftLoop_swaps {h : Heap α} {c : Nat} (hs : 3 ≤ h.size) (hc : largestChildGreaterThan C h 0 = c)
    (h0 : c ≠ 0) (fuel : Nat) : whileLoop (siftCond C) (siftBody C) (fuel + 1) h =
      whileLoop (siftCond C) (siftBody C) fuel (swapElem h 0 c) := by
  have hcond : siftCond C h = true := by
    have h1 : 1 < h.size := by omega
    simp [siftCond, hc, h0, hasChild, leftChildIndex, h1]
  rw [whileLoop_of_cond hcond, siftBody, hc]

theorem siftLoop_left {h : Heap α} (hs : 3 ≤ h.size) (h1 : ¬ C.le (h.elems 0) (h.elems 1))
    (h2 : C.le (h.elems 0) (h.elems 2) ∨ ¬ C.le (h.elems 1) (h.elems 2)) (fuel : Nat) :
    whileLoop (siftCond C) (siftBody C) (fuel + 1) h =
      whileLoop (siftCond C) (siftBody C) fuel (swapElem h 0 1) :=
  siftLoop_swaps hs (by rw [largestChild_root hs, if_neg h1, if_pos h2]) (by decide) fuel

theorem siftLoop_right {h : Heap α} (hs : 3 ≤ h.size) (h2 : ¬ C.le (h.elems 0) (h.elems 2))
    (h1 : C.le (h.elems 0) (h.elems 1) ∨ C.le (h.elems 1) (h.elems 2)) (fuel : Nat) :
    whileLoop (siftCond C) (siftBody C) (fuel + 1) h =
      whileLoop (siftCond C) (siftBody C) fuel (swapElem h 0 2) := by
  apply siftLoop_swaps hs ?_ (by decide) fuel
  rw [largestChild_root hs]
  by_cases hle : C.le (h.elems 0) (h.elems 1)
  · rw [if_pos hle, if_neg h2]
  · rw [if_neg hle, if_neg (not_or.mpr ⟨h2, fun hn => hn (h1.resolve_left hle)⟩)]

theorem swapTop_elems (h : Heap α) {c d : Nat} (hd : d ≠ 0) (hcd : d ≠ c) :
    (swapElem h 0 c).elems 0 = h.elems c ∧ (swapElem h 0 c).elems c = h.elems 0 ∧
      (swapElem h 0 c).elems d = h.elems d :=
  ⟨swapSlots_left .., swapSlots_right .., swapSlots_other h.elems hd hcd⟩

def TopIs (h : Heap α) (x a b : α) : Prop := h.elems 0 = x ∧ h.elems 1 = a ∧ h.elems 2 = b

def ChildrenAre (h : Heap α) (a b : α) : Prop := h.elems 1 = a ∧ h.elems 2 = b

section
variable {h : Heap α} {x a b : α} (hs : 3 ≤ h.size) (ht : TopIs h x a b) (fuel : Nat)
include hs ht

theorem sift_stops (h1 : C.le x a) (h2 : C.le x b) :
    ChildrenAre (whileLoop (siftCond C) (siftBody C) fuel h) a b := by
  obtain ⟨rfl, rfl, rfl⟩ := ht
  rw [siftLoop_stops hs h1 h2]
  exact ⟨rfl, rfl⟩

theorem sift_left (h1 : ¬ C.le x a) (h2 : C.le x b) :
    ChildrenAre (whileLoop (siftCond C) (siftBody C) (fuel + 1) h) x b := by
  obtain ⟨rfl, rfl, rfl⟩ := ht
  have hup := Comparator.le_of_not_le h1
  rw [siftLoop_left hs h1 (Or.inl h2)]
  exact sift_stops (h := swapElem h 0 1) hs (swapTop_elems h (by decide) (by decide)) fuel hup
    (Comparator.le_trans hup h2)

theorem sift_right (h1 : C.le x a) (h2 : ¬ C.le x b) :
    ChildrenAre (whileLoop (siftCond C) (siftBody C) (fuel + 1) h) a x := by
  obtain ⟨rfl, rfl, rfl⟩ := ht
  obtain ⟨e0, e2, e1⟩ := swapTop_elems h (c := 2) (d := 1) (by decide) (by decide)
  have hup := Comparator.le_of_not_le h2
  rw [siftLoop_right hs h2 (Or.inl h1)]
  exact sift_stops (h := swapElem h 0 2) hs ⟨e0, e1, e2⟩ fuel (Comparator.le_trans hup h1) hup

theorem sift_left_right (h1 : ¬ C.le x a) (h12 : ¬ C.le a b) :
    ChildrenAre (whileLoop (siftCond C) (siftBody C) (fuel + 2) h) x a := by
  obtain ⟨rfl, rfl, rfl⟩ := ht
  rw [siftLoop_left hs h1 (Or.inr h12)]
  exact sift_right (h := swapElem h 0 1) hs (swapTop_elems h (by decide) (by decide)) fuel
    (Comparator.le_of_not_le h1) h12

theorem sift_right_left (h2 : ¬ C.le x b) (h12 : C.le a b) (h21 : ¬ C.le b a) :
    ChildrenAre (whileLoop (siftCond C) (siftBody C) (fuel + 2) h) b x := by
  obtain ⟨rfl, rfl, rfl⟩ := ht
  obtain ⟨e0, e2, e1⟩ := swapTop_elems h (c := 2) (d := 1) (by decide) (by decide)
  rw [siftLoop_right hs h2 (Or.inr h12)]
  exact sift_left (h := swapElem h 0 2) hs ⟨e0, e1, e2⟩ fuel h21 (Comparator.le_of_not_le h2)

theorem sift_right_stops (h2 : ¬ C.le x b) (h12 : C.le a b) (h21 : C.le b a) :
    ChildrenAre (whileLoop (siftCond C) (siftBody C) (fuel + 1) h) a x := by
  obtain ⟨rfl, rfl, rfl⟩ := ht
  obtain ⟨e0, e2, e1⟩ := swapTop_elems h (c := 2) (d := 1) (by decide) (by decide)
  rw [siftLoop_right hs h2 (Or.inr h12)]
  exact sift_stops (h := swapElem h 0 2) hs ⟨e0, e1, e2⟩ fuel h21 (Comparator.le_of_not_le h2)

end

/-! ## The pop -/

theorem leChildren_small {e : Nat → α} {n : Nat} (hn : n ≤ 3) {i : Nat} (hi : 1 ≤ i) (x : α) :
    LeChildren C e n i x := by
  unfold LeChildren leftChildIndex rightChildIndex
  exact ⟨fun hl => by omega, fun hr => by omega⟩

theorem sinksInOrder_small {e : Nat → α} {n : Nat} (hn : n ≤ 3) : SinksInOrder C e n := by
  have h1 : ∀ x, LeChildren C e n 1 x := leChildren_small hn (by decide)
  have h2 : ∀ x, LeChildren C e n 2 x := leChildren_small hn (by decide)
  simp only [SinksInOrder, h1, h2, or_true, and_self, ite_self]

theorem heapPopMin_below (h : Heap α) {k : Nat} (hk : 3 ≤ k) : (heapPopMin C h).1.elems k = h.elems k := by
  have hre := (heapPopMin_rearrange (C := C) h).2
  rw [(hre.mono (Nat.min_le_left _ _)).above hk, heapMoveLast_elems, if_neg (by omega)]

theorem heapPopMin_ordered {h : Heap α} (ho : HeapOrdered C h) :
    HeapOrdered C (heapPopMin C h).1 ↔
      LeChildren C h.elems (h.size - 1) 1 ((heapPopMin C h).1.elems 1) ∧
        LeChildren C h.elems (h.size - 1) 2 ((heapPopMin C h).1.elems 2) := by
  have hn := heapPopMin_size (C := C) h
  have hcongr : ∀ {i}, 1 ≤ i → ∀ x, LeChildren C (heapPopMin C h).1.elems (h.size - 1) i x ↔
      LeChildren C h.elems (h.size - 1) i x := leChildren_congr fun k hk => heapPopMin_below h hk
  unfold HeapOrdered
  rw [hn]
  constructor
  · intro ho'
    by_cases hs : h.size - 1 ≤ 3
    · exact ⟨leChildren_small hs (by decide) _, leChildren_small hs (by decide) _⟩
    · exact ⟨(hcongr (by decide) _).mp (ho' 1 (by omega)), (hcongr (by decide) _).mp (ho' 2 (by omega))⟩
  · intro ⟨h1, h2⟩ i hi
    match i with
    | 0 =>
      have hexit : siftCond C (heapPopMin C h).1 = false := siftRoot_exit _
      exact ⟨fun hl => siftCond_false hexit (Or.inl rfl) (hn.symm ▸ hl),
        fun hr => siftCond_false hexit (Or.inr rfl) (hn.symm ▸ hr)⟩
    | 1 => exact (hcongr (by decide) _).mpr h1
    | 2 => exact (hcongr (by decide) _).mpr h2
    | k + 3 =>
      rw [hcongr (by omega), heapPopMin_below h (by omega)]
      exact (ho (k + 3) (by omega)).of_le (by omega) (Comparator.le_refl _)

theorem heapPopMin_ordered_of {h : Heap α} (ho : HeapOrdered C h) (hs : 3 ≤ (heapMoveLast h).size) {a b : α}
    (hab : ∀ fuel, ChildrenAre (whileLoop (siftCond C) (siftBody C) (fuel + 2) (heapMoveLast h)) a b) :
    HeapOrdered C (heapPopMin C h).1 ↔
      LeChildren C h.elems (h.size - 1) 1 a ∧ LeChildren C h.elems (h.size - 1) 2 b := by
  obtain ⟨fuel, hf⟩ : ∃ fuel, (heapMoveLast h).size = fuel + 2 := ⟨(heapMoveLast h).size - 2, by omega⟩
  have hkids : ChildrenAre (heapPopMin C h).1 a b := by
    have := hab fuel
    rwa [← hf] at this
  rw [heapPopMin_ordered ho, hkids.1, hkids.2]

theorem heapMoveLast_top (h : Heap α) :
    TopIs (heapMoveLast h) (h.elems (h.size - 1)) (h.elems 1) (h.elems 2) :=
  ⟨heapMoveLast_elems h 0, heapMoveLast_elems h 1, heapMoveLast_elems h 2⟩

/-- A pop from an ordered heap leaves an ordered heap just when the elements
that it moves down sink in order. -/
theorem pop_restores_order_iff (C : Comparator α) (h : Heap α) (ho : HeapOrdered C h) :
    HeapOrdered C (heapPopMin C h).1 ↔ SinksInOrder C h.elems (h.size - 1) := by
  by_cases hs : h.size - 1 ≤ 3
  · rw [heapPopMin_ordered ho]
    refine iff_of_true ⟨?_, ?_⟩ (sinksInOrder_small hs)
    · exact leChildren_small hs (by decide) _
    · exact leChildren_small hs (by decide) _
  have hm : 3 ≤ (heapMoveLast h).size := Nat.le_of_lt (Nat.lt_of_not_le hs)
  have ht := heapMoveLast_top h
  -- a child that stays where it is stays in order
  have o1 : LeChildren C h.elems (h.size - 1) 1 (h.elems 1) :=
    (ho 1 (by omega)).of_le (Nat.sub_le ..) (Comparator.le_refl _)
  have o2 : LeChildren C h.elems (h.size - 1) 2 (h.elems 2) :=
    (ho 2 (by omega)).of_le (Nat.sub_le ..) (Comparator.le_refl _)
  unfold SinksInOrder
  by_cases h1 : C.le (h.elems (h.size - 1)) (h.elems 1)
  · rw [if_pos h1]
    by_cases h2 : C.le (h.elems (h.size - 1)) (h.elems 2)
    · rw [heapPopMin_ordered_of ho hm fun fuel => sift_stops hm ht (fuel + 2) h1 h2]
      exact iff_of_true ⟨o1, o2⟩ (Or.inl h2)
    · rw [heapPopMin_ordered_of ho hm fun fuel => sift_right hm ht (fuel + 1) h1 h2, or_iff_right h2]
      exact and_iff_right o1
  · rw [if_neg h1]
    by_cases h2 : C.le (h.elems (h.size - 1)) (h.elems 2)
    · rw [heapPopMin_ordered_of ho hm fun fuel => sift_left hm ht (fuel + 1) h1 h2, if_pos h2]
      exact and_iff_left o2
    · rw [if_neg h2]
      by_cases h12 : C.le (h.elems 1) (h.elems 2)
      · rw [if_pos h12]
        by_cases h21 : C.le (h.elems 2) (h.elems 1)
        · rw [heapPopMin_ordered_of ho hm fun fuel => sift_right_stops hm ht (fuel + 1) h2 h12 h21]
          -- the left child, which stays, is equal to the right one
          exact and_congr_left' (iff_of_true o1 (o1.of_le (Nat.le_refl _) h21))
        · rw [heapPopMin_ordered_of ho hm fun fuel => sift_right_left hm ht fuel h2 h12 h21]
      · rw [if_neg h12, heapPopMin_ordered_of ho hm fun fuel => sift_left_right hm ht fuel h1 h12]

def heapOf (elems : List Nat) : Heap Nat :=
  exec (heapStep (.ofKey id)) (heapCreate fun _ => 9) (elems.map .insert)

theorem pop_restores_order_five : HeapOrdered (.ofKey id) (heapPopMin (.ofKey id) (heapOf [1, 2, 3, 4, 5])).1 :=
  (pop_restores_order_iff (.ofKey id) (heapOf [1, 2, 3, 4, 5]) (by decide)).mpr (by decide)

theorem pop_breaks_order : HeapOrdered (.ofKey id) (heapOf [1, 2, 3, 4, 5, 6, 7]) ∧
    ¬ HeapOrdered (.ofKey id) (heapPopMin (.ofKey id) (heapOf [1, 2, 3, 4, 5, 6, 7])).1 := by
  exact ⟨by decide, by decide⟩

end

end SwitchSimulation
