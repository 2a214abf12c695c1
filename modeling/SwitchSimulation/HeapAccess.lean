import SwitchSimulation.HeapMin

/-!
# Which slots a pop touches

`heap_pop_min` again, with every access to the array checked: a read or a
write of a slot from `size` on fails. No access fails and two rounds of the
loop are enough, because each swap at the root leaves fewer of the slots 1 and
2 smaller than it.
-/

namespace SwitchSimulation

section
variable {α : Type*}

/-! ## Checked accesses -/

def readElem (h : Heap α) (index : Nat) : Option α :=
  if index < h.size then some (h.elems index) else none

def writeElem (h : Heap α) (index : Nat) (elem : α) : Option (Heap α) :=
  if index < h.size then some { h with elems := Function.update h.elems index elem } else none

def trySwapElem (h : Heap α) (index1 index2 : Nat) : Option (Heap α) :=
  (readElem h index1).bind fun temp =>
    (readElem h index2).bind fun other =>
      (writeElem h index1 other).bind fun h' => writeElem h' index2 temp

variable (C : Comparator α)

def tryLargestChildGreaterThan (h : Heap α) (index : Nat) : Option Nat :=
  let rightChild := rightChildIndex index
  let leftChild := leftChildIndex index
  if rightChild < h.size then
    (readElem h index).bind fun curr =>
      (readElem h leftChild).bind fun left =>
        (readElem h rightChild).bind fun right =>
          let currLeft := C.cmp curr left
          let currRight := C.cmp curr right
          let leftRight := C.cmp left right
          some (if currLeft = .GT ∧ currRight = .GT then
              if leftRight = .GT then leftChild else rightChild
            else if currLeft = .GT then leftChild
            else if currRight = .GT then rightChild
            else 0)
  else if leftChild < h.size then
    (readElem h index).bind fun curr =>
      (readElem h leftChild).bind fun left =>
        some (if C.cmp curr left = .GT then leftChild else 0)
  else some 0

/-- The loop condition and, where it holds, the body. -/
def trySift (h : Heap α) : Option (Option (Heap α)) :=
  if hasChild h 0 then
    (tryLargestChildGreaterThan C h 0).bind fun childIndex =>
      if childIndex ≠ 0 then (trySwapElem h 0 childIndex).map some else some none
  else some none

def tryHeapPopMin (fuel : Nat) (h : Heap α) : Option (Heap α × α) :=
  (readElem h 0).bind fun min =>
    (readElem h (h.size - 1)).bind fun last =>
      (writeElem h 0 last).bind fun h' =>
        (tryLoop (trySift C) fuel { h' with size := h'.size - 1 }).map fun h'' => (h'', min)

variable {C} {h : Heap α}

theorem readElem_of_lt {index : Nat} (hi : index < h.size) : readElem h index = some (h.elems index) := if_pos hi

theorem writeElem_of_lt {index : Nat} (hi : index < h.size) (elem : α) :
    writeElem h index elem = some { h with elems := Function.update h.elems index elem } := if_pos hi

theorem trySwapElem_of_lt {i j : Nat} (hi : i < h.size) (hj : j < h.size) :
    trySwapElem h i j = some (swapElem h i j) := by
  unfold trySwapElem
  rw [readElem_of_lt hi, readElem_of_lt hj, Option.bind_some, Option.bind_some, writeElem_of_lt hi,
    Option.bind_some]
  exact writeElem_of_lt (h := { h with elems := Function.update h.elems i (h.elems j) }) hj (h.elems i)

theorem tryLargestChild_of_lt {i : Nat} (hi : i < h.size) :
    tryLargestChildGreaterThan C h i = some (largestChildGreaterThan C h i) := by
  unfold tryLargestChildGreaterThan largestChildGreaterThan
  by_cases hr : rightChildIndex i < h.size
  · have hl : leftChildIndex i < h.size := Nat.lt_trans (Nat.lt_succ_self _) hr
    simp only [if_pos hr, readElem_of_lt hi, readElem_of_lt hl, readElem_of_lt hr, Option.bind_some]
  · by_cases hl : leftChildIndex i < h.size
    · simp only [if_neg hr, if_pos hl, readElem_of_lt hi, readElem_of_lt hl, Option.bind_some]
    · simp only [if_neg hr, if_neg hl]

/-! ## The loop -/

theorem trySift_eq (h : Heap α) :
    trySift C h = some (if siftCond C h = true then some (siftBody C h) else none) := by
  unfold trySift
  by_cases hchild : hasChild h 0 = true
  · have h0 : 0 < h.size := by
      unfold hasChild leftChildIndex rightChildIndex at hchild
      rw [Bool.or_eq_true, decide_eq_true_iff, decide_eq_true_iff] at hchild
      omega
    rw [if_pos hchild, tryLargestChild_of_lt h0, Option.bind_some]
    by_cases hl : largestChildGreaterThan C h 0 = 0
    · have hc : ¬ siftCond C h = true := by simp [siftCond, hl]
      rw [if_neg hc, if_neg (not_not.mpr hl)]
    · have hc : siftCond C h = true := by simp [siftCond, hl, hchild]
      obtain ⟨c, hlc, -, hcs, -⟩ := siftCond_true hc
      rw [if_pos hc, if_pos hl, siftBody, hlc, trySwapElem_of_lt h0 hcs, Option.map_some]
  · have hc : ¬ siftCond C h = true := by simp [siftCond, hchild]
    rw [if_neg hchild, if_neg hc]

theorem smallerBelow_le_two (h : Heap α) : smallerBelow C h ≤ 2 := by
  unfold smallerBelow
  split <;> split <;> omega

theorem trySift_loop (h : Heap α) {fuel : Nat} (hf : 2 < fuel) :
    tryLoop (trySift C) fuel h = some (siftRoot C h) := by
  have hle := smallerBelow_le_two (C := C) h
  rw [tryLoop_eq (smallerBelow C) trySift_eq (fun _ => siftBody_smallerBelow) fuel (by omega), siftRoot]
  congr 1
  exact whileLoop_fuel _ _ (smallerBelow C) (fun _ => siftBody_smallerBelow) _ _ (by omega) (smallerBelow_le h)

/-- A pop from a non-empty heap array, in any order, has done after two rounds
of its loop, touches no slot outside the array, and leaves a root that is not
greater than slots 1 and 2. -/
theorem sift_terminates (C : Comparator α) (h : Heap α) (hs : 0 < h.size) (fuel : Nat) (hf : 2 < fuel) :
    tryHeapPopMin C fuel h = some (heapPopMin C h) ∧
      ∀ c, c = 1 ∨ c = 2 → c < (heapPopMin C h).1.size →
        C.le ((heapPopMin C h).1.elems 0) ((heapPopMin C h).1.elems c) := by
  constructor
  · have hlast : h.size - 1 < h.size := by omega
    unfold tryHeapPopMin
    rw [readElem_of_lt hs, readElem_of_lt hlast, Option.bind_some, Option.bind_some, writeElem_of_lt hs,
      Option.bind_some]
    exact congrArg (Option.map _) (trySift_loop (heapMoveLast h) hf)
  · intro c h12 hc
    exact siftCond_false (siftRoot_exit (heapMoveLast h)) h12 hc

theorem sift_terminates_unordered :
    let h : Heap Nat := ⟨fun i => [4, 1, 2, 9, 3].getD i 0, 16, 5⟩
    tryHeapPopMin (.ofKey id) 3 h = some (heapPopMin (.ofKey id) h) ∧
      Comparator.le (.ofKey id) ((heapPopMin (.ofKey id) h).1.elems 0) ((heapPopMin (.ofKey id) h).1.elems 2) := by
  intro h
  obtain ⟨hrun, hroot⟩ := sift_terminates (.ofKey id) h (by decide) 3 (by decide)
  exact ⟨hrun, hroot 2 (Or.inr rfl) (by decide)⟩

end

end SwitchSimulation
