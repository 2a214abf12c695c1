import Mathlib.Data.Nat.Log
import SwitchSimulation.HeapAccess
import SwitchSimulation.HeapParents

/-!
# What a user of the heap can rely on

The order along the links of an insert puts the second least element into slot
1, where the first pop finds it. So a heap goes wrong with its second pop at
the earliest. An insert climbs one level of the links in each round of its
loop, and a pop goes round twice at most.
-/

namespace SwitchSimulation

section
variable {α : Type*} {C : Comparator α} {h : Heap α}

/-! ## The first pop -/

theorem ParentOrdered.second_le (ho : ParentOrdered C h) : ∀ k < h.size, 1 ≤ k → C.le (h.elems 1) (h.elems k) := by
  intro k
  induction k using Nat.strongRecOn with
  | ind k ih =>
    intro hk h1
    by_cases hk1 : k = 1
    · subst hk1
      exact Comparator.le_refl _
    · have hlt := parentIndex_lt (show k ≠ 0 by omega)
      have hpos : 1 ≤ parentIndex k := by
        unfold parentIndex
        omega
      exact Comparator.le_trans (ih _ hlt (by omega) hpos) (ho k hk h1)

theorem ParentOrdered.leastNearRoot (ho : ParentOrdered C h) : LeastNearRoot C h .popMin := by
  rcases Nat.lt_or_ge 1 h.size with hs | hs
  · exact Or.inr ⟨1, hs, ⟨Nat.one_pos, Or.inl rfl⟩, fun k hk h0 => ho.second_le k hk h0⟩
  · exact Or.inl hs

theorem inserts_returnLeast (hr : ReturnsLeast C h) (xs : List α) :
    Always (heapStep C) (ReturnsLeast C) h (xs.map .insert) := by
  induction xs generalizing h with
  | nil => exact hr
  | cons x xs ih => exact ⟨hr, ih ((heapStep_returnsLeast h (.insert x) hr).mpr trivial)⟩

def levels (index : Nat) : Nat := if index = 0 then 0 else Nat.log 2 index + 1

theorem levels_parentIndex {index : Nat} (hi : index ≠ 0) : levels (parentIndex index) + 1 = levels index := by
  unfold levels parentIndex
  rw [if_neg hi, Nat.log_div_base]
  by_cases h1 : index / 2 = 0
  · rw [if_pos h1, Nat.log_of_lt (by omega)]
  · have hlog : 0 < Nat.log 2 index := Nat.log_pos (by decide) (by omega)
    rw [if_neg h1]
    omega

def insertRounds (C : Comparator α) (h : Heap α) (elem : α) : Nat :=
  whileRounds (bubbleCond C) bubbleBody h.size (heapAppend (heapGrow h) elem, h.size)

def popRounds (C : Comparator α) (h : Heap α) : Nat :=
  whileRounds (siftCond C) (siftBody C) (h.size - 1) (heapMoveLast h)

end

/-- `heap_insert` goes round its loop at most once for each level of its links,
and `heap_pop_min` at most twice, whatever the heap contains. -/
theorem heap_rounds {α : Type*} (C : Comparator α) (h : Heap α) (elem : α) :
    insertRounds C h elem ≤ levels h.size ∧ popRounds C h ≤ 2 := by
  constructor
  · refine whileRounds_le (fun s : Heap α × Nat => levels s.2) (fun s hc => ?_) _ _
    have hup := levels_parentIndex (bubbleCond_iff.mp hc).1
    exact Nat.lt_of_succ_le (Nat.le_of_eq hup)
  · exact (whileRounds_le (smallerBelow C) (fun _ hc => siftBody_smallerBelow hc) _ _).trans (smallerBelow_le_two _)

end SwitchSimulation
