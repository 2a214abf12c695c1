import SwitchSimulation.HeapClimb

/-!
# The order along the links that an insert climbs

`parent_index` sends slot `i` to `i / 2`. The order along these links is kept
by every insert, so the root of a heap built by inserts alone is a least
element. The way of the new element follows the links, so each link is off the
way, or lies on it, or only its upper slot does.
-/

namespace SwitchSimulation

section
variable {α : Type*} (C : Comparator α)

def ParentOrdered (h : Heap α) : Prop := ∀ i < h.size, 1 ≤ i → C.le (h.elems (parentIndex i)) (h.elems i)

instance (h : Heap α) : Decidable (ParentOrdered C h) :=
  inferInstanceAs (Decidable (∀ i < h.size, 1 ≤ i → C.le (h.elems (parentIndex i)) (h.elems i)))

variable {C} {h : Heap α} {x : α}

theorem ParentOrdered.rootLeast (ho : ParentOrdered C h) : RootLeast C h := by
  intro k
  induction k using Nat.strongRecOn with
  | ind k ih =>
    intro hk
    by_cases h0 : k = 0
    · subst h0; exact Comparator.le_refl _
    · have hlt := parentIndex_lt h0
      exact Comparator.le_trans (ih _ hlt (by omega)) (ho k hk (by omega))

theorem ParentOrdered.heapInsert_le (ho : ParentOrdered C h) {p : Nat} (hr : Reaches C h x p)
    (hlast : p ≠ h.size) : C.le ((heapInsert C h x).elems p) (h.elems p) := by
  have hlt := Nat.lt_of_le_of_ne hr.le hlast
  apply heapInsert_le_of hr hlast
  intro hp
  exact ho p hlt (Nat.pos_of_ne_zero hp.1)

theorem ParentOrdered.insert (ho : ParentOrdered C h) (x : α) : ParentOrdered C (heapInsert C h x) := by
  intro i hi h1
  rw [heapInsert_size] at hi
  have hlt := parentIndex_lt (show i ≠ 0 by omega)
  by_cases hr : Reaches C h x i
  · by_cases hp : Passes C h x i
    · -- the old parent comes down to `i`
      rw [heapInsert_passed hr hp]
      exact ho.heapInsert_le (hr.next hp) (by omega)
    · -- the way ends at `i`, so its parent is off the way
      have hstop : C.le (h.elems (parentIndex i)) x :=
        Classical.byContradiction fun hn => hp ⟨by omega, hn⟩
      have hnr : ¬ Reaches C h x (parentIndex i) := fun hrp => hp (hrp.chain hr hlt).1
      rw [heapInsert_stopped hr hp, heapInsert_other hnr]
      exact hstop
  · have hlast : i ≠ h.size := fun he => hr (he ▸ Reaches.last)
    have hedge := ho i (by omega) h1
    rw [heapInsert_other hr]
    by_cases hrp : Reaches C h x (parentIndex i)
    · exact Comparator.le_trans (ho.heapInsert_le hrp (by omega)) hedge
    · rw [heapInsert_other hrp]
      exact hedge

theorem heapCreate_parentOrdered (fresh : Nat → α) : ParentOrdered C (heapCreate fresh) :=
  fun i hi => absurd hi (Nat.not_lt_zero i)

theorem inserts_parentOrdered (ho : ParentOrdered C h) (xs : List α) :
    ParentOrdered C (exec (heapStep C) h (xs.map .insert)) := by
  induction xs generalizing h with
  | nil => exact ho
  | cons x xs ih => exact ih (ho.insert x)

/-- Every insert keeps the order along the links that it climbs, and the root
of a heap built by inserts alone is a least element. -/
theorem insert_keeps_parents (C : Comparator α) :
    (∀ (h : Heap α) (x : α), ParentOrdered C h →
      (heapInsert C h x).size = h.size + 1 ∧ ParentOrdered C (heapInsert C h x)) ∧
    ∀ (fresh : Nat → α) (xs : List α),
      ParentOrdered C (exec (heapStep C) (heapCreate fresh) (xs.map .insert)) ∧
        RootLeast C (exec (heapStep C) (heapCreate fresh) (xs.map .insert)) := by
  refine ⟨fun h x ho => ⟨heapInsert_size h x, ho.insert x⟩, fun fresh xs => ?_⟩
  have ho := inserts_parentOrdered (heapCreate_parentOrdered (C := C) fresh) xs
  exact ⟨ho, ho.rootLeast⟩

theorem insert_keeps_parents_six : ParentOrdered (.ofKey id) (heapInsert (.ofKey id) (heapOf [0, 1, 5, 2, 6, 7]) 3) :=
  ((insert_keeps_parents (.ofKey id)).1 (heapOf [0, 1, 5, 2, 6, 7]) 3 (by decide)).2

end

end SwitchSimulation
