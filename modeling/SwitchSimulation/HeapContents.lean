import Mathlib.Algebra.Order.Group.Multiset
import SwitchSimulation.HeapMin

/-!
# What the heap contains

The loops of both operations only rearrange the array, growing it leaves the
old slots alone, and a pop overwrites the root, which it returns. So the
elements inserted in a run are those popped together with those in the heap.
-/

namespace SwitchSimulation

section
variable {α : Type*} {C : Comparator α}

def heapContents (h : Heap α) : List α := (List.range h.size).map h.elems

theorem heapContents_rearrange {h h' : Heap α} (hsize : h'.size = h.size)
    (hre : Rearrange h.size h.elems h'.elems) : (heapContents h').Perm (heapContents h) := by
  unfold heapContents
  rw [hsize]
  exact hre.perm

theorem heapFree_contents {σ α : Type*} (freeElem : α → σ → σ) (h : Heap α) (s : σ) :
    heapFree freeElem h s = (heapContents h).foldl (fun t x => freeElem x t) s := by
  rw [heapFree, forRange_eq_foldl, heapContents, List.foldl_map]

theorem heapAppend_contents (h : Heap α) (x : α) :
    heapContents (heapAppend (heapGrow h) x) = heapContents h ++ [x] := by
  unfold heapContents
  rw [heapAppend_size, List.range_succ, List.map_append, List.map_singleton, heapAppend_last]
  congr 1
  apply List.map_congr_left
  intro k hk
  exact heapAppend_old h x (Nat.ne_of_lt (List.mem_range.mp hk))

theorem heapInsert_perm (h : Heap α) (x : α) : (heapContents (heapInsert C h x)).Perm (x :: heapContents h) := by
  obtain ⟨hsize, hre⟩ := heapInsert_rearrange (C := C) h x
  rw [← heapAppend_size h x] at hsize hre
  refine (heapContents_rearrange hsize hre).trans ?_
  rw [heapAppend_contents]
  exact List.perm_append_singleton x _

theorem heapMoveLast_perm (h : Heap α) (hs : 0 < h.size) :
    (heapContents h).Perm (heapMin h :: heapContents (heapMoveLast h)) := by
  obtain ⟨m, hm⟩ : ∃ m, h.size = m + 1 := ⟨h.size - 1, by omega⟩
  cases m with
  | zero => simp [heapContents, heapMoveLast, heapMin, hm]
  | succ m =>
    have hmoved : heapContents (heapMoveLast h) =
        h.elems (m + 1) :: (List.range m).map fun k => h.elems (k + 1) := by
      simp [heapContents, heapMoveLast, hm, List.range_succ_eq_map]
    have hold : heapContents h =
        h.elems 0 :: ((List.range m).map fun k => h.elems (k + 1)) ++ [h.elems (m + 1)] := by
      simp [heapContents, hm, List.range_succ (n := m + 1), List.range_succ_eq_map]
    rw [hmoved, hold]
    exact (List.perm_append_singleton _ _).cons _

theorem heapPopMin_perm (h : Heap α) (hs : 0 < h.size) :
    (heapContents h).Perm ((heapPopMin C h).2 :: heapContents (heapPopMin C h).1) := by
  obtain ⟨hsize, hre⟩ := heapPopMin_rearrange (C := C) h
  have hsift : (heapContents (heapPopMin C h).1).Perm (heapContents (heapMoveLast h)) :=
    heapContents_rearrange hsize (hre.mono (Nat.min_le_right _ _))
  exact (heapMoveLast_perm h hs).trans (hsift.symm.cons _)

/-! ## Runs -/

theorem card_heapContents (h : Heap α) : (heapContents h : Multiset α).card = heapSize h := by
  simp [heapContents, heapSize]

def insertedBy (_ : Heap α) : HeapCall α → Multiset α
  | .insert elem => {elem}
  | .min => 0
  | .popMin => 0

def poppedBy (C : Comparator α) (h : Heap α) : HeapCall α → Multiset α
  | .insert _ => 0
  | .min => 0
  | .popMin => {(heapPopMin C h).2}

theorem heapStep_conserves {h : Heap α} {c : HeapCall α} (hc : c.Allowed h) :
    insertedBy h c + heapContents h = poppedBy C h c + heapContents (heapStep C h c).1 := by
  cases c with
  | insert x =>
    rw [poppedBy, zero_add]
    exact (Multiset.coe_eq_coe.mpr (heapInsert_perm h x)).symm
  | min => rfl
  | popMin =>
    rw [insertedBy, zero_add]
    exact Multiset.coe_eq_coe.mpr (heapPopMin_perm h hc)

theorem heapRun_conserves (fresh : Nat → α) {calls : List (HeapCall α)}
    (hpop : Meets (heapStep C) HeapCall.Allowed (heapCreate fresh) calls) :
    total (heapStep C) insertedBy (heapCreate fresh) calls =
      total (heapStep C) (poppedBy C) (heapCreate fresh) calls +
        heapContents (exec (heapStep C) (heapCreate fresh) calls) := by
  have hempty : (heapContents (heapCreate fresh) : Multiset α) = 0 := rfl
  have := hpop.total_conserved (fun h => (heapContents h : Multiset α)) fun _ _ hc => heapStep_conserves hc
  rwa [hempty, add_zero] at this

/-- In every run the elements inserted are those popped and those in the heap,
and `heap_size` counts the latter; a pop returns what `heap_min` would. -/
theorem heap_conserved (C : Comparator α) (fresh : Nat → α) (calls : List (HeapCall α))
    (hpop : Meets (heapStep C) HeapCall.Allowed (heapCreate fresh) calls) :
    let h := exec (heapStep C) (heapCreate fresh) calls
    total (heapStep C) insertedBy (heapCreate fresh) calls =
        total (heapStep C) (poppedBy C) (heapCreate fresh) calls + heapContents h ∧
      heapSize h = (heapContents h : Multiset α).card ∧ (heapPopMin C h).2 = heapMin h := by
  intro h
  exact ⟨heapRun_conserves fresh hpop, (card_heapContents h).symm, rfl⟩

theorem heap_conserved_mixed :
    let calls : List (HeapCall Nat) :=
      [.insert 4, .insert 2, .insert 4, .popMin, .insert 1, .insert 9, .popMin, .min, .popMin]
    heapSize (exec (heapStep (.ofKey id)) (heapCreate fun _ => 7) calls) = 2 ∧
      total (heapStep (.ofKey id)) insertedBy (heapCreate fun _ => 7) calls =
        total (heapStep (.ofKey id)) (poppedBy (.ofKey id)) (heapCreate fun _ => 7) calls +
          heapContents (exec (heapStep (.ofKey id)) (heapCreate fun _ => 7) calls) := by
  intro calls
  exact ⟨by decide, (heap_conserved (.ofKey id) _ calls (by decide)).1⟩

end

end SwitchSimulation
