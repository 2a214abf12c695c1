import SwitchSimulation.Doubling
import SwitchSimulation.HeapMin

/-!
# The heap with 32-bit sizes

`heap.c` keeps `size` and `capacity` in `unsigned int`, here `BitVec 32`. The
loops compute no index that could wrap, so they run on the heap with natural
numbers, `wide`. While inserts find fewer than `2 ^ 31` elements the two heaps
agree; the next insert wraps the capacity to zero.
-/

namespace SwitchSimulation

structure Heap32 (α : Type*) where
  elems : Nat → α
  capacity : BitVec 32
  size : BitVec 32

section
variable {α : Type*}

def Heap32.wide (h : Heap32 α) : Heap α := ⟨h.elems, h.capacity.toNat, h.size.toNat⟩

def heapCreate32 (fresh : Nat → α) : Heap32 α := ⟨fresh, BitVec.ofNat 32 heapDefaultCapacity, 0⟩

def heapGrow32 (h : Heap32 α) : Heap32 α :=
  if h.size + 1 > h.capacity then { h with capacity := h.capacity * 2 } else h

def heapAppend32 (h : Heap32 α) (elem : α) : Heap32 α :=
  { h with elems := Function.update h.elems h.size.toNat elem, size := h.size + 1 }

def heapMoveLast32 (h : Heap32 α) : Heap32 α :=
  { h with elems := Function.update h.elems 0 (h.elems (h.size - 1).toNat), size := h.size - 1 }

variable (C : Comparator α)

def heapInsert32 (h : Heap32 α) (elem : α) : Heap32 α :=
  let h' := heapAppend32 (heapGrow32 h) elem
  { h' with elems := (bubbleUp C h'.wide (h'.size - 1).toNat).1.elems }

def heapPopMin32 (h : Heap32 α) : Heap32 α × α :=
  let h' := heapMoveLast32 h
  ({ h' with elems := (siftRoot C h'.wide).elems }, h.elems 0)

def heapStep32 (h : Heap32 α) : HeapCall α → Heap32 α × Option α
  | .insert elem => (heapInsert32 C h elem, none)
  | .min => (h, some (h.elems 0))
  | .popMin => ((heapPopMin32 C h).1, some (heapPopMin32 C h).2)

/-! ## Growth -/

/-- The store of `heap_insert` is below the capacity it has then, and a
capacity that it doubled has not wrapped. -/
def StoresInside (h : Heap32 α) : HeapCall α → Prop
  | .insert _ => h.size.toNat < (heapGrow32 h).capacity.toNat ∧
      (h.size + 1 > h.capacity → (heapGrow32 h).capacity.toNat = 2 * h.capacity.toNat)
  | _ => True

def HeapRoom (h : Heap32 α) : HeapCall α → Prop
  | .insert _ => h.size.toNat < 2 ^ 31
  | _ => True

instance (h : Heap32 α) : ∀ c, Decidable (HeapRoom h c)
  | .insert _ => inferInstanceAs (Decidable (h.size.toNat < 2 ^ 31))
  | .min => inferInstanceAs (Decidable True)
  | .popMin => inferInstanceAs (Decidable True)

variable {C} {h : Heap32 α}

theorem heapGrow32_eq (h : Heap32 α) : heapGrow32 h = { h with capacity := doubled h.size h.capacity } := by
  unfold heapGrow32 doubled
  rw [BitVec.mul_comm]
  split <;> rfl

theorem heapInsert32_size (h : Heap32 α) (x : α) : (heapInsert32 C h x).size = h.size + 1 := by
  show (heapGrow32 h).size + 1 = _
  rw [heapGrow32_eq]

theorem heapInsert32_capacity (h : Heap32 α) (x : α) :
    (heapInsert32 C h x).capacity = doubled h.size h.capacity := by
  show (heapGrow32 h).capacity = _
  rw [heapGrow32_eq]

theorem storesInside_iff (hr : Roomy h.size h.capacity) (c : HeapCall α) : StoresInside h c ↔ HeapRoom h c := by
  cases c with
  | insert x =>
    unfold StoresInside HeapRoom
    rw [heapGrow32_eq]
    constructor
    · intro hs
      exact (hr.room_iff (by decide)).mp hs.1
    · intro hlt
      refine ⟨(hr.room_iff (by decide)).mpr hlt, fun hfull => ?_⟩
      simp only [doubled, if_pos hfull]
      exact (hr.exact_iff (by decide) hfull).mpr hlt
  | min => exact Iff.rfl
  | popMin => exact Iff.rfl

/-! ## Agreement with the wide heap -/

theorem bubbleUp_frame (h : Heap α) (index : Nat) :
    (bubbleUp C h index).1 = { h with elems := (bubbleUp C h index).1.elems } :=
  whileLoop_inv (fun s : Heap α × Nat => s.1 = { h with elems := s.1.elems })
    (fun s hs _ => by rw [bubbleBody, swapElem, hs]) index rfl

theorem siftRoot_frame (h : Heap α) : siftRoot C h = { h with elems := (siftRoot C h).elems } :=
  whileLoop_inv (fun t : Heap α => t = { h with elems := t.elems })
    (fun t ht _ => by rw [siftBody, swapElem, ht]) h.size rfl

theorem heapAppend32_wide (hr : Roomy h.size h.capacity) (hlt : h.size.toNat < 2 ^ 31) (x : α) :
    (heapAppend32 (heapGrow32 h) x).wide = heapAppend (heapGrow h.wide) x := by
  have hcap := hr.doubled_toNat (by decide) hlt
  have hsize := hr.succ_toNat (by decide)
  rw [heapGrow32_eq]
  unfold heapAppend32 Heap32.wide heapAppend heapGrow
  simp only [hcap, hsize, Nat.mul_comm]
  split <;> rfl

theorem heapInsert32_wide (hr : Roomy h.size h.capacity) (hlt : h.size.toNat < 2 ^ 31) (x : α) :
    (heapInsert32 C h x).wide = heapInsert C h.wide x := by
  let h' := heapAppend32 (heapGrow32 h) x
  -- both loops start from the same array and the same index
  have hwide : h'.wide = heapAppend (heapGrow h.wide) x := heapAppend32_wide hr hlt x
  have hlast : (h'.size - 1).toNat = h'.wide.size - 1 := by
    have hsize : h'.size = h.size + 1 := heapInsert32_size (C := C) h x
    have hsucc : h'.wide.size = h.size.toNat + 1 := by
      show h'.size.toNat = _
      rw [hsize]
      exact hr.succ_toNat (by decide)
    rw [hsucc, hsize, BitVec.add_sub_cancel, Nat.add_sub_cancel]
  calc (heapInsert32 C h x).wide
      = { h'.wide with elems := (bubbleUp C h'.wide (h'.wide.size - 1)).1.elems } := by rw [← hlast]; rfl
    _ = (bubbleUp C h'.wide (h'.wide.size - 1)).1 := (bubbleUp_frame h'.wide _).symm
    _ = heapInsert C h.wide x := by rw [hwide]; rfl

theorem heapPopMin32_wide (hs : 0 < h.size.toNat) :
    (heapPopMin32 C h).1.wide = (heapPopMin C h.wide).1 := by
  have hlast := pred_toNat (by decide) hs
  have hwide : (heapMoveLast32 h).wide = heapMoveLast h.wide := by
    unfold heapMoveLast32 Heap32.wide heapMoveLast
    simp only [hlast]
  calc (heapPopMin32 C h).1.wide
      = { (heapMoveLast32 h).wide with elems := (siftRoot C (heapMoveLast32 h).wide).elems } := rfl
    _ = siftRoot C (heapMoveLast32 h).wide := (siftRoot_frame _).symm
    _ = (heapPopMin C h.wide).1 := by rw [hwide]; rfl

theorem heapStep32_spec (hr : Roomy h.size h.capacity) {c : HeapCall α} (hc : c.Allowed h.wide)
    (hroom : HeapRoom h c) :
    Roomy (heapStep32 C h c).1.size (heapStep32 C h c).1.capacity ∧
      (heapStep32 C h c).1.wide = (heapStep C h.wide c).1 ∧
      (heapStep32 C h c).2 = (heapStep C h.wide c).2 := by
  cases c with
  | insert x =>
    refine ⟨?_, heapInsert32_wide hr hroom x, rfl⟩
    rw [heapStep32, heapInsert32_size, heapInsert32_capacity]
    exact hr.push (by decide) hroom
  | min => exact ⟨hr, rfl, rfl⟩
  | popMin =>
    have hlast := pred_toNat (by decide) hc
    refine ⟨⟨hr.pow, ?_⟩, heapPopMin32_wide hc, rfl⟩
    have hle := hr.size_le
    show (h.size - 1).toNat ≤ h.capacity.toNat
    omega

/-! ## Runs -/

theorem heapCreate32_roomy (fresh : Nat → α) : Roomy (heapCreate32 fresh).size (heapCreate32 fresh).capacity :=
  ⟨⟨4, rfl⟩, Nat.zero_le _⟩

theorem heap_growth_iff (C : Comparator α) (fresh : Nat → α) {calls : List (HeapCall α)}
    (hpop : Meets (heapStep32 C) (fun h c => c.Allowed h.wide) (heapCreate32 fresh) calls) :
    Meets (heapStep32 C) StoresInside (heapCreate32 fresh) calls ↔
      Meets (heapStep32 C) HeapRoom (heapCreate32 fresh) calls :=
  meets_congr_within (fun h => Roomy h.size h.capacity)
    (fun _ _ hr hc hroom => (heapStep32_spec hr hc hroom).1) (fun _ c hr _ => storesInside_iff hr c)
    (heapCreate32_roomy fresh) hpop

/-- While the inserts of a run find fewer than `2 ^ 31` elements, the heap with
32-bit sizes is the heap with natural numbers. -/
theorem heap32_refines (C : Comparator α) (fresh : Nat → α) {calls : List (HeapCall α)}
    (hm : Meets (heapStep32 C) (fun h c => c.Allowed h.wide ∧ HeapRoom h c) (heapCreate32 fresh) calls) :
    (exec (heapStep32 C) (heapCreate32 fresh) calls).wide = exec (heapStep C) (heapCreate fresh) calls ∧
      outs (heapStep32 C) (heapCreate32 fresh) calls = outs (heapStep C) (heapCreate fresh) calls := by
  let R (h : Heap32 α) (g : Heap α) := Roomy h.size h.capacity ∧ h.wide = g
  have hsim : ∀ h g c, R h g → c.Allowed h.wide ∧ HeapRoom h c →
      R (heapStep32 C h c).1 (heapStep C g c).1 ∧ (heapStep32 C h c).2 = (heapStep C g c).2 := by
    rintro h _ c ⟨hr, rfl⟩ ⟨hc, hroom⟩
    obtain ⟨hr', hwide, hout⟩ := heapStep32_spec hr hc hroom
    exact ⟨⟨hr', hwide⟩, hout⟩
  have hstart : R (heapCreate32 fresh) (heapCreate fresh) := ⟨heapCreate32_roomy fresh, rfl⟩
  obtain ⟨hrel, houts⟩ := sim_run R hsim hstart hm
  exact ⟨hrel.2, houts⟩

theorem inserts_inside_iff (hr : Roomy h.size h.capacity) (xs : List α) :
    Meets (heapStep32 C) StoresInside h (xs.map .insert) ↔ h.size.toNat + xs.length ≤ 2 ^ 31 := by
  induction xs generalizing h with
  | nil => exact iff_of_true trivial (Nat.le_trans hr.size_le (hr.capacity_le (by decide)))
  | cons x xs ih =>
    rw [List.map_cons, List.length_cons]
    unfold Meets
    rw [storesInside_iff hr]
    by_cases hlt : h.size.toNat < 2 ^ 31
    · have hsize : (heapStep32 C h (.insert x)).1.size.toNat = h.size.toNat + 1 := by
        rw [heapStep32, heapInsert32_size, hr.succ_toNat (by decide)]
      rw [and_iff_right (show HeapRoom h (.insert x) from hlt),
        ih (heapStep32_spec hr (c := .insert x) trivial hlt).1, hsize]
      omega
    · refine iff_of_false (fun hm => hlt hm.1) ?_
      omega

end

end SwitchSimulation
