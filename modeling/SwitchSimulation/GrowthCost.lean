import SwitchSimulation.Amortised
import SwitchSimulation.HashTableResize
import SwitchSimulation.HeapWord

/-!
# What growing costs

Both containers double their arrays. In every run the entries that they copy
for it are fewer than twice the elements that they held at most: an insert
copies a bounded number of entries on average, and the arrays never shrink.
-/

namespace SwitchSimulation

/-! ## The hash table -/

section
variable {K V : Type*} [DecidableEq K] [DecidableEq V] {O : KeyOps K}

def lawfulStep (t : LawfulTable O V) : HashTableCall K V → LawfulTable O V × Unit
  | .insert key value => (t.insert key value, ())
  | .remove key => (t.remove key, ())

theorem lawfulStep_call (t : LawfulTable O V) (c : HashTableCall K V) :
    hashTableCall O t.table c = some (lawfulStep t c).1.table := by
  cases c with
  | insert key value => exact (Option.some_get _).symm
  | remove key => rfl

theorem lawfulRun_calls (calls : List (HashTableCall K V)) (t : LawfulTable O V) :
    calls.foldlM (hashTableCall O) t.table = some (exec lawfulStep t calls).table := by
  induction calls generalizing t with
  | nil => rfl
  | cons c calls ih =>
    rw [List.foldlM_cons, lawfulStep_call]
    exact ih _

/-- The nested inserts of a call: the scratch array of the resize branch has one entry for each. -/
def reinserted (t : LawfulTable O V) : HashTableCall K V → Nat
  | .insert key _ =>
    if t.lookup key = none ∧ t.table.size + 1 > t.table.capacity then (hashTableElems t.table).length else 0
  | .remove _ => 0

omit [DecidableEq K] [DecidableEq V] in
theorem remove_capacity (t : HashTable K V) (key : K) : (hashTableRemove O t key).capacity = t.capacity := by
  unfold hashTableRemove
  split <;> rfl

theorem insert_grows (t : LawfulTable O V) (key : K) (value : V) :
    GrowsByDoubling (fun t : LawfulTable O V => t.table.size) (fun t => t.table.capacity) reinserted t
      (.insert key value) (t.insert key value) := by
  have hcall : hashTableInsert O t.table key value = some (t.insert key value).table := (Option.some_get _).symm
  have hlen := t.inv.size_eq
  have hle := t.inv.size_le
  cases hl : t.lookup key with
  | some v =>
    -- the key is there already, and its entry is replaced
    obtain ⟨e, he, hs, -⟩ := (lookup_some_iff t.inv).mp hl
    have hnext := Option.some.inj (hcall.symm.trans (insertAux_old t.inv ⟨e, he, hs⟩ value 1))
    have hnone : reinserted t (.insert key value) = 0 := if_neg fun h => by rw [hl] at h; cases h.1
    refine ⟨?_, Or.inl hnone⟩
    rw [hnone, hnext, Nat.zero_add]
    rfl
  | none =>
    obtain ⟨t', ht, hi, helems, hcap, -⟩ := insert_new_spec t.inv ((lookup_none_iff t.inv).mp hl) value
    have hnext : (t.insert key value).table = t' := Option.some.inj (hcall.symm.trans (ht 0))
    have hsize : t'.size = t.table.size + 1 := by
      rw [hi.size_eq, helems.length_eq, List.length_cons, hlen]
    by_cases hfull : t.table.size + 1 > t.table.capacity
    · have hall : reinserted t (.insert key value) = t.table.capacity :=
        (if_pos ⟨hl, hfull⟩).trans (by omega)
      rw [if_pos hfull] at hcap
      refine ⟨?_, Or.inr ⟨hall, ?_⟩⟩
      · simp only [hnext, hall]
        omega
      · simp only [hnext]
        omega
    · have hnone : reinserted t (.insert key value) = 0 := if_neg fun h => hfull h.2
      rw [if_neg hfull] at hcap
      refine ⟨?_, Or.inl hnone⟩
      rw [hnone, hnext, hcap, Nat.zero_add]

theorem lawfulStep_grows (t : LawfulTable O V) (c : HashTableCall K V) :
    GrowsByDoubling (fun t : LawfulTable O V => t.table.size) (fun t => t.table.capacity) reinserted t c
      (lawfulStep t c).1 := by
  cases c with
  | insert key value => exact insert_grows t key value
  | remove key => exact ⟨(remove_capacity t.table key).trans (Nat.zero_add _).symm, Or.inl rfl⟩

theorem lawfulRun_grows (calls : List (HashTableCall K V)) :
    total lawfulStep reinserted (LawfulTable.create : LawfulTable O V) calls + hashTableDefaultCapacity =
      (exec lawfulStep (LawfulTable.create : LawfulTable O V) calls).table.capacity :=
  (meets_true _ calls).total_moved (fun _ => True) (fun t => t.table.size) (fun t => t.table.capacity) reinserted
    (fun t c _ _ => ⟨trivial, lawfulStep_grows t c⟩) trivial

/-- In every run the entries that resizes insert anew are as many as the
capacity has grown by, and that is less than twice the largest size of the run. -/
theorem hash_table_growth (O : KeyOps K) (calls : List (HashTableCall K V)) :
    let t : LawfulTable O V := exec lawfulStep LawfulTable.create calls
    hashTableRun O calls = some t.table ∧
      total lawfulStep reinserted (LawfulTable.create : LawfulTable O V) calls + hashTableDefaultCapacity =
        t.table.capacity ∧
      ∀ bound, Always lawfulStep (fun t : LawfulTable O V => hashTableSize t.table ≤ bound) LawfulTable.create calls →
        t.table.capacity ≤ max hashTableDefaultCapacity (2 * (bound - 1)) := by
  intro t
  have hstep : ∀ (t : LawfulTable O V) (c : HashTableCall K V), True → True →
      True ∧ GrowsByDoubling (fun t : LawfulTable O V => t.table.size) (fun t => t.table.capacity) reinserted t c
        (lawfulStep t c).1 := fun t c _ _ => ⟨trivial, lawfulStep_grows t c⟩
  have hrun : Meets lawfulStep (fun _ _ => True) (LawfulTable.create : LawfulTable O V) calls := meets_true _ _
  refine ⟨lawfulRun_calls calls LawfulTable.create, lawfulRun_grows calls, fun bound hb => ?_⟩
  exact hrun.capacity_le _ _ _ _ hstep trivial hb

end

/-! ## The heap -/

section
variable {α : Type*} {C : Comparator α}

/-- The elements that `realloc` moves. -/
def reallocated (h : Heap α) : HeapCall α → Nat
  | .insert _ => if h.size + 1 > h.capacity then h.size else 0
  | _ => 0

theorem heapInsert_capacity (h : Heap α) (x : α) :
    (heapInsert C h x).capacity = if h.size + 1 > h.capacity then h.capacity * 2 else h.capacity := by
  unfold heapInsert
  rw [bubbleUp_frame]
  simp only [heapAppend, heapGrow]
  split <;> rfl

theorem heapPopMin_capacity (h : Heap α) : (heapPopMin C h).1.capacity = h.capacity := by
  unfold heapPopMin
  rw [siftRoot_frame]
  rfl

structure HeapFits (h : Heap α) : Prop where
  size_le : h.size ≤ h.capacity
  capacity_pos : 0 < h.capacity

theorem heapStep_grows {h : Heap α} (hf : HeapFits h) (c : HeapCall α) :
    HeapFits (heapStep C h c).1 ∧ GrowsByDoubling Heap.size Heap.capacity reallocated h c (heapStep C h c).1 := by
  obtain ⟨hle, hpos⟩ := hf
  cases c with
  | insert x =>
    have hsize := heapInsert_size (C := C) h x
    have hcap := heapInsert_capacity (C := C) h x
    change HeapFits (heapInsert C h x) ∧
      GrowsByDoubling Heap.size Heap.capacity reallocated h (.insert x) (heapInsert C h x)
    by_cases hfull : h.size + 1 > h.capacity
    · have hall : reallocated h (.insert x) = h.size := if_pos hfull
      rw [if_pos hfull] at hcap
      exact ⟨⟨by omega, by omega⟩, ⟨by omega, Or.inr ⟨by omega, by omega⟩⟩⟩
    · have hnone : reallocated h (.insert x) = 0 := if_neg hfull
      rw [if_neg hfull] at hcap
      exact ⟨⟨by omega, by omega⟩, ⟨by omega, Or.inl hnone⟩⟩
  | min => exact ⟨⟨hle, hpos⟩, ⟨(Nat.zero_add _).symm, Or.inl rfl⟩⟩
  | popMin =>
    have hsize := heapPopMin_size (C := C) h
    have hcap := heapPopMin_capacity (C := C) h
    change HeapFits (heapPopMin C h).1 ∧
      GrowsByDoubling Heap.size Heap.capacity reallocated h .popMin (heapPopMin C h).1
    exact ⟨⟨by omega, by omega⟩, ⟨hcap.trans (Nat.zero_add _).symm, Or.inl rfl⟩⟩

end

theorem heapCreate_fits {α : Type*} (fresh : Nat → α) : HeapFits (heapCreate fresh) :=
  ⟨Nat.zero_le _, Nat.succ_pos _⟩

theorem heapRun_grows {α : Type*} {C : Comparator α} (fresh : Nat → α) (calls : List (HeapCall α)) :
    total (heapStep C) reallocated (heapCreate fresh) calls + heapDefaultCapacity =
      (exec (heapStep C) (heapCreate fresh) calls).capacity :=
  (meets_true _ calls).total_moved HeapFits Heap.size Heap.capacity reallocated
    (fun _ c hf _ => heapStep_grows hf c) (heapCreate_fits fresh)

/-- The same for the heap: what its reallocations move is what its capacity has grown by. -/
theorem heap_growth {α : Type*} (C : Comparator α) (fresh : Nat → α) (calls : List (HeapCall α)) :
    let h := exec (heapStep C) (heapCreate fresh) calls
    heapSize h ≤ h.capacity ∧
      total (heapStep C) reallocated (heapCreate fresh) calls + heapDefaultCapacity = h.capacity ∧
      ∀ bound, Always (heapStep C) (fun h => heapSize h ≤ bound) (heapCreate fresh) calls →
        h.capacity ≤ max heapDefaultCapacity (2 * (bound - 1)) := by
  intro h
  have hstep : ∀ (h : Heap α) (c : HeapCall α), HeapFits h → True → HeapFits (heapStep C h c).1 ∧
      GrowsByDoubling Heap.size Heap.capacity reallocated h c (heapStep C h c).1 :=
    fun h c hf _ => heapStep_grows hf c
  have h0 := heapCreate_fits fresh
  have hrun : Meets (heapStep C) (fun _ _ => True) (heapCreate fresh) calls := meets_true _ _
  refine ⟨?_, heapRun_grows fresh calls, fun bound hb => hrun.capacity_le _ _ _ _ hstep h0 hb⟩
  exact (exec_inv HeapFits (fun h c hf => (heapStep_grows hf c).1) h0 calls).size_le

end SwitchSimulation
