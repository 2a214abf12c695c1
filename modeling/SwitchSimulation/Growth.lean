import SwitchSimulation.HashTableWord
import SwitchSimulation.HeapWord
import SwitchSimulation.Machine

/-!
# Is the growth arithmetic safe?

Heap and hash table double their capacities in 32-bit arithmetic without a
check; allocation is taken to succeed. A run of calls is safe just when it
never puts a new element into a container that holds `2 ^ 31` already.
-/

namespace SwitchSimulation

section
variable {K V : Type*} {O : KeyOps K} [DecidableEq K] [DecidableEq V]

theorem table_growth_iff (O : KeyOps K) (requests : List (HashTableRequest K V)) :
    Meets (hashTableStep32 O) (TableSafe O) hashTableCreate32 requests ↔
      Meets (hashTableStep32 O) (TableRoom O) hashTableCreate32 requests :=
  meets_congr (fun t => TableInv O t.wide) (fun _ r hinv => hashTableStep32_inv hinv r)
    (fun _ r hinv => tableSafe_iff hinv r) hashTableCreate32_inv requests

/-- While the inserts of new keys find fewer than `2 ^ 31` entries, each call
returns, and does to the table what it does with natural numbers. -/
theorem hashTable32_serves_iff (O : KeyOps K) (requests : List (HashTableRequest K V)) :
    Meets (hashTableStep32 O) (TableRoom O) hashTableCreate32 requests ↔
      Meets (hashTableStep32 O) (fun t r => ∃ t' out, hashTableStep32 O t r = (t', .ok out) ∧
        r.Serves O t.wide t'.wide out) hashTableCreate32 requests := by
  apply meets_congr (fun t => TableInv O t.wide) (fun _ r hinv => hashTableStep32_inv hinv r) _
    hashTableCreate32_inv requests
  intro t r hinv
  constructor
  · intro hroom
    obtain ⟨t', out, hstep, -, hserves⟩ := hashTableStep32_serves hinv r hroom
    exact ⟨t', out, hstep, hserves⟩
  · intro ⟨t', out, hstep, _⟩
    apply Classical.byContradiction
    intro hn
    rw [hashTableStep32_faults hinv r hn] at hstep
    cases hstep

theorem new_inserts_safe_iff : ∀ (l : List (HashTableEntry K V)) (t : HashTable32 K V), TableInv O t.wide →
    Distinct O (l ++ hashTableElems t.wide) →
    (Meets (hashTableStep32 O) (TableSafe O) t (l.map fun e => .insert e.key e.val) ↔
      t.size.toNat + l.length ≤ 2 ^ 31)
  | [], t, hinv, _ => iff_of_true trivial
      (Nat.le_trans hinv.size_le (hinv.roomy.capacity_le (by decide)))
  | e :: l, t, hinv, hd => by
    have hnew := hd.head_new
    rw [List.map_cons, List.length_cons]
    unfold Meets
    rw [tableSafe_iff hinv]
    by_cases hlt : t.size.toNat < 2 ^ 31
    · have hroom : TableRoom O t (.insert e.key e.val) := Or.inr hlt
      obtain ⟨t', hstep, hi, helems, hsize⟩ := insert32_new hinv e.val hnew hlt
      rw [and_iff_right hroom, hstep, new_inserts_safe_iff l t' hi (hd.move helems), hsize]
      omega
    · refine iff_of_false (fun hm => ?_) (by omega)
      obtain ⟨a, ha, hs⟩ := hm.1.resolve_right hlt
      exact hnew a ha hs

end

section
variable {α K V : Type*} [DecidableEq K] [DecidableEq V]

/-- In every run of either container the stores stay inside the array, no hash
is taken modulo zero and no doubling wraps, just when no new element comes to
`2 ^ 31` others. The bound on the nesting of inserts is never reached. -/
theorem growth_safe_iff (C : Comparator α) (fresh : Nat → α) (calls : List (HeapCall α))
    (hpop : Meets (heapStep32 C) (fun h c => c.Allowed h.wide) (heapCreate32 fresh) calls)
    (O : KeyOps K) (requests : List (HashTableRequest K V)) :
    (Meets (heapStep32 C) StoresInside (heapCreate32 fresh) calls ↔
      Meets (heapStep32 C) HeapRoom (heapCreate32 fresh) calls) ∧
    (Meets (hashTableStep32 O) (TableSafe O) hashTableCreate32 requests ↔
      Meets (hashTableStep32 O) (TableRoom O) hashTableCreate32 requests) ∧
    Meets (hashTableStep32 O) (fun t r => (hashTableStep32 O t r).2 ≠ .error .depth) hashTableCreate32 requests := by
  refine ⟨heap_growth_iff C fresh hpop, table_growth_iff O requests, ?_⟩
  refine (meets_congr (C := fun _ _ => True) (fun t => TableInv O t.wide)
    (fun _ r hinv => hashTableStep32_inv hinv r) (fun _ r hinv => ?_) hashTableCreate32_inv requests).mp
    (meets_true _ _)
  exact iff_of_true trivial (hashTableStep32_depth hinv r)

theorem growth_safe_few :
    Meets (heapStep32 (.ofKey (id : Nat → Nat))) StoresInside (heapCreate32 fun _ => 9)
        ((List.range 17).map .insert ++ [.popMin]) ∧
      Meets (hashTableStep32 (.ofKey id id)) (TableSafe (.ofKey (id : Nat → Nat) id)) hashTableCreate32
        ((List.range 34).map (fun k => .insert k k) ++ [.lookup 1, .remove 1, .insert 2 6]) := by
  obtain ⟨hheap, htable, -⟩ := growth_safe_iff (.ofKey (id : Nat → Nat)) (fun _ => 9)
    ((List.range 17).map .insert ++ [.popMin]) (by decide +kernel) (.ofKey (id : Nat → Nat) id)
    ((List.range 34).map (fun k => .insert k k) ++ [.lookup 1, .remove 1, .insert 2 6])
  exact ⟨hheap.mpr (by decide +kernel), htable.mpr (by decide +kernel)⟩

theorem range_inserts_safe_iff (n : Nat) :
    Meets (hashTableStep32 (.ofKey id id)) (TableSafe (.ofKey (id : Nat → Nat) id)) hashTableCreate32
      ((List.range n).map fun k => HashTableRequest.insert k k) ↔ n ≤ 2 ^ 31 := by
  let l : List (HashTableEntry Nat Nat) := (List.range n).map fun k => ⟨k, k⟩
  have hd : Distinct (.ofKey id id) (l ++ hashTableElems (hashTableCreate32 : HashTable32 Nat Nat).wide) := by
    have hnil : hashTableElems (hashTableCreate32 : HashTable32 Nat Nat).wide = [] := gather_nil _
    rw [hnil, List.append_nil]
    refine List.pairwise_map.mpr (List.nodup_range.imp fun hne he => hne ?_)
    exact Comparator.ofKey_eq_iff.mp he
  have h := new_inserts_safe_iff (O := .ofKey id id) l hashTableCreate32 hashTableCreate32_inv hd
  rw [List.map_map, List.length_map, List.length_range] at h
  have hzero : (hashTableCreate32 : HashTable32 Nat Nat).size.toNat = 0 := rfl
  rw [hzero, Nat.zero_add] at h
  exact h

theorem growth_wraps :
    ¬ Meets (heapStep32 (.ofKey id)) StoresInside (heapCreate32 fun _ => 0)
        ((List.replicate (2 ^ 31 + 1) (1 : Nat)).map .insert) ∧
      ¬ Meets (hashTableStep32 (.ofKey id id)) (TableSafe (.ofKey (id : Nat → Nat) id)) hashTableCreate32
        ((List.range (2 ^ 31 + 1)).map fun k => HashTableRequest.insert k k) := by
  constructor
  · rw [inserts_inside_iff (heapCreate32_roomy _), List.length_replicate]
    exact Nat.not_le_of_lt (Nat.lt_of_lt_of_le (Nat.lt_succ_self _) (Nat.le_add_left _ _))
  · rw [range_inserts_safe_iff]
    exact Nat.not_succ_le_self _

end

end SwitchSimulation
