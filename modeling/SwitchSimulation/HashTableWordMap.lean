import SwitchSimulation.HashTableWord
import SwitchSimulation.Machine

/-!
# The hash table with 32-bit sizes is a map

The purpose of a hash table is the map from keys to values that `mapStep`
works on. With few enough inserts neither the hash function nor the resizes
nor the 32-bit sizes can be seen in the answers.
-/

namespace SwitchSimulation

section
variable {K V : Type*} (O : KeyOps K)

/-- A map does not distinguish EQ keys. -/
def mapStep (m : K → Option V) : HashTableRequest K V → (K → Option V) × Option V
  | .insert key value => (fun k => if O.compare k key = .EQ then some value else m k, none)
  | .lookup key => (m, m key)
  | .remove key => (fun k => if O.compare k key = .EQ then none else m k, none)

def HashTableRequest.inserts : HashTableRequest K V → Nat
  | .insert _ _ => 1
  | .lookup _ => 0
  | .remove _ => 0

structure Represents (t : HashTable32 K V) (m : K → Option V) : Prop where
  inv : TableInv O t.wide
  lookup : ∀ k, hashTableLookup O t.wide k = m k

variable {O} [DecidableEq K] [DecidableEq V] {t : HashTable32 K V} {m : K → Option V}

/-! ## One call -/

theorem step_represents (h : Represents O t m) (r : HashTableRequest K V) (hroom : TableRoom O t r) :
    Represents O (hashTableStep32 O t r).1 (mapStep O m r).1 ∧
      (hashTableStep32 O t r).2 = .ok (mapStep O m r).2 := by
  obtain ⟨t', out, hstep, hinv, hserves⟩ := hashTableStep32_serves h.inv r hroom
  rw [hstep]
  cases r with
  | insert key value =>
    obtain ⟨hinsert, rfl⟩ := hserves
    refine ⟨⟨hinv, fun k => ?_⟩, rfl⟩
    rw [lookup_insert h.inv hinsert, h.lookup]
    rfl
  | lookup key =>
    obtain ⟨hsame, rfl⟩ := hserves
    refine ⟨⟨hinv, fun k => ?_⟩, congrArg Except.ok (h.lookup key)⟩
    rw [hsame]
    exact h.lookup k
  | remove key =>
    obtain ⟨hremove, rfl⟩ := hserves
    refine ⟨⟨hinv, fun k => ?_⟩, rfl⟩
    rw [hremove, lookup_remove h.inv, h.lookup]
    rfl

/-- An insert adds at most one entry, and no other call adds any. -/
theorem step_size_le (hinv : TableInv O t.wide) (r : HashTableRequest K V) (hroom : TableRoom O t r) :
    (hashTableStep32 O t r).1.size.toNat ≤ t.size.toNat + r.inserts := by
  obtain ⟨t', out, hstep, hinv', hserves⟩ := hashTableStep32_serves hinv r hroom
  have hold : t.size.toNat = (hashTableElems t.wide).length := hinv.size_eq
  have hnew : t'.size.toNat = (hashTableElems t'.wide).length := hinv'.size_eq
  rw [hstep, hold]
  simp only [hnew]
  cases r with
  | insert key value =>
    obtain ⟨w, hw, -, rest, hp, hcase⟩ := hashTableInsert_spec hinv key value
    obtain rfl := Option.some.inj (hw.symm.trans hserves.1)
    rw [hp.length_eq, List.length_cons]
    cases hcase with
    | inl h => rw [h.1.length_eq]; exact Nat.le_refl _
    | inr h =>
      obtain ⟨e, -, hp'⟩ := h
      rw [hp'.length_eq, List.length_cons]
      exact Nat.le_succ _
  | lookup key => rw [hserves.1]; exact Nat.le_refl _
  | remove key =>
    obtain ⟨-, ⟨hsame, -⟩ | ⟨e, -, hp, -⟩⟩ := hashTableRemove_spec hinv key
    · rw [hserves.1, hsame]; exact Nat.le_refl _
    · rw [hserves.1, hp.length_eq, List.length_cons]
      exact Nat.le_succ _

/-! ## Runs -/

theorem few_inserts_room : ∀ (requests : List (HashTableRequest K V)) (t : HashTable32 K V), TableInv O t.wide →
    t.size.toNat + (requests.map HashTableRequest.inserts).sum ≤ 2 ^ 31 →
    Meets (hashTableStep32 O) (TableRoom O) t requests
  | [], _, _, _ => trivial
  | r :: requests, t, hinv, hfew => by
    rw [List.map_cons, List.sum_cons] at hfew
    have hroom : TableRoom O t r := by
      cases r with
      | insert key value =>
        have hone : (HashTableRequest.insert key value).inserts = 1 := rfl
        exact Or.inr (by omega)
      | lookup key => trivial
      | remove key => trivial
    have hsize := step_size_le hinv r hroom
    exact ⟨hroom, few_inserts_room requests _ (hashTableStep32_inv hinv r) (by omega)⟩

/-- With at most `2 ^ 31` inserts every call of a run returns, and every lookup
gives what the map gives. -/
theorem hash_table_words (O : KeyOps K) (requests : List (HashTableRequest K V))
    (hfew : (requests.map HashTableRequest.inserts).sum ≤ 2 ^ 31) :
    outs (hashTableStep32 O) hashTableCreate32 requests =
      (outs (mapStep O) (fun _ => none) requests).map Except.ok := by
  have hzero : (hashTableCreate32 : HashTable32 K V).size.toNat = 0 := rfl
  have hstart : Represents O (hashTableCreate32 : HashTable32 K V) fun _ => none :=
    ⟨hashTableCreate_inv, fun _ => rfl⟩
  have hroom := few_inserts_room requests hashTableCreate32 hstart.inv (by omega)
  have hrun := sim_run_view (Represents O) id id Except.ok (fun t m r h hr => step_represents h r hr) hstart hroom
  simpa only [List.map_id] using hrun.2

end

/-- Keys that differ by a multiple of 32 share a chain until the table grows. -/
def chainedRequests : List (HashTableRequest Nat Nat) :=
  (List.range 34).map (fun k => .insert (32 * k) k) ++ [.remove 64, .lookup 64, .lookup 96]

theorem hash_table_words_chained :
    outs (hashTableStep32 (.ofKey id id)) hashTableCreate32 chainedRequests =
      (outs (mapStep (.ofKey (id : Nat → Nat) id)) (fun _ => none) chainedRequests).map Except.ok :=
  hash_table_words (.ofKey id id) chainedRequests (by decide +kernel)

end SwitchSimulation
