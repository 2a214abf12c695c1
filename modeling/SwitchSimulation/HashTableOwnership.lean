import SwitchSimulation.Custody
import SwitchSimulation.HashTableMap
import SwitchSimulation.Machine

/-!
# Who owns the keys and values of a hash table

A call hands its objects over to the table. The table frees an object when
another one takes its place, when the entry is removed, or when the table is
freed, and moving entries to a larger array frees nothing.
-/

namespace SwitchSimulation

section
variable {K V : Type*} {O : KeyOps K}

structure OwnedTable (O : KeyOps K) (V : Type*) where
  table : LawfulTable O V
  keys : List K
  vals : List V

def ownedCreate : OwnedTable O V := ⟨LawfulTable.create, [], []⟩

def OwnedTable.elems (s : OwnedTable O V) : List (HashTableEntry K V) := hashTableElems s.table.table

structure SingleOwner (s : OwnedTable O V) : Prop where
  keys : Custody s.keys s.table.table.freedKeys (s.elems.map HashTableEntry.key)
  vals : Custody s.vals s.table.table.freedVals (s.elems.map HashTableEntry.val)

theorem ownedCreate_single : SingleOwner (ownedCreate : OwnedTable O V) := by
  have hnil : (ownedCreate : OwnedTable O V).elems = [] := gather_nil _
  refine ⟨?_, ?_⟩
  · rw [hnil]; exact Custody.empty
  · rw [hnil]; exact Custody.empty

/-! ## Freeing the table -/

theorem hashTableFreeChain_spec (chain : List (HashTableEntry K V)) (t : HashTable K V) :
    hashTableFreeChain t chain =
      { t with
        freedKeys := t.freedKeys ++ chain.map HashTableEntry.key
        freedVals := t.freedVals ++ chain.map HashTableEntry.val } := by
  induction chain generalizing t with
  | nil => simp [hashTableFreeChain]
  | cons curr next ih =>
    unfold hashTableFreeChain at ih ⊢
    rw [List.foldl_cons, ih]
    simp

structure FreedBelow (t : HashTable K V) (i : Nat) (t' : HashTable K V) : Prop where
  above : ∀ j, i ≤ j → t'.entries j = t.entries j
  keys : t'.freedKeys = t.freedKeys ++ (gather i t.entries).map HashTableEntry.key
  vals : t'.freedVals = t.freedVals ++ (gather i t.entries).map HashTableEntry.val

theorem hashTableFree_spec (t : HashTable K V) : FreedBelow t t.capacity (hashTableFree t) := by
  unfold hashTableFree
  apply forRange_inv (FreedBelow t)
  · exact ⟨fun _ _ => rfl, (List.append_nil _).symm, (List.append_nil _).symm⟩
  · intro i _ t' h
    rw [hashTableFreeChain_spec, h.above i (Nat.le_refl i)]
    refine ⟨fun j hj => ?_, ?_, ?_⟩
    · exact (Function.update_of_ne (by omega) ..).trans (h.above j (by omega))
    · simp only [h.keys, gather_succ, List.map_append, List.append_assoc]
    · simp only [h.vals, gather_succ, List.map_append, List.append_assoc]

theorem SingleOwner.free {s : OwnedTable O V} (h : SingleOwner s) :
    Custody s.keys (hashTableFree s.table.table).freedKeys [] ∧
      Custody s.vals (hashTableFree s.table.table).freedVals [] := by
  obtain ⟨-, hk, hv⟩ := hashTableFree_spec s.table.table
  rw [hk, hv]
  exact ⟨h.keys.free_all, h.vals.free_all⟩

variable [DecidableEq K] [DecidableEq V]

def ownedStep (s : OwnedTable O V) : HashTableCall K V → OwnedTable O V × Unit
  | .insert key value => (⟨s.table.insert key value, key :: s.keys, value :: s.vals⟩, ())
  | .remove key => ({ s with table := s.table.remove key }, ())

/-- An insert passes objects that are new, or those of the entry with an EQ key. -/
def PassesOwn (s : OwnedTable O V) : HashTableCall K V → Prop
  | .insert key value =>
    (key ∉ s.keys ∨ ∃ e ∈ s.elems, O.compare key e.key = .EQ ∧ e.key = key) ∧
      (value ∉ s.vals ∨ ∃ e ∈ s.elems, O.compare key e.key = .EQ ∧ e.val = value)
  | .remove _ => True

instance (s : OwnedTable O V) : ∀ c, Decidable (PassesOwn s c)
  | .insert _ _ => inferInstanceAs (Decidable (_ ∧ _))
  | .remove _ => inferInstanceAs (Decidable True)

/-! ## One call -/

theorem ownedStep_call (s : OwnedTable O V) (c : HashTableCall K V) :
    hashTableCall O s.table.table c = some (ownedStep s c).1.table.table := by
  cases c with
  | insert key value => exact (Option.some_get _).symm
  | remove key => rfl

theorem insert_old_single {s : OwnedTable O V} (h : SingleOwner s) {key : K} {value : V}
    (hp : PassesOwn s (.insert key value)) (hold : ∃ e ∈ s.elems, O.compare key e.key = .EQ) :
    SingleOwner (ownedStep s (.insert key value)).1 := by
  obtain ⟨-, e, rest, hs, helems, hnew, hk, hv⟩ := hashTableUpdate_spec s.table.inv value hold
  have ht : (s.table.insert key value).table = hashTableUpdate O s.table.table key value :=
    Option.some.inj ((ownedStep_call s (.insert key value)).symm.trans (insertAux_old s.table.inv hold value 1))
  -- the entry that the objects may come from is the one that is replaced
  have hsame : ∀ a ∈ s.elems, O.compare key a.key = .EQ → a = e := fun a ha hka =>
    s.table.inv.distinct.eq_of_same ha (helems.mem_iff.mpr (List.mem_cons_self ..))
      (O.eq_trans _ _ _ (O.eq_symm _ _ hka) hs)
  have hkey : key ∉ s.keys ∨ e.key = key := hp.1.imp_right fun ⟨a, ha, hka, hak⟩ => by rwa [← hsame a ha hka]
  have hval : value ∉ s.vals ∨ e.val = value := hp.2.imp_right fun ⟨a, ha, hka, hav⟩ => by rwa [← hsame a ha hka]
  refine ⟨?_, ?_⟩
  · simp only [ownedStep, OwnedTable.elems, ht, hk]
    exact ((h.keys.perm (helems.map HashTableEntry.key)).replace hkey).perm (hnew.map HashTableEntry.key).symm
  · simp only [ownedStep, OwnedTable.elems, ht, hv]
    exact ((h.vals.perm (helems.map HashTableEntry.val)).replace hval).perm (hnew.map HashTableEntry.val).symm

theorem insert_new_single {s : OwnedTable O V} (h : SingleOwner s) {key : K} {value : V}
    (hp : PassesOwn s (.insert key value)) (hnew : ∀ e ∈ s.elems, O.compare key e.key ≠ .EQ) :
    SingleOwner (ownedStep s (.insert key value)).1 := by
  obtain ⟨t', hr, -, helems, -, hk, hv⟩ := insert_new_spec s.table.inv hnew value
  have ht : (s.table.insert key value).table = t' :=
    Option.some.inj ((ownedStep_call s (.insert key value)).symm.trans (hr 0))
  have hkey : key ∉ s.keys := hp.1.resolve_right fun ⟨a, ha, hka, _⟩ => hnew a ha hka
  have hval : value ∉ s.vals := hp.2.resolve_right fun ⟨a, ha, hka, _⟩ => hnew a ha hka
  refine ⟨?_, ?_⟩
  · simp only [ownedStep, OwnedTable.elems, ht, hk]
    exact (h.keys.add hkey).perm (helems.map HashTableEntry.key).symm
  · simp only [ownedStep, OwnedTable.elems, ht, hv]
    exact (h.vals.add hval).perm (helems.map HashTableEntry.val).symm

theorem remove_single {s : OwnedTable O V} (h : SingleOwner s) (key : K) :
    SingleOwner (ownedStep s (.remove key)).1 := by
  obtain ⟨-, ⟨hsame, -⟩ | ⟨e, -, helems, hk, hv⟩⟩ := hashTableRemove_spec s.table.inv key
  · have ht : s.table.remove key = s.table := by
      unfold LawfulTable.remove
      congr 1
    simp only [ownedStep, ht]
    exact h
  · refine ⟨?_, ?_⟩
    · simp only [ownedStep, OwnedTable.elems, LawfulTable.remove, hk]
      exact (h.keys.perm (helems.map HashTableEntry.key)).free
    · simp only [ownedStep, OwnedTable.elems, LawfulTable.remove, hv]
      exact (h.vals.perm (helems.map HashTableEntry.val)).free

theorem ownedStep_single {s : OwnedTable O V} {c : HashTableCall K V} (h : SingleOwner s)
    (hp : PassesOwn s c) : SingleOwner (ownedStep s c).1 := by
  cases c with
  | insert key value =>
    by_cases hold : ∃ e ∈ s.elems, O.compare key e.key = .EQ
    · exact insert_old_single h hp hold
    · exact insert_new_single h hp fun e he hs => hold ⟨e, he, hs⟩
  | remove key => exact remove_single h key

/-! ## Runs -/

theorem ownedRun_calls (calls : List (HashTableCall K V)) (s : OwnedTable O V) :
    calls.foldlM (hashTableCall O) s.table.table = some (exec ownedStep s calls).table.table := by
  induction calls generalizing s with
  | nil => rfl
  | cons c calls ih =>
    rw [List.foldlM_cons, ownedStep_call]
    exact ih _

theorem ownedRun_single {calls : List (HashTableCall K V)}
    (hp : Meets ownedStep PassesOwn (ownedCreate : OwnedTable O V) calls) :
    Always ownedStep SingleOwner (ownedCreate : OwnedTable O V) calls :=
  hp.always SingleOwner (fun _ _ h => ownedStep_single h) ownedCreate_single

/-- At every moment of a run each object is freed or held, and not both; and
when the table is freed at its end, each has been freed exactly once. -/
theorem objects_owned_once (O : KeyOps K) (calls : List (HashTableCall K V))
    (hp : Meets ownedStep PassesOwn (ownedCreate : OwnedTable O V) calls) :
    Always ownedStep SingleOwner (ownedCreate : OwnedTable O V) calls ∧
      let s : OwnedTable O V := exec ownedStep ownedCreate calls
      hashTableRun O calls = some s.table.table ∧
        (∀ key, (hashTableFree s.table.table).freedKeys.count key = if key ∈ s.keys then 1 else 0) ∧
        ∀ val, (hashTableFree s.table.table).freedVals.count val = if val ∈ s.vals then 1 else 0 := by
  obtain ⟨hk, hv⟩ := (ownedRun_single hp).last.free
  exact ⟨ownedRun_single hp, ownedRun_calls calls ownedCreate, hk.count_freed, hv.count_freed⟩

/-- Keys are pairs of a pointer and what it points at. -/
def pointerOps : KeyOps (Nat × Nat) := KeyOps.ofKey Prod.snd id

def replacingCalls : List (HashTableCall (Nat × Nat) Nat) :=
  [.insert (0, 5) 10, .insert (1, 5) 11, .insert (1, 5) 12, .insert (2, 5) 12, .insert (3, 37) 13,
    .remove (9, 5), .insert (4, 5) 14, .insert (4, 5) 14]

theorem objects_owned_once_replacing :
    Always ownedStep SingleOwner (ownedCreate : OwnedTable pointerOps Nat) replacingCalls :=
  (objects_owned_once pointerOps replacingCalls (by decide +kernel)).1

end

end SwitchSimulation
