import Mathlib.Data.List.Induction
import Mathlib.Data.List.Pairwise
import SwitchSimulation.HashTable

/-!
# The hash table is a finite map

`TableInv` says that every entry sits in the chain of its hash, that no two
entries have equal keys, and that `size` counts the entries. Every operation
keeps it and changes the list of entries by the entry it is about; the resize
re-inserts each entry under a new key, so the nested calls never resize.
-/

namespace SwitchSimulation

section
variable {K V : Type*} {O : KeyOps K}

theorem KeyOps.ne_symm {a b : K} (h : O.compare a b ≠ .EQ) : O.compare b a ≠ .EQ := fun e =>
  h (O.eq_symm b a e)

def Distinct (O : KeyOps K) (l : List (HashTableEntry K V)) : Prop :=
  l.Pairwise fun a b => O.compare a.key b.key ≠ .EQ

structure TableInv (O : KeyOps K) (t : HashTable K V) : Prop where
  placed : ∀ i, ∀ e ∈ t.entries i, O.hash e.key % t.capacity = i
  distinct : Distinct O (hashTableElems t)
  size_eq : t.size = (hashTableElems t).length
  size_le : t.size ≤ t.capacity
  capacity_eq : ∃ k, t.capacity = 32 * 2 ^ k

theorem TableInv.capacity_pos {t : HashTable K V} (h : TableInv O t) : 0 < t.capacity := by
  obtain ⟨k, hk⟩ := h.capacity_eq
  rw [hk]; exact Nat.mul_pos (by decide) (Nat.pow_pos (by decide))

theorem TableInv.index_lt {t : HashTable K V} (h : TableInv O t) (key : K) :
    O.hash key % t.capacity < t.capacity := Nat.mod_lt _ h.capacity_pos

theorem empty_inv {t : HashTable K V} (he : t.entries = fun _ => []) (hs : t.size = 0)
    (hc : ∃ k, t.capacity = 32 * 2 ^ k) : TableInv O t where
  placed i e h := by rw [he] at h; exact absurd h List.not_mem_nil
  distinct := by rw [hashTableElems, he, gather_nil]; exact .nil
  size_eq := by rw [hs, hashTableElems, he, gather_nil]; rfl
  size_le := by omega
  capacity_eq := hc

theorem hashTableCreate_inv : TableInv O (hashTableCreate : HashTable K V) :=
  empty_inv rfl rfl ⟨0, rfl⟩

/-! ## Lists of entries with distinct keys -/

theorem Distinct.perm {l l' : List (HashTableEntry K V)} (hp : l.Perm l') (h : Distinct O l) :
    Distinct O l' := hp.pairwise h fun hab => KeyOps.ne_symm hab

theorem Distinct.eq_of_same {l : List (HashTableEntry K V)} (h : Distinct O l) {a b : HashTableEntry K V}
    (ha : a ∈ l) (hb : b ∈ l) (hs : O.compare a.key b.key = .EQ) : a = b := by
  have hsymm : Std.Symm fun a b : HashTableEntry K V => O.compare a.key b.key ≠ .EQ :=
    ⟨fun _ _ hab => KeyOps.ne_symm hab⟩
  exact Classical.byContradiction fun hne => List.Pairwise.forall h ha hb hne hs

theorem distinct_cons {e : HashTableEntry K V} {l : List (HashTableEntry K V)} :
    Distinct O (e :: l) ↔ (∀ a ∈ l, O.compare e.key a.key ≠ .EQ) ∧ Distinct O l := List.pairwise_cons

theorem Distinct.head_new {e : HashTableEntry K V} {l es : List (HashTableEntry K V)}
    (h : Distinct O (e :: l ++ es)) : ∀ a ∈ es, O.compare e.key a.key ≠ .EQ := by
  intro a ha
  exact (distinct_cons.mp h).1 a (List.mem_append_right l ha)

theorem Distinct.move {e : HashTableEntry K V} {l es es' : List (HashTableEntry K V)}
    (h : Distinct O (e :: l ++ es)) (hp : es'.Perm (e :: es)) : Distinct O (l ++ es') :=
  h.perm (List.perm_middle.symm.trans (hp.symm.append_left l))

/-! ## Lookup -/

theorem lookupChain_none {key : K} {l : List (HashTableEntry K V)} :
    lookupChain O key l = none ↔ ∀ e ∈ l, O.compare key e.key ≠ .EQ := by
  induction l with
  | nil => simp [lookupChain]
  | cons curr next ih =>
    unfold lookupChain
    by_cases h : O.compare key curr.key = .EQ
    · simp [h]
    · simp [h, ih]

theorem lookupChain_some {key : K} {l : List (HashTableEntry K V)} {v : V}
    (h : lookupChain O key l = some v) : ∃ e ∈ l, O.compare key e.key = .EQ ∧ e.val = v := by
  induction l with
  | nil => cases h
  | cons curr next ih =>
    unfold lookupChain at h
    by_cases hc : O.compare key curr.key = .EQ
    · rw [if_pos hc] at h
      exact ⟨curr, List.mem_cons_self .., hc, Option.some.inj h⟩
    · rw [if_neg hc] at h
      obtain ⟨e, he, hs⟩ := ih h
      exact ⟨e, List.mem_cons_of_mem _ he, hs⟩

section
variable {t : HashTable K V} (hinv : TableInv O t)
include hinv

theorem mem_elems_iff {e : HashTableEntry K V} :
    e ∈ hashTableElems t ↔ e ∈ t.entries (O.hash e.key % t.capacity) := by
  rw [hashTableElems, mem_gather]
  constructor
  · intro ⟨i, _, he⟩; rwa [hinv.placed i e he]
  · intro he; exact ⟨_, hinv.index_lt _, he⟩

theorem mem_chain {key : K} {e : HashTableEntry K V} (he : e ∈ hashTableElems t)
    (hs : O.compare key e.key = .EQ) : e ∈ t.entries (O.hash key % t.capacity) := by
  rw [O.hash_eq _ _ hs]; exact (mem_elems_iff hinv).mp he

theorem elems_of_chain {key : K} {e : HashTableEntry K V} (he : e ∈ t.entries (O.hash key % t.capacity)) :
    e ∈ hashTableElems t := mem_gather.mpr ⟨_, hinv.index_lt _, he⟩

theorem lookup_none_iff {key : K} :
    hashTableLookup O t key = none ↔ ∀ e ∈ hashTableElems t, O.compare key e.key ≠ .EQ := by
  rw [hashTableLookup, lookupChain_none]
  constructor
  · intro h e he hs; exact h e (mem_chain hinv he hs) hs
  · intro h e he; exact h e (elems_of_chain hinv he)

theorem lookup_some_iff {key : K} {v : V} :
    hashTableLookup O t key = some v ↔ ∃ e ∈ hashTableElems t, O.compare key e.key = .EQ ∧ e.val = v := by
  constructor
  · intro h
    obtain ⟨e, he, hs⟩ := lookupChain_some h
    exact ⟨e, elems_of_chain hinv he, hs⟩
  · rintro ⟨e, he, hs, rfl⟩
    cases hl : hashTableLookup O t key with
    | none => exact absurd hs ((lookup_none_iff hinv).mp hl e he)
    | some w =>
      obtain ⟨e', he', hs', rfl⟩ := lookupChain_some hl
      have hsame := O.eq_trans _ _ _ (O.eq_symm _ _ hs) hs'
      rw [hinv.distinct.eq_of_same he (elems_of_chain hinv he') hsame]

end

theorem lookup_congr {t t' : HashTable K V} (h : TableInv O t) (h' : TableInv O t') {key : K}
    (he : ∀ e, O.compare key e.key = .EQ → (e ∈ hashTableElems t ↔ e ∈ hashTableElems t')) :
    hashTableLookup O t key = hashTableLookup O t' key := by
  apply Option.ext
  intro v
  rw [lookup_some_iff h, lookup_some_iff h']
  constructor
  · intro ⟨e, hm, hs, hv⟩; exact ⟨e, (he e hs).mp hm, hs, hv⟩
  · intro ⟨e, hm, hs, hv⟩; exact ⟨e, (he e hs).mpr hm, hs, hv⟩

theorem hashTableDouble_inv {t : HashTable K V} (hinv : TableInv O t) : TableInv O (hashTableDouble t) := by
  obtain ⟨k, hk⟩ := hinv.capacity_eq
  have hc : 2 * t.capacity = 32 * 2 ^ (k + 1) := by rw [hk, Nat.pow_succ]; omega
  exact empty_inv rfl rfl ⟨k + 1, hc⟩

theorem TableInv.placed_update {t : HashTable K V} (hinv : TableInv O t) {i : Nat}
    {chain : List (HashTableEntry K V)} (hc : ∀ e ∈ chain, e ∈ t.entries i ∨ O.hash e.key % t.capacity = i) :
    ∀ j, ∀ e ∈ Function.update t.entries i chain j, O.hash e.key % t.capacity = j := by
  intro j e he
  by_cases hj : j = i
  · subst hj
    rw [Function.update_self] at he
    exact (hc e he).elim (hinv.placed j e) id
  · rw [Function.update_of_ne hj] at he
    exact hinv.placed j e he

/-! ## Appending an entry -/

section
variable {t : HashTable K V} (hinv : TableInv O t) {key : K}
include hinv

theorem append_elems (value : V) :
    (hashTableElems (hashTableAppend O t key value)).Perm (⟨key, value⟩ :: hashTableElems t) :=
  gather_add (hinv.index_lt key) (List.perm_append_singleton _ _)

theorem append_inv (hnew : ∀ e ∈ hashTableElems t, O.compare key e.key ≠ .EQ)
    (hroom : t.size + 1 ≤ t.capacity) (value : V) : TableInv O (hashTableAppend O t key value) where
  placed := by
    apply hinv.placed_update
    intro e he
    cases List.mem_append.mp he with
    | inl he => exact Or.inl he
    | inr he => rw [List.mem_singleton.mp he]; exact Or.inr rfl
  distinct := (distinct_cons.mpr ⟨hnew, hinv.distinct⟩).perm (append_elems hinv value).symm
  size_eq := by
    rw [(append_elems hinv value).length_eq, List.length_cons, ← hinv.size_eq]
    rfl
  size_le := hroom
  capacity_eq := hinv.capacity_eq

end

/-- The first of the entries to insert is new and has room, and the table that
takes it can take the others. -/
theorem append_next {t : HashTable K V} (hinv : TableInv O t) {e : HashTableEntry K V}
    {l : List (HashTableEntry K V)} (hd : Distinct O (e :: l ++ hashTableElems t))
    (hroom : t.size + (e :: l).length ≤ t.capacity) :
    (∀ a ∈ hashTableElems t, O.compare e.key a.key ≠ .EQ) ∧ t.size + 1 ≤ t.capacity ∧
      TableInv O (hashTableAppend O t e.key e.val) ∧
      Distinct O (l ++ hashTableElems (hashTableAppend O t e.key e.val)) ∧
      (hashTableAppend O t e.key e.val).size + l.length ≤ (hashTableAppend O t e.key e.val).capacity := by
  rw [List.length_cons] at hroom
  have hnew := hd.head_new
  refine ⟨hnew, by omega, append_inv hinv hnew (by omega) e.val, hd.move (append_elems hinv e.val), ?_⟩
  simp only [hashTableAppend]
  omega

/-! ## Removing an entry -/

theorem removeChain_none {key : K} {before l : List (HashTableEntry K V)}
    (h : removeChain O key before l = none) : ∀ e ∈ l, O.compare key e.key ≠ .EQ := by
  induction l generalizing before with
  | nil => simp
  | cons curr next ih =>
    unfold removeChain at h
    by_cases hc : O.compare key curr.key = .EQ
    · simp [hc] at h
    · rw [if_neg hc] at h
      exact List.forall_mem_cons.mpr ⟨hc, ih h⟩

/-- The chain keeps its order and loses the matching entry. At the last entry
`ptr` stays behind, which shows only if there is no match. -/
theorem removeChain_some {key : K} {before l chain : List (HashTableEntry K V)} {curr : HashTableEntry K V}
    (h : removeChain O key before l = some (chain, curr)) :
    O.compare key curr.key = .EQ ∧ ∃ l₁ l₂, l = l₁ ++ curr :: l₂ ∧ chain = before ++ (l₁ ++ l₂) := by
  induction l generalizing before with
  | nil => cases h
  | cons e next ih =>
    unfold removeChain at h
    by_cases hc : O.compare key e.key = .EQ
    · rw [if_pos hc, Option.some.injEq, Prod.mk.injEq] at h
      obtain ⟨rfl, rfl⟩ := h
      exact ⟨hc, [], next, rfl, rfl⟩
    · rw [if_neg hc] at h
      obtain ⟨hs, l₁, l₂, rfl, rfl⟩ := ih h
      exact ⟨hs, e :: l₁, l₂, rfl, by simp⟩

theorem unlink_spec {t : HashTable K V} (hinv : TableInv O t) {i : Nat} (hi : i < t.capacity)
    {l₁ l₂ : List (HashTableEntry K V)} {curr : HashTableEntry K V} (hl : t.entries i = l₁ ++ curr :: l₂) :
    TableInv O (hashTableUnlink t i (l₁ ++ l₂) curr) ∧
      (hashTableElems t).Perm (curr :: hashTableElems (hashTableUnlink t i (l₁ ++ l₂) curr)) := by
  have hp : (hashTableElems t).Perm (curr :: hashTableElems (hashTableUnlink t i (l₁ ++ l₂) curr)) :=
    gather_sub hi (by rw [hl]; exact List.perm_middle)
  have hlen := hp.length_eq
  have hle := hinv.size_le
  rw [List.length_cons, ← hinv.size_eq] at hlen
  refine ⟨⟨?_, (distinct_cons.mp (hinv.distinct.perm hp)).2, ?_, ?_, hinv.capacity_eq⟩, hp⟩
  · apply hinv.placed_update
    intro e he
    rw [hl]
    simp only [List.mem_append, List.mem_cons] at he ⊢
    exact Or.inl (he.elim Or.inl fun h => Or.inr (Or.inr h))
  · simp only [hashTableUnlink] at hlen ⊢
    omega
  · simp only [hashTableUnlink]
    omega

theorem hashTableRemove_spec {t : HashTable K V} (hinv : TableInv O t) (key : K) :
    TableInv O (hashTableRemove O t key) ∧
      ((hashTableRemove O t key = t ∧ ∀ e ∈ hashTableElems t, O.compare key e.key ≠ .EQ) ∨
        ∃ e, O.compare key e.key = .EQ ∧
          (hashTableElems t).Perm (e :: hashTableElems (hashTableRemove O t key)) ∧
          (hashTableRemove O t key).freedKeys = t.freedKeys ++ [e.key] ∧
          (hashTableRemove O t key).freedVals = t.freedVals ++ [e.val]) := by
  unfold hashTableRemove
  cases hr : removeChain O key [] (t.entries (O.hash key % t.capacity)) with
  | none =>
    refine ⟨hinv, Or.inl ⟨rfl, fun e he hs => ?_⟩⟩
    exact removeChain_none hr e (mem_chain hinv he hs) hs
  | some r =>
    obtain ⟨chain, curr⟩ := r
    obtain ⟨hs, l₁, l₂, hl, rfl⟩ := removeChain_some hr
    obtain ⟨hi, hp⟩ := unlink_spec hinv (hinv.index_lt key) hl
    exact ⟨hi, Or.inr ⟨curr, hs, hp, rfl, rfl⟩⟩

/-! ## Updating an entry -/

section
variable [DecidableEq K] [DecidableEq V]

theorem updateChain_spec {key : K} (value : V) {l : List (HashTableEntry K V)}
    (h : ∃ e ∈ l, O.compare key e.key = .EQ) :
    ∃ e l₁ l₂, O.compare key e.key = .EQ ∧ l = l₁ ++ e :: l₂ ∧
      updateChain O key value l = (l₁ ++ ⟨key, value⟩ :: l₂, if e.key ≠ key then [e.key] else [],
        if e.val ≠ value then [e.val] else []) := by
  induction l with
  | nil => obtain ⟨e, he, -⟩ := h; cases he
  | cons curr next ih =>
    unfold updateChain
    by_cases hc : O.compare key curr.key = .EQ
    · rw [if_pos hc]
      exact ⟨curr, [], next, hc, rfl, rfl⟩
    · rw [if_neg hc]
      obtain ⟨e, he, hs⟩ := h
      have hn : ∃ e ∈ next, O.compare key e.key = .EQ := by
        rcases List.mem_cons.mp he with rfl | he
        · exact absurd hs hc
        · exact ⟨e, he, hs⟩
      obtain ⟨e, l₁, l₂, hs, rfl, hu⟩ := ih hn
      exact ⟨e, curr :: l₁, l₂, hs, rfl, by simp only [hu]; rfl⟩

theorem hashTableUpdate_spec {t : HashTable K V} (hinv : TableInv O t) {key : K} (value : V)
    (h : ∃ e ∈ hashTableElems t, O.compare key e.key = .EQ) :
    TableInv O (hashTableUpdate O t key value) ∧ ∃ e rest, O.compare key e.key = .EQ ∧
      (hashTableElems t).Perm (e :: rest) ∧
      (hashTableElems (hashTableUpdate O t key value)).Perm (⟨key, value⟩ :: rest) ∧
      (hashTableUpdate O t key value).freedKeys = t.freedKeys ++ (if e.key ≠ key then [e.key] else []) ∧
      (hashTableUpdate O t key value).freedVals = t.freedVals ++ if e.val ≠ value then [e.val] else [] := by
  obtain ⟨e₀, he₀, hs₀⟩ := h
  obtain ⟨e, l₁, l₂, hs, hl, hu⟩ := updateChain_spec value ⟨e₀, mem_chain hinv he₀ hs₀, hs₀⟩
  have hi := hinv.index_lt key
  -- both tables are the table without the chain's entry `e`, plus one entry
  let rest := gather t.capacity (Function.update t.entries (O.hash key % t.capacity) (l₁ ++ l₂))
  have hold : (hashTableElems t).Perm (e :: rest) :=
    gather_sub hi (by rw [hl]; exact List.perm_middle)
  have hnew : (hashTableElems (hashTableUpdate O t key value)).Perm (⟨key, value⟩ :: rest) := by
    simp only [hashTableElems, hashTableUpdate, hu]
    have := gather_add (f := Function.update t.entries (O.hash key % t.capacity) (l₁ ++ l₂)) hi
      (l := l₁ ++ ⟨key, value⟩ :: l₂) (x := ⟨key, value⟩) (by rw [Function.update_self]; exact List.perm_middle)
    rwa [Function.update_idem] at this
  refine ⟨⟨?_, ?_, ?_, hinv.size_le, hinv.capacity_eq⟩, e, rest, hs, hold, hnew, ?_, ?_⟩
  · apply hinv.placed_update
    intro a ha
    rw [hu] at ha
    rw [hl]
    simp only [List.mem_append, List.mem_cons] at ha ⊢
    rcases ha with ha | rfl | ha
    · exact Or.inl (Or.inl ha)
    · exact Or.inr rfl
    · exact Or.inl (Or.inr (Or.inr ha))
  · have hd := distinct_cons.mp (hinv.distinct.perm hold)
    refine (distinct_cons.mpr ⟨fun a ha hka => hd.1 a ha ?_, hd.2⟩).perm hnew.symm
    exact O.eq_trans _ _ _ (O.eq_symm _ _ hs) hka
  · rw [hnew.length_eq, List.length_cons, ← List.length_cons (a := e), ← hold.length_eq, ← hinv.size_eq]
    rfl
  · simp only [hashTableUpdate, hu]
  · simp only [hashTableUpdate, hu]

/-! ## Insert and its resize -/

theorem insertAux_new {t : HashTable K V} (hinv : TableInv O t) {key : K} {value : V}
    (hnew : ∀ e ∈ hashTableElems t, O.compare key e.key ≠ .EQ) (hroom : t.size + 1 ≤ t.capacity)
    (depth : Nat) : hashTableInsertAux O (depth + 1) t key value = some (hashTableAppend O t key value) := by
  unfold hashTableInsertAux
  rw [(lookup_none_iff hinv).mpr hnew, if_neg (by simp), if_neg (by omega)]

theorem insertAux_full {t : HashTable K V} (hinv : TableInv O t) {key : K}
    (hnew : ∀ e ∈ hashTableElems t, O.compare key e.key ≠ .EQ) (hfull : t.size + 1 > t.capacity) (value : V)
    (depth : Nat) : hashTableInsertAux O (depth + 1) t key value =
      ((hashTableElems t).foldlM (fun t' e => hashTableInsertAux O depth t' e.key e.val)
        (hashTableDouble t)).map fun t' => hashTableAppend O t' key value := by
  rw [hashTableInsertAux, (lookup_none_iff hinv).mpr hnew, if_neg (by simp), if_pos hfull]

theorem reinsert_spec : ∀ (l : List (HashTableEntry K V)) (t : HashTable K V), TableInv O t →
    Distinct O (l ++ hashTableElems t) → t.size + l.length ≤ t.capacity →
    ∃ t', (∀ depth, l.foldlM (fun t' e => hashTableInsertAux O (depth + 1) t' e.key e.val) t = some t') ∧
      TableInv O t' ∧ (hashTableElems t').Perm (l ++ hashTableElems t) ∧ t'.capacity = t.capacity ∧
      t'.freedKeys = t.freedKeys ∧ t'.freedVals = t.freedVals
  | [], t, hinv, _, _ => ⟨t, fun _ => rfl, hinv, .refl _, rfl, rfl, rfl⟩
  | e :: l, t, hinv, hd, hroom => by
    obtain ⟨hnew, hone, hinv', hd', hroom'⟩ := append_next hinv hd hroom
    have hp : (hashTableElems (hashTableAppend O t e.key e.val)).Perm _ := append_elems hinv e.val
    obtain ⟨t', hr, hi, helems, hcap, hk, hv⟩ := reinsert_spec l _ hinv' hd' hroom'
    refine ⟨t', fun depth => ?_, hi, helems.trans ((hp.append_left l).trans List.perm_middle), hcap, hk, hv⟩
    rw [List.foldlM_cons, insertAux_new hinv hnew hone]
    exact hr depth

theorem reinsert_part {t : HashTable K V} (hinv : TableInv O t) {l rest : List (HashTableEntry K V)}
    (hl : hashTableElems t = l ++ rest) :
    ∃ t', (∀ depth, l.foldlM (fun t' e => hashTableInsertAux O (depth + 1) t' e.key e.val)
        (hashTableDouble t) = some t') ∧
      TableInv O t' ∧ (hashTableElems t').Perm l ∧ t'.capacity = 2 * t.capacity ∧
      t'.freedKeys = t.freedKeys ∧ t'.freedVals = t.freedVals := by
  have hnil : hashTableElems (hashTableDouble t) = [] := gather_nil _
  have hlen := hinv.size_eq
  have hle := hinv.size_le
  have hd := hinv.distinct
  rw [hl] at hlen hd
  rw [List.length_append] at hlen
  obtain ⟨t', hr, hi, helems, hlogs⟩ := reinsert_spec l (hashTableDouble t) (hashTableDouble_inv hinv)
    (by rw [hnil, List.append_nil]; exact (List.pairwise_append.mp hd).1)
    (by simp only [hashTableDouble]; omega)
  rw [hnil, List.append_nil] at helems
  exact ⟨t', hr, hi, helems, hlogs⟩

theorem insert_new_spec {t : HashTable K V} (hinv : TableInv O t) {key : K}
    (hnew : ∀ e ∈ hashTableElems t, O.compare key e.key ≠ .EQ) (value : V) :
    ∃ t', (∀ depth, hashTableInsertAux O (depth + 2) t key value = some t') ∧ TableInv O t' ∧
      (hashTableElems t').Perm (⟨key, value⟩ :: hashTableElems t) ∧
      t'.capacity = (if t.size + 1 > t.capacity then 2 * t.capacity else t.capacity) ∧
      t'.freedKeys = t.freedKeys ∧ t'.freedVals = t.freedVals := by
  by_cases hfull : t.size + 1 > t.capacity
  · obtain ⟨t', hr, hi, helems, hcap, hk, hv⟩ := reinsert_part hinv (List.append_nil _).symm
    have hnew' : ∀ e ∈ hashTableElems t', O.compare key e.key ≠ .EQ := by
      intro e he
      exact hnew e (helems.mem_iff.mp he)
    have hroom : t'.size + 1 ≤ t'.capacity := by
      have hc := hinv.capacity_pos
      have hle := hinv.size_le
      rw [hi.size_eq, helems.length_eq, ← hinv.size_eq, hcap]
      omega
    refine ⟨hashTableAppend O t' key value, fun depth => ?_, append_inv hi hnew' hroom value,
      (append_elems hi value).trans (helems.cons _), ?_, hk, hv⟩
    · rw [insertAux_full hinv hnew hfull, hr]
      rfl
    · rw [if_pos hfull, ← hcap]
      rfl
  · exact ⟨_, fun depth => insertAux_new hinv hnew (by omega) _, append_inv hinv hnew (by omega) value,
      append_elems hinv value, (if_neg hfull).symm, rfl, rfl⟩

theorem insertAux_old {t : HashTable K V} (hinv : TableInv O t) {key : K}
    (hold : ∃ e ∈ hashTableElems t, O.compare key e.key = .EQ) (value : V) (depth : Nat) :
    hashTableInsertAux O (depth + 1) t key value = some (hashTableUpdate O t key value) := by
  obtain ⟨e, he, hs⟩ := hold
  unfold hashTableInsertAux
  rw [(lookup_some_iff hinv).mpr ⟨e, he, hs, rfl⟩]
  exact if_pos rfl

/-- Insert has a result, keeps the invariant, and either replaces the entry
with an equal key or adds an entry. -/
theorem hashTableInsert_spec {t : HashTable K V} (hinv : TableInv O t) (key : K) (value : V) :
    ∃ t', hashTableInsert O t key value = some t' ∧ TableInv O t' ∧
      ∃ rest, (hashTableElems t').Perm (⟨key, value⟩ :: rest) ∧
        ((hashTableElems t).Perm rest ∧ (∀ e ∈ rest, O.compare key e.key ≠ .EQ) ∨
          ∃ e, O.compare key e.key = .EQ ∧ (hashTableElems t).Perm (e :: rest)) := by
  by_cases hold : ∃ e ∈ hashTableElems t, O.compare key e.key = .EQ
  · obtain ⟨hi, e, rest, hs, hp, hp', -⟩ := hashTableUpdate_spec hinv value hold
    exact ⟨_, insertAux_old hinv hold value 1, hi, rest, hp', Or.inr ⟨e, hs, hp⟩⟩
  · have hnew : ∀ e ∈ hashTableElems t, O.compare key e.key ≠ .EQ := fun e he hs => hold ⟨e, he, hs⟩
    obtain ⟨t', ht, hi, hp, -⟩ := insert_new_spec hinv hnew value
    exact ⟨t', ht 0, hi, _, hp, Or.inl ⟨.refl _, hnew⟩⟩

/-! ## Lookups after a call -/

theorem lookup_insert {t t' : HashTable K V} (hinv : TableInv O t) {key : K} {value : V}
    (h : hashTableInsert O t key value = some t') (k : K) :
    hashTableLookup O t' k = if O.compare k key = .EQ then some value else hashTableLookup O t k := by
  obtain ⟨_, ht, hinv', rest, hnew, hold⟩ := hashTableInsert_spec hinv key value
  obtain rfl := Option.some.inj (ht.symm.trans h)
  by_cases hk : O.compare k key = .EQ
  · rw [if_pos hk]
    exact (lookup_some_iff hinv').mpr ⟨_, hnew.mem_iff.mpr (List.mem_cons_self ..), hk, rfl⟩
  · rw [if_neg hk]
    apply lookup_congr hinv' hinv
    intro e he
    rw [hnew.mem_iff, List.mem_cons, or_iff_right fun h => hk (by rw [h] at he; exact he)]
    rcases hold with ⟨hold, -⟩ | ⟨e', hs, hold⟩
    · exact hold.mem_iff.symm
    · -- the entry that was replaced is not one that `k` looks for
      have hne : e ≠ e' := fun h => hk (O.eq_trans _ _ _ (by rwa [h] at he) (O.eq_symm _ _ hs))
      rw [hold.mem_iff, List.mem_cons, or_iff_right hne]

end

theorem lookup_remove {t : HashTable K V} (hinv : TableInv O t) (key k : K) :
    hashTableLookup O (hashTableRemove O t key) k =
      if O.compare k key = .EQ then none else hashTableLookup O t k := by
  obtain ⟨hinv', ⟨hsame, habsent⟩ | ⟨e', hs, hp, -⟩⟩ := hashTableRemove_spec hinv key
  · rw [hsame]
    split
    · next hk =>
      exact (lookup_none_iff hinv).mpr fun e he hke => habsent e he (O.eq_trans _ _ _ (O.eq_symm _ _ hk) hke)
    · rfl
  · have hd := distinct_cons.mp (hinv.distinct.perm hp)
    split
    · next hk =>
      refine (lookup_none_iff hinv').mpr fun e he hke => hd.1 e he ?_
      exact O.eq_trans _ _ _ (O.eq_symm _ _ (O.eq_trans _ _ _ hk hs)) hke
    · next hk =>
      apply lookup_congr hinv' hinv
      intro e he
      have hne : e ≠ e' := fun h => hk (O.eq_trans _ _ _ (by rwa [h] at he) (O.eq_symm _ _ hs))
      rw [hp.mem_iff, List.mem_cons, or_iff_right hne]

/-! ## Runs of calls -/

def HashTableCall.key : HashTableCall K V → K
  | .insert key _ => key
  | .remove key => key

def HashTableCall.written : HashTableCall K V → Option V
  | .insert _ value => some value
  | .remove _ => none

/-- The finite map: what the last call about `k` left there, if there is one. -/
def lastWritten (O : KeyOps K) (calls : List (HashTableCall K V)) (k : K) : Option V :=
  (calls.reverse.find? fun c => O.compare k c.key = .EQ).bind HashTableCall.written

theorem lastWritten_concat (calls : List (HashTableCall K V)) (c : HashTableCall K V) (k : K) :
    lastWritten O (calls ++ [c]) k = if O.compare k c.key = .EQ then c.written else lastWritten O calls k := by
  unfold lastWritten
  rw [List.reverse_concat, List.find?_cons]
  split <;> simp_all

section
variable [DecidableEq K] [DecidableEq V]

theorem hashTableCall_spec {t : HashTable K V} (hinv : TableInv O t) (c : HashTableCall K V) :
    ∃ t', hashTableCall O t c = some t' ∧ TableInv O t' ∧
      ∀ k, hashTableLookup O t' k = if O.compare k c.key = .EQ then c.written else hashTableLookup O t k := by
  cases c with
  | insert key value =>
    obtain ⟨t', ht, hinv', -⟩ := hashTableInsert_spec hinv key value
    exact ⟨t', ht, hinv', lookup_insert hinv ht⟩
  | remove key => exact ⟨_, rfl, (hashTableRemove_spec hinv key).1, lookup_remove hinv key⟩

theorem hashTableRun_spec (O : KeyOps K) (calls : List (HashTableCall K V)) :
    ∃ t, hashTableRun O calls = some t ∧ TableInv O t ∧
      ∀ k, hashTableLookup O t k = lastWritten O calls k := by
  induction calls using List.reverseRecOn with
  | nil =>
    exact ⟨_, rfl, hashTableCreate_inv, fun k => rfl⟩
  | append_singleton calls c ih =>
    obtain ⟨t, hrun, hinv, hlookup⟩ := ih
    obtain ⟨t', hcall, hinv', hlookup'⟩ := hashTableCall_spec hinv c
    refine ⟨t', ?_, hinv', fun k => ?_⟩
    · rw [hashTableRun] at hrun ⊢
      rw [List.foldlM_append, hrun]
      simpa using hcall
    · rw [hlookup', lastWritten_concat, hlookup]

/-- Every run of calls has a result, which finds under each key what was last written there. -/
theorem hash_table_is_map (O : KeyOps K) (calls : List (HashTableCall K V)) :
    ∃ t, hashTableRun O calls = some t ∧ ∀ k, hashTableLookup O t k = lastWritten O calls k := by
  obtain ⟨t, hrun, -, hlookup⟩ := hashTableRun_spec O calls
  exact ⟨t, hrun, hlookup⟩

end

/-! ## Tables with their invariant -/

/-- A table that a run of calls can have built; its operations are total. -/
structure LawfulTable (O : KeyOps K) (V : Type*) where
  table : HashTable K V
  inv : TableInv O table

namespace LawfulTable

def create : LawfulTable O V := ⟨hashTableCreate, hashTableCreate_inv⟩

def lookup (t : LawfulTable O V) (key : K) : Option V := hashTableLookup O t.table key

def remove (t : LawfulTable O V) (key : K) : LawfulTable O V :=
  ⟨hashTableRemove O t.table key, (hashTableRemove_spec t.inv key).1⟩

theorem lookup_remove (t : LawfulTable O V) (key k : K) :
    (t.remove key).lookup k = if O.compare k key = .EQ then none else t.lookup k :=
  SwitchSimulation.lookup_remove t.inv key k

variable [DecidableEq K] [DecidableEq V]

theorem insert_isSome (t : LawfulTable O V) (key : K) (value : V) :
    (hashTableInsert O t.table key value).isSome := by
  obtain ⟨_, ht, -⟩ := hashTableInsert_spec t.inv key value
  rw [ht]; rfl

theorem inv_of_insert (t : LawfulTable O V) {key : K} {value : V} {t' : HashTable K V}
    (h : hashTableInsert O t.table key value = some t') : TableInv O t' := by
  obtain ⟨_, ht, hinv, -⟩ := hashTableInsert_spec t.inv key value
  obtain rfl := Option.some.inj (ht.symm.trans h)
  exact hinv

def insert (t : LawfulTable O V) (key : K) (value : V) : LawfulTable O V :=
  ⟨(hashTableInsert O t.table key value).get (insert_isSome t key value),
    inv_of_insert t (Option.some_get _).symm⟩

theorem lookup_insert (t : LawfulTable O V) (key k : K) (value : V) :
    (t.insert key value).lookup k = if O.compare k key = .EQ then some value else t.lookup k :=
  SwitchSimulation.lookup_insert t.inv (Option.some_get _).symm k

end LawfulTable

end

end SwitchSimulation
