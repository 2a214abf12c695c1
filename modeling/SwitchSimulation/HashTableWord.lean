import SwitchSimulation.Doubling
import SwitchSimulation.HashTableMap

/-!
# The hash table with 32-bit sizes

`hash_table.c` keeps `size` and `capacity` in `unsigned int`, here `BitVec 32`,
and takes every hash modulo the capacity, which is a fault if the capacity is
zero. While inserts of new keys find fewer than `2 ^ 31` entries the table
agrees with the one with natural numbers, `wide`; the next resize wraps the
capacity to zero, and its first nested insert faults.
-/

namespace SwitchSimulation

/-- `depth` is the nesting bound of the model, which no call reaches. -/
inductive Fault
  | moduloZero
  | depth
  deriving DecidableEq

structure HashTable32 (K V : Type*) where
  entries : Nat → List (HashTableEntry K V)
  size : BitVec 32
  capacity : BitVec 32
  freedKeys : List K
  freedVals : List V

section
variable {K V : Type*}

def HashTable32.wide (t : HashTable32 K V) : HashTable K V :=
  ⟨t.entries, t.size.toNat, t.capacity.toNat, t.freedKeys, t.freedVals⟩

def hashTableCreate32 : HashTable32 K V := ⟨fun _ => [], 0, BitVec.ofNat 32 hashTableDefaultCapacity, [], []⟩

/-- `hash % capacity`. On a 32-bit hash the remainder is that of `unsigned int`. -/
def hashIndex (hash : Nat) (capacity : BitVec 32) : Except Fault Nat :=
  if capacity = 0 then .error .moduloZero else .ok (hash % capacity.toNat)

/-- `hash_table_size` returns the `unsigned int` as an `int`. -/
def hashTableSize32 (t : HashTable32 K V) : Int := t.size.toInt

variable (O : KeyOps K)

def hashTableLookup32 (t : HashTable32 K V) (key : K) : Except Fault (Option V) :=
  (hashIndex (O.hash key) t.capacity).map fun hash => lookupChain O key (t.entries hash)

def hashTableAppend32 (t : HashTable32 K V) (key : K) (value : V) : Except Fault (HashTable32 K V) :=
  (hashIndex (O.hash key) t.capacity).map fun hash =>
    { t with
      size := t.size + 1
      entries := Function.update t.entries hash (t.entries hash ++ [⟨key, value⟩]) }

def hashTableDouble32 (t : HashTable32 K V) : HashTable32 K V :=
  { t with entries := fun _ => [], size := 0, capacity := 2 * t.capacity }

/-- The counters of the copying loops are `int`. They stay in range up to a
capacity of `2 ^ 30`; from `2 ^ 31` on the next modulo faults however they wrap. -/
def hashTableElems32 (t : HashTable32 K V) : List (HashTableEntry K V) := gather t.capacity.toNat t.entries

def hashTableUnlink32 (t : HashTable32 K V) (hash : Nat) (chain : List (HashTableEntry K V))
    (curr : HashTableEntry K V) : HashTable32 K V :=
  { t with
    entries := Function.update t.entries hash chain
    size := t.size - 1
    freedKeys := t.freedKeys ++ [curr.key]
    freedVals := t.freedVals ++ [curr.val] }

def hashTableRemove32 (t : HashTable32 K V) (key : K) : Except Fault (HashTable32 K V) :=
  (hashIndex (O.hash key) t.capacity).map fun hash =>
    match removeChain O key [] (t.entries hash) with
    | none => t
    | some (chain, curr) => hashTableUnlink32 t hash chain curr

variable [DecidableEq K] [DecidableEq V]

def hashTableUpdate32 (t : HashTable32 K V) (key : K) (value : V) : Except Fault (HashTable32 K V) :=
  (hashIndex (O.hash key) t.capacity).map fun hash =>
    let r := updateChain O key value (t.entries hash)
    { t with
      entries := Function.update t.entries hash r.1
      freedKeys := t.freedKeys ++ r.2.1
      freedVals := t.freedVals ++ r.2.2 }

def hashTableInsertAux32 : Nat → HashTable32 K V → K → V → Except Fault (HashTable32 K V)
  | 0, _, _, _ => .error .depth
  | depth + 1, t, key, value =>
    (hashTableLookup32 O t key).bind fun found =>
      if found.isSome then hashTableUpdate32 O t key value
      else if t.size + 1 > t.capacity then
        ((hashTableElems32 t).foldlM (fun t' e => hashTableInsertAux32 depth t' e.key e.val)
          (hashTableDouble32 t)).bind fun t' => hashTableAppend32 O t' key value
      else hashTableAppend32 O t key value

def hashTableInsert32 (t : HashTable32 K V) (key : K) (value : V) : Except Fault (HashTable32 K V) :=
  hashTableInsertAux32 O 2 t key value

inductive HashTableRequest (K V : Type*)
  | insert (key : K) (value : V)
  | lookup (key : K)
  | remove (key : K)

def settle (t : HashTable32 K V) : Except Fault (HashTable32 K V) → HashTable32 K V × Except Fault (Option V)
  | .ok t' => (t', .ok none)
  | .error fault => (t, .error fault)

/-- A fault is the end of the program; the table of the last call is kept. -/
def hashTableStep32 (t : HashTable32 K V) : HashTableRequest K V → HashTable32 K V × Except Fault (Option V)
  | .insert key value => settle t (hashTableInsert32 O t key value)
  | .lookup key => (t, hashTableLookup32 O t key)
  | .remove key => settle t (hashTableRemove32 O t key)

end

/-! ## Agreement with the wide table -/

section
variable {K V : Type*} {O : KeyOps K}

def Agrees (r : Except Fault (HashTable32 K V)) (t : HashTable K V) : Prop := ∃ t', r = .ok t' ∧ t'.wide = t

theorem hashTableCreate32_inv : TableInv O (hashTableCreate32 : HashTable32 K V).wide := hashTableCreate_inv

theorem double32_wide {t : HashTable32 K V} (hlt : t.capacity.toNat < 2 ^ 31) :
    (hashTableDouble32 t).wide = hashTableDouble t.wide := by
  have hexact : (2 * t.capacity).toNat = 2 * t.capacity.toNat := double_exact (by decide) hlt
  simp only [HashTable32.wide, hashTableDouble32, hashTableDouble, hexact]
  rfl

section
variable {t : HashTable32 K V} (hinv : TableInv O t.wide)
include hinv

theorem TableInv.roomy : Roomy t.size t.capacity := by
  obtain ⟨k, hk⟩ := hinv.capacity_eq
  exact ⟨⟨k + 5, by rw [Nat.pow_add, Nat.mul_comm]; exact hk⟩, hinv.size_le⟩

theorem hashIndex_eq (hash : Nat) : hashIndex hash t.capacity = .ok (hash % t.wide.capacity) := by
  have hne : t.capacity ≠ 0 := by
    intro h0
    have hpos := hinv.capacity_pos
    rw [HashTable32.wide, h0] at hpos
    exact absurd hpos (Nat.lt_irrefl 0)
  exact if_neg hne

theorem lookup32_eq (key : K) : hashTableLookup32 O t key = .ok (hashTableLookup O t.wide key) := by
  unfold hashTableLookup32
  rw [hashIndex_eq hinv]
  rfl

theorem append32_agrees (key : K) (value : V) :
    Agrees (hashTableAppend32 O t key value) (hashTableAppend O t.wide key value) := by
  unfold hashTableAppend32
  rw [hashIndex_eq hinv]
  refine ⟨_, rfl, ?_⟩
  simp only [HashTable32.wide, hashTableAppend, hinv.roomy.succ_toNat (by decide)]

theorem unlink32_wide {i : Nat} {curr : HashTableEntry K V} (hmem : curr ∈ hashTableElems t.wide)
    (chain : List (HashTableEntry K V)) :
    (hashTableUnlink32 t i chain curr).wide = hashTableUnlink t.wide i chain curr := by
  have hsize : t.size.toNat = (hashTableElems t.wide).length := hinv.size_eq
  have hpos : 0 < t.size.toNat := by
    rw [hsize]
    exact List.length_pos_of_mem hmem
  simp only [HashTable32.wide, hashTableUnlink32, hashTableUnlink, pred_toNat (by decide) hpos]

theorem remove32_agrees (key : K) : Agrees (hashTableRemove32 O t key) (hashTableRemove O t.wide key) := by
  unfold hashTableRemove32
  rw [hashIndex_eq hinv]
  refine ⟨_, rfl, ?_⟩
  let i := O.hash key % t.wide.capacity
  show HashTable32.wide (match removeChain O key [] (t.wide.entries i) with
    | none => t
    | some (chain, curr) => hashTableUnlink32 t i chain curr) = _
  unfold hashTableRemove
  cases hr : removeChain O key [] (t.wide.entries i) with
  | none => rfl
  | some r =>
    obtain ⟨chain, curr⟩ := r
    obtain ⟨-, l₁, l₂, hl, -⟩ := removeChain_some hr
    have hmem : curr ∈ t.wide.entries i := by
      rw [hl]
      exact List.mem_append_right _ (List.mem_cons_self ..)
    exact unlink32_wide hinv (elems_of_chain hinv hmem) chain

theorem full32_iff : t.size + 1 > t.capacity ↔ t.wide.size + 1 > t.wide.capacity := by
  have hle : t.size.toNat ≤ t.capacity.toNat := hinv.size_le
  rw [hinv.roomy.full_iff (by decide)]
  show t.size.toNat = t.capacity.toNat ↔ t.size.toNat + 1 > t.capacity.toNat
  omega

variable [DecidableEq K] [DecidableEq V]

theorem update32_agrees (key : K) (value : V) :
    Agrees (hashTableUpdate32 O t key value) (hashTableUpdate O t.wide key value) := by
  unfold hashTableUpdate32
  rw [hashIndex_eq hinv]
  exact ⟨_, rfl, rfl⟩

/-! ## Insert and its resize -/

theorem insertAux32_old {key : K} (hold : ∃ e ∈ hashTableElems t.wide, O.compare key e.key = .EQ) (value : V)
    (depth : Nat) : hashTableInsertAux32 O (depth + 1) t key value = hashTableUpdate32 O t key value := by
  obtain ⟨e, he, hs⟩ := hold
  rw [hashTableInsertAux32, lookup32_eq hinv, (lookup_some_iff hinv).mpr ⟨e, he, hs, rfl⟩]
  rfl

section
variable {key : K} (hnew : ∀ e ∈ hashTableElems t.wide, O.compare key e.key ≠ .EQ) (value : V) (depth : Nat)
include hnew

theorem insertAux32_new (hroom : t.wide.size + 1 ≤ t.wide.capacity) :
    hashTableInsertAux32 O (depth + 1) t key value = hashTableAppend32 O t key value := by
  have hfull : ¬ t.size + 1 > t.capacity := mt (full32_iff hinv).mp (by omega)
  rw [hashTableInsertAux32, lookup32_eq hinv, (lookup_none_iff hinv).mpr hnew]
  exact if_neg hfull

theorem insertAux32_full (hfull : t.wide.size + 1 > t.wide.capacity) :
    hashTableInsertAux32 O (depth + 1) t key value =
      ((hashTableElems32 t).foldlM (fun t' e => hashTableInsertAux32 O depth t' e.key e.val)
        (hashTableDouble32 t)).bind fun t' => hashTableAppend32 O t' key value := by
  rw [hashTableInsertAux32, lookup32_eq hinv, (lookup_none_iff hinv).mpr hnew]
  exact if_pos ((full32_iff hinv).mpr hfull)

end

end

section
variable [DecidableEq K] [DecidableEq V]

theorem reinsert32_spec : ∀ (l : List (HashTableEntry K V)) (t : HashTable32 K V), TableInv O t.wide →
    Distinct O (l ++ hashTableElems t.wide) → t.wide.size + l.length ≤ t.wide.capacity →
    ∃ t', TableInv O t'.wide ∧ ∀ depth,
      l.foldlM (fun t' e => hashTableInsertAux32 O (depth + 1) t' e.key e.val) t = .ok t' ∧
        l.foldlM (fun t' e => hashTableInsertAux O (depth + 1) t' e.key e.val) t.wide = some t'.wide
  | [], t, hinv, _, _ => ⟨t, hinv, fun _ => ⟨rfl, rfl⟩⟩
  | e :: l, t, hinv, hd, hroom => by
    obtain ⟨hnew, hone, hinv', hd', hroom'⟩ := append_next hinv hd hroom
    obtain ⟨t₁, h₁, hw⟩ := append32_agrees hinv e.key e.val
    rw [← hw] at hinv' hd' hroom'
    obtain ⟨t', hi, hr⟩ := reinsert32_spec l t₁ hinv' hd' hroom'
    refine ⟨t', hi, fun depth => ⟨?_, ?_⟩⟩
    · rw [List.foldlM_cons, insertAux32_new hinv hnew e.val depth hone, h₁]
      exact (hr depth).1
    · rw [List.foldlM_cons, insertAux_new hinv hnew hone, ← hw]
      exact (hr depth).2

theorem reinsert32_part {t : HashTable32 K V} (hinv : TableInv O t.wide) (hlt : t.capacity.toNat < 2 ^ 31)
    {l rest : List (HashTableEntry K V)} (hl : hashTableElems32 t = l ++ rest) :
    ∃ t', TableInv O t'.wide ∧ ∀ depth,
      l.foldlM (fun t' e => hashTableInsertAux32 O (depth + 1) t' e.key e.val) (hashTableDouble32 t) = .ok t' ∧
        l.foldlM (fun t' e => hashTableInsertAux O (depth + 1) t' e.key e.val) (hashTableDouble t.wide) =
          some t'.wide := by
  have hdouble := double32_wide hlt
  have hnil : hashTableElems (hashTableDouble t.wide) = [] := gather_nil _
  have hd : Distinct O (l ++ rest) := hl ▸ hinv.distinct
  have hlen : (hashTableElems32 t).length = t.wide.size := hinv.size_eq.symm
  have hle := hinv.size_le
  rw [hl, List.length_append] at hlen
  rw [← hdouble]
  apply reinsert32_spec
  · rw [hdouble]
    exact hashTableDouble_inv hinv
  · rw [hdouble, hnil, List.append_nil]
    exact (List.pairwise_append.mp hd).1
  · rw [hdouble]
    simp only [hashTableDouble]
    omega

theorem resize32_spec {t : HashTable32 K V} (hinv : TableInv O t.wide) (hlt : t.capacity.toNat < 2 ^ 31) :
    ∃ t', TableInv O t'.wide ∧ ∀ depth,
      (hashTableElems32 t).foldlM (fun t' e => hashTableInsertAux32 O (depth + 1) t' e.key e.val)
          (hashTableDouble32 t) = .ok t' ∧
        (hashTableElems t.wide).foldlM (fun t' e => hashTableInsertAux O (depth + 1) t' e.key e.val)
          (hashTableDouble t.wide) = some t'.wide :=
  reinsert32_part hinv hlt (List.append_nil _).symm

theorem insert32_agrees {t : HashTable32 K V} (hinv : TableInv O t.wide) {key : K} (value : V)
    (hroom : (∃ e ∈ hashTableElems t.wide, O.compare key e.key = .EQ) ∨ t.size.toNat < 2 ^ 31) :
    ∃ t', hashTableInsert O t.wide key value = some t' ∧ Agrees (hashTableInsert32 O t key value) t' := by
  unfold hashTableInsert hashTableInsert32
  by_cases hold : ∃ e ∈ hashTableElems t.wide, O.compare key e.key = .EQ
  · refine ⟨_, insertAux_old hinv hold value 1, ?_⟩
    rw [insertAux32_old hinv hold value 1]
    exact update32_agrees hinv key value
  have hnew : ∀ e ∈ hashTableElems t.wide, O.compare key e.key ≠ .EQ := fun e he hs => hold ⟨e, he, hs⟩
  by_cases hfull : t.wide.size + 1 > t.wide.capacity
  · have hlt : t.size.toNat < 2 ^ 31 := hroom.resolve_left hold
    have hcap : t.capacity.toNat < 2 ^ 31 := Nat.lt_of_le_of_lt (Nat.le_of_lt_succ hfull) hlt
    obtain ⟨t', hi, hr⟩ := resize32_spec hinv hcap
    obtain ⟨t₁, h₁, hw⟩ := append32_agrees hi key value
    refine ⟨t₁.wide, ?_, t₁, ?_, rfl⟩
    · rw [insertAux_full hinv hnew hfull, (hr 0).2, hw]
      rfl
    · rw [insertAux32_full hinv hnew value 1 hfull]
      exact (congrArg (Except.bind · _) (hr 0).1).trans h₁
  · refine ⟨_, insertAux_new hinv hnew (by omega) 1, ?_⟩
    rw [insertAux32_new hinv hnew value 1 (by omega)]
    exact append32_agrees hinv key value

theorem insert32_faults {t : HashTable32 K V} (hinv : TableInv O t.wide) {key : K} (value : V)
    (hnew : ∀ e ∈ hashTableElems t.wide, O.compare key e.key ≠ .EQ) (hge : ¬ t.size.toNat < 2 ^ 31) :
    hashTableInsert32 O t key value = .error .moduloZero := by
  obtain ⟨hsize, hcap⟩ := hinv.roomy.at_half (by decide) hge
  have hfull : t.wide.size + 1 > t.wide.capacity := by
    show t.size.toNat + 1 > t.capacity.toNat
    omega
  have hzero : (hashTableDouble32 t).capacity = 0 := hinv.roomy.double_zero (by decide) hge
  have hlen : t.size.toNat = (hashTableElems t.wide).length := hinv.size_eq
  obtain ⟨e, rest, hl⟩ : ∃ e rest, hashTableElems t.wide = e :: rest :=
    List.exists_cons_of_length_pos (by omega)
  -- the first nested insert starts with a lookup in the new table, which has no slots
  have hfirst : hashTableInsertAux32 O 1 (hashTableDouble32 t) e.key e.val = .error .moduloZero := by
    rw [hashTableInsertAux32, hashTableLookup32, hashIndex, if_pos hzero]
    rfl
  have helems : hashTableElems32 t = e :: rest := hl
  unfold hashTableInsert32
  rw [insertAux32_full hinv hnew value 1 hfull, helems, List.foldlM_cons, hfirst]
  rfl

end

end

/-! ## Growth -/

section
variable {K V : Type*} {O : KeyOps K}

def DoublesExactly (O : KeyOps K) (t : HashTable32 K V) : HashTableRequest K V → Prop
  | .insert key _ => (∀ e ∈ hashTableElems32 t, O.compare key e.key ≠ .EQ) → t.size + 1 > t.capacity →
      (hashTableDouble32 t).capacity.toNat = 2 * t.capacity.toNat
  | _ => True

def TableRoom (O : KeyOps K) (t : HashTable32 K V) : HashTableRequest K V → Prop
  | .insert key _ => (∃ e ∈ hashTableElems32 t, O.compare key e.key = .EQ) ∨ t.size.toNat < 2 ^ 31
  | _ => True

instance (O : KeyOps K) (t : HashTable32 K V) : ∀ r, Decidable (TableRoom O t r)
  | .insert key _ => inferInstanceAs (Decidable ((∃ e ∈ hashTableElems32 t, O.compare key e.key = .EQ) ∨ _))
  | .lookup _ => inferInstanceAs (Decidable True)
  | .remove _ => inferInstanceAs (Decidable True)

theorem settle_agrees {t : HashTable32 K V} {r : Except Fault (HashTable32 K V)} {t' : HashTable K V}
    (h : Agrees r t') : ∃ t₁, settle t r = (t₁, .ok none) ∧ t₁.wide = t' := by
  obtain ⟨t₁, rfl, hw⟩ := h
  exact ⟨t₁, rfl, hw⟩

variable [DecidableEq K] [DecidableEq V]

/-- The call takes no hash modulo zero, and a capacity that it doubles does not wrap. -/
def TableSafe (O : KeyOps K) (t : HashTable32 K V) (r : HashTableRequest K V) : Prop :=
  (hashTableStep32 O t r).2 ≠ .error .moduloZero ∧ DoublesExactly O t r

/-- What a call does to the table with natural numbers. -/
def HashTableRequest.Serves (O : KeyOps K) (t t' : HashTable K V) (out : Option V) : HashTableRequest K V → Prop
  | .insert key value => hashTableInsert O t key value = some t' ∧ out = none
  | .lookup key => t' = t ∧ out = hashTableLookup O t key
  | .remove key => t' = hashTableRemove O t key ∧ out = none

section
variable {t : HashTable32 K V} (hinv : TableInv O t.wide) (r : HashTableRequest K V)
include hinv

theorem hashTableStep32_serves (hroom : TableRoom O t r) : ∃ t' out, hashTableStep32 O t r = (t', .ok out) ∧
    TableInv O t'.wide ∧ r.Serves O t.wide t'.wide out := by
  cases r with
  | insert key value =>
    obtain ⟨w, hw, hagrees⟩ := insert32_agrees hinv value hroom
    obtain ⟨t', ht, rfl⟩ := settle_agrees (t := t) hagrees
    obtain ⟨_, hw', hi, -⟩ := hashTableInsert_spec hinv key value
    obtain rfl := Option.some.inj (hw'.symm.trans hw)
    exact ⟨t', none, ht, hi, hw, rfl⟩
  | lookup key => exact ⟨t, _, congrArg (Prod.mk t) (lookup32_eq hinv key), hinv, rfl, rfl⟩
  | remove key =>
    obtain ⟨t', ht, hw⟩ := settle_agrees (t := t) (remove32_agrees hinv key)
    refine ⟨t', none, ht, ?_, hw, rfl⟩
    rw [hw]
    exact (hashTableRemove_spec hinv key).1

theorem hashTableStep32_faults (hroom : ¬ TableRoom O t r) : hashTableStep32 O t r = (t, .error .moduloZero) := by
  cases r with
  | insert key value =>
    obtain ⟨hnew, hge⟩ := not_or.mp hroom
    have hnew' : ∀ e ∈ hashTableElems t.wide, O.compare key e.key ≠ .EQ := fun e he hs => hnew ⟨e, he, hs⟩
    rw [hashTableStep32, insert32_faults hinv value hnew' hge]
    rfl
  | lookup key => exact absurd trivial hroom
  | remove key => exact absurd trivial hroom

theorem tableSafe_iff : TableSafe O t r ↔ TableRoom O t r := by
  constructor
  · intro hsafe
    apply Classical.byContradiction
    intro hn
    exact hsafe.1 (congrArg Prod.snd (hashTableStep32_faults hinv r hn))
  · intro hroom
    obtain ⟨t', out, hstep, -⟩ := hashTableStep32_serves hinv r hroom
    constructor
    · rw [hstep]
      exact fun hf => by cases hf
    · cases r with
      | insert key value =>
        intro hnew hfull
        have hlt : t.size.toNat < 2 ^ 31 := hroom.resolve_left fun ⟨e, he, hs⟩ => hnew e he hs
        exact (hinv.roomy.exact_iff (by decide) hfull).mpr hlt
      | lookup key => trivial
      | remove key => trivial

theorem hashTableStep32_inv : TableInv O (hashTableStep32 O t r).1.wide := by
  by_cases hroom : TableRoom O t r
  · obtain ⟨t', out, hstep, hi, -⟩ := hashTableStep32_serves hinv r hroom
    rw [hstep]
    exact hi
  · rw [hashTableStep32_faults hinv r hroom]
    exact hinv

/-- A new key adds one entry. -/
theorem insert32_new {key : K} (value : V) (hnew : ∀ e ∈ hashTableElems t.wide, O.compare key e.key ≠ .EQ)
    (hlt : t.size.toNat < 2 ^ 31) : ∃ t', hashTableStep32 O t (.insert key value) = (t', .ok none) ∧
      TableInv O t'.wide ∧ (hashTableElems t'.wide).Perm (⟨key, value⟩ :: hashTableElems t.wide) ∧
      t'.size.toNat = t.size.toNat + 1 := by
  obtain ⟨t', out, hstep, hi, hw, rfl⟩ := hashTableStep32_serves hinv (.insert key value) (Or.inr hlt)
  obtain ⟨w, hw', -, helems, -⟩ := insert_new_spec hinv hnew value
  obtain rfl : w = t'.wide := Option.some.inj ((hw' 0).symm.trans hw)
  refine ⟨t', hstep, hi, helems, ?_⟩
  have hlen : t'.size.toNat = _ := hi.size_eq
  rw [hlen, helems.length_eq, List.length_cons, ← hinv.size_eq]
  rfl

theorem hashTableStep32_depth : (hashTableStep32 O t r).2 ≠ .error .depth := by
  by_cases hroom : TableRoom O t r
  · obtain ⟨t', out, hstep, -⟩ := hashTableStep32_serves hinv r hroom
    rw [hstep]
    exact fun hf => by cases hf
  · rw [hashTableStep32_faults hinv r hroom]
    exact fun hf => by cases hf

end

end

end SwitchSimulation
