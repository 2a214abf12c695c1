import SwitchSimulation.Buckets
import SwitchSimulation.Comparator

/-!
# The chained hash table (`hash_table.c`)

Keys and values are objects: `=` on them is equality of pointers, and
`compare` looks at what the keys contain. A chain is the list of its entries.
The calls of `free_key` and `free_val` are logged in order. Sizes and
capacities are natural numbers.
-/

namespace SwitchSimulation

structure KeyOps (K : Type*) where
  hash : K → Nat
  compare : K → K → Comparison
  eq_refl : ∀ a, compare a a = .EQ
  eq_symm : ∀ a b, compare a b = .EQ → compare b a = .EQ
  eq_trans : ∀ a b c, compare a b = .EQ → compare b c = .EQ → compare a c = .EQ
  hash_eq : ∀ a b, compare a b = .EQ → hash a = hash b

def KeyOps.ofKey {K β : Type*} [LinearOrder β] (key : K → β) (hash : β → Nat) : KeyOps K where
  hash a := hash (key a)
  compare := (Comparator.ofKey key).cmp
  eq_refl a := Comparator.ofKey_eq_iff.mpr rfl
  eq_symm a b h := Comparator.ofKey_eq_iff.mpr (Comparator.ofKey_eq_iff.mp h).symm
  eq_trans a b c h h' :=
    Comparator.ofKey_eq_iff.mpr ((Comparator.ofKey_eq_iff.mp h).trans (Comparator.ofKey_eq_iff.mp h'))
  hash_eq a b h := by rw [Comparator.ofKey_eq_iff.mp h]

structure HashTableEntry (K V : Type*) where
  key : K
  val : V

structure HashTable (K V : Type*) where
  entries : Nat → List (HashTableEntry K V)
  size : Nat
  capacity : Nat
  freedKeys : List K
  freedVals : List V

section
variable {K V : Type*}

def hashTableDefaultCapacity : Nat := 32

def hashTableCreate : HashTable K V := ⟨fun _ => [], 0, hashTableDefaultCapacity, [], []⟩

def hashTableSize (t : HashTable K V) : Nat := t.size

variable (O : KeyOps K)

/-! ## Lookup -/

def lookupChain (key : K) : List (HashTableEntry K V) → Option V
  | [] => none
  | curr :: next => if O.compare key curr.key = .EQ then some curr.val else lookupChain key next

def hashTableLookup (t : HashTable K V) (key : K) : Option V :=
  lookupChain O key (t.entries (O.hash key % t.capacity))

/-! ## Insert -/

def hashTableAppend (t : HashTable K V) (key : K) (value : V) : HashTable K V :=
  let hash := O.hash key % t.capacity
  { t with
    size := t.size + 1
    entries := Function.update t.entries hash (t.entries hash ++ [⟨key, value⟩]) }

/-- The new array of the resize branch, with `size` reset. -/
def hashTableDouble (t : HashTable K V) : HashTable K V :=
  { t with entries := fun _ => [], size := 0, capacity := 2 * t.capacity }

/-- The scratch array `elems` of the resize branch, in copying order. -/
def hashTableElems (t : HashTable K V) : List (HashTableEntry K V) := gather t.capacity t.entries

variable [DecidableEq K] [DecidableEq V]

def updateChain (key : K) (value : V) :
    List (HashTableEntry K V) → List (HashTableEntry K V) × List K × List V
  | [] => ([], [], [])
  | curr :: next =>
    if O.compare key curr.key = .EQ then
      (⟨key, value⟩ :: next, if curr.key ≠ key then [curr.key] else [],
        if curr.val ≠ value then [curr.val] else [])
    else
      let r := updateChain key value next
      (curr :: r.1, r.2)

def hashTableUpdate (t : HashTable K V) (key : K) (value : V) : HashTable K V :=
  let hash := O.hash key % t.capacity
  let r := updateChain O key value (t.entries hash)
  { t with
    entries := Function.update t.entries hash r.1
    freedKeys := t.freedKeys ++ r.2.1
    freedVals := t.freedVals ++ r.2.2 }

/-- `hash_table_insert`, with `depth` bounding the nesting of its calls of
itself. At depth 0 the call has no result. -/
def hashTableInsertAux : Nat → HashTable K V → K → V → Option (HashTable K V)
  | 0, _, _, _ => none
  | depth + 1, t, key, value =>
    if (hashTableLookup O t key).isSome then some (hashTableUpdate O t key value)
    else if t.size + 1 > t.capacity then
      ((hashTableElems t).foldlM (fun t' e => hashTableInsertAux depth t' e.key e.val) (hashTableDouble t)).map
        fun t' => hashTableAppend O t' key value
    else some (hashTableAppend O t key value)

/-- Two levels are enough (`hashTableInsert_spec`). -/
def hashTableInsert (t : HashTable K V) (key : K) (value : V) : Option (HashTable K V) :=
  hashTableInsertAux O 2 t key value

/-! ## Remove -/

/-- The loop of `hash_table_remove`. `before` lists the entries up to the link
that `ptr` points at; `ptr` moves on only if there is a next entry. -/
def removeChain (key : K) (before : List (HashTableEntry K V)) :
    List (HashTableEntry K V) → Option (List (HashTableEntry K V) × HashTableEntry K V)
  | [] => none
  | curr :: next =>
    if O.compare key curr.key = .EQ then some (before ++ next, curr)
    else removeChain key (if next.isEmpty then before else before ++ [curr]) next

/-- What the loop does at the matching entry `curr`, which leaves `chain` behind. -/
def hashTableUnlink (t : HashTable K V) (hash : Nat) (chain : List (HashTableEntry K V))
    (curr : HashTableEntry K V) : HashTable K V :=
  { t with
    entries := Function.update t.entries hash chain
    size := t.size - 1
    freedKeys := t.freedKeys ++ [curr.key]
    freedVals := t.freedVals ++ [curr.val] }

def hashTableRemove (t : HashTable K V) (key : K) : HashTable K V :=
  match removeChain O key [] (t.entries (O.hash key % t.capacity)) with
  | none => t
  | some (chain, curr) => hashTableUnlink t (O.hash key % t.capacity) chain curr

/-! ## Free -/

/-- Keys and values are never null. -/
def hashTableFreeChain (t : HashTable K V) (chain : List (HashTableEntry K V)) : HashTable K V :=
  chain.foldl (fun t' curr =>
    { t' with freedKeys := t'.freedKeys ++ [curr.key], freedVals := t'.freedVals ++ [curr.val] }) t

/-- `hash_table_free`, up to the release of the array and of the table. -/
def hashTableFree (t : HashTable K V) : HashTable K V :=
  forRange t.capacity
    (fun i t' =>
      let t'' := hashTableFreeChain t' (t'.entries i)
      { t'' with entries := Function.update t''.entries i [] }) t

/-! ## Runs of calls -/

inductive HashTableCall (K V : Type*)
  | insert (key : K) (value : V)
  | remove (key : K)

def hashTableCall (t : HashTable K V) : HashTableCall K V → Option (HashTable K V)
  | .insert key value => hashTableInsert O t key value
  | .remove key => some (hashTableRemove O t key)

def hashTableRun (calls : List (HashTableCall K V)) : Option (HashTable K V) :=
  calls.foldlM (hashTableCall O) hashTableCreate

end

end SwitchSimulation
