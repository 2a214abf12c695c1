import Mathlib.Data.Int.Order.Basic
import SwitchSimulation.HashTableMap

/-!
# The event table (`event_table.c`)

Function pointers are `none` when they are null. `event_table_register_event`
allocates a key and a value and inserts them without storing the id or the
two functions, so a call carries what the two blocks contain.
-/

namespace SwitchSimulation

structure EventEntryKey where
  block : Nat
  key : Int
  deriving DecidableEq

structure EventEntryVal (F : Type*) where
  block : Nat
  callback : Option F
  freeArg : Option F
  deriving DecidableEq

/-- The hash is the id as an unsigned number of 32 bits. -/
def eventEntryOps : KeyOps EventEntryKey := KeyOps.ofKey EventEntryKey.key fun key => (key % 2 ^ 32).toNat

abbrev EventTable (F : Type*) := LawfulTable eventEntryOps (EventEntryVal F)

section
variable {F : Type*}

def eventTableCreate : EventTable F := LawfulTable.create

def eventTableRegisterEvent [DecidableEq F] (t : EventTable F) (_evtId : Int) (_callback _freeArg : Option F)
    (key : EventEntryKey) (val : EventEntryVal F) : EventTable F := t.insert key val

/-- The lookup key is on the stack: it is in no allocated block. -/
def eventTableLookup (t : EventTable F) (evtId : Int) : Option F × Option F :=
  match t.lookup ⟨0, evtId⟩ with
  | some val => (val.callback, val.freeArg)
  | none => (none, none)

end

end SwitchSimulation
