import SwitchSimulation.EventTable
import SwitchSimulation.Machine

/-!
# Does the event table keep its registrations?

The registry is what an event table is for: the functions last registered for
each id. A registration stores what its two fresh blocks contain, so the
table keeps to the registry just when the blocks contain the right id and
functions, or are wrong in a way that changes no lookup.
-/

namespace SwitchSimulation

section
variable {F : Type*}

/-- The arguments of a call, and the contents of the blocks that it allocates. -/
structure Registration (F : Type*) where
  evtId : Int
  callback : Option F
  freeArg : Option F
  key : EventEntryKey
  val : EventEntryVal F

structure EventState (F : Type*) where
  table : EventTable F
  registered : Int → Option F × Option F

def eventStart : EventState F := ⟨eventTableCreate, fun _ => (none, none)⟩

def EventTableLaw (s : EventState F) : Prop := ∀ evtId, eventTableLookup s.table evtId = s.registered evtId

/-- The key block holds the id and the value block the two functions; or the
key block holds another id, and the table has already what the call registers
and what the blocks say. -/
def RightRegistration (s : EventState F) (r : Registration F) : Prop :=
  if r.key.key = r.evtId then (r.val.callback, r.val.freeArg) = (r.callback, r.freeArg)
  else eventTableLookup s.table r.evtId = (r.callback, r.freeArg) ∧
    eventTableLookup s.table r.key.key = (r.val.callback, r.val.freeArg)

variable [DecidableEq F]

def eventStep (s : EventState F) (r : Registration F) : EventState F × Unit :=
  (⟨eventTableRegisterEvent s.table r.evtId r.callback r.freeArg r.key r.val,
    Function.update s.registered r.evtId (r.callback, r.freeArg)⟩, ())

variable {s : EventState F} {r : Registration F}

/-! ## One registration -/

@[simp] theorem eventStep_registered (s : EventState F) (r : Registration F) : (eventStep s r).1.registered =
    Function.update s.registered r.evtId (r.callback, r.freeArg) := rfl

theorem eventTableLookup_register (s : EventState F) (r : Registration F) (evtId : Int) :
    eventTableLookup (eventStep s r).1.table evtId =
      if evtId = r.key.key then (r.val.callback, r.val.freeArg) else eventTableLookup s.table evtId := by
  have hsame : eventEntryOps.compare ⟨0, evtId⟩ r.key = .EQ ↔ evtId = r.key.key := Comparator.ofKey_eq_iff
  unfold eventTableLookup
  simp only [eventStep, eventTableRegisterEvent, LawfulTable.lookup_insert, hsame]
  by_cases h : evtId = r.key.key
  · rw [if_pos h, if_pos h]
  · rw [if_neg h, if_neg h]

theorem law_of_key (h : EventTableLaw s) (hk : r.key.key = r.evtId) :
    EventTableLaw (eventStep s r).1 ↔ (r.val.callback, r.val.freeArg) = (r.callback, r.freeArg) := by
  constructor
  · intro h'
    have h' := h' r.evtId
    rwa [eventTableLookup_register, if_pos hk.symm, eventStep_registered, Function.update_self] at h'
  · intro hv evtId
    rw [eventTableLookup_register, eventStep_registered, hk]
    by_cases he : evtId = r.evtId
    · subst he; rw [if_pos rfl, Function.update_self, hv]
    · rw [if_neg he, Function.update_of_ne he]
      exact h evtId

theorem law_of_other_key (h : EventTableLaw s) (hk : r.key.key ≠ r.evtId) :
    EventTableLaw (eventStep s r).1 ↔ eventTableLookup s.table r.evtId = (r.callback, r.freeArg) ∧
      eventTableLookup s.table r.key.key = (r.val.callback, r.val.freeArg) := by
  constructor
  · intro h'
    have hid := h' r.evtId
    have hkey := h' r.key.key
    rw [eventTableLookup_register, if_neg hk.symm, eventStep_registered, Function.update_self] at hid
    rw [eventTableLookup_register, if_pos rfl, eventStep_registered, Function.update_of_ne hk] at hkey
    exact ⟨hid, (h r.key.key).trans hkey.symm⟩
  · intro ⟨hid, hkey⟩ evtId
    have hsame : Function.update s.registered r.evtId (r.callback, r.freeArg) = s.registered := by
      rw [← hid, h r.evtId, Function.update_eq_self]
    rw [eventTableLookup_register, ← hkey, eventStep_registered, hsame, ← h evtId]
    by_cases he : evtId = r.key.key
    · rw [if_pos he, he]
    · rw [if_neg he]

theorem eventStep_law (h : EventTableLaw s) : EventTableLaw (eventStep s r).1 ↔ RightRegistration s r := by
  unfold RightRegistration
  by_cases hk : r.key.key = r.evtId
  · rw [if_pos hk]; exact law_of_key h hk
  · rw [if_neg hk]; exact law_of_other_key h hk

end

/-- The lookups are what was registered in every state of a run just when all
its registrations are right. -/
theorem event_table_law_iff {F : Type*} [DecidableEq F] (registrations : List (Registration F)) :
    Always eventStep EventTableLaw eventStart registrations ↔
      Meets eventStep RightRegistration eventStart registrations :=
  always_iff_meets EventTableLaw (fun _ _ h _ => eventStep_law h) (fun _ => rfl)
    (meets_true _ _)

/-- The first registration of a program, with blocks that hold zeros. -/
def firstRegistration : Registration Nat := ⟨1, some 7, some 8, ⟨1, 0⟩, ⟨2, none, none⟩⟩

theorem event_table_forgets : ¬ Always eventStep EventTableLaw eventStart [firstRegistration] := by
  intro h
  have hl := h.last 1
  revert hl
  decide +kernel

end SwitchSimulation
