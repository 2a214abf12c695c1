import SwitchSimulation.EventTable
import SwitchSimulation.Heap

/-!
# The discrete event simulator (`simulator.c`)

A time operation returns the new contents of its second argument. Every
`future_time` is an object of its own, which the event then owns. What a
callback does to the simulator is a list of actions that the environment
chooses; so is what happens outside the main loop.
-/

namespace SwitchSimulation

/-- A time type. `copy_time` copies its first argument into its second. -/
structure TimeType (T : Type*) where
  compareTime : Comparator T
  addTime : T → T → T
  copyTime : T → T → T
  copyTime_eq : ∀ lhs rhs, copyTime lhs rhs = lhs

def uintTime : TimeType Nat where
  compareTime := Comparator.ofKey id
  addTime lhs rhs := rhs + lhs
  copyTime lhs _ := lhs
  copyTime_eq _ _ := rfl

/-- `clock` and `delay` are not in the source: they record the clock at which
the event was invoked and the delay that was given. -/
structure Event (A T : Type*) where
  evtId : Int
  arg : A
  time : T
  clock : T
  delay : T

structure Simulator (A T F : Type*) where
  eventTable : EventTable F
  eventQueue : Heap (Event A T)
  currentTime : T
  shouldTerminate : Bool

/-- What calls of the simulator's functions do. A registration carries the
contents of the blocks that it allocates. -/
inductive Action (A T F : Type*)
  | registerEvent (evtId : Int) (callback freeArg : Option F) (key : EventEntryKey) (val : EventEntryVal F)
  | invokeEvent (evtId : Int) (arg : A) (futureTime : T)
  | setShouldTerminate

/-- Calls through the function pointers of an event, lookups in the event table
and its release. -/
inductive SimulatorCall (A T F : Type*)
  | lookup (evtId : Int)
  | callback (callback : F) (arg : A)
  | freeArg (freeArg : F) (arg : A)
  | freeTime (time : T)
  | freeTable
  deriving DecidableEq

/-- What the teardown works on: the event table, until it is freed, the calls
made so far, and whether one of them has crashed. -/
structure Teardown (A T F : Type*) where
  eventTable : Option (EventTable F)
  calls : List (SimulatorCall A T F)
  crashed : Bool

/-- An event as it was taken from the queue, the clock with which it was
dispatched, and the callback if one was run. -/
structure Dispatch (A T F : Type*) where
  event : Event A T
  clock : T
  callback : Option F

section
variable {A T F : Type*} [DecidableEq F] (τ : TimeType T)

def simulatorInit (startTime : T) (fresh : Nat → Event A T) : Simulator A T F :=
  ⟨eventTableCreate, heapCreate fresh, startTime, false⟩

def compareEvent : Comparator (Event A T) := τ.compareTime.comap Event.time

def simulatorInvokeEvent (s : Simulator A T F) (evtId : Int) (arg : A) (futureTime : T) : Simulator A T F :=
  { s with
    eventQueue := heapInsert (compareEvent τ) s.eventQueue
      ⟨evtId, arg, τ.addTime s.currentTime futureTime, s.currentTime, futureTime⟩ }

def simulatorAction (s : Simulator A T F) : Action A T F → Simulator A T F
  | .registerEvent evtId callback freeArg key val =>
    { s with eventTable := eventTableRegisterEvent s.eventTable evtId callback freeArg key val }
  | .invokeEvent evtId arg futureTime => simulatorInvokeEvent τ s evtId arg futureTime
  | .setShouldTerminate => { s with shouldTerminate := true }

def simulatorCond (s : Simulator A T F) : Bool := !s.shouldTerminate && decide (heapSize s.eventQueue > 0)

/-- `time_copy(current_time, next_event->time)`. -/
def copyIntoEvent (s : Simulator A T F) (nextEvent : Event A T) : Event A T :=
  { nextEvent with time := τ.copyTime s.currentTime nextEvent.time }

def nextEvent (s : Simulator A T F) : Event A T := (heapPopMin (compareEvent τ) s.eventQueue).2

def simulatorDequeue (s : Simulator A T F) : Simulator A T F :=
  { s with eventQueue := (heapPopMin (compareEvent τ) s.eventQueue).1 }

/-- One round of the main loop. The callback takes the actions of `script` if it is run. -/
def simulatorRound (s : Simulator A T F) (script : List (Action A T F)) : Simulator A T F × Dispatch A T F :=
  match eventTableLookup s.eventTable (copyIntoEvent τ s (nextEvent τ s)).evtId with
  | (some callback, some _) =>
    (script.foldl (simulatorAction τ) (simulatorDequeue τ s), ⟨nextEvent τ s, s.currentTime, some callback⟩)
  | _ => (simulatorDequeue τ s, ⟨nextEvent τ s, s.currentTime, none⟩)

/-- `if (callback && free_arg) { callback(arg); free_arg(arg); }` -/
def handlerCalls (arg : A) : Option F × Option F → List (SimulatorCall A T F)
  | (some callback, some freeArg) => [.callback callback arg, .freeArg freeArg arg]
  | _ => []

/-- The calls that a round of the main loop makes itself, in order. -/
def roundCalls (s : Simulator A T F) : List (SimulatorCall A T F) :=
  let event := copyIntoEvent τ s (nextEvent τ s)
  .lookup event.evtId ::
    (handlerCalls event.arg (eventTableLookup s.eventTable event.evtId) ++ [.freeTime event.time])

/-! ## Termination -/

def eventTableFree (s : Teardown A T F) : Teardown A T F :=
  { s with eventTable := none, calls := s.calls ++ [.freeTable] }

/-- `stale` is what a lookup reads in a table that has been freed, if it does not crash. -/
def teardownLookup (stale : Int → Option (Option F × Option F)) (s : Teardown A T F) (evtId : Int) :
    Option (Option F × Option F) :=
  match s.eventTable with
  | some table => some (eventTableLookup table evtId)
  | none => stale evtId

def freeEvent (stale : Int → Option (Option F × Option F)) (evt : Event A T) (s : Teardown A T F) :
    Teardown A T F :=
  if s.crashed then s
  else
    match teardownLookup stale s evt.evtId with
    | none => { s with calls := s.calls ++ [.lookup evt.evtId], crashed := true }
    | some (_, freeArg) =>
      { s with
        calls := s.calls ++ .lookup evt.evtId ::
          ((freeArg.map fun f => .freeArg f evt.arg).toList ++ [.freeTime evt.time]) }

def simulatorTerminate (stale : Int → Option (Option F × Option F)) (s : Simulator A T F) : Teardown A T F :=
  heapFree (freeEvent stale) s.eventQueue (eventTableFree ⟨some s.eventTable, [], false⟩)

/-! ## Runs -/

inductive SimulatorInput (A T F : Type*)
  | outside (action : Action A T F)
  | round (script : List (Action A T F))

def simulatorStep (s : Simulator A T F) : SimulatorInput A T F → Simulator A T F × Option (Dispatch A T F)
  | .outside action => (simulatorAction τ s action, none)
  | .round script =>
    if simulatorCond s then ((simulatorRound τ s script).1, some (simulatorRound τ s script).2) else (s, none)

end

end SwitchSimulation
