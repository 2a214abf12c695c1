import SwitchSimulation.SimulatorCalls
import SwitchSimulation.SimulatorEvents

/-!
# What a simulation releases

An event comes with an argument and a time. The main loop releases the time of
every event that it takes and `simulator_terminate` those of the events that
are left, so that each is released once; of the arguments some are never
released, but none is released twice.
-/

namespace SwitchSimulation

section
variable {A T F : Type*} (τ : TimeType T)

def SimulatorCall.freedBy? : SimulatorCall A T F → Option A
  | .freeArg _ arg => some arg
  | _ => none

def callsIn (s : Simulator A T F) : SimulatorInput A T F → List (SimulatorCall A T F)
  | .outside _ => []
  | .round _ => if simulatorCond s then roundCalls τ s else []

def timesFreed (calls : List (SimulatorCall A T F)) : Nat := (calls.filterMap SimulatorCall.freedTime?).length

def argsFreed (calls : List (SimulatorCall A T F)) : Multiset A := calls.filterMap SimulatorCall.freedBy?

variable {τ} {stale : Int → Option (Option F × Option F)} {s : Simulator A T F}

/-! ## The calls of a round -/

theorem handlerCalls_times (arg : A) (r : Option F × Option F) :
    (handlerCalls arg r : List (SimulatorCall A T F)).filterMap SimulatorCall.freedTime? = [] := by
  unfold handlerCalls
  split <;> rfl

theorem handlerCalls_args (arg : A) (r : Option F × Option F) :
    argsFreed (handlerCalls arg r : List (SimulatorCall A T F)) ≤ {arg} := by
  unfold handlerCalls
  split
  · exact le_rfl
  · exact Multiset.zero_le _

theorem argsFreed_append (calls later : List (SimulatorCall A T F)) :
    argsFreed (calls ++ later) = argsFreed calls + argsFreed later := by
  unfold argsFreed
  rw [List.filterMap_append, Multiset.coe_add]

theorem roundCalls_times (s : Simulator A T F) : timesFreed (roundCalls τ s) = 1 := by
  unfold timesFreed roundCalls
  rw [List.filterMap_cons_none rfl, List.filterMap_append, handlerCalls_times]
  rfl

/-- A round releases no argument but that of the event it takes. -/
theorem roundCalls_args (s : Simulator A T F) : argsFreed (roundCalls τ s) ≤ {(heapMin s.eventQueue).arg} := by
  have hlast : argsFreed [(.freeTime (copyIntoEvent τ s (nextEvent τ s)).time : SimulatorCall A T F)] = 0 := rfl
  calc argsFreed (roundCalls τ s)
      = argsFreed (handlerCalls (heapMin s.eventQueue).arg
          (eventTableLookup s.eventTable (heapMin s.eventQueue).evtId) ++ [.freeTime _]) := rfl
    _ = argsFreed (handlerCalls (heapMin s.eventQueue).arg
          (eventTableLookup s.eventTable (heapMin s.eventQueue).evtId)) := by
        rw [argsFreed_append, hlast, add_zero]
    _ ≤ {(heapMin s.eventQueue).arg} := handlerCalls_args _ _

/-! ## The calls of the termination -/

theorem timesFreed_cons_lookup (evtId : Int) (calls : List (SimulatorCall A T F)) :
    timesFreed (.lookup evtId :: calls) = timesFreed calls := rfl

theorem lateCalls_times (events : List (Event A T)) : timesFreed (lateCalls stale events) ≤ events.length ∧
    (timesFreed (lateCalls stale events) = events.length ↔ ∀ evt ∈ events, (stale evt.evtId).isSome) := by
  induction events with
  | nil => exact ⟨le_rfl, iff_of_true rfl fun evt he => absurd he List.not_mem_nil⟩
  | cons evt events ih =>
    rw [lateCalls, timesFreed_cons_lookup, List.length_cons, List.forall_mem_cons]
    cases hs : stale evt.evtId with
    | none => exact ⟨Nat.zero_le _, iff_of_false (fun h => by cases h) fun h => by cases h.1⟩
    | some r =>
      obtain ⟨callback, freeArg⟩ := r
      have hone : timesFreed ((freeArg.map fun f => .freeArg f evt.arg).toList ++
          .freeTime evt.time :: lateCalls stale events) = timesFreed (lateCalls stale events) + 1 := by
        cases freeArg <;> rfl
      simp only [hone, Option.isSome_some, true_and]
      rw [← ih.2]
      omega

theorem lateCalls_args (events : List (Event A T)) :
    argsFreed (lateCalls stale events) ≤ (events : Multiset (Event A T)).map Event.arg := by
  induction events with
  | nil => exact Multiset.zero_le _
  | cons evt events ih =>
    rw [← Multiset.cons_coe, Multiset.map_cons, ← Multiset.singleton_add, lateCalls]
    cases hs : stale evt.evtId with
    | none => exact Multiset.zero_le _
    | some r =>
      obtain ⟨callback, freeArg⟩ := r
      cases freeArg with
      | none => exact ih.trans (Multiset.le_add_left _ _)
      | some f => exact add_le_add le_rfl ih

theorem terminate_timesFreed (s : Simulator A T F) :
    timesFreed (simulatorTerminate stale s).calls ≤ Multiset.card (queued s) ∧
      (timesFreed (simulatorTerminate stale s).calls = Multiset.card (queued s) ↔
        ∀ evt ∈ queued s, (stale evt.evtId).isSome) := by
  unfold queued
  rw [terminate_calls]
  exact lateCalls_times (heapContents s.eventQueue)

theorem terminate_argsFreed (s : Simulator A T F) :
    argsFreed (simulatorTerminate stale s).calls ≤ (queued s).map Event.arg := by
  unfold queued
  rw [terminate_calls]
  exact lateCalls_args (heapContents s.eventQueue)

/-! ## Steps -/

variable [DecidableEq F]

theorem step_times (s : Simulator A T F) (input : SimulatorInput A T F) :
    timesFreed (callsIn τ s input) = Multiset.card (dequeuedIn τ s input) := by
  cases input with
  | outside action => rfl
  | round script =>
    unfold callsIn
    by_cases hc : simulatorCond s = true
    · rw [if_pos hc, dequeuedIn_of_cond hc, roundCalls_times, Multiset.card_singleton]
    · rw [if_neg hc, dequeuedIn_of_not hc]
      rfl

theorem step_args (s : Simulator A T F) (input : SimulatorInput A T F) :
    argsFreed (callsIn τ s input) ≤ (dequeuedIn τ s input).map Event.arg := by
  cases input with
  | outside action => exact Multiset.zero_le _
  | round script =>
    unfold callsIn
    by_cases hc : simulatorCond s = true
    · rw [if_pos hc, dequeuedIn_of_cond hc, Multiset.map_singleton]
      exact roundCalls_args s
    · rw [if_neg hc]
      exact Multiset.zero_le _

end

/-- Over a run and the termination behind it, no more times are released than
events have been invoked, and exactly as many just when no lookup of a pending
event in the freed table crashes; and no argument is released more often than
events have been invoked with it, whatever these lookups give. -/
theorem events_released {A T F : Type*} [DecidableEq F] (τ : TimeType T) (startTime : T)
    (fresh : Nat → Event A T) (inputs : List (SimulatorInput A T F))
    (stale : Int → Option (Option F × Option F)) :
    let s0 : Simulator A T F := simulatorInit startTime fresh
    let s := exec (simulatorStep τ) s0 inputs
    let last := (simulatorTerminate stale s).calls
    let released := total (simulatorStep τ) (fun s input => timesFreed (callsIn τ s input)) s0 inputs + timesFreed last
    released ≤ Multiset.card (invoked τ s0 inputs) ∧
      (released = Multiset.card (invoked τ s0 inputs) ↔
        ∀ evt ∈ heapContents s.eventQueue, (stale evt.evtId).isSome) ∧
      total (simulatorStep τ) (fun s input => argsFreed (callsIn τ s input)) s0 inputs + argsFreed last ≤
        (invoked τ s0 inputs).map Event.arg := by
  intro s0 s last released
  have hsum : invoked τ s0 inputs = dequeued τ s0 inputs + queued s := invoked_eq τ startTime fresh inputs
  have htimes : total (simulatorStep τ) (fun s input => timesFreed (callsIn τ s input)) s0 inputs =
      Multiset.card (dequeued τ s0 inputs) := by
    simp only [step_times]
    exact total_map Multiset.cardHom (dequeuedIn τ) s0 inputs
  have hreleased : released = Multiset.card (dequeued τ s0 inputs) + timesFreed last := by rw [← htimes]
  obtain ⟨hle, hiff⟩ : timesFreed last ≤ Multiset.card (queued s) ∧
      (timesFreed last = Multiset.card (queued s) ↔ ∀ evt ∈ queued s, (stale evt.evtId).isSome) :=
    terminate_timesFreed s
  refine ⟨?_, ?_, ?_⟩
  · rw [hreleased, hsum, Multiset.card_add]
    exact Nat.add_le_add_left hle _
  · rw [hreleased, hsum, Multiset.card_add, Nat.add_left_cancel_iff]
    exact hiff
  · have hargs : total (simulatorStep τ) (fun s input => argsFreed (callsIn τ s input)) s0 inputs ≤
        (dequeued τ s0 inputs).map Event.arg := by
      refine (total_le step_args s0 inputs).trans_eq ?_
      exact total_map (Multiset.mapAddMonoidHom Event.arg) (dequeuedIn τ) s0 inputs
    rw [hsum, Multiset.map_add]
    exact add_le_add hargs (terminate_argsFreed _)

end SwitchSimulation
