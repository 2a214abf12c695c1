import SwitchSimulation.HeapContents
import SwitchSimulation.SimulatorClock

/-!
# Callbacks and releases of the simulator

The main loop runs a callback only if the event has a function to free its
argument too. Terminating frees the event table before the events, and each
event that is freed is looked up in that table.
-/

namespace SwitchSimulation

section
variable {A T F : Type*}

/-! ## Dispatch -/

def SimulatorCall.onArg : SimulatorCall A T F → Bool
  | .callback _ _ => true
  | .freeArg _ _ => true
  | _ => false

def SimulatorCall.callback? : SimulatorCall A T F → Option F
  | .callback f _ => some f
  | _ => none

variable (τ : TimeType T)

/-- If the event that a round takes has a callback, the round runs it once and
then releases the argument once, if there is a function for it. -/
def DispatchComplete (s : Simulator A T F) : SimulatorInput A T F → Prop
  | .outside _ => True
  | .round _ => simulatorCond s = true → ∀ callback freeArg,
      eventTableLookup s.eventTable (heapMin s.eventQueue).evtId = (some callback, freeArg) →
        (roundCalls τ s).filter SimulatorCall.onArg =
          .callback callback (heapMin s.eventQueue).arg ::
            (freeArg.map fun f => .freeArg f (heapMin s.eventQueue).arg).toList

def CallbackReleases (s : Simulator A T F) : SimulatorInput A T F → Prop
  | .outside _ => True
  | .round _ => simulatorCond s = true →
      (eventTableLookup s.eventTable (heapMin s.eventQueue).evtId).1.isSome →
        (eventTableLookup s.eventTable (heapMin s.eventQueue).evtId).2.isSome

variable {τ} {s : Simulator A T F}

theorem handlerCalls_onArg (arg : A) (r : Option F × Option F) :
    (handlerCalls arg r : List (SimulatorCall A T F)).filter SimulatorCall.onArg = handlerCalls arg r := by
  unfold handlerCalls
  split <;> rfl

theorem roundCalls_onArg (s : Simulator A T F) :
    (roundCalls τ s).filter SimulatorCall.onArg =
      handlerCalls (heapMin s.eventQueue).arg (eventTableLookup s.eventTable (heapMin s.eventQueue).evtId) := by
  unfold roundCalls
  rw [List.filter_cons_of_neg Bool.false_ne_true, List.filter_append, handlerCalls_onArg]
  exact List.append_nil _

theorem dispatchComplete_iff (s : Simulator A T F) (input : SimulatorInput A T F) :
    DispatchComplete τ s input ↔ CallbackReleases s input := by
  cases input with
  | outside action => exact Iff.rfl
  | round script =>
    apply imp_congr_right
    intro _
    rw [roundCalls_onArg]
    cases eventTableLookup s.eventTable (heapMin s.eventQueue).evtId with
    | mk callback freeArg =>
      cases callback with
      | none => exact iff_of_true (fun c f he => by cases he) fun hc => by cases hc
      | some callback =>
        cases freeArg with
        | none => exact iff_of_false (fun h => by cases h callback none rfl) fun h => by cases h rfl
        | some freeArg =>
          refine iff_of_true (fun c f he => ?_) fun _ => rfl
          cases he
          rfl

/-- The callback that a round calls is the one whose actions it takes. -/
theorem simulatorRound_callback [DecidableEq F] (s : Simulator A T F) (script : List (Action A T F)) :
    (roundCalls τ s).filterMap SimulatorCall.callback? = (simulatorRound τ s script).2.callback.toList := by
  unfold simulatorRound
  cases hr : eventTableLookup s.eventTable (copyIntoEvent τ s (nextEvent τ s)).evtId with
  | mk callback freeArg =>
    simp only [roundCalls, hr]
    cases callback with
    | none => rfl
    | some callback =>
      cases freeArg with
      | none => rfl
      | some freeArg => rfl

/-! ## Termination -/

def SimulatorCall.isLookup : SimulatorCall A T F → Bool
  | .lookup _ => true
  | _ => false

def SimulatorCall.freedArg? : SimulatorCall A T F → Option (F × A)
  | .freeArg f arg => some (f, arg)
  | _ => none

def SimulatorCall.freedTime? : SimulatorCall A T F → Option T
  | .freeTime time => some time
  | _ => none

variable (stale : Int → Option (Option F × Option F))

structure CleanTermination (s : Simulator A T F) : Prop where
  args : ((simulatorTerminate stale s).calls.filterMap SimulatorCall.freedArg?).Perm
    ((heapContents s.eventQueue).filterMap fun evt =>
      (eventTableLookup s.eventTable evt.evtId).2.map fun f => (f, evt.arg))
  times : ((simulatorTerminate stale s).calls.filterMap SimulatorCall.freedTime?).Perm
    ((heapContents s.eventQueue).map Event.time)
  lookups : (simulatorTerminate stale s).calls.Pairwise fun a b => a = .freeTable → b.isLookup = false
  returns : (simulatorTerminate stale s).crashed = false

/-- The calls for the events once the table is freed. A lookup that crashes is the last one. -/
def lateCalls : List (Event A T) → List (SimulatorCall A T F)
  | [] => []
  | evt :: events =>
    .lookup evt.evtId ::
      match stale evt.evtId with
      | none => []
      | some (_, freeArg) =>
        (freeArg.map fun f => .freeArg f evt.arg).toList ++ .freeTime evt.time :: lateCalls events

variable {stale}

theorem freeEvents_crashed (events : List (Event A T)) {t : Teardown A T F} (ht : t.crashed = true) :
    events.foldl (fun t evt => freeEvent stale evt t) t = t := by
  induction events with
  | nil => rfl
  | cons evt events ih =>
    have hstay : freeEvent stale evt t = t := if_pos ht
    rw [List.foldl_cons, hstay, ih]

theorem freeEvents_calls (events : List (Event A T)) {t : Teardown A T F} (ht : t.eventTable = none)
    (hc : t.crashed = false) :
    (events.foldl (fun t evt => freeEvent stale evt t) t).calls = t.calls ++ lateCalls stale events := by
  induction events generalizing t with
  | nil => exact (List.append_nil _).symm
  | cons evt events ih =>
    rw [List.foldl_cons]
    cases hs : stale evt.evtId with
    | none =>
      have hstep : freeEvent stale evt t = { t with calls := t.calls ++ [.lookup evt.evtId], crashed := true } := by
        simp only [freeEvent, teardownLookup, ht, hc, hs, Bool.false_eq_true, if_false]
      rw [hstep, freeEvents_crashed events rfl]
      simp only [lateCalls, hs]
    | some r =>
      obtain ⟨callback, freeArg⟩ := r
      have hstep : freeEvent stale evt t = { t with
          calls := t.calls ++ .lookup evt.evtId ::
            ((freeArg.map fun f => .freeArg f evt.arg).toList ++ [.freeTime evt.time]) } := by
        simp only [freeEvent, teardownLookup, ht, hc, hs, Bool.false_eq_true, if_false]
      rw [hstep]
      refine Eq.trans (ih ?_ ?_) ?_
      · exact ht
      · exact hc
      · simp only [lateCalls, hs, List.append_assoc, List.cons_append, List.nil_append]

theorem terminate_calls (s : Simulator A T F) : (simulatorTerminate stale s).calls =
    .freeTable :: lateCalls stale (heapContents s.eventQueue) := by
  unfold simulatorTerminate
  rw [heapFree_contents, freeEvents_calls _ rfl rfl]
  rfl

theorem cleanTermination_iff (s : Simulator A T F) :
    CleanTermination stale s ↔ heapSize s.eventQueue = 0 := by
  cases hl : heapContents s.eventQueue with
  | nil =>
    have hs : heapSize s.eventQueue = 0 := by
      have hlength : (heapContents s.eventQueue).length = s.eventQueue.size := by simp [heapContents]
      rw [hl] at hlength
      exact hlength.symm
    have hcalls : (simulatorTerminate stale s).calls = [.freeTable] := by
      rw [terminate_calls, hl]
      rfl
    refine iff_of_true ⟨?_, ?_, ?_, ?_⟩ hs
    · rw [hcalls, hl]
      exact .refl _
    · rw [hcalls, hl]
      exact .refl _
    · rw [hcalls]
      exact List.pairwise_singleton ..
    · unfold simulatorTerminate
      rw [heapFree_contents, hl]
      rfl
  | cons evt events =>
    refine iff_of_false (fun h => ?_) fun hs => ?_
    · -- the first event is looked up after the table is freed
      have hlookups := h.lookups
      rw [terminate_calls, hl, List.pairwise_cons] at hlookups
      have := hlookups.1 (.lookup evt.evtId) (List.mem_cons_self ..) rfl
      cases this
    · unfold heapContents at hl
      rw [show s.eventQueue.size = 0 from hs] at hl
      cases hl

end

/-! ## Runs -/

/-- Every round of a run completes its dispatch just when every callback that
is due has a function to free the argument. -/
theorem dispatch_complete_iff {A T F : Type*} [DecidableEq F] (τ : TimeType T) (startTime : T)
    (fresh : Nat → Event A T) (inputs : List (SimulatorInput A T F)) :
    Meets (simulatorStep τ) (DispatchComplete τ) (simulatorInit startTime fresh) inputs ↔
      Meets (simulatorStep τ) CallbackReleases (simulatorInit startTime fresh) inputs :=
  meets_congr (fun _ => True) (fun _ _ _ => trivial) (fun s input _ => dispatchComplete_iff s input) trivial inputs

/-- Terminating after a run is clean just when no event is pending. -/
theorem terminate_clean_iff {A T F : Type*} [DecidableEq F] (τ : TimeType T) (startTime : T)
    (fresh : Nat → Event A T) (inputs : List (SimulatorInput A T F)) (stale : Int → Option (Option F × Option F)) :
    let s := exec (simulatorStep τ) (simulatorInit startTime fresh) inputs
    CleanTermination stale s ↔ heapSize s.eventQueue = 0 :=
  cleanTermination_iff _

/-- The callback of the event has no function to free the argument, the two
blocks of the registration having the right contents already. -/
def unfreedEvent : List (SimulatorInput Unit Nat Nat) :=
  [.outside (.registerEvent 1 (some 7) none ⟨1, 1⟩ ⟨2, some 7, none⟩), .outside (.invokeEvent 1 () 5), .round []]

theorem callback_not_run : ¬ Meets (simulatorStep uintTime) (DispatchComplete uintTime)
    (simulatorInit 0 fun _ => ⟨0, (), 0, 0, 0⟩) unfreedEvent := by
  intro h
  have hround := h.2.2.1 (by decide +kernel) 7 none (by decide +kernel)
  revert hround
  decide +kernel

theorem terminate_not_clean : ¬ CleanTermination (fun _ => some (none, none))
    (exec (simulatorStep uintTime) (simulatorInit 0 fun _ => ⟨0, (), 0, 0, 0⟩)
      [.outside (.registerEvent 1 (some 7) (some 8) ⟨1, 1⟩ ⟨2, some 7, some 8⟩),
        .outside (.invokeEvent 1 () 5)] : Simulator Unit Nat Nat) := by
  intro h
  exact absurd h.lookups (by decide +kernel)

end SwitchSimulation
