import SwitchSimulation.HeapContents
import SwitchSimulation.SimulatorClock

/-!
# No event is lost or repeated

Every event that is invoked goes into the queue once, and the heap only
rearranges what it holds, so the events invoked in a run are those dequeued
together with those still in the queue. A callback that has taken only some of
its actions is one with a shorter script, so a run ends at every moment at
which the queue can be looked at.
-/

namespace SwitchSimulation

section
variable {A T F : Type*} (τ : TimeType T)

def queued (s : Simulator A T F) : Multiset (Event A T) := heapContents s.eventQueue

def invokedBy (s : Simulator A T F) : Action A T F → Multiset (Event A T)
  | .invokeEvent evtId arg futureTime =>
    {⟨evtId, arg, τ.addTime s.currentTime futureTime, s.currentTime, futureTime⟩}
  | _ => 0

variable {τ} {s : Simulator A T F}

/-! ## The queue and the loop -/

theorem queued_dequeue (hc : simulatorCond s = true) :
    queued s = {heapMin s.eventQueue} + queued (simulatorDequeue τ s) :=
  Multiset.coe_eq_coe.mpr (heapPopMin_perm s.eventQueue (size_pos_of_cond hc))

theorem not_cond_of_terminate (h : s.shouldTerminate = true) : ¬ simulatorCond s = true := by
  simp [simulatorCond, h]

theorem queued_of_return (hc : simulatorCond s = false) (ht : s.shouldTerminate = false) : queued s = 0 := by
  have hs : s.eventQueue.size = 0 := by simpa [simulatorCond, ht, heapSize] using hc
  simp [queued, heapContents, hs]

variable (τ) [DecidableEq F]

/-! ## What a run invokes and dequeues -/

def actionStep (s : Simulator A T F) (action : Action A T F) : Simulator A T F × Unit :=
  (simulatorAction τ s action, ())

def callbackRuns (s : Simulator A T F) (script : List (Action A T F)) : Prop :=
  simulatorCond s = true ∧ (simulatorRound τ s script).2.callback.isSome = true

instance (s : Simulator A T F) (script : List (Action A T F)) : Decidable (callbackRuns τ s script) :=
  inferInstanceAs (Decidable (_ ∧ _))

def invokedIn (s : Simulator A T F) : SimulatorInput A T F → Multiset (Event A T)
  | .outside action => invokedBy τ s action
  | .round script =>
    if callbackRuns τ s script then total (actionStep τ) (invokedBy τ) (simulatorDequeue τ s) script else 0

def dequeuedIn (s : Simulator A T F) (input : SimulatorInput A T F) : Multiset (Event A T) :=
  (simulatorStep τ s input).2.elim 0 fun d => {d.event}

def invoked (s : Simulator A T F) (inputs : List (SimulatorInput A T F)) : Multiset (Event A T) :=
  total (simulatorStep τ) (invokedIn τ) s inputs

def dequeued (s : Simulator A T F) (inputs : List (SimulatorInput A T F)) : Multiset (Event A T) :=
  total (simulatorStep τ) (dequeuedIn τ) s inputs

variable {τ} {script : List (Action A T F)}

/-! ## Steps -/

theorem simulatorAction_conserves (s : Simulator A T F) (action : Action A T F) :
    invokedBy τ s action + queued s = 0 + queued (simulatorAction τ s action) := by
  rw [zero_add]
  cases action with
  | registerEvent evtId callback freeArg key val => exact zero_add _
  | setShouldTerminate => exact zero_add _
  | invokeEvent evtId arg futureTime => exact (Multiset.coe_eq_coe.mpr (heapInsert_perm _ _)).symm

theorem script_conserves (s : Simulator A T F) (script : List (Action A T F)) :
    total (actionStep τ) (invokedBy τ) s script + queued s = queued (script.foldl (simulatorAction τ) s) := by
  have hnone : total (actionStep τ) (fun _ _ => (0 : Multiset (Event A T))) s script = 0 :=
    total_eq_zero (fun _ => True) (fun _ _ _ => ⟨trivial, rfl⟩) trivial script
  rw [total_conserved queued simulatorAction_conserves, hnone, zero_add, exec_eq_foldl]
  rfl

theorem simulatorRound_cases (s : Simulator A T F) (script : List (Action A T F)) :
    ((simulatorRound τ s script).2.callback.isSome = true ∧
        (simulatorRound τ s script).1 = script.foldl (simulatorAction τ) (simulatorDequeue τ s)) ∨
      (simulatorRound τ s script).2.callback.isSome = false ∧
        (simulatorRound τ s script).1 = simulatorDequeue τ s := by
  unfold simulatorRound
  split
  · exact Or.inl ⟨rfl, rfl⟩
  · exact Or.inr ⟨rfl, rfl⟩

theorem callbackRuns_step (h : callbackRuns τ s script) : (simulatorStep τ s (.round script)).1 =
    script.foldl (simulatorAction τ) (simulatorDequeue τ s) := by
  rw [simulatorStep_of_cond h.1]
  rcases simulatorRound_cases (τ := τ) s script with ⟨_, he⟩ | ⟨hn, _⟩
  · exact he
  · simp [callbackRuns, hn] at h

theorem invokedIn_runs (h : callbackRuns τ s script) : invokedIn τ s (.round script) =
    total (actionStep τ) (invokedBy τ) (simulatorDequeue τ s) script := if_pos h

theorem invokedIn_skips (h : ¬ callbackRuns τ s script) : invokedIn τ s (.round script) = 0 := if_neg h

theorem dequeuedIn_of_cond (hc : simulatorCond s = true) (script : List (Action A T F)) :
    dequeuedIn τ s (.round script) = {heapMin s.eventQueue} := by
  unfold dequeuedIn
  rw [simulatorStep_of_cond hc, Option.elim_some, (simulatorRound_dispatch script).1]

theorem dequeuedIn_of_not (hc : ¬ simulatorCond s = true) (script : List (Action A T F)) :
    dequeuedIn τ s (.round script) = 0 := by
  unfold dequeuedIn
  rw [simulatorStep_of_not hc, Option.elim_none]

theorem simulatorStep_conserves (s : Simulator A T F) (input : SimulatorInput A T F) :
    invokedIn τ s input + queued s = dequeuedIn τ s input + queued (simulatorStep τ s input).1 := by
  cases input with
  | outside action => exact simulatorAction_conserves s action
  | round script =>
    by_cases hc : simulatorCond s = true
    · rw [simulatorStep_of_cond hc, dequeuedIn_of_cond hc, queued_dequeue hc (τ := τ), add_left_comm]
      congr 1
      rcases simulatorRound_cases (τ := τ) s script with ⟨hr, he⟩ | ⟨hr, he⟩
      · rw [invokedIn_runs ⟨hc, hr⟩, he, script_conserves]
      · rw [invokedIn_skips fun h => by simp [callbackRuns, hr] at h, he, zero_add]
    · rw [simulatorStep_of_not hc, dequeuedIn_of_not hc, invokedIn_skips fun h => hc h.1]

theorem invoked_eq (τ : TimeType T) (startTime : T) (fresh : Nat → Event A T) (inputs : List (SimulatorInput A T F)) :
    let s0 : Simulator A T F := simulatorInit startTime fresh
    invoked τ s0 inputs = dequeued τ s0 inputs + queued (exec (simulatorStep τ) s0 inputs) := by
  intro s0
  have hempty : queued s0 = 0 := rfl
  have := total_conserved queued (simulatorStep_conserves (τ := τ)) s0 inputs
  rwa [hempty, add_zero] at this

/-! ## Termination -/

theorem simulatorAction_terminate (h : s.shouldTerminate = true) (action : Action A T F) :
    (simulatorAction τ s action).shouldTerminate = true := by
  cases action with
  | registerEvent evtId callback freeArg key val => exact h
  | invokeEvent evtId arg futureTime => exact h
  | setShouldTerminate => rfl

theorem script_terminate {script : List (Action A T F)}
    (h : s.shouldTerminate = true ∨ Action.setShouldTerminate ∈ script) :
    (script.foldl (simulatorAction τ) s).shouldTerminate = true := by
  induction script generalizing s with
  | nil => exact h.resolve_right List.not_mem_nil
  | cons action script ih =>
    apply ih
    rcases h with h | h
    · exact Or.inl (simulatorAction_terminate h action)
    · cases List.mem_cons.mp h with
      | inl he => subst he; exact Or.inl rfl
      | inr hm => exact Or.inr hm

theorem simulatorStep_terminate (h : s.shouldTerminate = true) (input : SimulatorInput A T F) :
    (simulatorStep τ s input).1.shouldTerminate = true ∧ dequeuedIn τ s input = 0 := by
  cases input with
  | outside action => exact ⟨simulatorAction_terminate h action, rfl⟩
  | round script =>
    have hc := not_cond_of_terminate h
    rw [simulatorStep_of_not hc, dequeuedIn_of_not hc]
    exact ⟨h, rfl⟩

theorem dequeued_terminate (h : s.shouldTerminate = true) (inputs : List (SimulatorInput A T F)) :
    dequeued τ s inputs = 0 :=
  total_eq_zero (fun s => s.shouldTerminate = true) (fun _ input h => simulatorStep_terminate h input) h inputs

end

/-- In every run the events invoked are those dequeued and those queued. When
the loop has returned and was not told to terminate, they are those dequeued;
and behind a callback that tells it to terminate nothing more is dequeued. -/
theorem events_conserved {A T F : Type*} [DecidableEq F] (τ : TimeType T) (startTime : T)
    (fresh : Nat → Event A T) (inputs : List (SimulatorInput A T F)) :
    let s0 : Simulator A T F := simulatorInit startTime fresh
    let s := exec (simulatorStep τ) s0 inputs
    invoked τ s0 inputs = dequeued τ s0 inputs + queued s ∧
      dequeued τ s0 inputs ≤ invoked τ s0 inputs ∧
      (simulatorCond s = false → s.shouldTerminate = false → dequeued τ s0 inputs = invoked τ s0 inputs) ∧
      ∀ script later, callbackRuns τ s script → .setShouldTerminate ∈ script →
        dequeued τ (simulatorStep τ s (.round script)).1 later = 0 := by
  intro s0 s
  have hsum : invoked τ s0 inputs = dequeued τ s0 inputs + queued s := invoked_eq τ startTime fresh inputs
  refine ⟨hsum, ?_, ?_, ?_⟩
  · rw [hsum]
    exact Multiset.le_add_right _ _
  · intro hc ht
    rw [hsum, queued_of_return hc ht, add_zero]
  · intro script later hr hm
    apply dequeued_terminate
    rw [callbackRuns_step hr]
    exact script_terminate (Or.inr hm)

end SwitchSimulation
