import SwitchSimulation.HeapMin
import SwitchSimulation.Simulator

/-!
# The clock of the simulator

The main loop copies the clock into the event and not the event's time into
the clock, so the clock stays at the start time. A run has the semantics of
discrete events just when every event it dispatches was invoked with a delay
that adds nothing to the start time.
-/

namespace SwitchSimulation

section
variable {A T F : Type*} (τ : TimeType T)

/-- The clock is the time for which the event was scheduled, and that is the
clock at which it was invoked plus its delay. -/
def OnTime (d : Dispatch A T F) : Prop :=
  d.clock = d.event.time ∧ d.clock = τ.addTime d.event.clock d.event.delay

def EventSemantics (ds : List (Dispatch A T F)) : Prop :=
  (∀ d ∈ ds, OnTime τ d) ∧ ds.Pairwise fun d d' => τ.compareTime.le d.clock d'.clock

def dispatches [DecidableEq F] (s : Simulator A T F) (inputs : List (SimulatorInput A T F)) : List (Dispatch A T F) :=
  (outs (simulatorStep τ) s inputs).filterMap id

def NoDelay (s : Simulator A T F) : SimulatorInput A T F → Prop
  | .outside _ => True
  | .round _ => simulatorCond s = true → τ.addTime s.currentTime (heapMin s.eventQueue).delay = s.currentTime

structure ClockStill (startTime : T) (s : Simulator A T F) : Prop where
  clock : s.currentTime = startTime
  invoked : ∀ k < s.eventQueue.size, (s.eventQueue.elems k).clock = startTime
  scheduled : ∀ k < s.eventQueue.size,
    (s.eventQueue.elems k).time = τ.addTime (s.eventQueue.elems k).clock (s.eventQueue.elems k).delay

variable {τ} {startTime : T} {s : Simulator A T F}

/-! ## Steps -/

theorem simulatorInit_still (fresh : Nat → Event A T) :
    ClockStill τ startTime (simulatorInit startTime fresh : Simulator A T F) :=
  ⟨rfl, fun k hk => absurd hk (Nat.not_lt_zero k), fun k hk => absurd hk (Nat.not_lt_zero k)⟩

theorem simulatorDequeue_still (h : ClockStill τ startTime s) : ClockStill τ startTime (simulatorDequeue τ s) := by
  refine ⟨h.clock, fun k hk => ?_, fun k hk => ?_⟩
  · obtain ⟨j, hj, -, he⟩ := heapPopMin_source _ hk
    simp only [simulatorDequeue, he]
    exact h.invoked j hj
  · obtain ⟨j, hj, -, he⟩ := heapPopMin_source _ hk
    simp only [simulatorDequeue, he]
    exact h.scheduled j hj

theorem size_pos_of_cond (hc : simulatorCond s = true) : 0 < s.eventQueue.size := by
  unfold simulatorCond at hc
  exact of_decide_eq_true (Bool.and_eq_true_iff.mp hc).2

variable [DecidableEq F]

theorem simulatorAction_still (h : ClockStill τ startTime s) (action : Action A T F) :
    ClockStill τ startTime (simulatorAction τ s action) := by
  cases action with
  | registerEvent evtId callback freeArg key val => exact ⟨h.clock, h.invoked, h.scheduled⟩
  | setShouldTerminate => exact ⟨h.clock, h.invoked, h.scheduled⟩
  | invokeEvent evtId arg futureTime =>
    simp only [simulatorAction, simulatorInvokeEvent]
    refine ⟨h.clock, fun k hk => ?_, fun k hk => ?_⟩ <;> rw [heapInsert_size] at hk
    · cases heapInsert_source (C := compareEvent τ) s.eventQueue _ hk with
      | inl he => rw [he]; exact h.clock
      | inr he =>
        obtain ⟨j, hj, he⟩ := he
        rw [he]; exact h.invoked j hj
    · cases heapInsert_source (C := compareEvent τ) s.eventQueue _ hk with
      | inl he => rw [he]
      | inr he =>
        obtain ⟨j, hj, he⟩ := he
        rw [he]; exact h.scheduled j hj

theorem script_still (script : List (Action A T F)) (h : ClockStill τ startTime s) :
    ClockStill τ startTime (script.foldl (simulatorAction τ) s) := by
  induction script generalizing s with
  | nil => exact h
  | cons action script ih => exact ih (simulatorAction_still h action)

theorem simulatorRound_still (h : ClockStill τ startTime s) (script : List (Action A T F)) :
    ClockStill τ startTime (simulatorRound τ s script).1 := by
  unfold simulatorRound
  split
  · exact script_still script (simulatorDequeue_still h)
  · exact simulatorDequeue_still h

theorem simulatorStep_of_cond (hc : simulatorCond s = true) (script : List (Action A T F)) :
    simulatorStep τ s (.round script) = ((simulatorRound τ s script).1, some (simulatorRound τ s script).2) :=
  if_pos hc

theorem simulatorStep_of_not (hc : ¬ simulatorCond s = true) (script : List (Action A T F)) :
    simulatorStep τ s (.round script) = (s, none) := if_neg hc

theorem simulatorStep_still (h : ClockStill τ startTime s) (input : SimulatorInput A T F) :
    ClockStill τ startTime (simulatorStep τ s input).1 := by
  cases input with
  | outside action => exact simulatorAction_still h action
  | round script =>
    by_cases hc : simulatorCond s = true
    · rw [simulatorStep_of_cond hc]; exact simulatorRound_still h script
    · rw [simulatorStep_of_not hc]; exact h

/-! ## Dispatches -/

theorem simulatorRound_dispatch (script : List (Action A T F)) :
    (simulatorRound τ s script).2.event = heapMin s.eventQueue ∧
      (simulatorRound τ s script).2.clock = s.currentTime := by
  unfold simulatorRound
  split <;> exact ⟨rfl, rfl⟩

theorem onTime_round_iff (h : ClockStill τ startTime s) (hc : simulatorCond s = true)
    (script : List (Action A T F)) : OnTime τ (simulatorRound τ s script).2 ↔
      τ.addTime s.currentTime (heapMin s.eventQueue).delay = s.currentTime := by
  obtain ⟨he, hcl⟩ := simulatorRound_dispatch (τ := τ) (s := s) script
  have hsize := size_pos_of_cond hc
  have hroot : (heapMin s.eventQueue).clock = s.currentTime := (h.invoked 0 hsize).trans h.clock.symm
  have htime : (heapMin s.eventQueue).time =
      τ.addTime (heapMin s.eventQueue).clock (heapMin s.eventQueue).delay := h.scheduled 0 hsize
  unfold OnTime
  rw [he, hcl, htime, hroot, and_self, eq_comm]

theorem onTime_step_iff (h : ClockStill τ startTime s) (input : SimulatorInput A T F) :
    (∀ d ∈ (simulatorStep τ s input).2, OnTime τ d) ↔ NoDelay τ s input := by
  cases input with
  | outside action => exact iff_of_true (fun d hd => by cases hd) trivial
  | round script =>
    unfold NoDelay
    by_cases hc : simulatorCond s = true
    · rw [simulatorStep_of_cond hc, ← onTime_round_iff h hc script]
      exact ⟨fun ho _ => ho _ rfl, fun ho d hd => Option.some.inj hd ▸ ho hc⟩
    · rw [simulatorStep_of_not hc]
      exact iff_of_true (fun d hd => by cases hd) fun hc' => absurd hc' hc

theorem clock_step (h : ClockStill τ startTime s) (input : SimulatorInput A T F) :
    ∀ d ∈ (simulatorStep τ s input).2, d.clock = startTime := by
  intro d hd
  cases input with
  | outside action => cases hd
  | round script =>
    by_cases hc : simulatorCond s = true
    · rw [simulatorStep_of_cond hc] at hd
      rw [← Option.some.inj hd, (simulatorRound_dispatch script).2, h.clock]
    · rw [simulatorStep_of_not hc] at hd
      cases hd

/-! ## Runs -/

theorem mem_dispatches {inputs : List (SimulatorInput A T F)} {d : Dispatch A T F} :
    d ∈ dispatches τ s inputs ↔ some d ∈ outs (simulatorStep τ) s inputs := by
  simp [dispatches]

theorem dispatches_clock (h : ClockStill τ startTime s) (inputs : List (SimulatorInput A T F)) :
    ∀ d ∈ dispatches τ s inputs, d.clock = startTime := by
  intro d hd
  have hmeets := meets_of_inv (ClockStill τ startTime) (fun _ input h => simulatorStep_still h input) h inputs
  exact hmeets.outs (Q := fun o => ∀ d ∈ o, d.clock = startTime) (ClockStill τ startTime)
    (fun _ input h _ => ⟨simulatorStep_still h input, clock_step h input⟩) h _ (mem_dispatches.mp hd) d rfl

theorem dispatches_onTime_iff (h : ClockStill τ startTime s) (inputs : List (SimulatorInput A T F)) :
    (∀ d ∈ dispatches τ s inputs, OnTime τ d) ↔ Meets (simulatorStep τ) (NoDelay τ) s inputs := by
  rw [← outs_iff_meets (Q := fun o => ∀ d ∈ o, OnTime τ d) (ClockStill τ startTime)
    (fun _ input h => simulatorStep_still h input) (fun _ input h => onTime_step_iff h input) h]
  constructor
  · intro h o ho d hd
    rw [Option.mem_def.mp hd] at ho
    exact h d (mem_dispatches.mpr ho)
  · intro h d hd
    exact h _ (mem_dispatches.mp hd) d rfl

end

/-- A run has the semantics of discrete events just when every event that its
main loop takes was invoked with a delay that adds nothing to the clock. -/
theorem event_semantics_iff {A T F : Type*} [DecidableEq F] (τ : TimeType T) (startTime : T)
    (fresh : Nat → Event A T) (inputs : List (SimulatorInput A T F)) :
    EventSemantics τ (dispatches τ (simulatorInit startTime fresh) inputs) ↔
      Meets (simulatorStep τ) (NoDelay τ) (simulatorInit startTime fresh) inputs := by
  have h0 : ClockStill τ startTime (simulatorInit startTime fresh : Simulator A T F) := simulatorInit_still fresh
  unfold EventSemantics
  rw [dispatches_onTime_iff h0, and_iff_left]
  -- all clock values are the same
  apply List.pairwise_of_forall_mem_list
  intro d hd d' hd'
  rw [dispatches_clock h0 inputs d hd, dispatches_clock h0 inputs d' hd']
  exact Comparator.le_refl startTime

/-- An event is invoked at time 0 with delay 5, and the callback of its id
runs, the two blocks of the registration having the right contents already. -/
def lateEvent : List (SimulatorInput Unit Nat Nat) :=
  [.outside (.registerEvent 1 (some 7) (some 8) ⟨1, 1⟩ ⟨2, some 7, some 8⟩), .outside (.invokeEvent 1 () 5),
    .round []]

theorem clock_not_advanced :
    ¬ EventSemantics uintTime (dispatches uintTime (simulatorInit 0 fun _ => ⟨0, (), 0, 0, 0⟩) lateEvent) := by
  intro h
  have hlate : (dispatches uintTime (simulatorInit 0 fun _ => ⟨0, (), 0, 0, 0⟩) lateEvent).any
      (fun d => d.callback = some 7 ∧ d.clock = 0 ∧ d.event.time = 5) = true := by decide +kernel
  obtain ⟨d, hd, hp⟩ := List.any_eq_true.mp hlate
  obtain ⟨-, hc, ht⟩ := of_decide_eq_true hp
  have := (h.1 d hd).1
  omega

end SwitchSimulation
