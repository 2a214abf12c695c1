import Mathlib.Algebra.GroupWithZero.Nat
import SwitchSimulation.SimulatorClock

/-!
# How long the main loop runs

Each round of the main loop takes one event from the queue, and only callbacks
put events there. So the loop returns, whatever the order in which the heap
gives the events, once it has taken those that were pending and those that its
callbacks have invoked.
-/

namespace SwitchSimulation

section
variable {A T F : Type*}

/-- The number of events that an action invokes. -/
def Action.invokes : Action A T F → Nat
  | .registerEvent _ _ _ _ _ => 0
  | .invokeEvent _ _ _ => 1
  | .setShouldTerminate => 0

def invokesIn (script : List (Action A T F)) : Nat := (script.map Action.invokes).sum

variable {τ : TimeType T} {s : Simulator A T F}

theorem dequeue_size (hc : simulatorCond s = true) :
    heapSize (simulatorDequeue τ s).eventQueue + 1 = heapSize s.eventQueue := by
  have hsize := size_pos_of_cond hc
  have hpop : heapSize (simulatorDequeue τ s).eventQueue = heapSize s.eventQueue - 1 := heapPopMin_size _
  have hpos : 0 < heapSize s.eventQueue := hsize
  omega

variable [DecidableEq F]

theorem action_size (s : Simulator A T F) (action : Action A T F) :
    heapSize (simulatorAction τ s action).eventQueue = heapSize s.eventQueue + action.invokes := by
  cases action with
  | registerEvent evtId callback freeArg key val => rfl
  | invokeEvent evtId arg futureTime => exact heapInsert_size _ _
  | setShouldTerminate => rfl

theorem script_size (script : List (Action A T F)) (s : Simulator A T F) :
    heapSize (script.foldl (simulatorAction τ) s).eventQueue = heapSize s.eventQueue + invokesIn script := by
  induction script generalizing s with
  | nil => rfl
  | cons action script ih =>
    unfold invokesIn at ih ⊢
    rw [List.foldl_cons, ih, action_size, List.map_cons, List.sum_cons, Nat.add_assoc]

/-- A callback that is skipped invokes nothing. -/
theorem round_size (hc : simulatorCond s = true) (script : List (Action A T F)) :
    heapSize (simulatorStep τ s (.round script)).1.eventQueue + 1 ≤ heapSize s.eventQueue + invokesIn script := by
  have hdequeue := dequeue_size (τ := τ) hc
  rw [simulatorStep_of_cond hc]
  unfold simulatorRound
  split
  · have hscript := script_size (τ := τ) script (simulatorDequeue τ s)
    simp only [hscript]
    omega
  · simp only
    omega

theorem round_returned (hc : ¬ simulatorCond s = true) (rounds : List (List (Action A T F))) :
    exec (simulatorStep τ) s (rounds.map .round) = s ∧ dispatches τ s (rounds.map .round) = [] := by
  induction rounds with
  | nil => exact ⟨rfl, rfl⟩
  | cons script rounds ih =>
    obtain ⟨hexec, hnone⟩ := ih
    unfold dispatches at hnone ⊢
    rw [List.map_cons, exec_cons, outs_cons, simulatorStep_of_not hc, List.filterMap_cons_none rfl]
    exact ⟨hexec, hnone⟩

end

/-- From any state the main loop dispatches at most as many events as are
pending and its callbacks invoke, and with that many rounds it has returned. -/
theorem main_loop_returns {A T F : Type*} [DecidableEq F] (τ : TimeType T) (s : Simulator A T F)
    (rounds : List (List (Action A T F))) :
    (dispatches τ s (rounds.map .round)).length ≤ heapSize s.eventQueue + (rounds.map invokesIn).sum ∧
      (heapSize s.eventQueue + (rounds.map invokesIn).sum ≤ rounds.length →
        simulatorCond (exec (simulatorStep τ) s (rounds.map .round)) = false) := by
  induction rounds generalizing s with
  | nil =>
    refine ⟨Nat.zero_le _, fun hlen => ?_⟩
    rw [← Bool.not_eq_true]
    intro hc
    exact absurd (Nat.le_trans (Nat.le_add_right _ _) hlen) (Nat.not_le_of_lt (size_pos_of_cond hc))
  | cons script rounds ih =>
    by_cases hc : simulatorCond s = true
    · obtain ⟨hcount, hreturn⟩ := ih (simulatorStep τ s (.round script)).1
      have hsize := round_size (τ := τ) hc script
      have hdispatch : (dispatches τ s ((script :: rounds).map .round)).length =
          (dispatches τ (simulatorStep τ s (.round script)).1 (rounds.map .round)).length + 1 := by
        unfold dispatches
        rw [List.map_cons, outs_cons, simulatorStep_of_cond hc]
        rfl
      rw [hdispatch, List.map_cons, List.map_cons, List.sum_cons, List.length_cons]
      refine ⟨by omega, fun hlen => ?_⟩
      rw [exec_cons]
      exact hreturn (by omega)
    · obtain ⟨hexec, hnone⟩ := round_returned (τ := τ) hc (script :: rounds)
      rw [hexec, hnone]
      exact ⟨Nat.zero_le _, fun _ => Bool.not_eq_true _ ▸ hc⟩

end SwitchSimulation
