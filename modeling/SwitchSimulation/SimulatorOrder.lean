import SwitchSimulation.HeapContents
import SwitchSimulation.SimulatorClock

/-!
# The order of events

The clock stands still, so that the time of an event is the start time and its
delay. As long as the main loop never takes an event from a queue of more than
four, it takes one with the least of these times.
-/

namespace SwitchSimulation

/-- `UINT_TIME`, in the 32-bit arithmetic of `unsigned int`. -/
def uintTimeWord : TimeType (BitVec 32) where
  compareTime := Comparator.ofKey BitVec.toNat
  addTime lhs rhs := rhs + lhs
  copyTime lhs _ := lhs
  copyTime_eq _ _ := rfl

section
variable {A T F : Type*} (τ : TimeType T)

def FewPending (s : Simulator A T F) : SimulatorInput A T F → Prop
  | .outside _ => True
  | .round _ => simulatorCond s = true → heapSize s.eventQueue ≤ 4

instance (s : Simulator A T F) : ∀ input, Decidable (FewPending s input)
  | .outside _ => inferInstanceAs (Decidable True)
  | .round _ => inferInstanceAs (Decidable (simulatorCond s = true → heapSize s.eventQueue ≤ 4))

/-- The delay of the event that a round takes brings it to the least time of all that are pending. -/
def TakesLeast (startTime : T) (s : Simulator A T F) : SimulatorInput A T F → Prop
  | .outside _ => True
  | .round _ => simulatorCond s = true → ∀ evt ∈ heapContents s.eventQueue,
      τ.compareTime.le (τ.addTime startTime (nextEvent τ s).delay) (τ.addTime startTime evt.delay)

structure QueueInOrder (startTime : T) (s : Simulator A T F) : Prop where
  still : ClockStill τ startTime s
  root : RootLeast (compareEvent τ) s.eventQueue

variable {τ} {startTime : T} {s : Simulator A T F}

theorem QueueInOrder.dequeue (h : QueueInOrder τ startTime s) (hs : heapSize s.eventQueue ≤ 4) :
    QueueInOrder τ startTime (simulatorDequeue τ s) :=
  ⟨simulatorDequeue_still h.still, (heapPopMin_rootLeast_iff s.eventQueue).mpr (leastNearRoot_of_small hs)⟩

theorem QueueInOrder.takesLeast (h : QueueInOrder τ startTime s) (input : SimulatorInput A T F) :
    TakesLeast τ startTime s input := by
  cases input with
  | outside action => trivial
  | round script =>
    intro hc evt hevt
    obtain ⟨k, hk, rfl⟩ := List.mem_map.mp hevt
    have hk : k < s.eventQueue.size := List.mem_range.mp hk
    have hsize := size_pos_of_cond hc
    have htime : ∀ j < s.eventQueue.size, (s.eventQueue.elems j).time =
        τ.addTime startTime (s.eventQueue.elems j).delay := by
      intro j hj
      rw [h.still.scheduled j hj, h.still.invoked j hj]
    have hle : τ.compareTime.le (s.eventQueue.elems 0).time (s.eventQueue.elems k).time := h.root k hk
    rw [htime 0 hsize, htime k hk] at hle
    exact hle

variable [DecidableEq F]

theorem QueueInOrder.action (h : QueueInOrder τ startTime s) (action : Action A T F) :
    QueueInOrder τ startTime (simulatorAction τ s action) := by
  refine ⟨simulatorAction_still h.still action, ?_⟩
  cases action with
  | registerEvent evtId callback freeArg key val => exact h.root
  | setShouldTerminate => exact h.root
  | invokeEvent evtId arg futureTime => exact heapInsert_rootLeast h.root _

theorem QueueInOrder.script (script : List (Action A T F)) (h : QueueInOrder τ startTime s) :
    QueueInOrder τ startTime (script.foldl (simulatorAction τ) s) := by
  induction script generalizing s with
  | nil => exact h
  | cons action script ih => exact ih (h.action action)

theorem QueueInOrder.step (h : QueueInOrder τ startTime s) {input : SimulatorInput A T F} (hf : FewPending s input) :
    QueueInOrder τ startTime (simulatorStep τ s input).1 := by
  cases input with
  | outside action => exact h.action action
  | round script =>
    by_cases hc : simulatorCond s = true
    · rw [simulatorStep_of_cond hc]
      have hd := h.dequeue (hf hc)
      unfold simulatorRound
      split
      · exact hd.script script
      · exact hd
    · rw [simulatorStep_of_not hc]
      exact h

end

/-- In a run whose main loop never takes an event from a queue of more than four,
it always takes one whose delay, added to the start time, is least. -/
theorem events_by_delay {A T F : Type*} [DecidableEq F] (τ : TimeType T) (startTime : T) (fresh : Nat → Event A T)
    (inputs : List (SimulatorInput A T F))
    (hf : Meets (simulatorStep τ) FewPending (simulatorInit startTime fresh) inputs) :
    Meets (simulatorStep τ) (TakesLeast τ startTime) (simulatorInit startTime fresh) inputs :=
  hf.imp (QueueInOrder τ startTime) (fun _ input h hi => ⟨h.step hi, h.takesLeast input⟩)
    ⟨simulatorInit_still fresh, fun k hk => absurd hk (Nat.not_lt_zero k)⟩

/-- Three events, of which the callback of the first invokes two more. -/
def timedEvents : List (SimulatorInput Unit (BitVec 32) Nat) :=
  [.outside (.registerEvent 1 (some 7) (some 8) ⟨1, 1⟩ ⟨2, some 7, some 8⟩), .outside (.invokeEvent 1 () 9),
    .outside (.invokeEvent 1 () 5), .outside (.invokeEvent 1 () 0xffffffff),
    .round [.invokeEvent 1 () 3, .invokeEvent 1 () 4], .round [], .round [], .round []]

theorem events_by_delay_words :
    Meets (simulatorStep uintTimeWord) (TakesLeast uintTimeWord 0)
      (simulatorInit 0 fun _ => ⟨0, (), 0, 0, 0⟩) timedEvents :=
  events_by_delay uintTimeWord 0 _ timedEvents (by decide +kernel)

end SwitchSimulation
