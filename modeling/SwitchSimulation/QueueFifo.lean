import SwitchSimulation.Queue

/-!
# The queue against a plain list

Below a full ring the queue is a FIFO list: the window of `size` slots from
`head` is the list, and `tail` is the slot behind it. The resize copies from
`head` until it meets `tail`, and on a full ring the two are equal, so it
copies nothing: the next dequeue returns the newest element.
-/

namespace SwitchSimulation

section
variable {α : Type*}

def fifoStep (xs : List (Option α)) : QueueCall α → List (Option α) × QueueResult α
  | .enqueue elem _ => (xs ++ [elem], .void)
  | .dequeue => (xs.tail, .elem xs.head?.join)
  | .peek => (xs, .elem xs.head?.join)
  | .size => (xs, .count xs.length)

structure QueueHolds (q : Queue α) (xs : List (Option α)) : Prop where
  size_le : q.size ≤ q.capacity
  tail_eq : q.tail = (q.head + q.size) % q.capacity
  elems_eq : window q.elems q.capacity q.head q.size = xs

theorem QueueHolds.length {q : Queue α} {xs : List (Option α)} (h : QueueHolds q xs) : xs.length = q.size := by
  rw [← h.elems_eq, length_window]

theorem QueueHolds.tail_of_full {q : Queue α} {xs : List (Option α)} (h : QueueHolds q xs)
    (hfull : q.size = q.capacity) : q.tail = q.head := by
  rw [h.tail_eq, hfull, Nat.add_mod_right, Nat.mod_eq_of_lt q.head_lt]

theorem queueCreate_holds (fresh : Nat → Option α) : QueueHolds (queueCreate fresh) [] :=
  ⟨Nat.zero_le _, rfl, rfl⟩

def HasRoom (q : Queue α) : QueueCall α → Prop
  | .enqueue _ _ => q.size < q.capacity
  | _ => True

instance (q : Queue α) : ∀ c, Decidable (HasRoom q c)
  | .enqueue _ _ => inferInstanceAs (Decidable (q.size < q.capacity))
  | .dequeue => inferInstanceAs (Decidable True)
  | .peek => inferInstanceAs (Decidable True)
  | .size => inferInstanceAs (Decidable True)

theorem queueEnqueue_of_room {q : Queue α} (h : q.size < q.capacity) (elem : Option α)
    (fresh : Nat → Option α) : queueEnqueue q elem fresh = queueStore q elem := by
  unfold queueEnqueue; rw [if_neg (by omega)]

theorem queueStore_holds {q : Queue α} {xs : List (Option α)} (h : QueueHolds q xs)
    (hroom : q.size < q.capacity) (elem : Option α) : QueueHolds (queueStore q elem) (xs ++ [elem]) where
  size_le := hroom
  tail_eq := by
    simp only [queueStore]
    rw [h.tail_eq, Nat.mod_add_mod, Nat.add_assoc]
  elems_eq := by
    simp only [queueStore]
    rw [h.tail_eq, window_push _ _ _ hroom, h.elems_eq]

theorem queuePeek_holds {q : Queue α} {xs : List (Option α)} (h : QueueHolds q xs) :
    queuePeek q = xs.head?.join := by
  unfold queuePeek
  cases hs : q.size with
  | zero =>
    have : xs = [] := List.eq_nil_of_length_eq_zero (by rw [h.length, hs])
    simp [this]
  | succ k =>
    rw [if_neg (by omega), ← h.elems_eq, hs, window_cons _ q.head_lt]
    rfl

theorem queueDequeue_snd (q : Queue α) : (queueDequeue q).2 = queuePeek q := by
  unfold queueDequeue queuePeek
  split <;> rfl

theorem queueDequeue_holds {q : Queue α} {xs : List (Option α)} (h : QueueHolds q xs) :
    QueueHolds (queueDequeue q).1 xs.tail := by
  unfold queueDequeue
  cases hs : q.size with
  | zero =>
    have : xs = [] := List.eq_nil_of_length_eq_zero (by rw [h.length, hs])
    subst this
    simpa using h
  | succ k =>
    rw [if_neg (by omega)]
    have hcap := h.size_le
    refine ⟨by simp only; omega, ?_, ?_⟩
    · simp only
      rw [h.tail_eq, Nat.mod_add_mod, hs, show q.head + 1 + (k + 1 - 1) = q.head + (k + 1) by omega]
    · simp only
      rw [← h.elems_eq, hs, window_cons _ q.head_lt]
      rfl

theorem queueStep_refines (q : Queue α) (xs : List (Option α)) (c : QueueCall α) (h : QueueHolds q xs)
    (hroom : HasRoom q c) :
    QueueHolds (queueStep q c).1 (fifoStep xs c).1 ∧ (queueStep q c).2 = (fifoStep xs c).2 := by
  cases c with
  | enqueue elem fresh =>
    simp only [queueStep, fifoStep, queueEnqueue_of_room hroom]
    exact ⟨queueStore_holds h hroom elem, trivial⟩
  | dequeue =>
    simp only [queueStep, fifoStep, queueDequeue_snd, queuePeek_holds h]
    exact ⟨queueDequeue_holds h, trivial⟩
  | peek => exact ⟨h, by simp only [queueStep, fifoStep, queuePeek_holds h]⟩
  | size => exact ⟨h, by simp only [queueStep, fifoStep, queueSize, h.length]⟩

/-- Every run that never enqueues on a full ring answers as the list does. -/
theorem queue_is_fifo (fresh : Nat → Option α) (calls : List (QueueCall α))
    (hroom : Meets queueStep HasRoom (queueCreate fresh) calls) :
    outs queueStep (queueCreate fresh) calls = outs fifoStep [] calls :=
  (sim_run QueueHolds queueStep_refines (queueCreate_holds fresh) hroom).2

theorem queue_is_fifo_wrapping :
    let round : List (QueueCall Nat) := [.enqueue (some 1) (fun _ => none), .enqueue (some 2) (fun _ => none),
      .size, .dequeue, .enqueue none (fun _ => none), .enqueue (some 4) (fun _ => none), .peek, .dequeue,
      .dequeue, .dequeue, .dequeue]
    let calls := round ++ round ++ round ++ round ++ round
    outs queueStep (queueCreate fun _ => some 7) calls = outs fifoStep [] calls :=
  queue_is_fifo _ _ (by decide)

/-! ## The full ring -/

theorem queueResize_of_full {q : Queue α} {xs : List (Option α)} (h : QueueHolds q xs)
    (hfull : q.size = q.capacity) (fresh : Nat → Option α) :
    (queueResize q fresh).tail = 0 ∧ (queueResize q fresh).elems = fresh := by
  have hl : queueCopy q fresh = ⟨q.head, 0, fresh⟩ :=
    whileLoop_of_not (by simp [h.tail_of_full hfull]) _
  simp [queueResize, hl]

/-- The enqueue that finds the ring full loses every element before it. -/
theorem queueEnqueue_of_full {q : Queue α} {xs : List (Option α)} (h : QueueHolds q xs)
    (hfull : q.size = q.capacity) (elem : Option α) (fresh : Nat → Option α) :
    queuePeek (queueEnqueue q elem fresh) = elem := by
  obtain ⟨ht, -⟩ := queueResize_of_full h hfull fresh
  unfold queueEnqueue
  rw [if_pos (by omega)]
  simp only [queuePeek, queueStore, ht]
  simp [queueResize]

/-- Seventeen elements without a dequeue: the first one returned is the last one put in. -/
theorem queue_not_fifo :
    let calls := ((List.range 17).map fun n => QueueCall.enqueue (some n) fun _ => none) ++ [.dequeue]
    outs queueStep (queueCreate fun _ => none) calls ≠ outs fifoStep [] calls := by
  decide

end

end SwitchSimulation
