import SwitchSimulation.QueueFifo

/-!
# The queue past its capacity

The ring keeps 16 slots for ever, but its size goes on counting. As long as it
stays below `2 ^ 32`, the queue reads as the list of `size` slots from `head`,
round and round the ring. An enqueue that finds the ring full, or more than
full, keeps only the first `size % 16` entries of that list.
-/

namespace SwitchSimulation

section
variable {α : Type*}

/-- The slots of the buffer that an enqueue has just allocated. -/
def wrappedSlot (c : Nat) (xs : List (Option α)) (elem : Option α) (fresh : Nat → Option α) (k : Nat) : Option α :=
  if k < xs.length % c then xs.getD k none else if k = xs.length % c then elem else fresh k

/-- What a full ring of `c` slots reads as after an enqueue. -/
def wrapAround (c : Nat) (xs : List (Option α)) (elem : Option α) (fresh : Nat → Option α) : List (Option α) :=
  (List.range (xs.length + 1)).map fun k => wrappedSlot c xs elem fresh (k % c)

def ringStep (xs : List (Option α)) : QueueCall α → List (Option α) × QueueResult α
  | .enqueue elem fresh =>
    (if xs.length < queueDefaultCapacity then xs ++ [elem] else wrapAround queueDefaultCapacity xs elem fresh, .void)
  | .dequeue => (xs.tail, .elem xs.head?.join)
  | .peek => (xs, .elem xs.head?.join)
  | .size => (xs, .count xs.length)

structure RingHolds (q : Queue α) (xs : List (Option α)) : Prop where
  capacity_eq : q.capacity = queueDefaultCapacity
  tail_eq : q.tail = (q.head + q.size) % q.capacity
  elems_eq : window q.elems q.capacity q.head q.size = xs

theorem RingHolds.length {q : Queue α} {xs : List (Option α)} (h : RingHolds q xs) : xs.length = q.size := by
  rw [← h.elems_eq, length_window]

theorem queueCreate_ring (fresh : Nat → Option α) : RingHolds (queueCreate fresh) [] := ⟨rfl, rfl, rfl⟩

/-! ## Enqueue -/

theorem copyBody_iterate (q : Queue α) (fresh : Nat → Option α) (k : Nat) :
    (copyBody q)^[k] ⟨q.head, 0, fresh⟩ = ⟨(q.head + k) % q.capacity, k,
      fun j => if j < k then q.elems ((q.head + j) % q.capacity) else fresh j⟩ := by
  induction k with
  | zero =>
    rw [Nat.add_zero, Nat.mod_eq_of_lt q.head_lt]
    simp
  | succ k ih =>
    rw [Function.iterate_succ_apply', ih, copyBody, Nat.mod_add_mod, Nat.add_assoc]
    congr 1
    funext j
    by_cases hj : j = k
    · subst hj
      simp
    · have hlt : j < k + 1 ↔ j < k := by omega
      simp only [Function.update_of_ne hj, hlt]

theorem queueCopy_eq (q : Queue α) (fresh : Nat → Option α) :
    queueCopy q fresh = (copyBody q)^[ahead q.capacity q.head q.tail] ⟨q.head, 0, fresh⟩ :=
  whileLoop_walk CopyLocals.i q.tail_lt (fun _ => rfl) _ q.head_lt (Nat.le_of_lt (ahead_lt q.tail_lt))

theorem RingHolds.ahead_eq {q : Queue α} {xs : List (Option α)} (h : RingHolds q xs) :
    ahead q.capacity q.head q.tail = xs.length % q.capacity := by
  have hc : 0 < q.capacity := by have := q.head_lt; omega
  rw [h.tail_eq, h.length, ← Nat.add_mod_mod, ahead_add (Nat.mod_lt _ hc)]

/-- The new buffer begins with the first entries that the queue read as. -/
theorem RingHolds.resize {q : Queue α} {xs : List (Option α)} (h : RingHolds q xs) (fresh : Nat → Option α) :
    (queueResize q fresh).tail = xs.length % q.capacity ∧
      ∀ k, (queueResize q fresh).elems k = if k < xs.length % q.capacity then xs.getD k none else fresh k := by
  have hcopy := queueCopy_eq q fresh
  rw [copyBody_iterate, h.ahead_eq] at hcopy
  refine ⟨by simp only [queueResize, hcopy], fun k => ?_⟩
  simp only [queueResize, hcopy]
  by_cases hk : k < xs.length % q.capacity
  · have hkl : k < q.size := by
      have := Nat.mod_le xs.length q.capacity
      have := h.length
      omega
    rw [if_pos hk, if_pos hk, ← h.elems_eq]
    simp [window, hkl]
  · rw [if_neg hk, if_neg hk]

theorem RingHolds.enqueue_full {q : Queue α} {xs : List (Option α)} (h : RingHolds q xs)
    (hfull : q.capacity ≤ xs.length) (elem : Option α) (fresh : Nat → Option α) :
    RingHolds (queueEnqueue q elem fresh) (wrapAround queueDefaultCapacity xs elem fresh) := by
  have hlen := h.length
  obtain ⟨ht, hslots⟩ := h.resize fresh
  have hcap : (queueResize q fresh).capacity = q.capacity := rfl
  have hsize : (queueResize q fresh).size = xs.length := hlen.symm
  unfold queueEnqueue
  rw [if_pos (by omega)]
  refine ⟨h.capacity_eq, ?_, ?_⟩
  · simp only [queueStore, ht, hcap, hsize]
    rw [show (queueResize q fresh).head = 0 from rfl, Nat.zero_add, Nat.mod_add_mod]
  · simp only [queueStore, ht, hcap, hsize]
    rw [show (queueResize q fresh).head = 0 from rfl, h.capacity_eq]
    unfold window wrapAround
    apply List.map_congr_left
    intro k _
    rw [Nat.zero_add]
    unfold wrappedSlot
    by_cases hk : k % queueDefaultCapacity = xs.length % queueDefaultCapacity
    · rw [hk, Function.update_self, if_neg (Nat.lt_irrefl _), if_pos rfl]
    · rw [Function.update_of_ne hk, hslots, h.capacity_eq, if_neg hk]

theorem RingHolds.enqueue_room {q : Queue α} {xs : List (Option α)} (h : RingHolds q xs)
    (hroom : q.size < q.capacity) (elem : Option α) (fresh : Nat → Option α) :
    RingHolds (queueEnqueue q elem fresh) (xs ++ [elem]) := by
  have hq : QueueHolds q xs := ⟨Nat.le_of_lt hroom, h.tail_eq, h.elems_eq⟩
  have hs := queueStore_holds hq hroom elem
  rw [queueEnqueue_of_room hroom]
  exact ⟨h.capacity_eq, hs.tail_eq, hs.elems_eq⟩

/-! ## Peek and dequeue -/

theorem RingHolds.peek {q : Queue α} {xs : List (Option α)} (h : RingHolds q xs) : queuePeek q = xs.head?.join := by
  unfold queuePeek
  cases hs : q.size with
  | zero =>
    have hnil : xs = [] := List.eq_nil_of_length_eq_zero (by rw [h.length, hs])
    simp [hnil]
  | succ k =>
    rw [if_neg (Nat.succ_ne_zero k), ← h.elems_eq, hs, window_cons _ q.head_lt]
    rfl

theorem RingHolds.dequeue {q : Queue α} {xs : List (Option α)} (h : RingHolds q xs) :
    RingHolds (queueDequeue q).1 xs.tail := by
  unfold queueDequeue
  cases hs : q.size with
  | zero =>
    have hnil : xs = [] := List.eq_nil_of_length_eq_zero (by rw [h.length, hs])
    subst hnil
    simpa using h
  | succ k =>
    rw [if_neg (Nat.succ_ne_zero k)]
    refine ⟨h.capacity_eq, ?_, ?_⟩
    · simp only
      rw [h.tail_eq, Nat.mod_add_mod, hs, show q.head + 1 + (k + 1 - 1) = q.head + (k + 1) by omega]
    · simp only
      rw [← h.elems_eq, hs, window_cons _ q.head_lt]
      rfl

/-! ## Runs -/

theorem queueStep_ring (q : Queue α) (xs : List (Option α)) (c : QueueCall α) (h : RingHolds q xs) :
    RingHolds (queueStep q c).1 (ringStep xs c).1 ∧ (queueStep q c).2 = (ringStep xs c).2 := by
  cases c with
  | enqueue elem fresh =>
    refine ⟨?_, rfl⟩
    simp only [queueStep, ringStep]
    by_cases hroom : xs.length < queueDefaultCapacity
    · rw [if_pos hroom]
      exact h.enqueue_room (by rw [h.capacity_eq, ← h.length]; exact hroom) elem fresh
    · rw [if_neg hroom]
      exact h.enqueue_full (by rw [h.capacity_eq]; omega) elem fresh
  | dequeue => exact ⟨h.dequeue, by simp only [queueStep, ringStep, queueDequeue_snd, h.peek]⟩
  | peek => exact ⟨h, by simp only [queueStep, ringStep, h.peek]⟩
  | size => exact ⟨h, by simp only [queueStep, ringStep, queueSize, h.length]⟩

theorem queueRun_ring (fresh : Nat → Option α) (calls : List (QueueCall α)) :
    RingHolds (exec queueStep (queueCreate fresh) calls) (exec ringStep [] calls) ∧
      outs queueStep (queueCreate fresh) calls = outs ringStep [] calls :=
  sim_run RingHolds (fun q xs c h _ => queueStep_ring q xs c h) (queueCreate_ring fresh) (meets_true _ calls)

/-- The call does not count the size past the last value of an `unsigned int`. -/
def Counts (q : Queue α) : QueueCall α → Prop
  | .enqueue _ _ => q.size + 1 < 2 ^ 32
  | _ => True

instance (q : Queue α) : ∀ c, Decidable (Counts q c)
  | .enqueue _ _ => inferInstanceAs (Decidable (q.size + 1 < 2 ^ 32))
  | .dequeue => inferInstanceAs (Decidable True)
  | .peek => inferInstanceAs (Decidable True)
  | .size => inferInstanceAs (Decidable True)

theorem queueStep32_eq {q : Queue α} {c : QueueCall α} (h : Counts q c) : queueStep32 q c = queueStep q c := by
  cases c with
  | enqueue elem fresh =>
    have hstore : ∀ q' : Queue α, q'.size = q.size → queueStore32 q' elem = queueStore q' elem := by
      intro q' hs
      unfold queueStore32
      rw [hs, Nat.mod_eq_of_lt h, ← hs]
      rfl
    simp only [queueStep32, queueStep, queueEnqueue32, queueEnqueue]
    rw [Nat.mod_eq_of_lt h, hstore (queueResize q fresh) rfl, hstore q rfl]
  | dequeue => rfl
  | peek => rfl
  | size => rfl

/-- Every run of calls that does not count the size past `2 ^ 32 - 1`, over a
full ring or not, answers as the list of `ringStep` does. -/
theorem queue_is_ring (fresh : Nat → Option α) (calls : List (QueueCall α))
    (hm : Meets queueStep32 Counts (queueCreate fresh) calls) :
    outs queueStep32 (queueCreate fresh) calls = outs ringStep [] calls := by
  refine (sim_run RingHolds ?_ (queueCreate_ring fresh) hm).2
  intro q xs c h hc
  rw [queueStep32_eq hc]
  exact queueStep_ring q xs c h

/-- Eighteen elements in a row overflow the ring twice. -/
theorem queue_is_ring_overflowed :
    let calls := ((List.range 18).map fun n => QueueCall.enqueue (some n) fun k => some (100 + k)) ++
      [.size, .dequeue, .dequeue, .peek]
    outs queueStep32 (queueCreate fun _ => none) calls = outs ringStep [] calls :=
  queue_is_ring _ _ (by decide)

/-! ## After an overflow -/

theorem ring_dequeues (xs : List (Option α)) :
    outs ringStep xs (List.replicate xs.length .dequeue) = xs.map QueueResult.elem := by
  induction xs with
  | nil => rfl
  | cons x xs ih =>
    rw [List.length_cons, List.replicate_succ, outs_cons, List.map_cons]
    exact congrArg _ ih

theorem wrapAround_full {xs : List (Option α)} (hfull : xs.length = queueDefaultCapacity) (elem : Option α)
    (fresh : Nat → Option α) : wrapAround queueDefaultCapacity xs elem fresh =
      elem :: (List.range 15).map (fun k => fresh (k + 1)) ++ [elem] := by
  have hslot : wrappedSlot queueDefaultCapacity xs elem fresh = fun k => if k = 0 then elem else fresh k := by
    funext k
    unfold wrappedSlot
    rw [hfull, Nat.mod_self, if_neg (Nat.not_lt_zero k)]
  unfold wrapAround
  rw [hslot, hfull]
  rfl

/-- After an enqueue on a full ring, the next 17 dequeues return the new
element, the 15 words that the new buffer happens to hold, and the new element
once more. The 16 elements that filled the ring are never returned. -/
theorem queue_overflow (fresh : Nat → Option α) (calls : List (QueueCall α))
    (hfull : queueSize (exec queueStep (queueCreate fresh) calls) = queueDefaultCapacity) (elem : Option α)
    (fresh' : Nat → Option α) :
    outs queueStep (exec queueStep (queueCreate fresh) calls)
        (.enqueue elem fresh' :: List.replicate 17 .dequeue) =
      .void :: (elem :: (List.range 15).map (fun k => fresh' (k + 1)) ++ [elem]).map .elem := by
  have hring := (queueRun_ring fresh calls).1
  generalize exec queueStep (queueCreate fresh) calls = q, exec ringStep [] calls = xs at hring hfull ⊢
  have hlen : xs.length = queueDefaultCapacity := hring.length.trans hfull
  have hsim := (sim_run RingHolds (fun q xs c h _ => queueStep_ring q xs c h) hring
    (meets_true q (.enqueue elem fresh' :: List.replicate 17 .dequeue))).2
  rw [hsim, outs_cons]
  simp only [ringStep]
  rw [if_neg (by omega), wrapAround_full hlen]
  exact congrArg _ (ring_dequeues _)

theorem queue_overflow_numbers :
    outs queueStep (exec queueStep (queueCreate fun _ => none)
        ((List.range 16).map fun n => QueueCall.enqueue (some n) fun _ => none))
        (.enqueue (some 16) (fun _ => some 99) :: List.replicate 17 .dequeue) =
      .void :: (some 16 :: (List.range 15).map (fun _ => some 99) ++ [some 16]).map .elem :=
  queue_overflow _ _ (by decide) (some 16) fun _ => some 99

end

end SwitchSimulation
