import Mathlib.Data.Multiset.AddSub
import SwitchSimulation.QueueFifo

/-!
# Does freeing a queue free its elements?

`queue_free` walks from `head` until it meets `tail`. Below a full ring these
are the elements that were enqueued and not dequeued; in a full ring `head`
and `tail` are equal, and nothing is freed.
-/

namespace SwitchSimulation

section
variable {α : Type*}

/-! ## The walk -/

theorem freeBody_iterate (q : Queue α) (k : Nat) :
    (freeBody q)^[k] ⟨q.head, []⟩ = ⟨(q.head + k) % q.capacity, window q.elems q.capacity q.head k⟩ := by
  induction k with
  | zero =>
    rw [Nat.add_zero, Nat.mod_eq_of_lt q.head_lt]
    rfl
  | succ k ih =>
    rw [Function.iterate_succ_apply', ih, freeBody, window_succ, Nat.mod_add_mod, Nat.add_assoc]

theorem queueFree_window (q : Queue α) :
    queueFree q = window q.elems q.capacity q.head (ahead q.capacity q.head q.tail) := by
  unfold queueFree
  rw [whileLoop_walk FreeLocals.i q.tail_lt (fun _ => rfl) _ q.head_lt (Nat.le_of_lt (ahead_lt q.tail_lt)),
    freeBody_iterate]

theorem queueFree_of_room {q : Queue α} {xs : List (Option α)} (h : QueueHolds q xs)
    (hroom : q.size < q.capacity) : queueFree q = xs := by
  rw [queueFree_window, h.tail_eq, ahead_add hroom, h.elems_eq]

theorem queueFree_of_full {q : Queue α} {xs : List (Option α)} (h : QueueHolds q xs)
    (hfull : q.size = q.capacity) : queueFree q = [] := by
  rw [queueFree_window, h.tail_of_full hfull, ahead_self q.head_lt]
  rfl

/-! ## Runs -/

/-- `pending` is what was enqueued and not yet returned by a dequeue. -/
structure QueueUse (α : Type*) where
  queue : Queue α
  pending : Multiset (Option α)

def useStart (fresh : Nat → Option α) : QueueUse α := ⟨queueCreate fresh, 0⟩

def FreesPending (s : QueueUse α) : Prop := (queueFree s.queue : Multiset (Option α)) = s.pending

structure Unfilled (s : QueueUse α) : Prop where
  holds : ∃ xs, QueueHolds s.queue xs ∧ (xs : Multiset (Option α)) = s.pending
  room : s.queue.size < s.queue.capacity

theorem useStart_unfilled (fresh : Nat → Option α) : Unfilled (useStart fresh) :=
  ⟨⟨[], queueCreate_holds fresh, rfl⟩, Nat.zero_lt_succ _⟩

theorem Unfilled.frees {s : QueueUse α} (h : Unfilled s) : FreesPending s := by
  obtain ⟨⟨xs, hxs, hp⟩, hroom⟩ := h
  unfold FreesPending
  rw [queueFree_of_room hxs hroom, hp]

def NotFilling (s : QueueUse α) : QueueCall α → Prop
  | .enqueue _ _ => s.queue.size + 1 < s.queue.capacity
  | _ => True

variable [DecidableEq α]

instance (s : QueueUse α) : Decidable (FreesPending s) :=
  inferInstanceAs (Decidable ((queueFree s.queue : Multiset (Option α)) = s.pending))

def useStep (s : QueueUse α) (c : QueueCall α) : QueueUse α × QueueResult α :=
  let r := queueStep s.queue c
  match c with
  | .enqueue elem _ => (⟨r.1, elem ::ₘ s.pending⟩, r.2)
  | .dequeue =>
    (⟨r.1, if s.queue.size = 0 then s.pending else s.pending.erase (queueDequeue s.queue).2⟩, r.2)
  | _ => (⟨r.1, s.pending⟩, r.2)

theorem Unfilled.enqueue {s : QueueUse α} (h : Unfilled s) (elem : Option α) (fresh : Nat → Option α) :
    ∃ xs, QueueHolds (useStep s (.enqueue elem fresh)).1.queue xs ∧
      (xs : Multiset (Option α)) = (useStep s (.enqueue elem fresh)).1.pending := by
  obtain ⟨⟨xs, hxs, hp⟩, hroom⟩ := h
  refine ⟨xs ++ [elem], ?_, ?_⟩
  · simp only [useStep, queueStep, queueEnqueue_of_room hroom]
    exact queueStore_holds hxs hroom elem
  · simp only [useStep, ← hp]
    exact Multiset.coe_eq_coe.mpr (List.perm_append_singleton elem xs)

theorem Unfilled.dequeue {s : QueueUse α} (h : Unfilled s) : Unfilled (useStep s .dequeue).1 := by
  obtain ⟨⟨xs, hxs, hp⟩, hroom⟩ := h
  refine ⟨⟨xs.tail, queueDequeue_holds hxs, ?_⟩, ?_⟩
  · simp only [useStep, queueDequeue_snd, queuePeek_holds hxs, ← hp]
    cases xs with
    | nil =>
      have hzero : s.queue.size = 0 := hxs.length.symm
      rw [if_pos hzero]
      rfl
    | cons x xs =>
      have hlen := hxs.length
      rw [List.length_cons] at hlen
      rw [if_neg (by omega)]
      exact (Multiset.erase_cons_head x (xs : Multiset (Option α))).symm
  · simp only [useStep, queueStep, queueDequeue]
    split
    · exact hroom
    · exact Nat.lt_of_le_of_lt (Nat.sub_le ..) hroom

theorem useStep_unfilled {s : QueueUse α} {c : QueueCall α} (h : Unfilled s) (hc : NotFilling s c) :
    Unfilled (useStep s c).1 := by
  cases c with
  | enqueue elem fresh =>
    refine ⟨h.enqueue elem fresh, ?_⟩
    simp only [useStep, queueStep, queueEnqueue_of_room h.room]
    exact hc
  | dequeue => exact h.dequeue
  | peek => exact h
  | size => exact h

theorem notFilling_of_frees {s : QueueUse α} {c : QueueCall α} (h : Unfilled s)
    (hf : FreesPending (useStep s c).1) : NotFilling s c := by
  cases c with
  | enqueue elem fresh =>
    apply Classical.byContradiction
    intro hn
    have hroom := h.room
    have hnot : ¬ s.queue.size + 1 < s.queue.capacity := hn
    -- the enqueue fills the ring, so that nothing would be freed
    obtain ⟨xs, hxs, -⟩ := h.enqueue elem fresh
    have hfull : (useStep s (.enqueue elem fresh)).1.queue.size =
        (useStep s (.enqueue elem fresh)).1.queue.capacity := by
      simp only [useStep, queueStep, queueEnqueue_of_room hroom, queueStore]
      omega
    unfold FreesPending at hf
    rw [queueFree_of_full hxs hfull] at hf
    exact Multiset.cons_ne_zero hf.symm
  | dequeue => trivial
  | peek => trivial
  | size => trivial

/-- `queue_free` would free what is pending in every state of a run just when
no enqueue of the run fills the ring. -/
theorem queue_free_iff (fresh : Nat → Option α) (calls : List (QueueCall α)) :
    Always useStep FreesPending (useStart fresh) calls ↔ Meets useStep NotFilling (useStart fresh) calls :=
  always_iff_meets_within (D := fun _ _ => True) Unfilled (fun _ h => h.frees)
    (fun _ _ h _ hc => useStep_unfilled h hc) (fun _ _ h _ hf => notFilling_of_frees h hf)
    (useStart_unfilled fresh) (meets_true _ _)

theorem queue_free_full :
    ¬ Always useStep FreesPending (useStart fun _ => none)
      ((List.range 16).map fun n => QueueCall.enqueue (some n) fun _ => none) := by
  intro h
  exact absurd h.last (by decide)

end

end SwitchSimulation
