import Mathlib.Algebra.Group.Nat.Defs
import SwitchSimulation.Machine
import SwitchSimulation.Ring

/-!
# The ring-buffer queue (`queue.c`)

`void *` is `Option α`, with `none` for `NULL`. `elems` is a total function:
what an allocation happens to contain is part of it, and the buffer that a
resize allocates is passed in as `fresh`.
-/

namespace SwitchSimulation

structure Queue (α : Type*) where
  elems : Nat → Option α
  head : Nat
  tail : Nat
  size : Nat
  capacity : Nat
  head_lt : head < capacity
  tail_lt : tail < capacity

section
variable {α : Type*}

def queueDefaultCapacity : Nat := 16

def queueCreate (fresh : Nat → Option α) : Queue α where
  elems := fresh
  head := 0
  tail := 0
  size := 0
  capacity := queueDefaultCapacity
  head_lt := by decide
  tail_lt := by decide

def queueSize (q : Queue α) : Nat := q.size

def queueEmpty (q : Queue α) : Bool := q.size == 0

/-! ## Enqueue -/

structure CopyLocals (α : Type*) where
  i : Nat
  index : Nat
  newBuffer : Nat → Option α

def copyBody (q : Queue α) (s : CopyLocals α) : CopyLocals α where
  i := (s.i + 1) % q.capacity
  index := s.index + 1
  newBuffer := Function.update s.newBuffer s.index (q.elems s.i)

/-- `while (i != queue->tail)`, from `head`. The ring has `capacity` slots, so
the loop ends within that many rounds (`queueCopy_exit`). -/
def queueCopy (q : Queue α) (fresh : Nat → Option α) : CopyLocals α :=
  whileLoop (fun s => s.i != q.tail) (copyBody q) q.capacity ⟨q.head, 0, fresh⟩

/-- Before every round, the copies made and those still to make add up to the
distance from `head` to `tail`. -/
def CopyInv (q : Queue α) (s : CopyLocals α) : Prop :=
  s.i < q.capacity ∧ ahead q.capacity s.i q.tail + s.index = ahead q.capacity q.head q.tail

theorem copyBody_inv (q : Queue α) (s : CopyLocals α) (h : CopyInv q s) (hc : (s.i != q.tail) = true) :
    CopyInv q (copyBody q s) := by
  have hne : q.tail ≠ s.i := fun e => by simp [e] at hc
  have hd := ahead_advance h.1 q.tail_lt hne
  refine ⟨Nat.mod_lt _ (by have := q.head_lt; omega), ?_⟩
  have := h.2
  simp only [copyBody]
  omega

theorem queueCopy_inv (q : Queue α) (fresh : Nat → Option α) : CopyInv q (queueCopy q fresh) :=
  whileLoop_inv (CopyInv q) (copyBody_inv q) _ ⟨q.head_lt, rfl⟩

theorem queueCopy_exit (q : Queue α) (fresh : Nat → Option α) : (queueCopy q fresh).i = q.tail := by
  have := whileLoop_exit (fun s => s.i != q.tail) (copyBody q) (CopyInv q)
    (fun s => ahead q.capacity s.i q.tail) (copyBody_inv q)
    (fun s h hc => by
      have hne : q.tail ≠ s.i := fun e => by simp [e] at hc
      have := ahead_advance h.1 q.tail_lt hne
      show ahead q.capacity ((s.i + 1) % q.capacity) q.tail < _
      omega)
    q.capacity (s := ⟨q.head, 0, fresh⟩) ⟨q.head_lt, rfl⟩ (Nat.le_of_lt (ahead_lt q.tail_lt))
  simpa [queueCopy] using this

theorem queueCopy_index (q : Queue α) (fresh : Nat → Option α) :
    (queueCopy q fresh).index = ahead q.capacity q.head q.tail := by
  have := (queueCopy_inv q fresh).2
  rwa [queueCopy_exit, ahead_self q.tail_lt, Nat.zero_add] at this

/-- The resize branch of `queue_enqueue`. The new buffer has room for
`2 * capacity` elements, but `capacity` itself is not written. -/
def queueResize (q : Queue α) (fresh : Nat → Option α) : Queue α where
  elems := (queueCopy q fresh).newBuffer
  head := 0
  tail := (queueCopy q fresh).index
  size := q.size
  capacity := q.capacity
  head_lt := by have := q.head_lt; omega
  tail_lt := by rw [queueCopy_index]; exact ahead_lt q.tail_lt

def queueStore (q : Queue α) (elem : Option α) : Queue α where
  elems := Function.update q.elems q.tail elem
  head := q.head
  tail := (q.tail + 1) % q.capacity
  size := q.size + 1
  capacity := q.capacity
  head_lt := q.head_lt
  tail_lt := Nat.mod_lt _ (by have := q.head_lt; omega)

def queueEnqueue (q : Queue α) (elem : Option α) (fresh : Nat → Option α) : Queue α :=
  if q.size + 1 > q.capacity then queueStore (queueResize q fresh) elem else queueStore q elem

/-- `size` is an `unsigned int`, and the ring stays at 16 slots while it counts on. -/
def queueStore32 (q : Queue α) (elem : Option α) : Queue α :=
  { queueStore q elem with size := (q.size + 1) % 2 ^ 32 }

def queueEnqueue32 (q : Queue α) (elem : Option α) (fresh : Nat → Option α) : Queue α :=
  if (q.size + 1) % 2 ^ 32 > q.capacity then queueStore32 (queueResize q fresh) elem else queueStore32 q elem

/-! ## Peek and dequeue -/

def queuePeek (q : Queue α) : Option α :=
  if q.size = 0 then none else q.elems q.head

def queueDequeue (q : Queue α) : Queue α × Option α :=
  if q.size = 0 then (q, none)
  else
    ({ q with
        head := (q.head + 1) % q.capacity
        size := q.size - 1
        head_lt := Nat.mod_lt _ (by have := q.head_lt; omega) },
      q.elems q.head)

/-! ## Free -/

structure FreeLocals (α : Type*) where
  i : Nat
  freed : List (Option α)

def freeBody (q : Queue α) (s : FreeLocals α) : FreeLocals α where
  i := (s.i + 1) % q.capacity
  freed := s.freed ++ [q.elems s.i]

/-- The arguments of the calls of `free_elem` in `queue_free`, in order. The
loop is the one of `queueCopy`. -/
def queueFree (q : Queue α) : List (Option α) :=
  (whileLoop (fun s => s.i != q.tail) (freeBody q) q.capacity ⟨q.head, []⟩).freed

/-! ## Runs of calls -/

/-- A call on a queue. An enqueue carries what the buffer it may allocate contains. -/
inductive QueueCall (α : Type*)
  | enqueue (elem : Option α) (fresh : Nat → Option α)
  | dequeue
  | peek
  | size

inductive QueueResult (α : Type*)
  | void
  | elem (p : Option α)
  | count (n : Nat)
  deriving DecidableEq

def queueStep (q : Queue α) : QueueCall α → Queue α × QueueResult α
  | .enqueue elem fresh => (queueEnqueue q elem fresh, .void)
  | .dequeue => ((queueDequeue q).1, .elem (queueDequeue q).2)
  | .peek => (q, .elem (queuePeek q))
  | .size => (q, .count (queueSize q))

def queueStep32 (q : Queue α) : QueueCall α → Queue α × QueueResult α
  | .enqueue elem fresh => (queueEnqueue32 q elem fresh, .void)
  | c => queueStep q c

end

end SwitchSimulation
