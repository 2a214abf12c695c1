import SwitchSimulation.Loop
import SwitchSimulation.Machine
import SwitchSimulation.Rearrange
import SwitchSimulation.Comparator

/-!
# The binary heap (`heap.c`)

`elems` is a total function: slots from `size` on are memory that no call
reads. Sizes and capacities are natural numbers. The comparator stored in the
heap is the section variable `C`.
-/

namespace SwitchSimulation

structure Heap (α : Type*) where
  elems : Nat → α
  capacity : Nat
  size : Nat

section
variable {α : Type*}

def heapDefaultCapacity : Nat := 16

def heapCreate (fresh : Nat → α) : Heap α := ⟨fresh, heapDefaultCapacity, 0⟩

/-! ## Index helpers -/

def parentIndex (index : Nat) : Nat := index / 2

def leftChildIndex (index : Nat) : Nat := 2 * index + 1

def rightChildIndex (index : Nat) : Nat := 2 * index + 2

theorem parentIndex_lt {index : Nat} (h : index ≠ 0) : parentIndex index < index := by
  unfold parentIndex; omega

def hasChild (h : Heap α) (index : Nat) : Bool :=
  leftChildIndex index < h.size || rightChildIndex index < h.size

def swapElem (h : Heap α) (index1 index2 : Nat) : Heap α :=
  { h with elems := swapSlots h.elems index1 index2 }

@[simp] theorem swapElem_size (h : Heap α) (a b : Nat) : (swapElem h a b).size = h.size := rfl

@[simp] theorem swapElem_elems (h : Heap α) (a b : Nat) :
    (swapElem h a b).elems = swapSlots h.elems a b := rfl

variable (C : Comparator α)

def largestChildGreaterThan (h : Heap α) (index : Nat) : Nat :=
  let rightChild := rightChildIndex index
  let leftChild := leftChildIndex index
  if rightChild < h.size then
    let currLeft := C.cmp (h.elems index) (h.elems leftChild)
    let currRight := C.cmp (h.elems index) (h.elems rightChild)
    let leftRight := C.cmp (h.elems leftChild) (h.elems rightChild)
    if currLeft = .GT ∧ currRight = .GT then
      if leftRight = .GT then leftChild else rightChild
    else if currLeft = .GT then leftChild
    else if currRight = .GT then rightChild
    else 0
  else if leftChild < h.size then
    if C.cmp (h.elems index) (h.elems leftChild) = .GT then leftChild else 0
  else 0

/-! ## Insert -/

/-- Growing leaves the old slots in place, and the new ones hold what they hold. -/
def heapGrow (h : Heap α) : Heap α :=
  if h.size + 1 > h.capacity then { h with capacity := h.capacity * 2 } else h

def heapAppend (h : Heap α) (elem : α) : Heap α :=
  { h with elems := Function.update h.elems h.size elem, size := h.size + 1 }

/-- The loop state is the heap and `index`; `parent` is `parent_index(index)` throughout. -/
def bubbleCond (s : Heap α × Nat) : Bool :=
  s.2 != 0 && C.cmp (s.1.elems s.2) (s.1.elems (parentIndex s.2)) == .LT

def bubbleBody (s : Heap α × Nat) : Heap α × Nat :=
  (swapElem s.1 s.2 (parentIndex s.2), parentIndex s.2)

def bubbleUp (h : Heap α) (index : Nat) : Heap α × Nat :=
  whileLoop (bubbleCond C) bubbleBody index (h, index)

def heapInsert (h : Heap α) (elem : α) : Heap α :=
  let h' := heapAppend (heapGrow h) elem
  (bubbleUp C h' (h'.size - 1)).1

/-! ## Minimum and pop -/

def heapMin (h : Heap α) : α := h.elems 0

def heapMoveLast (h : Heap α) : Heap α :=
  { h with elems := Function.update h.elems 0 (h.elems (h.size - 1)), size := h.size - 1 }

def siftCond (h : Heap α) : Bool := hasChild h 0 && largestChildGreaterThan C h 0 != 0

def siftBody (h : Heap α) : Heap α := swapElem h 0 (largestChildGreaterThan C h 0)

/-- The loop of `heap_pop_min`. Its `index` is 0 throughout. -/
def siftRoot (h : Heap α) : Heap α := whileLoop (siftCond C) (siftBody C) h.size h

def heapPopMin (h : Heap α) : Heap α × α := (siftRoot C (heapMoveLast h), h.elems 0)

def heapSize (h : Heap α) : Nat := h.size

/-- `heap_free`, up to the release of the array and of the heap; `freeElem`
is the function given at creation and works on a state of its own. -/
def heapFree {σ : Type*} (freeElem : α → σ → σ) (h : Heap α) (s : σ) : σ :=
  forRange h.size (fun i => freeElem (h.elems i)) s

/-! ## Runs of calls -/

inductive HeapCall (α : Type*)
  | insert (elem : α)
  | min
  | popMin

def heapStep (h : Heap α) : HeapCall α → Heap α × Option α
  | .insert elem => (heapInsert C h elem, none)
  | .min => (h, some (heapMin h))
  | .popMin => ((heapPopMin C h).1, some (heapPopMin C h).2)

def HeapCall.Allowed (h : Heap α) : HeapCall α → Prop
  | .insert _ => True
  | .min => 0 < h.size
  | .popMin => 0 < h.size

instance (h : Heap α) : ∀ c : HeapCall α, Decidable (c.Allowed h)
  | .insert _ => inferInstanceAs (Decidable True)
  | .min => inferInstanceAs (Decidable (0 < h.size))
  | .popMin => inferInstanceAs (Decidable (0 < h.size))

end

end SwitchSimulation
