import Mathlib.Logic.Function.Basic
import Mathlib.Tactic.TypeStar

/-!
# A memory of numbered blocks

An address is the number of a block, and blocks are numbered in the order of
their allocation. A new block holds what `fresh` says for its number.
-/

namespace SwitchSimulation

structure Memory (W : Type*) where
  blocks : Nat → List W
  next : Nat

namespace Memory

variable {W : Type*}

def malloc (fresh : Nat → Nat → W) (m : Memory W) (size : Nat) : Memory W × Nat :=
  (⟨Function.update m.blocks m.next ((List.range size).map (fresh m.next)), m.next + 1⟩, m.next)

def store (m : Memory W) (block k : Nat) (word : W) : Memory W :=
  { m with blocks := Function.update m.blocks block ((m.blocks block).set k word) }

/-- `memcpy(dst, src, size)`. -/
def copy (m : Memory W) (dst src size : Nat) : Memory W :=
  { m with blocks := Function.update m.blocks dst ((m.blocks src).take size ++ (m.blocks dst).drop size) }

def load (m : Memory W) (block k : Nat) : Option W := (m.blocks block)[k]?

variable {fresh : Nat → Nat → W} {m : Memory W}

@[simp] theorem malloc_snd (size : Nat) : (m.malloc fresh size).2 = m.next := rfl

@[simp] theorem malloc_next (size : Nat) : (m.malloc fresh size).1.next = m.next + 1 := rfl

theorem malloc_new {b : Nat} (hb : b = m.next) (size : Nat) :
    (m.malloc fresh size).1.blocks b = (List.range size).map (fresh b) := by
  subst hb
  exact Function.update_self ..

theorem malloc_old {b : Nat} (hb : b ≠ m.next) (size : Nat) : (m.malloc fresh size).1.blocks b = m.blocks b :=
  Function.update_of_ne hb ..

@[simp] theorem store_next (block k : Nat) (word : W) : (m.store block k word).next = m.next := rfl

theorem store_same (block k : Nat) (word : W) :
    (m.store block k word).blocks block = (m.blocks block).set k word := Function.update_self ..

theorem store_other {b block : Nat} (hb : b ≠ block) (k : Nat) (word : W) :
    (m.store block k word).blocks b = m.blocks b := Function.update_of_ne hb ..

@[simp] theorem copy_next (dst src size : Nat) : (m.copy dst src size).next = m.next := rfl

theorem copy_other {b dst : Nat} (hb : b ≠ dst) (src size : Nat) :
    (m.copy dst src size).blocks b = m.blocks b := Function.update_of_ne hb ..

theorem load_store_same {block k : Nat} (hk : k < (m.blocks block).length) (word : W) :
    (m.store block k word).load block k = some word := by
  unfold load
  rw [store_same, List.getElem?_set_self hk]

theorem load_store_ne {block k l : Nat} (hl : k ≠ l) (word : W) :
    (m.store block k word).load block l = m.load block l := by
  unfold load
  rw [store_same, List.getElem?_set_ne hl]

theorem store_length (block k b : Nat) (word : W) :
    ((m.store block k word).blocks b).length = (m.blocks b).length := by
  by_cases hb : b = block
  · subst hb
    rw [store_same, List.length_set]
  · rw [store_other hb]

theorem load_store {block k : Nat} (hk : k < (m.blocks block).length) (word : W) (l : Nat) :
    (m.store block k word).load block l = if l = k then some word else m.load block l := by
  by_cases hl : l = k
  · subst hl
    rw [if_pos rfl, load_store_same hk]
  · rw [if_neg hl, load_store_ne (Ne.symm hl)]

theorem load_isSome {block k : Nat} : (m.load block k).isSome ↔ k < (m.blocks block).length := by
  unfold load
  rw [isSome_getElem?]

end Memory

end SwitchSimulation
