import Mathlib.Order.Lattice

/-!
# Three-way comparators (`heap.h`)

A `Comparator` carries the laws of a consistent total preorder. `ofKey` is
the comparator that the sources write with `<`, `>` and a final `EQ`.
-/

namespace SwitchSimulation

inductive Comparison
  | LT
  | GT
  | EQ
  deriving DecidableEq

def Comparison.swap : Comparison → Comparison
  | .LT => .GT
  | .GT => .LT
  | .EQ => .EQ

structure Comparator (α : Type*) where
  cmp : α → α → Comparison
  cmp_swap : ∀ a b, cmp b a = (cmp a b).swap
  cmp_trans : ∀ a b c, cmp a b ≠ .GT → cmp b c ≠ .GT → cmp a c ≠ .GT

namespace Comparator

section
variable {α : Type*} (C : Comparator α)

def le (a b : α) : Prop := C.cmp a b ≠ .GT

instance (a b : α) : Decidable (C.le a b) := inferInstanceAs (Decidable (C.cmp a b ≠ .GT))

variable {C}

theorem le_total (a b : α) : C.le a b ∨ C.le b a := by
  unfold le
  rw [C.cmp_swap a b]
  cases C.cmp a b <;> simp [Comparison.swap]

theorem le_refl (a : α) : C.le a a := (le_total a a).elim id id

theorem le_trans {a b c : α} (h : C.le a b) (h' : C.le b c) : C.le a c := C.cmp_trans a b c h h'

theorem cmp_gt_iff {a b : α} : C.cmp a b = .GT ↔ ¬ C.le a b := by
  unfold le; exact Iff.symm not_not

theorem cmp_lt_iff {a b : α} : C.cmp a b = .LT ↔ ¬ C.le b a := by
  unfold le
  rw [C.cmp_swap a b]
  cases C.cmp a b <;> simp [Comparison.swap]

theorem le_of_not_le {a b : α} (h : ¬ C.le b a) : C.le a b := (le_total a b).resolve_right h

theorem not_le_trans {a b c : α} (h : ¬ C.le b a) (h' : C.le b c) : ¬ C.le c a := fun hca =>
  h (le_trans h' hca)

end

def ofKey {α β : Type*} [LinearOrder β] (key : α → β) : Comparator α where
  cmp a b := if key a < key b then .LT else if key b < key a then .GT else .EQ
  cmp_swap a b := by
    rcases lt_trichotomy (key a) (key b) with h | h | h
    · simp [h, not_lt_of_gt h, Comparison.swap]
    · simp [h, Comparison.swap]
    · simp [h, not_lt_of_gt h, Comparison.swap]
  cmp_trans a b c := by
    have hle : ∀ x y, (if key x < key y then Comparison.LT else if key y < key x then .GT else .EQ) ≠ .GT ↔
        key x ≤ key y := fun x y => by
      rcases lt_trichotomy (key x) (key y) with h | h | h
      · simp [h, h.le]
      · simp [h]
      · simp [h, not_lt_of_gt h]
    rw [hle, hle, hle]
    exact fun h h' => h.trans h'

def comap {α β : Type*} (C : Comparator β) (part : α → β) : Comparator α where
  cmp a b := C.cmp (part a) (part b)
  cmp_swap a b := C.cmp_swap (part a) (part b)
  cmp_trans a b c := C.cmp_trans (part a) (part b) (part c)

theorem ofKey_eq_iff {α β : Type*} [LinearOrder β] {key : α → β} {a b : α} :
    (ofKey key).cmp a b = .EQ ↔ key a = key b := by
  unfold ofKey
  rcases lt_trichotomy (key a) (key b) with h | h | h
  · simp [h, h.ne]
  · simp [h]
  · simp [h, not_lt_of_gt h, h.ne']

end Comparator

end SwitchSimulation
