import Mathlib.Algebra.Group.Nat.Defs
import SwitchSimulation.Machine

/-!
# Buffers that double when they are full

A step leaves the capacity of a buffer as it is, or finds the buffer full,
moves all it contains and doubles the capacity. Over a run the moves add up to
what the capacity has grown by; and this is less than twice the largest size.
-/

namespace SwitchSimulation

section
variable {σ ι ω : Type*} {step : σ → ι → σ × ω} {C : σ → ι → Prop}
variable (I : σ → Prop) (size capacity : σ → Nat) (moved : σ → ι → Nat)

/-- A step moves nothing, or as much as the capacity, and then there is one element more than that. -/
structure GrowsByDoubling (size capacity : σ → Nat) (moved : σ → ι → Nat) (s : σ) (i : ι) (s' : σ) : Prop where
  grows : capacity s' = moved s i + capacity s
  full : moved s i = 0 ∨ moved s i = capacity s ∧ size s' = capacity s + 1

variable (hs : ∀ s i, I s → C s i → I (step s i).1 ∧ GrowsByDoubling size capacity moved s i (step s i).1)
include hs

theorem Meets.total_moved {s : σ} {is : List ι} (h0 : I s) (hm : Meets step C s is) :
    total step moved s is + capacity s = capacity (exec step s is) := by
  induction is generalizing s with
  | nil => exact Nat.zero_add _
  | cons i is ih =>
    obtain ⟨hi, hg⟩ := hs s i h0 hm.1
    have hrest := ih hi hm.2
    rw [total, exec_cons, ← hrest, hg.grows]
    omega

theorem Meets.capacity_le {bound : Nat} {s : σ} {is : List ι} (h0 : I s) (hm : Meets step C s is)
    (hb : Always step (fun s => size s ≤ bound) s is) :
    capacity (exec step s is) ≤ max (capacity s) (2 * (bound - 1)) := by
  induction is generalizing s with
  | nil => exact Nat.le_max_left _ _
  | cons i is ih =>
    obtain ⟨hi, hg⟩ := hs s i h0 hm.1
    have hrest := ih hi hm.2 hb.2
    have hsize : size (step s i).1 ≤ bound := hb.2.head
    have hgrows := hg.grows
    rw [exec_cons]
    rcases hg.full with hnone | ⟨hall, hnext⟩ <;> omega

end

end SwitchSimulation
