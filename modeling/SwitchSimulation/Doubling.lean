import Mathlib.Algebra.Order.Ring.Nat

/-!
# Buffers that double in `w`-bit arithmetic

A buffer doubles its capacity when `size + 1 > capacity`, where both sides and
the product are computed modulo `2 ^ w`. From a capacity that is a power of two
the doubling is exact, and there is room for one more element afterwards, just
when the size is below `2 ^ (w - 1)`. At `2 ^ (w - 1)` the capacity wraps to zero.
-/

namespace SwitchSimulation

section
variable {w : Nat}

def doubled (size capacity : BitVec w) : BitVec w := if size + 1 > capacity then 2 * capacity else capacity

structure Roomy (size capacity : BitVec w) : Prop where
  pow : ∃ k, capacity.toNat = 2 ^ k
  size_le : size.toNat ≤ capacity.toNat

theorem two_pow_pred (hw : 2 ≤ w) : 2 ^ w = 2 * 2 ^ (w - 1) ∧ 2 ≤ 2 ^ (w - 1) := by
  obtain ⟨v, rfl⟩ : ∃ v, w = v + 2 := ⟨w - 2, by omega⟩
  have hpos : 0 < 2 ^ v := Nat.pow_pos (by decide)
  rw [Nat.add_succ_sub_one, Nat.pow_succ, Nat.pow_succ]
  omega

theorem one_toNat (hw : 2 ≤ w) : (1 : BitVec w).toNat = 1 := by
  have hone : (1 : BitVec w).toNat = 1 % 2 ^ w := BitVec.toNat_ofNat ..
  have hpow := two_pow_pred hw
  rw [hone, Nat.mod_eq_of_lt (by omega)]

theorem pred_toNat (hw : 2 ≤ w) {size : BitVec w} (hs : 0 < size.toNat) : (size - 1).toNat = size.toNat - 1 := by
  have hle : (1 : BitVec w) ≤ size := by
    rw [BitVec.le_def, one_toNat hw]
    exact hs
  rw [BitVec.toNat_sub_of_le hle, one_toNat hw]

theorem double_toNat (capacity : BitVec w) : (2 * capacity).toNat = 2 * capacity.toNat % 2 ^ w := by
  have htwo : (2 : BitVec w).toNat = 2 % 2 ^ w := BitVec.toNat_ofNat ..
  rw [BitVec.toNat_mul, htwo, Nat.mod_mul_mod]

theorem double_exact (hw : 2 ≤ w) {capacity : BitVec w} (hlt : capacity.toNat < 2 ^ (w - 1)) :
    (2 * capacity).toNat = 2 * capacity.toNat := by
  have hpow := two_pow_pred hw
  rw [double_toNat, Nat.mod_eq_of_lt (by omega)]

section
variable {size capacity : BitVec w} (hw : 2 ≤ w) (hr : Roomy size capacity)
include hw hr

theorem Roomy.capacity_le : capacity.toNat ≤ 2 ^ (w - 1) := by
  obtain ⟨k, hk⟩ := hr.pow
  have hlt : 2 ^ k < 2 ^ w := hk ▸ capacity.isLt
  have hkw : k < w := (Nat.pow_lt_pow_iff_right (by decide)).mp hlt
  rw [hk]
  exact Nat.pow_le_pow_right (by decide) (by omega)

theorem Roomy.succ_toNat : (size + 1).toNat = size.toNat + 1 := by
  have hle := hr.capacity_le hw
  have hsize := hr.size_le
  have hpow := two_pow_pred hw
  have hone := one_toNat hw
  rw [BitVec.toNat_add_of_lt (by omega), hone]

theorem Roomy.full_iff : size + 1 > capacity ↔ size.toNat = capacity.toNat := by
  have hsize := hr.size_le
  rw [gt_iff_lt, BitVec.lt_def, hr.succ_toNat hw]
  omega

/-! ## While the size is below half the range -/

theorem Roomy.doubled_toNat (hlt : size.toNat < 2 ^ (w - 1)) :
    (doubled size capacity).toNat =
      if size.toNat + 1 > capacity.toNat then 2 * capacity.toNat else capacity.toNat := by
  have hsize := hr.size_le
  unfold doubled
  by_cases hfull : size + 1 > capacity
  · have he := (hr.full_iff hw).mp hfull
    rw [if_pos hfull, if_pos (by omega)]
    exact double_exact hw (by omega)
  · have hne := mt (hr.full_iff hw).mpr hfull
    rw [if_neg hfull, if_neg (by omega)]

theorem Roomy.push (hlt : size.toNat < 2 ^ (w - 1)) : Roomy (size + 1) (doubled size capacity) := by
  obtain ⟨k, hk⟩ := hr.pow
  have hsize := hr.size_le
  have hpos : 0 < 2 ^ k := Nat.pow_pos (by decide)
  constructor
  · rw [hr.doubled_toNat hw hlt]
    split
    · exact ⟨k + 1, by rw [hk, Nat.pow_succ, Nat.mul_comm]⟩
    · exact ⟨k, hk⟩
  · rw [hr.doubled_toNat hw hlt, hr.succ_toNat hw]
    split <;> omega

/-! ## At half the range -/

theorem Roomy.at_half (hge : ¬ size.toNat < 2 ^ (w - 1)) :
    size.toNat = 2 ^ (w - 1) ∧ capacity.toNat = 2 ^ (w - 1) := by
  have hle := hr.capacity_le hw
  have hsize := hr.size_le
  omega

theorem Roomy.double_zero (hge : ¬ size.toNat < 2 ^ (w - 1)) : 2 * capacity = 0 := by
  have hpow := two_pow_pred hw
  apply BitVec.eq_of_toNat_eq
  rw [double_toNat, (hr.at_half hw hge).2, ← hpow.1, Nat.mod_self]
  rfl

theorem Roomy.doubled_zero (hge : ¬ size.toNat < 2 ^ (w - 1)) : doubled size capacity = 0 := by
  have hhalf := hr.at_half hw hge
  have hfull := (hr.full_iff hw).mpr (hhalf.1.trans hhalf.2.symm)
  rw [doubled, if_pos hfull]
  exact hr.double_zero hw hge

/-! ## When there is room -/

theorem Roomy.room_iff : size.toNat < (doubled size capacity).toNat ↔ size.toNat < 2 ^ (w - 1) := by
  constructor
  · intro hroom
    apply Classical.byContradiction
    intro hge
    rw [hr.doubled_zero hw hge] at hroom
    exact absurd hroom (Nat.not_lt_zero _)
  · intro hlt
    have hle := (hr.push hw hlt).size_le
    rw [hr.succ_toNat hw] at hle
    exact hle

theorem Roomy.exact_iff (hfull : size + 1 > capacity) :
    (2 * capacity).toNat = 2 * capacity.toNat ↔ size.toNat < 2 ^ (w - 1) := by
  have he := (hr.full_iff hw).mp hfull
  constructor
  · intro hexact
    apply Classical.byContradiction
    intro hge
    have hpow := two_pow_pred hw
    rw [hr.double_zero hw hge, (hr.at_half hw hge).2] at hexact
    have hzero : (0 : BitVec w).toNat = 0 := rfl
    omega
  · intro hlt
    exact double_exact hw (he ▸ hlt)

end

end

end SwitchSimulation
