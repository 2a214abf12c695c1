import Mathlib.Logic.Equiv.Basic
import Mathlib.Algebra.Group.End
import Mathlib.Data.List.Nodup

/-!
# Rearrangements of an array prefix

`Rearrange b e e'`: the slots of `e'` are those of `e` permuted, and only
slots below `b` have moved. Swapping two slots is the basic case.
-/

namespace SwitchSimulation

section
variable {α : Type*}

def Rearrange (b : Nat) (e e' : Nat → α) : Prop :=
  ∃ π : Equiv.Perm Nat, (∀ k, b ≤ k → π k = k) ∧ e' = e ∘ π

theorem Rearrange.refl (b : Nat) (e : Nat → α) : Rearrange b e e := ⟨1, fun _ _ => rfl, rfl⟩

theorem Rearrange.trans {b : Nat} {e e' e'' : Nat → α} (h : Rearrange b e e') (h' : Rearrange b e' e'') :
    Rearrange b e e'' := by
  obtain ⟨π, hπ, rfl⟩ := h
  obtain ⟨ρ, hρ, rfl⟩ := h'
  refine ⟨π * ρ, fun k hk => ?_, rfl⟩
  rw [Equiv.Perm.mul_apply, hρ k hk, hπ k hk]

theorem Rearrange.mono {b c : Nat} {e e' : Nat → α} (h : Rearrange b e e') (hbc : b ≤ c) :
    Rearrange c e e' := by
  obtain ⟨π, hπ, he⟩ := h
  exact ⟨π, fun k hk => hπ k (by omega), he⟩

theorem perm_below {b : Nat} {π : Equiv.Perm Nat} (hπ : ∀ k, b ≤ k → π k = k) {k : Nat} (hk : k < b) :
    π k < b := by
  apply Nat.lt_of_not_le
  intro h
  have : k = π k := π.injective (hπ _ h).symm
  omega

theorem inv_fixed {b : Nat} {π : Equiv.Perm Nat} (hπ : ∀ k, b ≤ k → π k = k) (k : Nat) (hk : b ≤ k) :
    π⁻¹ k = k := by
  rw [Equiv.Perm.inv_eq_iff_eq, hπ k hk]

theorem Rearrange.source {b : Nat} {e e' : Nat → α} (h : Rearrange b e e') {k : Nat} (hk : k < b) :
    ∃ j < b, e' k = e j := by
  obtain ⟨π, hπ, rfl⟩ := h
  exact ⟨π k, perm_below hπ hk, rfl⟩

theorem Rearrange.target {b : Nat} {e e' : Nat → α} (h : Rearrange b e e') {j : Nat} (hj : j < b) :
    ∃ k < b, e' k = e j := by
  obtain ⟨π, hπ, rfl⟩ := h
  exact ⟨π⁻¹ j, perm_below (inv_fixed hπ) hj, by simp⟩

theorem Rearrange.above {b : Nat} {e e' : Nat → α} (h : Rearrange b e e') {k : Nat} (hk : b ≤ k) :
    e' k = e k := by
  obtain ⟨π, hπ, rfl⟩ := h
  rw [Function.comp_apply, hπ k hk]

theorem map_range_perm {b : Nat} {π : Equiv.Perm Nat} (hπ : ∀ k, b ≤ k → π k = k) :
    ((List.range b).map π).Perm (List.range b) := by
  rw [List.perm_ext_iff_of_nodup (List.nodup_range.map π.injective) List.nodup_range]
  intro k
  rw [List.mem_map, List.mem_range]
  constructor
  · rintro ⟨j, hj, rfl⟩
    exact perm_below hπ (List.mem_range.mp hj)
  · intro hk
    exact ⟨π⁻¹ k, List.mem_range.mpr (perm_below (inv_fixed hπ) hk), π.apply_symm_apply k⟩

theorem Rearrange.perm {b : Nat} {e e' : Nat → α} (h : Rearrange b e e') :
    ((List.range b).map e').Perm ((List.range b).map e) := by
  obtain ⟨π, hπ, rfl⟩ := h
  rw [← List.map_map]
  exact (map_range_perm hπ).map e

/-! ## Swapping two slots -/

def swapSlots (e : Nat → α) (a b : Nat) : Nat → α :=
  Function.update (Function.update e a (e b)) b (e a)

theorem swapSlots_eq (e : Nat → α) (a b : Nat) : swapSlots e a b = e ∘ Equiv.swap a b := by
  funext k
  unfold swapSlots
  rw [Function.comp_apply, Equiv.swap_apply_def]
  by_cases hb : k = b
  · by_cases ha : k = a
    · subst ha; simp [hb]
    · simp [hb, show b ≠ a from fun e => ha (hb.trans e)]
  · by_cases ha : k = a
    · simp [ha, show a ≠ b from fun e => hb (ha.trans e)]
    · simp [ha, hb]

theorem swapSlots_left (e : Nat → α) (a b : Nat) : swapSlots e a b a = e b := by
  rw [swapSlots_eq, Function.comp_apply, Equiv.swap_apply_left]

theorem swapSlots_right (e : Nat → α) (a b : Nat) : swapSlots e a b b = e a := by
  rw [swapSlots_eq, Function.comp_apply, Equiv.swap_apply_right]

theorem swapSlots_other (e : Nat → α) {a b k : Nat} (ha : k ≠ a) (hb : k ≠ b) : swapSlots e a b k = e k := by
  rw [swapSlots_eq, Function.comp_apply, Equiv.swap_apply_of_ne_of_ne ha hb]

theorem swapSlots_rearrange (e : Nat → α) {a b c : Nat} (ha : a < c) (hb : b < c) :
    Rearrange c e (swapSlots e a b) :=
  ⟨Equiv.swap a b, fun k hk => Equiv.swap_apply_of_ne_of_ne (by omega) (by omega), swapSlots_eq e a b⟩

end

end SwitchSimulation
