import Mathlib.Data.List.Forall2
import Mathlib.Data.List.Nodup
import Mathlib.Data.List.Perm.Subperm
import Mathlib.Order.Nat
import SwitchSimulation.Cyclic

/-!
# Counting over a range and over a turn

How often a condition holds on `0, …, n - 1`, and that a pointer that makes a
full turn sees an index at every distance once.
-/

namespace SwitchSimulation

section
variable {n r d : Nat}

theorem countP_range_one {q : Nat → Bool} (hd : d < n) (hq : ∀ i < n, q i = true ↔ i = d) :
    (List.range n).countP q = 1 := by
  have heq : ∀ i ∈ List.range n, q i = true ↔ (i == d) = true := by
    intro i hi
    rw [beq_iff_eq]
    exact hq i (List.mem_range.mp hi)
  rw [List.countP_congr heq]
  exact List.count_eq_one_of_mem List.nodup_range (List.mem_range.mpr hd)

theorem countP_range_lt (hr : r ≤ n) : (List.range n).countP (fun i => decide (i < r)) = r := by
  induction n, hr using Nat.le_induction with
  | base =>
    rw [List.countP_eq_length.mpr fun i hi => decide_eq_true (List.mem_range.mp hi), List.length_range]
  | succ n hn ih =>
    have hlast : decide (n < r) = false := decide_eq_false (by omega)
    rw [List.range_succ, List.countP_append, ih, List.countP_singleton, hlast]
    rfl

/-! ## Turns -/

theorem ahead_mod (n p x : Nat) : ahead n (p % n) x = ahead n p x := by
  unfold ahead
  rw [Nat.mod_mod]

theorem perm_range_of_inj {f : Nat → Nat} (hlt : ∀ i < n, f i < n) (hinj : ∀ i < n, ∀ j < n, f i = f j → i = j) :
    ((List.range n).map f).Perm (List.range n) := by
  have hnodup : ((List.range n).map f).Nodup := by
    apply List.Nodup.map_on _ List.nodup_range
    intro i hi j hj
    exact hinj i (List.mem_range.mp hi) j (List.mem_range.mp hj)
  have hsub : (List.range n).map f ⊆ List.range n := by
    intro d hd
    obtain ⟨i, hi, rfl⟩ := List.mem_map.mp hd
    exact List.mem_range.mpr (hlt i (List.mem_range.mp hi))
  refine (List.subperm_of_subset hnodup hsub).perm_of_length_le ?_
  rw [List.length_map]

theorem countP_of_perm {f : Nat → Nat} (h : ((List.range n).map f).Perm (List.range n)) (q : Nat → Bool) :
    (List.range n).countP (fun i => q (f i)) = (List.range n).countP q := by
  rw [← h.countP_eq q, List.countP_map]
  rfl

/-- The places that a pointer takes in a full turn are all places. -/
theorem countP_places (g : Nat) (q : Nat → Bool) :
    (List.range n).countP (fun i => q ((g + i) % n)) = (List.range n).countP q := by
  refine countP_of_perm (perm_range_of_inj ?_ ?_) q
  · intro i hi
    exact Nat.mod_lt _ (by omega)
  · intro i hi j hj he
    exact slot_inj hi hj he

theorem countP_turn {g x : Nat} (hx : x < n) (q : Nat → Bool) :
    (List.range' g n).countP (fun t => q (ahead n t x)) = (List.range n).countP q := by
  rw [List.range'_eq_map_range, List.countP_map]
  refine countP_of_perm (f := fun i => ahead n (g + i) x) (perm_range_of_inj ?_ ?_) q
  · intro i _
    exact ahead_lt hx
  · intro i hi j hj he
    have hi' : (g + ahead n (g + i) x + i) % n = x := by rw [Nat.add_right_comm, add_ahead hx]
    have hj' : (g + ahead n (g + i) x + j) % n = x := by rw [he, Nat.add_right_comm, add_ahead hx]
    exact slot_inj hi hj (hi'.trans hj'.symm)

end

/-! ## Lists that correspond -/

section
variable {α β : Type*} {R : α → β → Prop} {l : List α} {l' : List β}

theorem exists_of_forall₂ (h : List.Forall₂ R l l') {b : β} (hb : b ∈ l') : ∃ a ∈ l, R a b := by
  induction h with
  | nil => cases hb
  | cons hab _ ih =>
    cases List.mem_cons.mp hb with
    | inl he => exact ⟨_, List.mem_cons_self, he ▸ hab⟩
    | inr hb =>
      obtain ⟨a, ha, hr⟩ := ih hb
      exact ⟨a, List.mem_cons_of_mem _ ha, hr⟩

theorem countP_of_forall₂ {q : α → Bool} {r : β → Bool} (h : List.Forall₂ R l l')
    (hq : ∀ a ∈ l, ∀ b, R a b → q a = r b) : l.countP q = l'.countP r := by
  induction h with
  | nil => rfl
  | cons hab _ ih =>
    rw [List.countP_cons, List.countP_cons, ih fun a ha => hq a (List.mem_cons_of_mem _ ha),
      hq _ List.mem_cons_self _ hab]

end

end SwitchSimulation
