import Mathlib.Algebra.BigOperators.Group.Finset.Basic
import Mathlib.Data.List.Perm.Basic
import SwitchSimulation.Loop

/-!
# Gathering buckets

`gather n f` appends the lists `f 0, …, f (n - 1)`. Replacing one of the lists
changes the gathered list by that replacement, up to order.
-/

namespace SwitchSimulation

section
variable {ε : Type*}

def gather (n : Nat) (f : Nat → List ε) : List ε := forRange n (fun i acc => acc ++ f i) []

theorem gather_succ (n : Nat) (f : Nat → List ε) : gather (n + 1) f = gather n f ++ f n := rfl

theorem length_gather (n : Nat) (f : Nat → List ε) :
    (gather n f).length = ∑ i ∈ Finset.range n, (f i).length := by
  induction n with
  | zero => rfl
  | succ n ih => rw [gather_succ, List.length_append, ih, Finset.sum_range_succ]

theorem mem_gather {n : Nat} {f : Nat → List ε} {e : ε} : e ∈ gather n f ↔ ∃ i < n, e ∈ f i := by
  induction n with
  | zero => simp [gather]
  | succ n ih =>
    rw [gather_succ, List.mem_append, ih]
    constructor
    · rintro (⟨i, hi, he⟩ | he)
      · exact ⟨i, by omega, he⟩
      · exact ⟨n, by omega, he⟩
    · intro ⟨i, hi, he⟩
      rcases Nat.lt_succ_iff_lt_or_eq.mp hi with h | rfl
      · exact Or.inl ⟨i, h, he⟩
      · exact Or.inr he

theorem gather_nil (n : Nat) : gather n (fun _ => ([] : List ε)) = [] := by
  induction n with
  | zero => rfl
  | succ n ih => rw [gather_succ, ih, List.append_nil]

theorem gather_congr {n : Nat} {f g : Nat → List ε} (h : ∀ i < n, f i = g i) : gather n f = gather n g := by
  induction n with
  | zero => rfl
  | succ n ih => rw [gather_succ, gather_succ, ih fun i hi => h i (by omega), h n (by omega)]

theorem gather_update (f : Nat → List ε) (l : List ε) {i n : Nat} (hi : i < n) :
    (gather n f ++ l).Perm (gather n (Function.update f i l) ++ f i) := by
  induction n with
  | zero => exact absurd hi (Nat.not_lt_zero i)
  | succ n ih =>
    rw [gather_succ, gather_succ]
    rcases Nat.lt_succ_iff_lt_or_eq.mp hi with h | rfl
    · rw [Function.update_of_ne (by omega), List.append_assoc, List.append_assoc]
      have hswap : (gather n f ++ (f n ++ l)).Perm ((gather n f ++ l) ++ f n) := by
        rw [List.append_assoc]; exact List.perm_append_comm.append_left _
      refine hswap.trans (((ih h).append_right _).trans ?_)
      rw [List.append_assoc]; exact List.perm_append_comm.append_left _
    · rw [Function.update_self, gather_congr (g := Function.update f i l) fun j hj => by
        rw [Function.update_of_ne (by omega)], List.append_assoc, List.append_assoc]
      exact List.perm_append_comm.append_left _

theorem gather_add {f : Nat → List ε} {l : List ε} {x : ε} {i n : Nat} (hi : i < n)
    (hl : l.Perm (x :: f i)) : (gather n (Function.update f i l)).Perm (x :: gather n f) := by
  have h := gather_update f l hi
  have h' : (gather n f ++ l).Perm ((x :: gather n f) ++ f i) :=
    (hl.append_left _).trans List.perm_middle
  exact ((List.perm_append_right_iff _).mp (h'.symm.trans h)).symm

theorem gather_sub {f : Nat → List ε} {l : List ε} {x : ε} {i n : Nat} (hi : i < n)
    (hl : (f i).Perm (x :: l)) : (gather n f).Perm (x :: gather n (Function.update f i l)) := by
  have h := gather_update f l hi
  have h' : (gather n (Function.update f i l) ++ f i).Perm ((x :: gather n (Function.update f i l)) ++ l) :=
    (hl.append_left _).trans List.perm_middle
  exact (List.perm_append_right_iff _).mp (h.trans h')

end

end SwitchSimulation
