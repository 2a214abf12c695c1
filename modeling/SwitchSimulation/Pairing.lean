import Mathlib.Data.Finset.Card

/-!
# Pairings

A pairing of a relation is a set of related pairs that share no component. One
that blocks every related pair has at least half as many pairs as any other.
-/

namespace SwitchSimulation

section
variable {α β : Type*} {R : α → β → Prop} {M N : Finset (α × β)}

structure Pairing (R : α → β → Prop) (M : Finset (α × β)) : Prop where
  related : ∀ e ∈ M, R e.1 e.2
  fst_inj : ∀ e ∈ M, ∀ e' ∈ M, e.1 = e'.1 → e = e'
  snd_inj : ∀ e ∈ M, ∀ e' ∈ M, e.2 = e'.2 → e = e'

/-- Every related pair shares a component with a pair of `N`. -/
def Blocking (R : α → β → Prop) (N : Finset (α × β)) : Prop :=
  ∀ a b, R a b → (∃ e ∈ N, e.1 = a) ∨ ∃ e ∈ N, e.2 = b

variable [DecidableEq α] [DecidableEq β]

theorem Pairing.card_le_of_blocking (hM : Pairing R M) (hN : Blocking R N) : M.card ≤ 2 * N.card := by
  -- a pair of `M` is charged to the pair of `N` it shares its first component with, or else its second
  have hcover : M ⊆ M.filter (fun e => e.1 ∈ N.image Prod.fst) ∪ M.filter (fun e => e.2 ∈ N.image Prod.snd) := by
    intro e he
    rw [Finset.mem_union, Finset.mem_filter, Finset.mem_filter, Finset.mem_image, Finset.mem_image]
    exact (hN e.1 e.2 (hM.related e he)).imp (⟨he, ·⟩) (⟨he, ·⟩)
  have hfst : (M.filter fun e => e.1 ∈ N.image Prod.fst).card ≤ (N.image Prod.fst).card := by
    refine Finset.card_le_card_of_injOn Prod.fst (fun e he => (Finset.mem_filter.mp he).2) ?_
    intro e he e' he'
    exact hM.fst_inj e (Finset.mem_filter.mp he).1 e' (Finset.mem_filter.mp he').1
  have hsnd : (M.filter fun e => e.2 ∈ N.image Prod.snd).card ≤ (N.image Prod.snd).card := by
    refine Finset.card_le_card_of_injOn Prod.snd (fun e he => (Finset.mem_filter.mp he).2) ?_
    intro e he e' he'
    exact hM.snd_inj e (Finset.mem_filter.mp he).1 e' (Finset.mem_filter.mp he').1
  calc M.card
      ≤ _ := Finset.card_le_card hcover
    _ ≤ _ := Finset.card_union_le _ _
    _ ≤ N.card + N.card :=
        Nat.add_le_add (hfst.trans Finset.card_image_le) (hsnd.trans Finset.card_image_le)
    _ = 2 * N.card := (Nat.two_mul _).symm

end

end SwitchSimulation
