import Mathlib.Algebra.BigOperators.Group.List.Basic
import Mathlib.Algebra.GroupWithZero.Nat
import Mathlib.Data.List.Infix
import SwitchSimulation.Machine

/-!
# Stocks that leak

A stock gains something in every step of a machine and loses at least one
while there is something in it. It stays below a bound if no stretch of the
run gains more than its own length and the bound; and it runs dry when it
gains nothing.
-/

namespace SwitchSimulation

/-- In every stretch of steps the gains exceed the number of steps by at most `bound`. -/
def Conforms (bound : Nat) (gains : List Nat) : Prop :=
  ∀ block, block <:+: gains → block.sum ≤ bound + block.length

theorem conforms_iff {bound : Nat} {gains : List Nat} : Conforms bound gains ↔
    ∀ rest ∈ gains.tails, ∀ block ∈ rest.inits, block.sum ≤ bound + block.length := by
  simp only [Conforms, List.infix_iff_prefix_suffix, List.mem_tails, List.mem_inits]
  exact ⟨fun h rest hr block hb => h block ⟨rest, hb, hr⟩, fun h block ⟨rest, hb, hr⟩ => h rest hr block hb⟩

instance (bound : Nat) (gains : List Nat) : Decidable (Conforms bound gains) := decidable_of_iff' _ conforms_iff

section
variable {σ ι ω : Type*} {step : σ → ι → σ × ω} {bound : Nat}

theorem Conforms.tail {g : Nat} {gains : List Nat} (h : Conforms bound (g :: gains)) : Conforms bound gains :=
  fun block hb => h block (hb.trans (List.suffix_cons g gains).isInfix)

variable {C : σ → ι → Prop} (I : σ → Prop) (stock : σ → Nat) (gain : ι → Nat)
variable (hs : ∀ s i, I s → C s i →
  I (step s i).1 ∧ (stock (step s i).1 + 1 ≤ stock s + gain i ∨ stock (step s i).1 = 0))
include hs

/-- The stock that is there at the start counts as a gain before the first step. -/
theorem Meets.stock_le_of_prefix {s : σ} {is : List ι} (h0 : I s) (hm : Meets step C s is)
    (hc : Conforms bound (is.map gain))
    (hp : ∀ block, block <+: is.map gain → stock s + block.sum ≤ bound + block.length) :
    Always step (fun s => stock s ≤ bound) s is := by
  have hstock : stock s ≤ bound := hp [] List.nil_prefix
  induction is generalizing s with
  | nil => exact hstock
  | cons i is ih =>
    obtain ⟨hi, hstep⟩ := hs s i h0 hm.1
    have hnext : ∀ block, block <+: is.map gain →
        stock (step s i).1 + block.sum ≤ bound + block.length := by
      intro block hb
      have hfirst := hp (gain i :: block) (List.cons_prefix_cons.mpr ⟨rfl, hb⟩)
      have hrest := hc.tail block hb.isInfix
      rw [List.sum_cons, List.length_cons] at hfirst
      omega
    exact ⟨hstock, ih hi hm.2 hc.tail hnext (hnext [] List.nil_prefix)⟩

theorem Meets.stock_le {s : σ} {is : List ι} (h0 : I s) (hm : Meets step C s is)
    (hc : Conforms bound (is.map gain)) (he : stock s = 0) : Always step (fun s => stock s ≤ bound) s is := by
  refine hm.stock_le_of_prefix I stock gain hs h0 hc fun block hb => ?_
  rw [he, Nat.zero_add]
  exact hc block hb.isInfix

theorem Meets.stock_dry {s : σ} {is : List ι} (h0 : I s) (hm : Meets step C s is)
    (hg : ∀ i ∈ is, gain i = 0) : stock (exec step s is) ≤ stock s - is.length := by
  induction is generalizing s with
  | nil => exact Nat.le_refl _
  | cons i is ih =>
    obtain ⟨hg0, hg⟩ := List.forall_mem_cons.mp hg
    obtain ⟨hi, hstep⟩ := hs s i h0 hm.1
    have := ih hi hm.2 hg
    rw [exec_cons, List.length_cons]
    omega

end

end SwitchSimulation
