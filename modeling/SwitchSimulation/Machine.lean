import Mathlib.Algebra.Group.Hom.Defs
import Mathlib.Algebra.Order.Monoid.Unbundled.Basic
import Mathlib.Data.List.Forall2
import Mathlib.Tactic.TypeStar

/-!
# Runs of a machine

A machine is a step function from a state and an input to a state and an
output. `exec` and `outs` run it over a list of inputs; `Meets` says that
every step of a run is taken under a condition, and `Always` that every state
of it satisfies a property. The rules below turn one step into whole runs.
-/

namespace SwitchSimulation

section
variable {σ τ ι ω : Type*} (step : σ → ι → σ × ω)

def exec : σ → List ι → σ
  | s, [] => s
  | s, i :: is => exec (step s i).1 is

def outs : σ → List ι → List ω
  | _, [] => []
  | s, i :: is => (step s i).2 :: outs (step s i).1 is

/-- Every step of the run starts in a state, and takes an input, that meet `C`. -/
def Meets (C : σ → ι → Prop) : σ → List ι → Prop
  | _, [] => True
  | s, i :: is => C s i ∧ Meets C (step s i).1 is

instance Meets.decidable {C : σ → ι → Prop} [∀ s i, Decidable (C s i)] :
    ∀ (s : σ) (is : List ι), Decidable (Meets step C s is)
  | _, [] => inferInstanceAs (Decidable True)
  | s, i :: is =>
    have := Meets.decidable (C := C) (step s i).1 is
    inferInstanceAs (Decidable (C s i ∧ Meets step C (step s i).1 is))

/-- `P` holds in every state of the run, the first and the last included. -/
def Always (P : σ → Prop) : σ → List ι → Prop
  | s, [] => P s
  | s, i :: is => P s ∧ Always P (step s i).1 is

@[simp] theorem exec_nil (s : σ) : exec step s [] = s := rfl

@[simp] theorem exec_cons (s : σ) (i : ι) (is : List ι) :
    exec step s (i :: is) = exec step (step s i).1 is := rfl

@[simp] theorem outs_nil (s : σ) : outs step s [] = [] := rfl

@[simp] theorem outs_cons (s : σ) (i : ι) (is : List ι) :
    outs step s (i :: is) = (step s i).2 :: outs step (step s i).1 is := rfl

variable {step}

theorem meets_append {C : σ → ι → Prop} {s : σ} {is js : List ι} :
    Meets step C s (is ++ js) ↔ Meets step C s is ∧ Meets step C (exec step s is) js := by
  induction is generalizing s with
  | nil => simp [Meets]
  | cons i is ih => simp [Meets, ih, and_assoc]

theorem Always.head {P : σ → Prop} {s : σ} {is : List ι} (h : Always step P s is) : P s := by
  cases is with
  | nil => exact h
  | cons i is => exact h.1

theorem Always.last {P : σ → Prop} {s : σ} {is : List ι} (h : Always step P s is) :
    P (exec step s is) := by
  induction is generalizing s with
  | nil => exact h
  | cons i is ih => exact ih h.2

theorem Always.mono {P Q : σ → Prop} (hpq : ∀ s, P s → Q s) {s : σ} {is : List ι} (h : Always step P s is) :
    Always step Q s is := by
  induction is generalizing s with
  | nil => exact hpq s h
  | cons i is ih => exact ⟨hpq s h.1, ih h.2⟩

theorem exec_append (s : σ) (is js : List ι) : exec step s (is ++ js) = exec step (exec step s is) js := by
  induction is generalizing s with
  | nil => rfl
  | cons i is ih => exact ih _

theorem always_append {P : σ → Prop} {s : σ} {is js : List ι} :
    Always step P s (is ++ js) ↔ Always step P s is ∧ Always step P (exec step s is) js := by
  induction is generalizing s with
  | nil => exact ⟨fun h => ⟨h.head, h⟩, fun h => h.2⟩
  | cons i is ih => simp [Always, ih, and_assoc]

/-! ## Rules -/

theorem meets_inputs {C : ι → Prop} {s : σ} {is : List ι} :
    Meets step (fun _ i => C i) s is ↔ ∀ i ∈ is, C i := by
  induction is generalizing s with
  | nil => exact iff_of_true trivial fun i hi => absurd hi List.not_mem_nil
  | cons i is ih =>
    rw [List.forall_mem_cons, ← ih]
    rfl

theorem meets_true (s : σ) (is : List ι) : Meets step (fun _ _ => True) s is :=
  (meets_inputs (C := fun _ => True)).mpr fun _ _ => trivial

theorem Meets.and {C D : σ → ι → Prop} {s : σ} {is : List ι} (hc : Meets step C s is) (hd : Meets step D s is) :
    Meets step (fun s i => C s i ∧ D s i) s is := by
  induction is generalizing s with
  | nil => trivial
  | cons i is ih => exact ⟨⟨hc.1, hd.1⟩, ih hc.2 hd.2⟩

theorem Meets.always {C : σ → ι → Prop} (I : σ → Prop) (hs : ∀ s i, I s → C s i → I (step s i).1)
    {s : σ} {is : List ι} (h0 : I s) (hm : Meets step C s is) : Always step I s is := by
  induction is generalizing s with
  | nil => exact h0
  | cons i is ih => exact ⟨h0, ih (hs s i h0 hm.1) hm.2⟩

theorem Meets.imp {C D : σ → ι → Prop} (I : σ → Prop) (hs : ∀ s i, I s → C s i → I (step s i).1 ∧ D s i)
    {s : σ} {is : List ι} (h0 : I s) (hm : Meets step C s is) : Meets step D s is := by
  induction is generalizing s with
  | nil => trivial
  | cons i is ih =>
    obtain ⟨hi, hd⟩ := hs s i h0 hm.1
    exact ⟨hd, ih hi hm.2⟩

theorem Meets.outs {C : σ → ι → Prop} {Q : ω → Prop} (I : σ → Prop)
    (hs : ∀ s i, I s → C s i → I (step s i).1 ∧ Q (step s i).2) {s : σ} {is : List ι} (h0 : I s)
    (hm : Meets step C s is) : ∀ o ∈ outs step s is, Q o := by
  induction is generalizing s with
  | nil => intro o ho; cases ho
  | cons i is ih =>
    obtain ⟨hi, hq⟩ := hs s i h0 hm.1
    intro o ho
    cases List.mem_cons.mp ho with
    | inl h => rw [h]; exact hq
    | inr h => exact ih hi hm.2 o h

/-- If what is seen of the output depends on the input alone, a run is seen through its inputs. -/
theorem Meets.outs_eq_map {β : Type*} {C : σ → ι → Prop} (I : σ → Prop) (view : ω → β) (f : ι → β)
    (hs : ∀ s i, I s → C s i → I (step s i).1 ∧ view (step s i).2 = f i) {s : σ} {is : List ι} (h0 : I s)
    (hm : Meets step C s is) : (SwitchSimulation.outs step s is).map view = is.map f := by
  induction is generalizing s with
  | nil => rfl
  | cons i is ih =>
    obtain ⟨hi, hv⟩ := hs s i h0 hm.1
    rw [outs_cons, List.map_cons, List.map_cons, hv, ih hi hm.2]

theorem exec_inv (I : σ → Prop) (hs : ∀ s i, I s → I (step s i).1) {s : σ} (h0 : I s)
    (is : List ι) : I (exec step s is) := by
  induction is generalizing s with
  | nil => exact h0
  | cons i is ih => exact ih (hs s i h0)

theorem always_inv (I : σ → Prop) (hs : ∀ s i, I s → I (step s i).1) {s : σ} (h0 : I s)
    (is : List ι) : Always step I s is :=
  (meets_true s is).always I (fun s i h _ => hs s i h) h0

/-- Two machines that agree in the states that the one reaches have the same runs. -/
theorem run_congr {step' : σ → ι → σ × ω} (I : σ → Prop) (hI : ∀ s i, I s → I (step s i).1)
    (h : ∀ s i, I s → step' s i = step s i) {s : σ} (h0 : I s) (is : List ι) :
    exec step' s is = exec step s is ∧ outs step' s is = outs step s is ∧
      ∀ P, Always step' P s is ↔ Always step P s is := by
  induction is generalizing s with
  | nil => exact ⟨rfl, rfl, fun _ => Iff.rfl⟩
  | cons i is ih =>
    obtain ⟨hexec, houts, halways⟩ := ih (hI s i h0)
    refine ⟨?_, ?_, fun P => ?_⟩
    · rw [exec_cons, exec_cons, h s i h0, hexec]
    · rw [outs_cons, outs_cons, h s i h0, houts]
    · unfold Always
      rw [h s i h0, halways]

theorem meets_of_inv (I : σ → Prop) (hs : ∀ s i, I s → I (step s i).1) {s : σ} (h0 : I s)
    (is : List ι) : Meets step (fun s _ => I s) s is := by
  induction is generalizing s with
  | nil => trivial
  | cons i is ih => exact ⟨h0, ih (hs s i h0)⟩

theorem meets_congr_within {C D E : σ → ι → Prop} (I : σ → Prop)
    (hI : ∀ s i, I s → E s i → D s i → I (step s i).1) (hC : ∀ s i, I s → E s i → (C s i ↔ D s i))
    {s : σ} {is : List ι} (h0 : I s) (he : Meets step E s is) : Meets step C s is ↔ Meets step D s is := by
  induction is generalizing s with
  | nil => rfl
  | cons i is ih =>
    unfold Meets
    rw [hC s i h0 he.1]
    exact and_congr_right fun hd => ih (hI s i h0 he.1 hd) he.2

theorem meets_congr {C D : σ → ι → Prop} (I : σ → Prop) (hI : ∀ s i, I s → I (step s i).1)
    (hC : ∀ s i, I s → (C s i ↔ D s i)) {s : σ} (h0 : I s) (is : List ι) :
    Meets step C s is ↔ Meets step D s is :=
  meets_congr_within I (fun s i h _ _ => hI s i h) (fun s i h _ => hC s i h) h0 (meets_true s is)

/-- The ranking rule: a run whose steps all lower a rank has no more steps than the rank allows. -/
theorem Meets.lowers {C : σ → ι → Prop} (I : σ → Prop) (rank : σ → Nat)
    (hs : ∀ s i, I s → C s i → I (step s i).1 ∧ rank (step s i).1 < rank s)
    {s : σ} {is : List ι} (h0 : I s) (hm : Meets step C s is) :
    rank (exec step s is) + is.length ≤ rank s := by
  induction is generalizing s with
  | nil => exact Nat.le_refl _
  | cons i is ih =>
    obtain ⟨hi, hlt⟩ := hs s i h0 hm.1
    have := ih hi hm.2
    rw [exec_cons, List.length_cons]
    omega

/-- The progress rule: an output comes within a run that is longer than the rank
allows, if every step without it lowers the rank. -/
theorem Meets.progress {C : σ → ι → Prop} {Q : ω → Prop} (I : σ → Prop) (rank : σ → Nat)
    (hs : ∀ s i, I s → C s i → Q (step s i).2 ∨ I (step s i).1 ∧ rank (step s i).1 < rank s)
    {s : σ} {is : List ι} (h0 : I s) (hm : Meets step C s is) (hlen : rank s < is.length) :
    ∃ o ∈ SwitchSimulation.outs step s is, Q o := by
  induction is generalizing s with
  | nil => exact absurd hlen (Nat.not_lt_zero _)
  | cons i is ih =>
    rw [outs_cons]
    cases hs s i h0 hm.1 with
    | inl hq => exact ⟨_, List.mem_cons_self, hq⟩
    | inr hlower =>
      rw [List.length_cons] at hlen
      obtain ⟨o, ho, hq⟩ := ih hlower.1 hm.2 (by omega)
      exact ⟨o, List.mem_cons_of_mem _ ho, hq⟩

theorem Meets.no_return {C : σ → ι → Prop} (I : σ → Prop) (rank : σ → Nat)
    (hs : ∀ s i, I s → C s i → I (step s i).1 ∧ rank (step s i).1 < rank s)
    {s : σ} {is : List ι} (h0 : I s) (hm : Meets step C s is) (hne : is ≠ []) : exec step s is ≠ s := by
  intro he
  have h := Meets.lowers I rank hs h0 hm
  rw [he] at h
  have := List.length_pos_iff.mpr hne
  omega

/-- A cyclic counter that a step moves by one just when its output is a `hit`
counts the hits of a run. -/
theorem counter_run {n : Nat} (counter : σ → Nat) (hit : ω → Bool)
    (hs : ∀ s i, counter (step s i).1 = if hit (step s i).2 then (counter s + 1) % n else counter s)
    {s : σ} (h0 : counter s < n) (is : List ι) :
    counter (exec step s is) = (counter s + (outs step s is).countP hit) % n := by
  induction is generalizing s with
  | nil => rw [exec_nil, outs_nil, List.countP_nil, Nat.add_zero, Nat.mod_eq_of_lt h0]
  | cons i is ih =>
    have hlt : counter (step s i).1 < n := by
      rw [hs]
      split
      · exact Nat.mod_lt _ (by omega)
      · exact h0
    rw [exec_cons, outs_cons, List.countP_cons, ih hlt, hs]
    by_cases h : hit (step s i).2 = true
    · rw [if_pos h, if_pos h, Nat.mod_add_mod, Nat.add_assoc, Nat.add_comm 1]
    · rw [if_neg h, if_neg h, Nat.add_zero]

theorem exec_eq_foldl (s : σ) (is : List ι) : exec step s is = is.foldl (fun s i => (step s i).1) s := by
  induction is generalizing s with
  | nil => rfl
  | cons i is ih => exact ih _

def total {M : Type*} [AddCommMonoid M] (step : σ → ι → σ × ω) (gain : σ → ι → M) : σ → List ι → M
  | _, [] => 0
  | s, i :: is => gain s i + total step gain (step s i).1 is

/-- The conservation rule: if what a step takes in and has before is what it
gives out and has after, the same is true of a run. -/
theorem Meets.total_conserved {M : Type*} [AddCommMonoid M] (stock : σ → M) {gain loss : σ → ι → M}
    {C : σ → ι → Prop} (hs : ∀ s i, C s i → gain s i + stock s = loss s i + stock (step s i).1)
    {s : σ} {is : List ι} (hm : Meets step C s is) :
    total step gain s is + stock s = total step loss s is + stock (exec step s is) := by
  induction is generalizing s with
  | nil => rfl
  | cons i is ih =>
    rw [exec_cons, total, total, add_right_comm, hs s i hm.1, add_right_comm, add_assoc, ih hm.2, add_assoc]

theorem total_conserved {M : Type*} [AddCommMonoid M] (stock : σ → M) {gain loss : σ → ι → M}
    (hs : ∀ s i, gain s i + stock s = loss s i + stock (step s i).1) (s : σ) (is : List ι) :
    total step gain s is + stock s = total step loss s is + stock (exec step s is) :=
  (meets_true s is).total_conserved stock fun s i _ => hs s i

theorem total_append {M : Type*} [AddCommMonoid M] (gain : σ → ι → M) (s : σ) (is js : List ι) :
    total step gain s (is ++ js) = total step gain s is + total step gain (exec step s is) js := by
  induction is generalizing s with
  | nil => exact (zero_add _).symm
  | cons i is ih => rw [List.cons_append, exec_cons, total, total, ih, add_assoc]

theorem total_eq_zero {M : Type*} [AddCommMonoid M] {loss : σ → ι → M} (I : σ → Prop)
    (hs : ∀ s i, I s → I (step s i).1 ∧ loss s i = 0) {s : σ} (h0 : I s) (is : List ι) :
    total step loss s is = 0 := by
  induction is generalizing s with
  | nil => rfl
  | cons i is ih =>
    obtain ⟨hi, hz⟩ := hs s i h0
    rw [total, hz, ih hi, add_zero]

theorem total_map {M N : Type*} [AddCommMonoid M] [AddCommMonoid N] (f : M →+ N) (gain : σ → ι → M) (s : σ)
    (is : List ι) : total step (fun s i => f (gain s i)) s is = f (total step gain s is) := by
  induction is generalizing s with
  | nil => exact f.map_zero.symm
  | cons i is ih => rw [total, total, ih, f.map_add]

theorem total_le {M : Type*} [AddCommMonoid M] [Preorder M] [AddLeftMono M] {gain bound : σ → ι → M}
    (hs : ∀ s i, gain s i ≤ bound s i) (s : σ) (is : List ι) : total step gain s is ≤ total step bound s is := by
  induction is generalizing s with
  | nil => exact le_rfl
  | cons i is ih => exact add_le_add (hs s i) (ih _)

/-- The exact rule: if `P` holds in good states, and a step from a good state
ends in a good state when it meets `C` and in one without `P` when it does not,
then `P` holds throughout a run just when all its steps meet `C`. -/
theorem always_iff_meets_within {C D : σ → ι → Prop} {P : σ → Prop} (I : σ → Prop) (hP : ∀ s, I s → P s)
    (hs : ∀ s i, I s → D s i → C s i → I (step s i).1)
    (hn : ∀ s i, I s → D s i → P (step s i).1 → C s i) {s : σ} {is : List ι} (h0 : I s)
    (hd : Meets step D s is) : Always step P s is ↔ Meets step C s is := by
  induction is generalizing s with
  | nil => exact iff_of_true (hP s h0) trivial
  | cons i is ih =>
    constructor
    · intro ⟨_, h⟩
      have hc := hn s i h0 hd.1 h.head
      exact ⟨hc, (ih (hs s i h0 hd.1 hc) hd.2).mp h⟩
    · intro ⟨hc, h⟩
      exact ⟨hP s h0, (ih (hs s i h0 hd.1 hc) hd.2).mpr h⟩

theorem always_iff_meets {C D : σ → ι → Prop} (I : σ → Prop)
    (hs : ∀ s i, I s → D s i → (I (step s i).1 ↔ C s i)) {s : σ} {is : List ι} (h0 : I s)
    (hd : Meets step D s is) : Always step I s is ↔ Meets step C s is :=
  always_iff_meets_within I (fun _ h => h) (fun s i h hd => (hs s i h hd).mpr)
    (fun s i h hd => (hs s i h hd).mp) h0 hd

theorem outs_iff_meets {C : σ → ι → Prop} {Q : ω → Prop} (I : σ → Prop)
    (hI : ∀ s i, I s → I (step s i).1) (hQ : ∀ s i, I s → (Q (step s i).2 ↔ C s i)) {s : σ} (h0 : I s)
    (is : List ι) : (∀ o ∈ outs step s is, Q o) ↔ Meets step C s is := by
  induction is generalizing s with
  | nil => exact iff_of_true (fun o ho => absurd ho List.not_mem_nil) trivial
  | cons i is ih =>
    rw [outs_cons, List.forall_mem_cons, hQ s i h0, ih (hI s i h0)]
    rfl

theorem sim_run {stepA : τ → ι → τ × ω} {C : σ → ι → Prop} (R : σ → τ → Prop)
    (hs : ∀ s a i, R s a → C s i → R (step s i).1 (stepA a i).1 ∧ (step s i).2 = (stepA a i).2)
    {s : σ} {a : τ} {is : List ι} (h0 : R s a) (hm : Meets step C s is) :
    R (exec step s is) (exec stepA a is) ∧ outs step s is = outs stepA a is := by
  induction is generalizing s a with
  | nil => exact ⟨h0, rfl⟩
  | cons i is ih =>
    obtain ⟨hr, ho⟩ := hs s a i h0 hm.1
    obtain ⟨hr', ho'⟩ := ih hr hm.2
    exact ⟨hr', by rw [outs_cons, outs_cons, ho, ho']⟩

/-- The simulation rule for machines whose inputs and outputs differ: `f` gives
the input of the other machine, and what is seen of the outputs is equal. -/
theorem sim_run_view {κ ω' β : Type*} {stepA : τ → κ → τ × ω'} {C : σ → ι → Prop} (R : σ → τ → Prop) (f : ι → κ)
    (view : ω → β) (view' : ω' → β)
    (hs : ∀ s a i, R s a → C s i →
      R (step s i).1 (stepA a (f i)).1 ∧ view (step s i).2 = view' (stepA a (f i)).2)
    {s : σ} {a : τ} {is : List ι} (h0 : R s a) (hm : Meets step C s is) :
    R (exec step s is) (exec stepA a (is.map f)) ∧
      (outs step s is).map view = (outs stepA a (is.map f)).map view' := by
  induction is generalizing s a with
  | nil => exact ⟨h0, rfl⟩
  | cons i is ih =>
    obtain ⟨hr, ho⟩ := hs s a i h0 hm.1
    obtain ⟨hr', ho'⟩ := ih hr hm.2
    exact ⟨hr', by rw [outs_cons, List.map_cons, List.map_cons, outs_cons, List.map_cons, ho, ho']⟩

/-- A condition that two machines in step meet or fail together. -/
theorem meets_sim_iff {κ ω' : Type*} {stepA : τ → κ → τ × ω'} {C : σ → ι → Prop} {D : τ → κ → Prop}
    (R : σ → τ → Prop) (f : ι → κ) (hs : ∀ s a i, R s a → C s i → R (step s i).1 (stepA a (f i)).1)
    (hC : ∀ s a i, R s a → (C s i ↔ D a (f i))) {s : σ} {a : τ} (h0 : R s a) (is : List ι) :
    Meets step C s is ↔ Meets stepA D a (is.map f) := by
  induction is generalizing s a with
  | nil => exact Iff.rfl
  | cons i is ih =>
    rw [List.map_cons]
    unfold Meets
    rw [← hC s a i h0]
    exact and_congr_right fun hc => ih (hs s a i h0 hc)

/-! Two machines in step, on the same inputs -/

section
variable {stepA : τ → ι → τ × ω} {C : σ → ι → Prop} (R : σ → τ → Prop)
variable (hs : ∀ s a i, R s a → C s i → R (step s i).1 (stepA a i).1)
include hs

theorem always_sim_iff {P : σ → Prop} {Q : τ → Prop} (hP : ∀ s a, R s a → (P s ↔ Q a)) {s : σ} {a : τ}
    {is : List ι} (h0 : R s a) (hm : Meets step C s is) : Always step P s is ↔ Always stepA Q a is := by
  induction is generalizing s a with
  | nil => exact hP s a h0
  | cons i is ih => exact and_congr (hP s a h0) (ih (hs s a i h0 hm.1) hm.2)

theorem meets_sim_within_iff {D : σ → ι → Prop} {E : τ → ι → Prop}
    (hD : ∀ s a i, R s a → C s i → (D s i ↔ E a i)) {s : σ} {a : τ} {is : List ι} (h0 : R s a)
    (hm : Meets step C s is) : Meets step D s is ↔ Meets stepA E a is := by
  induction is generalizing s a with
  | nil => exact Iff.rfl
  | cons i is ih => exact and_congr (hD s a i h0 hm.1) (ih (hs s a i h0 hm.1) hm.2)

theorem total_sim {M : Type*} [AddCommMonoid M] {gain : σ → ι → M} {gainA : τ → ι → M}
    (hg : ∀ s a i, R s a → C s i → gain s i = gainA a i) {s : σ} {a : τ} {is : List ι} (h0 : R s a)
    (hm : Meets step C s is) : total step gain s is = total stepA gainA a is := by
  induction is generalizing s a with
  | nil => rfl
  | cons i is ih => exact congrArg₂ (· + ·) (hg s a i h0 hm.1) (ih (hs s a i h0 hm.1) hm.2)

end

/-! A machine that calls another one -/

section
variable {κ ω' M : Type*} [AddCommMonoid M] {stepB : τ → κ → τ × ω'} (view : σ → τ)

/-- The calls that a run makes, where `calls` are those of one step. -/
def madeCalls (step : σ → ι → σ × ω) (calls : σ → ι → List κ) : σ → List ι → List κ
  | _, [] => []
  | s, i :: is => calls s i ++ madeCalls step calls (step s i).1 is

variable {calls : σ → ι → List κ} (hs : ∀ s i, exec stepB (view s) (calls s i) = view (step s i).1)
include hs

theorem exec_madeCalls (s : σ) (is : List ι) :
    exec stepB (view s) (madeCalls step calls s is) = view (exec step s is) := by
  induction is generalizing s with
  | nil => rfl
  | cons i is ih => rw [madeCalls, exec_append, hs, ih, exec_cons]

theorem meets_madeCalls {C : τ → κ → Prop} (hC : ∀ s i, Meets stepB C (view s) (calls s i)) (s : σ) (is : List ι) :
    Meets stepB C (view s) (madeCalls step calls s is) := by
  induction is generalizing s with
  | nil => trivial
  | cons i is ih =>
    rw [madeCalls, meets_append, hs]
    exact ⟨hC s i, ih _⟩

theorem total_madeCalls {gain : σ → ι → M} {gainB : τ → κ → M}
    (hg : ∀ s i, total stepB gainB (view s) (calls s i) = gain s i) (s : σ) (is : List ι) :
    total stepB gainB (view s) (madeCalls step calls s is) = total step gain s is := by
  induction is generalizing s with
  | nil => rfl
  | cons i is ih => rw [madeCalls, total_append, hg, hs, ih, total]

end

/-- Two machines on inputs that are related one by one. -/
theorem sim_run_pairs {κ ω' : Type*} {stepA : τ → κ → τ × ω'} (R : σ → τ → Prop) {Q : ι → κ → Prop}
    {O : ω → ω' → Prop}
    (hs : ∀ s a i k, R s a → Q i k → R (step s i).1 (stepA a k).1 ∧ O (step s i).2 (stepA a k).2)
    {s : σ} {a : τ} {is : List ι} {ks : List κ} (h0 : R s a) (hq : List.Forall₂ Q is ks) :
    R (exec step s is) (exec stepA a ks) ∧ List.Forall₂ O (outs step s is) (outs stepA a ks) := by
  induction hq generalizing s a with
  | nil => exact ⟨h0, .nil⟩
  | cons hik _ ih =>
    obtain ⟨hr, ho⟩ := hs s a _ _ h0 hik
    obtain ⟨hr', ho'⟩ := ih hr
    exact ⟨hr', .cons ho ho'⟩

/-- A condition on the steps of one machine that follows from what holds in every
state of another. -/
theorem meets_of_sim {κ ω' : Type*} {stepA : τ → κ → τ × ω'} {C : σ → ι → Prop} {D : ι → Prop} {P : τ → Prop}
    (R : σ → τ → Prop) (f : ι → κ) (hs : ∀ s a i, R s a → R (step s i).1 (stepA a (f i)).1)
    (hC : ∀ s a i, R s a → P a → D i → C s i) {s : σ} {a : τ} {is : List ι} (h0 : R s a)
    (hP : Always stepA P a (is.map f)) (hD : ∀ i ∈ is, D i) : Meets step C s is := by
  induction is generalizing s a with
  | nil => trivial
  | cons i is ih =>
    obtain ⟨hi, hD⟩ := List.forall_mem_cons.mp hD
    exact ⟨hC s a i h0 hP.head hi, ih (hs s a i h0) hP.2 hD⟩

end

end SwitchSimulation
