import Mathlib.Logic.Function.Basic

/-!
# Counting loops and guarded loops

`forRange n body s` is `for (i = 0; i < n; i++) s = body(i, s)`; `forUntil`
is the same loop with a second exit test on the state. `whileLoop` runs a
guarded loop for at most `fuel` rounds, and `whileLoop_exit` says when the
fuel is enough.
-/

namespace SwitchSimulation

section
variable {σ : Type*}

/-! ## Counting loops -/

def forRange : Nat → (Nat → σ → σ) → σ → σ
  | 0, _, s => s
  | n + 1, body, s => body n (forRange n body s)

@[simp] theorem forRange_zero (body : Nat → σ → σ) (s : σ) : forRange 0 body s = s := rfl

/-- The invariant rule: `I i` holds before round `i`. -/
theorem forRange_inv (I : Nat → σ → Prop) {n : Nat} {body : Nat → σ → σ} {s : σ} (h0 : I 0 s)
    (hs : ∀ i < n, ∀ t, I i t → I (i + 1) (body i t)) : I n (forRange n body s) := by
  induction n with
  | zero => exact h0
  | succ n ih => exact hs n (by omega) _ (ih fun i hi => hs i (by omega))

theorem forRange_keeps (P : σ → Prop) {n : Nat} {body : Nat → σ → σ} {s : σ} (h0 : P s)
    (hs : ∀ i < n, ∀ t, P t → P (body i t)) : P (forRange n body s) :=
  forRange_inv (fun _ => P) h0 hs

/-- Two loops that go round together. -/
theorem forRange_rel {τ : Type*} (R : Nat → σ → τ → Prop) {n : Nat} {body : Nat → σ → σ} {body' : Nat → τ → τ}
    {s : σ} {t : τ} (h0 : R 0 s t) (hs : ∀ i < n, ∀ s t, R i s t → R (i + 1) (body i s) (body' i t)) :
    R n (forRange n body s) (forRange n body' t) := by
  induction n with
  | zero => exact h0
  | succ n ih => exact hs n (by omega) _ _ (ih fun i hi => hs i (by omega))

theorem forRange_map {τ : Type*} (f : σ → τ) {n : Nat} {body : Nat → σ → σ} {body' : Nat → τ → τ}
    (hf : ∀ i < n, ∀ s, f (body i s) = body' i (f s)) (s : σ) :
    f (forRange n body s) = forRange n body' (f s) :=
  forRange_rel (fun _ s t => f s = t) rfl fun i hi s _ h => (hf i hi s).trans (congrArg (body' i) h)

/-- Two bodies that agree under an invariant of the one make the same loop. -/
theorem forRange_congr (I : σ → Prop) {n : Nat} {body body' : Nat → σ → σ} {s : σ} (h0 : I s)
    (hI : ∀ i < n, ∀ t, I t → I (body i t)) (hb : ∀ i < n, ∀ t, I t → body' i t = body i t) :
    forRange n body' s = forRange n body s := by
  refine (forRange_rel (fun _ t t' => t = t' ∧ I t') ⟨rfl, h0⟩ ?_).1
  rintro i hi t _ ⟨rfl, ht⟩
  exact ⟨hb i hi t ht, hI i hi t ht⟩

theorem foldl_congr_within {ι : Type*} (I : σ → Prop) {body body' : ι → σ → σ} {l : List ι} {s : σ} (h0 : I s)
    (hb : ∀ i ∈ l, ∀ t, I t → I (body i t) ∧ body' i t = body i t) :
    l.foldl (fun t i => body' i t) s = l.foldl (fun t i => body i t) s ∧ I (l.foldl (fun t i => body i t) s) := by
  induction l generalizing s with
  | nil => exact ⟨rfl, h0⟩
  | cons i l ih =>
    obtain ⟨hi, hl⟩ := List.forall_mem_cons.mp hb
    obtain ⟨hI, he⟩ := hi s h0
    rw [List.foldl_cons, List.foldl_cons, he]
    exact ih hI hl

theorem forRange_eq_foldl (n : Nat) (body : Nat → σ → σ) (s : σ) :
    forRange n body s = (List.range n).foldl (fun t i => body i t) s := by
  induction n with
  | zero => rfl
  | succ n ih => rw [forRange, ih, List.range_succ, List.foldl_append]; rfl

theorem forRange_perm {n : Nat} {body : Nat → σ → σ} {order : List Nat} (hp : order.Perm (List.range n))
    (hcomm : ∀ i < n, ∀ j < n, i ≠ j → ∀ t, body i (body j t) = body j (body i t)) (s : σ) :
    order.foldl (fun t i => body i t) s = forRange n body s := by
  rw [forRange_eq_foldl]
  apply hp.foldl_eq'
  intro i hi j hj t
  by_cases hij : i = j
  · rw [hij]
  · have hi' : i < n := List.mem_range.mp (hp.mem_iff.mp hi)
    have hj' : j < n := List.mem_range.mp (hp.mem_iff.mp hj)
    exact hcomm j hj' i hi' (Ne.symm hij) t

/-! ## Counting loops with an exit test -/

/-- `for (j = 0; j < n && !stop(s); j++) s = body(j, s)`. -/
def forUntil (n : Nat) (stop : σ → Bool) (body : Nat → σ → σ) (s : σ) : σ :=
  forRange n (fun j t => if stop t then t else body j t) s

theorem forUntil_succ (n : Nat) (stop : σ → Bool) (body : Nat → σ → σ) (s : σ) :
    forUntil (n + 1) stop body s =
      if stop (forUntil n stop body s) then forUntil n stop body s
      else body n (forUntil n stop body s) := rfl

theorem forUntil_congr (I : σ → Prop) {n : Nat} {stop : σ → Bool} {body body' : Nat → σ → σ} {s : σ} (h0 : I s)
    (hI : ∀ j < n, ∀ t, I t → I (body j t)) (hb : ∀ j < n, ∀ t, I t → body' j t = body j t) :
    forUntil n stop body' s = forUntil n stop body s := by
  apply forRange_congr I h0
  · intro j hj t ht
    split
    · exact ht
    · exact hI j hj t ht
  · intro j hj t ht
    rw [hb j hj t ht]

theorem forUntil_keeps (P : σ → Prop) {n : Nat} {stop : σ → Bool} {body : Nat → σ → σ} {s : σ} (h0 : P s)
    (hs : ∀ j < n, ∀ t, P t → P (body j t)) : P (forUntil n stop body s) := by
  apply forRange_keeps P h0
  intro j hj t ht
  split
  · exact ht
  · exact hs j hj t ht

/-- A search loop: the body does nothing where `p` fails, and stops the loop
where `p` holds. It acts once, at the first index that satisfies `p`. -/
theorem forUntil_search {n : Nat} {stop : σ → Bool} {body : Nat → σ → σ} {s : σ} (p : Nat → Bool)
    (h0 : stop s = false) (hmiss : ∀ j < n, p j = false → body j s = s)
    (hhit : ∀ j < n, p j = true → stop (body j s) = true) :
    forUntil n stop body s =
      match (List.range n).find? p with
      | none => s
      | some j => body j s := by
  induction n with
  | zero => rfl
  | succ n ih =>
    rw [forUntil_succ, ih (fun j hj => hmiss j (by omega)) (fun j hj => hhit j (by omega)),
      List.range_succ, List.find?_append]
    cases hf : (List.range n).find? p with
    | some j =>
      have hj : j < n := List.mem_range.mp (List.mem_of_find?_eq_some hf)
      simp [hhit j (by omega) (List.find?_some hf)]
    | none =>
      cases hp : p n with
      | true => simp [h0, hp]
      | false => simp [h0, hp, hmiss n (by omega) hp]

/-! ## Guarded loops -/

/-- `while (cond(s)) s = body(s)`, for at most `fuel` rounds. -/
def whileLoop (cond : σ → Bool) (body : σ → σ) : Nat → σ → σ
  | 0, s => s
  | fuel + 1, s => if cond s then whileLoop cond body fuel (body s) else s

theorem whileLoop_of_not {cond : σ → Bool} {body : σ → σ} {s : σ} (h : cond s = false) (fuel : Nat) :
    whileLoop cond body fuel s = s := by
  cases fuel <;> simp [whileLoop, h]

theorem whileLoop_of_cond {cond : σ → Bool} {body : σ → σ} {s : σ} (h : cond s = true) (fuel : Nat) :
    whileLoop cond body (fuel + 1) s = whileLoop cond body fuel (body s) := by
  simp [whileLoop, h]

theorem whileLoop_inv {cond : σ → Bool} {body : σ → σ} (I : σ → Prop)
    (hs : ∀ s, I s → cond s = true → I (body s)) :
    ∀ (fuel : Nat) {s : σ}, I s → I (whileLoop cond body fuel s)
  | 0, _, h0 => h0
  | fuel + 1, s, h0 => by
    unfold whileLoop
    by_cases hc : cond s = true
    · rw [if_pos hc]; exact whileLoop_inv I hs fuel (hs s h0 hc)
    · rw [if_neg hc]; exact h0

theorem whileLoop_exit (cond : σ → Bool) (body : σ → σ) (I : σ → Prop) (variant : σ → Nat)
    (hs : ∀ s, I s → cond s = true → I (body s))
    (hv : ∀ s, I s → cond s = true → variant (body s) < variant s) :
    ∀ (fuel : Nat) {s : σ}, I s → variant s ≤ fuel → cond (whileLoop cond body fuel s) = false
  | 0, s, h0, hf => by
    cases hc : cond s with
    | false => simpa [whileLoop] using hc
    | true => exact absurd (hv s h0 hc) (by omega)
  | fuel + 1, s, h0, hf => by
    cases hc : cond s with
    | false => rw [whileLoop_of_not hc]; exact hc
    | true =>
      rw [whileLoop_of_cond hc]
      have := hv s h0 hc
      exact whileLoop_exit cond body I variant hs hv fuel (hs s h0 hc) (by omega)

/-- Any two amounts of fuel that are enough give the same result. -/
theorem whileLoop_fuel (cond : σ → Bool) (body : σ → σ) (variant : σ → Nat)
    (hv : ∀ s, cond s = true → variant (body s) < variant s) :
    ∀ (fuel fuel' : Nat) {s : σ}, variant s ≤ fuel → variant s ≤ fuel' →
      whileLoop cond body fuel s = whileLoop cond body fuel' s
  | fuel, fuel', s, hf, hf' => by
    cases hc : cond s with
    | false => rw [whileLoop_of_not hc, whileLoop_of_not hc]
    | true =>
      have hlt := hv s hc
      obtain ⟨m, rfl⟩ : ∃ m, fuel = m + 1 := ⟨fuel - 1, by omega⟩
      obtain ⟨m', rfl⟩ : ∃ m', fuel' = m' + 1 := ⟨fuel' - 1, by omega⟩
      rw [whileLoop_of_cond hc, whileLoop_of_cond hc]
      exact whileLoop_fuel cond body variant hv m m' (by omega) (by omega)

/-- How many rounds a guarded loop goes. -/
def whileRounds (cond : σ → Bool) (body : σ → σ) : Nat → σ → Nat
  | 0, _ => 0
  | fuel + 1, s => if cond s then whileRounds cond body fuel (body s) + 1 else 0

theorem whileRounds_le {cond : σ → Bool} {body : σ → σ} (variant : σ → Nat)
    (hv : ∀ s, cond s = true → variant (body s) < variant s) :
    ∀ (fuel : Nat) (s : σ), whileRounds cond body fuel s ≤ variant s
  | 0, _ => Nat.zero_le _
  | fuel + 1, s => by
    unfold whileRounds
    by_cases hc : cond s = true
    · have hlt := hv s hc
      have hle := whileRounds_le variant hv fuel (body s)
      rw [if_pos hc]
      omega
    · rw [if_neg hc]
      exact Nat.zero_le _

/-! ## Loops whose rounds can fail -/

/-- A counting loop that has no result if a round fails. -/
def forTry (n : Nat) (body : Nat → σ → Option σ) (s : σ) : Option σ := forRange n (fun i t => t.bind (body i)) (some s)

theorem forTry_eq {n : Nat} {body : Nat → σ → Option σ} {body' : Nat → σ → σ}
    (h : ∀ i < n, ∀ t, body i t = some (body' i t)) (s : σ) : forTry n body s = some (forRange n body' s) := by
  refine (forRange_rel (fun _ t t' => t = some t') rfl ?_ : _)
  rintro i hi _ t rfl
  exact h i hi t

theorem forTry_fails {n : Nat} {body : Nat → σ → Option σ} {s : σ} (hn : 0 < n) (h : body 0 s = none) :
    forTry n body s = none := by
  have hloop : if n = 0 then forTry n body s = some s else forTry n body s = none := by
    refine forRange_inv (fun i t => if i = 0 then t = some s else t = none) rfl ?_
    intro i _ t ht
    rw [if_neg (Nat.succ_ne_zero i)]
    by_cases hi : i = 0
    · rw [if_pos hi] at ht
      rw [ht, hi, Option.bind_some, h]
    · rw [if_neg hi] at ht
      rw [ht, Option.bind_none]
  rwa [if_neg (by omega)] at hloop

/-- A round fails, or ends the loop, or goes on with a new state. The loop has
no result if a round fails or the fuel runs out. -/
def tryLoop (round : σ → Option (Option σ)) : Nat → σ → Option σ
  | 0, _ => none
  | fuel + 1, s => (round s).bind fun next => next.elim (some s) (tryLoop round fuel)

/-- With enough fuel a loop without failing rounds is the guarded loop. -/
theorem tryLoop_eq {round : σ → Option (Option σ)} {cond : σ → Bool} {body : σ → σ} (variant : σ → Nat)
    (hr : ∀ s, round s = some (if cond s = true then some (body s) else none))
    (hv : ∀ s, cond s = true → variant (body s) < variant s) :
    ∀ (fuel : Nat) {s : σ}, variant s < fuel → tryLoop round fuel s = some (whileLoop cond body fuel s)
  | 0, _, hf => absurd hf (Nat.not_lt_zero _)
  | fuel + 1, s, hf => by
    unfold tryLoop
    rw [hr, Option.bind_some]
    cases hc : cond s with
    | false => rw [whileLoop_of_not hc]; rfl
    | true =>
      have hlt := hv s hc
      rw [whileLoop_of_cond hc]
      exact tryLoop_eq variant hr hv fuel (by omega)

end

end SwitchSimulation
