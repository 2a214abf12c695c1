import SwitchSimulation.Schedule

/-!
# The simultaneous round

`grantOf` and `acceptOf` state a round the way iSLIP is explained: every
unmatched output grants the first request from its pointer, and every input
accepts the first grant from its pointer. `iSLIPRound_eq` says that the
nested loops compute this round. A matching is an invariant of it.
-/

namespace SwitchSimulation

section
variable (n : Nat) (voqSize : Nat → Nat → Nat) (s : Schedule)

/-! ## Grants and acceptances -/

def requests (o x : Nat) : Bool := !s.inputMatched x && decide (voqSize x o > 0)

def grantOf (o : Nat) : Option Nat :=
  if o < n ∧ s.outputMatched o = false then firstFrom n (s.grantPtr o) (requests voqSize s o) else none

def acceptOf (x : Nat) : Option Nat :=
  firstFrom n (s.acceptPtr x) fun o => grantOf n voqSize s o = some x

def takenUpTo (k o : Nat) : Bool :=
  (grantOf n voqSize s o).any fun x => decide (x < k ∧ acceptOf n voqSize s x = some o)

def grantsUpTo (k : Nat) : Schedule :=
  { s with
    grantTarget := fun o => if o < k then (grantOf n voqSize s o).or (s.grantTarget o) else s.grantTarget o
    grantMade := fun o => decide (o < k) && (grantOf n voqSize s o).isSome }

def acceptsUpTo (k : Nat) : Schedule :=
  { grantsUpTo n voqSize s n with
    grantPtr := fun o => if takenUpTo n voqSize s k o then (s.grantPtr o + 1) % n else s.grantPtr o
    outputMatched := fun o => s.outputMatched o || takenUpTo n voqSize s k o
    acceptPtr := fun x =>
      if x < k ∧ (acceptOf n voqSize s x).isSome then (s.acceptPtr x + 1) % n else s.acceptPtr x
    inputMatched := fun x => s.inputMatched x || decide (x < k) && (acceptOf n voqSize s x).isSome
    mappingActive := fun x => s.mappingActive x || decide (x < k) && (acceptOf n voqSize s x).isSome
    portMapping := fun x =>
      if x < k then (acceptOf n voqSize s x).getD (s.portMapping x) else s.portMapping x }

def simultaneousRound : Schedule := acceptsUpTo n voqSize s n

variable {n voqSize s} {o x k : Nat}

theorem grantOf_some (h : grantOf n voqSize s o = some x) :
    o < n ∧ x < n ∧ s.outputMatched o = false ∧ s.inputMatched x = false ∧ voqSize x o > 0 := by
  unfold grantOf at h
  by_cases ho : o < n ∧ s.outputMatched o = false
  · rw [if_pos ho] at h
    obtain ⟨hx, hr⟩ := firstFrom_some h
    simp only [requests, Bool.and_eq_true, Bool.not_eq_true', decide_eq_true_eq] at hr
    exact ⟨ho.1, hx, ho.2, hr.1, hr.2⟩
  · rw [if_neg ho] at h; cases h

theorem acceptOf_some (h : acceptOf n voqSize s x = some o) : grantOf n voqSize s o = some x := by
  simpa using (firstFrom_some h).2

theorem acceptOf_inj {y : Nat} (h : acceptOf n voqSize s x = some o)
    (h' : acceptOf n voqSize s y = some o) : x = y :=
  Option.some.inj ((acceptOf_some h).symm.trans (acceptOf_some h'))

theorem takenUpTo_iff : takenUpTo n voqSize s k o = true ↔ ∃ x < k, acceptOf n voqSize s x = some o := by
  simp only [takenUpTo, Option.any_eq_true, decide_eq_true_eq]
  constructor
  · intro ⟨x, _, hx, ha⟩; exact ⟨x, hx, ha⟩
  · intro ⟨x, hx, ha⟩; exact ⟨x, acceptOf_some ha, hx, ha⟩

theorem takenUpTo_succ : takenUpTo n voqSize s (k + 1) o =
    (takenUpTo n voqSize s k o || decide (acceptOf n voqSize s k = some o)) := by
  rw [Bool.eq_iff_iff, Bool.or_eq_true, takenUpTo_iff, takenUpTo_iff, decide_eq_true_eq]
  constructor
  · intro ⟨x, hx, ha⟩
    rcases Nat.lt_succ_iff_lt_or_eq.mp hx with h | rfl
    · exact Or.inl ⟨x, h, ha⟩
    · exact Or.inr ha
  · rintro (⟨x, hx, ha⟩ | ha)
    · exact ⟨x, by omega, ha⟩
    · exact ⟨k, by omega, ha⟩

/-! ## The grant loop -/

theorem grantOutput_eq (ho : o < n) : grantOutput n voqSize o s =
    (grantOf n voqSize s o).elim s (fun x => makeGrant o x s) := by
  unfold grantOutput grantOf
  by_cases hm : s.outputMatched o = false
  · rw [if_pos hm, if_pos ⟨ho, hm⟩]
    apply forUntil_firstFrom
    intro j
    by_cases hi : s.inputMatched ((s.grantPtr o + j) % n) = true <;> simp [grantBody, requests, hi]
  · rw [if_neg hm, if_neg fun h => hm h.2]; rfl

theorem grantOutput_grantsUpTo (hk : k < n) :
    grantOutput n voqSize k (grantsUpTo n voqSize s k) = grantsUpTo n voqSize s (k + 1) := by
  rw [grantOutput_eq hk, show grantOf n voqSize (grantsUpTo n voqSize s k) k = grantOf n voqSize s k from rfl]
  have hlt : ∀ o, o ≠ k → (o < k + 1 ↔ o < k) := fun o h => by omega
  cases hg : grantOf n voqSize s k with
  | none =>
    rw [Option.elim_none]
    ext1 <;> try rfl
    all_goals
      funext o
      by_cases ho : o = k
      · subst ho; simp [grantsUpTo, hg]
      · simp only [grantsUpTo, hlt o ho]
  | some x =>
    rw [Option.elim_some]
    ext1 <;> try rfl
    all_goals
      funext o
      by_cases ho : o = k
      · subst ho; simp [grantsUpTo, makeGrant, hg]
      · simp only [grantsUpTo, makeGrant, hlt o ho, Function.update_of_ne ho]

theorem grantPhase_eq : grantPhase n voqSize (resetGrants s) = grantsUpTo n voqSize s n := by
  apply forRange_inv fun k t => t = grantsUpTo n voqSize s k
  · simp [resetGrants, grantsUpTo]
  · intro k hk t ht
    rw [ht, grantOutput_grantsUpTo hk]

/-! ## The accept loop -/

def acceptable (t : Schedule) (i o : Nat) : Bool :=
  !t.outputMatched o && (t.grantMade o && decide (t.grantTarget o = some i))

theorem acceptInput_eq (t : Schedule) (i : Nat) : acceptInput n i t = if t.inputMatched i = false then
    (firstFrom n (t.acceptPtr i) (acceptable t i)).elim t (fun o => accept n i o t) else t := by
  unfold acceptInput
  by_cases hm : t.inputMatched i = false
  · rw [if_pos hm, if_pos hm]
    apply forUntil_firstFrom
    intro j
    by_cases ho : t.outputMatched ((t.acceptPtr i + j) % n) = true <;> simp [acceptBody, acceptable, ho]
  · rw [if_neg hm, if_neg hm]

/-- The accept loop reads the grants of the start of the round: an output that
was taken meanwhile had granted to another input. -/
theorem acceptable_acceptsUpTo (ho : o < n) :
    acceptable (acceptsUpTo n voqSize s k) k o = decide (grantOf n voqSize s o = some k) := by
  rw [Bool.eq_iff_iff]
  simp only [acceptable, acceptsUpTo, grantsUpTo, Bool.and_eq_true, Bool.not_eq_true', Bool.or_eq_false_iff,
    decide_eq_true_eq, ho, true_and]
  constructor
  · intro ⟨_, hs, ht⟩
    obtain ⟨x, hx⟩ := Option.isSome_iff_exists.mp hs
    rw [hx] at ht ⊢
    simpa using ht
  · intro hg
    refine ⟨⟨(grantOf_some hg).2.2.1, ?_⟩, by simp [hg]⟩
    rw [← Bool.not_eq_true, takenUpTo_iff]
    intro ⟨x, hx, ha⟩
    have := (acceptOf_some ha).symm.trans hg
    simp only [Option.some.injEq] at this
    omega

theorem acceptInput_acceptsUpTo_elim : acceptInput n k (acceptsUpTo n voqSize s k) =
    (acceptOf n voqSize s k).elim (acceptsUpTo n voqSize s k) fun o => accept n k o (acceptsUpTo n voqSize s k) := by
  have hm : (acceptsUpTo n voqSize s k).inputMatched k = s.inputMatched k := by simp [acceptsUpTo]
  have hp : (acceptsUpTo n voqSize s k).acceptPtr k = s.acceptPtr k := by simp [acceptsUpTo]
  rw [acceptInput_eq, hm, hp, firstFrom_congr fun o ho => acceptable_acceptsUpTo ho]
  by_cases h : s.inputMatched k = false
  · rw [if_pos h]; rfl
  · rw [if_neg h]
    cases ha : acceptOf n voqSize s k with
    | none => rfl
    | some o => exact absurd (grantOf_some (acceptOf_some ha)).2.2.2.1 h

theorem acceptInput_acceptsUpTo :
    acceptInput n k (acceptsUpTo n voqSize s k) = acceptsUpTo n voqSize s (k + 1) := by
  rw [acceptInput_acceptsUpTo_elim]
  have hlt : ∀ x, x ≠ k → (x < k + 1 ↔ x < k) := fun x h => by omega
  cases ha : acceptOf n voqSize s k with
  | none =>
    rw [Option.elim_none]
    ext1
    case acceptPtr | portMapping | mappingActive | inputMatched =>
      funext x
      by_cases hx : x = k
      · subst hx; simp [acceptsUpTo, ha]
      · simp only [acceptsUpTo, hlt x hx]
    all_goals simp [acceptsUpTo, takenUpTo_succ, ha]
  | some o =>
    have htaken : takenUpTo n voqSize s k o = false := by
      rw [← Bool.not_eq_true, takenUpTo_iff]
      intro ⟨x, hx, hax⟩
      exact absurd (acceptOf_inj hax ha) (by omega)
    rw [Option.elim_some]
    ext1
    case acceptPtr | portMapping | mappingActive | inputMatched =>
      funext x
      by_cases hx : x = k
      · subst hx; simp [acceptsUpTo, accept, ha]
      · simp only [acceptsUpTo, accept, hlt x hx, Function.update_of_ne hx]
    case grantPtr | outputMatched =>
      funext y
      by_cases hy : y = o
      · subst hy; simp [acceptsUpTo, accept, takenUpTo_succ, ha, htaken]
      · simp [acceptsUpTo, accept, takenUpTo_succ, ha, hy, Ne.symm hy]
    all_goals rfl

theorem iSLIPRound_eq : iSLIPRound n voqSize s = simultaneousRound n voqSize s := by
  unfold iSLIPRound
  rw [grantPhase_eq]
  apply forRange_inv fun k t => t = acceptsUpTo n voqSize s k
  · ext1 <;> simp [acceptsUpTo, grantsUpTo, takenUpTo]
  · intro k _ t ht
    rw [ht, acceptInput_acceptsUpTo]

/-! ## The matching -/

structure IsMatching (n : Nat) (voqSize : Nat → Nat → Nat) (s : Schedule) : Prop where
  active_iff : ∀ x, s.mappingActive x = s.inputMatched x
  idle : ∀ x, s.mappingActive x = false → s.portMapping x = 0
  covered : ∀ o, s.outputMatched o = true → ∃ x < n, s.mappingActive x = true ∧ s.portMapping x = o
  lt : ∀ x, s.mappingActive x = true → s.portMapping x < n
  nonempty : ∀ x, s.mappingActive x = true → voqSize x (s.portMapping x) > 0
  matched : ∀ x, s.mappingActive x = true → s.outputMatched (s.portMapping x) = true
  inj : ∀ x y, s.mappingActive x = true → s.mappingActive y = true → s.portMapping x = s.portMapping y → x = y

theorem scheduleReset_matching (grantPtr acceptPtr : Nat → Nat) :
    IsMatching n voqSize (scheduleReset grantPtr acceptPtr) := by
  constructor <;> simp [scheduleReset]

theorem simultaneousRound_outputMatched (o : Nat) : (simultaneousRound n voqSize s).outputMatched o =
    (s.outputMatched o || takenUpTo n voqSize s n o) := rfl

theorem round_accepts {x o : Nat} (ha : acceptOf n voqSize s x = some o) :
    (simultaneousRound n voqSize s).mappingActive x = true ∧
      (simultaneousRound n voqSize s).portMapping x = o := by
  obtain ⟨-, hx, -⟩ := grantOf_some (acceptOf_some ha)
  simp [simultaneousRound, acceptsUpTo, ha, hx]

theorem round_active {x : Nat} (h : (simultaneousRound n voqSize s).mappingActive x = true) :
    s.mappingActive x = true ∧ (simultaneousRound n voqSize s).portMapping x = s.portMapping x ∨
      acceptOf n voqSize s x = some ((simultaneousRound n voqSize s).portMapping x) := by
  cases ha : acceptOf n voqSize s x with
  | none =>
    left
    simp only [simultaneousRound, acceptsUpTo, grantsUpTo, ha] at h ⊢
    simpa using h
  | some o =>
    right
    rw [(round_accepts ha).2]

section
variable (hm : IsMatching n voqSize s)
include hm

theorem round_keeps {x : Nat} (h : s.mappingActive x = true) :
    (simultaneousRound n voqSize s).mappingActive x = true ∧
      (simultaneousRound n voqSize s).portMapping x = s.portMapping x := by
  have ha : acceptOf n voqSize s x = none := by
    cases ha : acceptOf n voqSize s x with
    | none => rfl
    | some o =>
      have := (grantOf_some (acceptOf_some ha)).2.2.2.1
      rw [← hm.active_iff, h] at this
      cases this
  simp [simultaneousRound, acceptsUpTo, grantsUpTo, ha, h]

theorem simultaneousRound_matching : IsMatching n voqSize (simultaneousRound n voqSize s) where
  active_iff := by
    intro x
    simp [simultaneousRound, acceptsUpTo, hm.active_iff]
  idle := by
    intro x h
    cases ha : acceptOf n voqSize s x with
    | none =>
      simp only [simultaneousRound, acceptsUpTo, grantsUpTo, ha] at h ⊢
      simpa using hm.idle x (by simpa using h)
    | some o => rw [(round_accepts ha).1] at h; cases h
  covered := by
    intro o h
    simp only [simultaneousRound_outputMatched, Bool.or_eq_true] at h
    rcases h with h | h
    · obtain ⟨x, hx, h, ho⟩ := hm.covered o h
      exact ⟨x, hx, (round_keeps hm h).1, (round_keeps hm h).2.trans ho⟩
    · obtain ⟨x, hx, ha⟩ := takenUpTo_iff.mp h
      exact ⟨x, hx, round_accepts ha⟩
  lt := by
    intro x h
    cases round_active h with
    | inl h => rw [h.2]; exact hm.lt x h.1
    | inr h => exact (grantOf_some (acceptOf_some h)).1
  nonempty := by
    intro x h
    cases round_active h with
    | inl h => rw [h.2]; exact hm.nonempty x h.1
    | inr h => exact (grantOf_some (acceptOf_some h)).2.2.2.2
  matched := by
    intro x h
    rw [simultaneousRound_outputMatched, Bool.or_eq_true]
    cases round_active h with
    | inl h => left; rw [h.2]; exact hm.matched x h.1
    | inr h => right; exact takenUpTo_iff.mpr ⟨x, (grantOf_some (acceptOf_some h)).2.1, h⟩
  inj := by
    -- an output that was matched before grants nothing in the round
    have hold : ∀ {x o}, s.mappingActive x = true → acceptOf n voqSize s o ≠ some (s.portMapping x) := by
      intro x o h ha
      have := (grantOf_some (acceptOf_some ha)).2.2.1
      rw [hm.matched x h] at this
      cases this
    intro x y hx hy he
    rcases round_active hx, round_active hy with ⟨hx | hx, hy | hy⟩
    · exact hm.inj x y hx.1 hy.1 (by rw [← hx.2, ← hy.2, he])
    · rw [← he, hx.2] at hy; exact absurd hy (hold hx.1)
    · rw [he, hy.2] at hx; exact absurd hx (hold hy.1)
    · rw [he] at hx; exact acceptOf_inj hx hy

end

theorem iSLIPRounds_matching (hm : IsMatching n voqSize s) (rounds : Nat) :
    IsMatching n voqSize (iSLIPRounds n voqSize rounds s) := by
  apply forRange_keeps (IsMatching n voqSize) hm
  intro _ _ t ht
  rw [iSLIPRound_eq]
  exact simultaneousRound_matching ht

theorem iSLIPSchedule_matching (grantPtr acceptPtr : Nat → Nat) :
    IsMatching n voqSize (iSLIPSchedule n voqSize grantPtr acceptPtr) :=
  iSLIPRounds_matching (scheduleReset_matching grantPtr acceptPtr) _

end

/-- Active inputs are mapped to different outputs below `n` that they have packets for. -/
def PartialMatching (n : Nat) (voqSize : Nat → Nat → Nat) (s : Schedule) : Prop :=
  (∀ i < n, s.mappingActive i = true → s.portMapping i < n ∧ voqSize i (s.portMapping i) > 0) ∧
    ∀ i < n, ∀ i' < n, i ≠ i' → s.mappingActive i = true → s.mappingActive i' = true →
      s.portMapping i ≠ s.portMapping i'

theorem IsMatching.partialMatching {n : Nat} {voqSize : Nat → Nat → Nat} {s : Schedule}
    (hm : IsMatching n voqSize s) : PartialMatching n voqSize s := by
  refine ⟨fun i _ h => ⟨hm.lt i h, hm.nonempty i h⟩, ?_⟩
  intro i _ i' _ hne h h' he
  exact hne (hm.inj i i' h h' he)

theorem schedule_is_matching (n : Nat) (voqSize : Nat → Nat → Nat) (grantPtr acceptPtr : Nat → Nat) :
    (∀ rounds, PartialMatching n voqSize (iSLIPRounds n voqSize rounds (scheduleReset grantPtr acceptPtr))) ∧
      PartialMatching n voqSize (iSLIPSchedule n voqSize grantPtr acceptPtr) :=
  ⟨fun rounds => (iSLIPRounds_matching (scheduleReset_matching grantPtr acceptPtr) rounds).partialMatching,
    (iSLIPSchedule_matching grantPtr acceptPtr).partialMatching⟩

end SwitchSimulation
