import SwitchSimulation.ScheduleRound

/-!
# The ports act independently

Two outputs of the grant loop do not get in each other's way, and neither do
two inputs of the accept loop: an output has granted to one input only, so
what one input accepts is out of the reach of all others. A round therefore
does not depend on the order in which it takes the ports.
-/

namespace SwitchSimulation

def roundInOrder (n : Nat) (voqSize : Nat → Nat → Nat) (outputs inputs : List Nat) (s : Schedule) : Schedule :=
  inputs.foldl (fun t i => acceptInput n i t)
    (outputs.foldl (fun t i => grantOutput n voqSize i t) (resetGrants s))

section
variable {n : Nat} {voqSize : Nat → Nat → Nat} {s : Schedule} {o o' x x' : Nat}

/-! ## The grant loop -/

theorem makeGrant_comm (ho : o ≠ o') (s : Schedule) :
    makeGrant o x (makeGrant o' x' s) = makeGrant o' x' (makeGrant o x s) := by
  ext1 <;> try rfl
  · exact Function.update_comm (Ne.symm ho) _ _ _
  · exact Function.update_comm (Ne.symm ho) _ _ _

theorem grantOf_grantOutput (ho' : o' < n) :
    grantOf n voqSize (grantOutput n voqSize o' s) o = grantOf n voqSize s o := by
  rw [grantOutput_eq ho']
  cases grantOf n voqSize s o' with
  | none => rfl
  | some x => rfl

theorem grantOutput_comm (ho : o < n) (ho' : o' < n) (hne : o ≠ o') (s : Schedule) :
    grantOutput n voqSize o (grantOutput n voqSize o' s) =
      grantOutput n voqSize o' (grantOutput n voqSize o s) := by
  rw [grantOutput_eq (s := grantOutput n voqSize o' s) ho, grantOutput_eq (s := grantOutput n voqSize o s) ho',
    grantOf_grantOutput ho, grantOf_grantOutput ho', grantOutput_eq ho, grantOutput_eq ho']
  cases grantOf n voqSize s o with
  | none => rfl
  | some x =>
    cases grantOf n voqSize s o' with
    | none => rfl
    | some x' => exact makeGrant_comm hne s

/-! ## The accept loop -/

/-- The output that the accept loop finds for input `i` as the flags stand. -/
def acceptChoice (n i : Nat) (t : Schedule) : Option Nat :=
  if t.inputMatched i = false then firstFrom n (t.acceptPtr i) (acceptable t i) else none

theorem acceptInput_choice (i : Nat) (t : Schedule) :
    acceptInput n i t = (acceptChoice n i t).elim t fun o => accept n i o t := by
  rw [acceptInput_eq]
  unfold acceptChoice
  by_cases h : t.inputMatched i = false
  · rw [if_pos h, if_pos h]
  · rw [if_neg h, if_neg h]; rfl

theorem acceptChoice_target {i : Nat} {t : Schedule} (h : acceptChoice n i t = some o) :
    t.grantTarget o = some i := by
  unfold acceptChoice at h
  by_cases hm : t.inputMatched i = false
  · rw [if_pos hm] at h
    have ha := (firstFrom_some h).2
    simp only [acceptable, Bool.and_eq_true, decide_eq_true_eq] at ha
    exact ha.2.2
  · rw [if_neg hm] at h; cases h

theorem acceptChoice_accept {t : Schedule} (hx : x ≠ x') (ht : t.grantTarget o' = some x') :
    acceptChoice n x (accept n x' o' t) = acceptChoice n x t := by
  have hm : (accept n x' o' t).inputMatched x = t.inputMatched x := Function.update_of_ne hx _ _
  have hp : (accept n x' o' t).acceptPtr x = t.acceptPtr x := Function.update_of_ne hx _ _
  have ha : acceptable (accept n x' o' t) x = acceptable t x := by
    funext y
    by_cases hy : y = o'
    · subst hy; simp [acceptable, accept, ht, Ne.symm hx]
    · have hout : (accept n x' o' t).outputMatched y = t.outputMatched y := Function.update_of_ne hy _ _
      unfold acceptable
      rw [hout]
      rfl
  unfold acceptChoice
  rw [hm, hp, ha]

theorem accept_comm (hx : x ≠ x') (ho : o ≠ o') (t : Schedule) :
    accept n x o (accept n x' o' t) = accept n x' o' (accept n x o t) := by
  ext1 <;> simp only [accept, Function.update_of_ne hx, Function.update_of_ne (Ne.symm hx),
    Function.update_of_ne ho, Function.update_of_ne (Ne.symm ho)]
  case acceptPtr | portMapping | mappingActive | inputMatched => exact Function.update_comm (Ne.symm hx) _ _ _
  case grantPtr | outputMatched => exact Function.update_comm (Ne.symm ho) _ _ _

theorem acceptInput_comm (hx : x ≠ x') (t : Schedule) :
    acceptInput n x (acceptInput n x' t) = acceptInput n x' (acceptInput n x t) := by
  simp only [acceptInput_choice]
  cases h : acceptChoice n x t with
  | none =>
    cases h' : acceptChoice n x' t with
    | none => simp [h, h']
    | some o' => simp [h, h', acceptChoice_accept hx (acceptChoice_target h')]
  | some o =>
    have ht := acceptChoice_target h
    cases h' : acceptChoice n x' t with
    | none => simp [h, h', acceptChoice_accept (Ne.symm hx) ht]
    | some o' =>
      have ht' := acceptChoice_target h'
      have ho : o ≠ o' := by
        intro he
        rw [he, ht'] at ht
        exact hx (Option.some.inj ht).symm
      simp only [Option.elim_some, acceptChoice_accept hx ht', acceptChoice_accept (Ne.symm hx) ht, h, h']
      exact accept_comm hx ho t

/-! ## Rounds -/

theorem roundInOrder_eq {outputs inputs : List Nat} (hout : outputs.Perm (List.range n))
    (hin : inputs.Perm (List.range n)) (s : Schedule) :
    roundInOrder n voqSize outputs inputs s = iSLIPRound n voqSize s := by
  unfold roundInOrder iSLIPRound acceptPhase grantPhase
  rw [forRange_perm hout fun o ho o' ho' hne t => grantOutput_comm ho ho' hne t,
    forRange_perm hin fun x _ x' _ hne t => acceptInput_comm hne t]

theorem grantOf_iff : grantOf n voqSize s o = some x ↔ o < n ∧ s.outputMatched o = false ∧
    IsFirstFrom n (s.grantPtr o) (fun y => s.inputMatched y = false ∧ voqSize y o > 0) x := by
  unfold grantOf
  by_cases ho : o < n ∧ s.outputMatched o = false
  · rw [if_pos ho, ← and_assoc, and_iff_right ho]
    exact firstFrom_iff fun y _ => by simp [requests]
  · rw [if_neg ho, ← and_assoc]
    exact iff_of_false (fun h => by cases h) fun h => ho h.1

theorem acceptOf_iff : acceptOf n voqSize s x = some o ↔ s.inputMatched x = false ∧
    IsFirstFrom n (s.acceptPtr x) (fun y => grantOf n voqSize s y = some x) o := by
  have hfirst : acceptOf n voqSize s x = some o ↔
      IsFirstFrom n (s.acceptPtr x) (fun y => grantOf n voqSize s y = some x) o :=
    firstFrom_iff fun y _ => decide_eq_true_iff
  rw [← hfirst, iff_and_self]
  intro h
  exact (grantOf_some (acceptOf_some h)).2.2.2.1

end

end SwitchSimulation
