import SwitchSimulation.Pairing
import SwitchSimulation.ScheduleProgress
import SwitchSimulation.ScheduleWord

/-!
# How good the matching is

A matching that no round can improve blocks every request, so it has at least
half as many pairs as the best one. The scheduler stops after `ISLIP_ROUNDS n`
rounds, and a matching that could still be improved then has a pair for each.
-/

namespace SwitchSimulation

def Requested (n : Nat) (voqSize : Nat → Nat → Nat) (x o : Nat) : Prop := x < n ∧ o < n ∧ voqSize x o > 0

def matchedPairs (n : Nat) (s : Schedule) : Finset (Nat × Nat) :=
  ((Finset.range n).filter fun x => s.mappingActive x = true).image fun x => (x, s.portMapping x)

section
variable {n : Nat} {voqSize : Nat → Nat → Nat} {s : Schedule}

theorem mem_matchedPairs {x o : Nat} : (x, o) ∈ matchedPairs n s ↔ x < n ∧ Matches s x o := by
  simp only [matchedPairs, Finset.mem_image, Finset.mem_filter, Finset.mem_range, Prod.mk.injEq]
  constructor
  · rintro ⟨y, ⟨hy, ha⟩, rfl, rfl⟩
    exact ⟨hy, ha, rfl⟩
  · intro ⟨hx, ha, ho⟩
    exact ⟨x, ⟨hx, ha⟩, rfl, ho⟩

theorem card_matchedPairs : (matchedPairs n s).card = matchingSize n s :=
  Finset.card_image_of_injective _ fun _ _ h => (Prod.mk.inj h).1

theorem blocking_of_not_improvable (h : ¬ Improvable n voqSize s) :
    Blocking (Requested n voqSize) (matchedPairs n s) := by
  intro x o ⟨hx, ho, hw⟩
  by_cases ha : s.mappingActive x = true
  · exact Or.inl ⟨(x, s.portMapping x), mem_matchedPairs.mpr ⟨hx, ha, rfl⟩, rfl⟩
  · right
    by_contra hne
    refine h ⟨x, hx, o, ho, Bool.eq_false_iff.mpr ha, fun y hy hyo => hne ?_, hw⟩
    exact ⟨(y, o), mem_matchedPairs.mpr ⟨hy, hyo⟩, rfl⟩

end

/-- Against any matching of the requests, however it is found, a call from
pointers that do not wrap makes at least half as many pairs, or as many as it has rounds. -/
theorem half_of_any_matching (n : Nat) (hn : n ≤ 2 ^ 31) (voqSize : Nat → Nat → Nat) (grantPtr acceptPtr : Nat → Nat)
    (hp : NoWrap n grantPtr acceptPtr) (M : Finset (Nat × Nat)) (hM : Pairing (Requested n voqSize) M) :
    M.card ≤ 2 * matchingSize n (iSLIPSchedule32 n voqSize grantPtr acceptPtr) ∨
      ISLIP_ROUNDS n ≤ matchingSize n (iSLIPSchedule32 n voqSize grantPtr acceptPtr) := by
  rw [iSLIPSchedule32_eq hn hp]
  refine (maximal_or_large (scheduleReset_matching grantPtr acceptPtr) (ISLIP_ROUNDS n)).imp_left ?_
  intro h
  rw [← card_matchedPairs]
  exact hM.card_le_of_blocking (blocking_of_not_improvable h)

theorem half_of_any_matching_three :
    ({(0, 1), (1, 0), (2, 2)} : Finset (Nat × Nat)).card ≤
        2 * matchingSize 3 (iSLIPSchedule32 3 (fun _ _ => 1) (fun _ => 2) fun _ => 0) ∨
      ISLIP_ROUNDS 3 ≤ matchingSize 3 (iSLIPSchedule32 3 (fun _ _ => 1) (fun _ => 2) fun _ => 0) :=
  half_of_any_matching 3 (by decide) (fun _ _ => 1) _ _ (by decide) _
    ⟨by simp [Requested], by decide, by decide⟩

end SwitchSimulation
