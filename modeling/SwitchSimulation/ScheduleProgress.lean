import Mathlib.Data.Finset.Card
import SwitchSimulation.ScheduleRun

/-!
# Progress of the rounds

A request between two unmatched ports forces a grant, the grant forces an
acceptance, and what is matched stays matched. So every round enlarges the
matching until it is maximal, and a call of one round or more serves some
queue if there is one to serve.
-/

namespace SwitchSimulation

def Improvable (n : Nat) (voqSize : Nat → Nat → Nat) (s : Schedule) : Prop :=
  ∃ x < n, ∃ o < n, s.mappingActive x = false ∧ (∀ y < n, ¬ Matches s y o) ∧ voqSize x o > 0

def matchingSize (n : Nat) (s : Schedule) : Nat := ((Finset.range n).filter fun x => s.mappingActive x = true).card

section
variable {n : Nat} {voqSize : Nat → Nat → Nat} {s : Schedule} {grantPtr acceptPtr : Nat → Nat} {p : Pointers}

/-! ## One round -/

theorem Improvable.grants (hm : IsMatching n voqSize s) (h : Improvable n voqSize s) :
    ∃ x o, grantOf n voqSize s o = some x := by
  obtain ⟨x, hx, o, ho, hxa, hoa, hw⟩ := h
  have hfree : s.outputMatched o = false := by
    rw [← Bool.not_eq_true]
    intro h
    obtain ⟨y, hy, hyo⟩ := hm.covered o h
    exact hoa y hy hyo
  have hreq : requests voqSize s o x = true := by
    rw [hm.active_iff] at hxa
    simp [requests, hxa, hw]
  obtain ⟨y, hy⟩ := firstFrom_isSome (p := s.grantPtr o) hx hreq
  exact ⟨y, o, by unfold grantOf; rw [if_pos ⟨ho, hfree⟩, hy]⟩

theorem accepts_of_grants {x o : Nat} (hg : grantOf n voqSize s o = some x) :
    ∃ o', acceptOf n voqSize s x = some o' :=
  firstFrom_isSome (grantOf_some hg).1 (by simpa using hg)

theorem Improvable.adds (hm : IsMatching n voqSize s) (h : Improvable n voqSize s) :
    ∃ x < n, ∃ o < n, s.mappingActive x = false ∧ (∀ y < n, ¬ Matches s y o) ∧
      Matches (iSLIPRound n voqSize s) x o := by
  obtain ⟨x, _, hg⟩ := h.grants hm
  obtain ⟨o, ha⟩ := accepts_of_grants hg
  obtain ⟨ho, hx, hof, hxf, -⟩ := grantOf_some (acceptOf_some ha)
  refine ⟨x, hx, o, ho, by rw [hm.active_iff]; exact hxf, ?_, ?_⟩
  · intro y _ hy
    have := hm.matched y hy.1
    rw [hy.2, hof] at this
    cases this
  · rw [iSLIPRound_eq]
    exact round_accepts ha

theorem Improvable.of_round (hm : IsMatching n voqSize s) (h : Improvable n voqSize (iSLIPRound n voqSize s)) :
    Improvable n voqSize s := by
  obtain ⟨x, hx, o, ho, hxa, hoa, hw⟩ := h
  refine ⟨x, hx, o, ho, ?_, fun y hy hyo => hoa y hy (hyo.round hm), hw⟩
  rw [← Bool.not_eq_true] at hxa ⊢
  intro h
  exact hxa (Matches.round hm ⟨h, rfl⟩).1

theorem Improvable.size_lt (hm : IsMatching n voqSize s) (h : Improvable n voqSize s) :
    matchingSize n s < matchingSize n (iSLIPRound n voqSize s) := by
  obtain ⟨x, hx, o, -, hxf, -, hxo⟩ := h.adds hm
  apply Finset.card_lt_card
  rw [Finset.ssubset_iff_of_subset]
  · refine ⟨x, ?_, ?_⟩
    · exact Finset.mem_filter.mpr ⟨Finset.mem_range.mpr hx, hxo.1⟩
    · simp [hxf]
  · intro y hy
    obtain ⟨hyn, hya⟩ := Finset.mem_filter.mp hy
    exact Finset.mem_filter.mpr ⟨hyn, (Matches.round hm ⟨hya, rfl⟩).1⟩

/-! ## All rounds -/

theorem maximal_or_large (hm : IsMatching n voqSize s) (rounds : Nat) :
    ¬ Improvable n voqSize (iSLIPRounds n voqSize rounds s) ∨
      rounds ≤ matchingSize n (iSLIPRounds n voqSize rounds s) := by
  induction rounds with
  | zero => exact Or.inr (Nat.zero_le _)
  | succ r ih =>
    have hr := iSLIPRounds_matching hm r
    change ¬ Improvable n voqSize (iSLIPRound n voqSize (iSLIPRounds n voqSize r s)) ∨
      r + 1 ≤ matchingSize n (iSLIPRound n voqSize (iSLIPRounds n voqSize r s))
    by_cases h : Improvable n voqSize (iSLIPRounds n voqSize r s)
    · right
      have hle := ih.resolve_left (not_not_intro h)
      have hlt := h.size_lt hr
      omega
    · exact Or.inl fun h' => h (h'.of_round hr)

end

/-- Every round keeps the pairs it finds and adds one if it can; on return
the matching is maximal or has as many pairs as there were rounds. -/
theorem scheduler_progress (n : Nat) (voqSize : Nat → Nat → Nat) (grantPtr acceptPtr : Nat → Nat) :
    (∀ r x o, Matches (iSLIPRounds n voqSize r (scheduleReset grantPtr acceptPtr)) x o →
        Matches (iSLIPRounds n voqSize (r + 1) (scheduleReset grantPtr acceptPtr)) x o) ∧
      (∀ r, Improvable n voqSize (iSLIPRounds n voqSize r (scheduleReset grantPtr acceptPtr)) →
        ∃ x < n, ∃ o < n,
          (iSLIPRounds n voqSize r (scheduleReset grantPtr acceptPtr)).mappingActive x = false ∧
          (∀ y < n, ¬ Matches (iSLIPRounds n voqSize r (scheduleReset grantPtr acceptPtr)) y o) ∧
          Matches (iSLIPRounds n voqSize (r + 1) (scheduleReset grantPtr acceptPtr)) x o) ∧
      (¬ Improvable n voqSize (iSLIPSchedule n voqSize grantPtr acceptPtr) ∨
        ISLIP_ROUNDS n ≤ matchingSize n (iSLIPSchedule n voqSize grantPtr acceptPtr)) := by
  have hm : IsMatching n voqSize (scheduleReset grantPtr acceptPtr) := scheduleReset_matching grantPtr acceptPtr
  refine ⟨?_, ?_, maximal_or_large hm (ISLIP_ROUNDS n)⟩
  · intro r x o h
    exact h.round (iSLIPRounds_matching hm r)
  · intro r h
    exact h.adds (iSLIPRounds_matching hm r)

/-! ## Work conservation -/

def Backlogged (n : Nat) (voqSize : Nat → Nat → Nat) : Prop := ∃ x < n, ∃ o < n, voqSize x o > 0

theorem Backlogged.serves {n : Nat} {voqSize : Nat → Nat → Nat} {grantPtr acceptPtr : Nat → Nat}
    (h : Backlogged n voqSize) (hn : 2 ≤ n) :
    ∃ x < n, ∃ o < n, Matches (iSLIPSchedule n voqSize grantPtr acceptPtr) x o := by
  obtain ⟨x, hx, o, ho, hw⟩ := h
  have hm : IsMatching n voqSize (scheduleReset grantPtr acceptPtr) := scheduleReset_matching grantPtr acceptPtr
  have hnone : ∀ y < n, ¬ Matches (scheduleReset grantPtr acceptPtr) y o := by
    intro y _ hy
    cases hy.1
  have himp : Improvable n voqSize (scheduleReset grantPtr acceptPtr) := ⟨x, hx, o, ho, rfl, hnone, hw⟩
  obtain ⟨y, hy, o', ho', -, -, hyo⟩ := himp.adds hm
  exact ⟨y, hy, o', ho', Matches.rounds (r := 1) hm (rounds_pos hn) hyo⟩

theorem schedule_one_idle (voqSize : Nat → Nat → Nat) (grantPtr acceptPtr : Nat → Nat) (x o : Nat) :
    ¬ Matches (iSLIPSchedule 1 voqSize grantPtr acceptPtr) x o := by
  unfold iSLIPSchedule
  rw [show ISLIP_ROUNDS 1 = 0 from Nat.clog_one_right 2]
  intro h
  cases h.1

/-- A backlogged switch serves some queue just when it has more than one port. -/
theorem work_conserving_iff (n : Nat) (voqSize : Nat → Nat → Nat) (grantPtr acceptPtr : Nat → Nat)
    (h : Backlogged n voqSize) :
    (∃ x < n, ∃ o < n, Matches (iSLIPSchedule n voqSize grantPtr acceptPtr) x o) ↔ 2 ≤ n := by
  constructor
  · intro ⟨x, hx, o, _, hxo⟩
    by_contra hn
    obtain rfl : n = 1 := by omega
    exact schedule_one_idle voqSize grantPtr acceptPtr x o hxo
  · intro hn
    exact h.serves hn

theorem work_conserving_two :
    ∃ x < 2, ∃ o < 2, Matches (iSLIPSchedule 2 (fun _ _ => 1) (fun _ => 0) fun _ => 1) x o :=
  (work_conserving_iff 2 (fun _ _ => 1) (fun _ => 0) (fun _ => 1) ⟨0, by decide, 0, by decide, by decide⟩).mpr
    (by decide)

theorem not_work_conserving_one : Backlogged 1 (fun _ _ => 1) ∧
    ¬ ∃ x < 1, ∃ o < 1, Matches (iSLIPSchedule 1 (fun _ _ => 1) (fun _ => 0) fun _ => 0) x o := by
  refine ⟨⟨0, by decide, 0, by decide, by decide⟩, ?_⟩
  intro ⟨x, _, o, _, h⟩
  exact schedule_one_idle _ _ _ x o h

end SwitchSimulation
