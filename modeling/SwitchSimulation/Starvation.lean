import SwitchSimulation.ScheduleRun

/-!
# Starvation of a waiting queue

Can a sequence of calls leave a non-empty queue unmatched and bring the
pointers back to where they were? With two ports it cannot, since every such
call lowers `rankTwo`. From three ports on it can: in `cycleVoqs` input 0 has
packets for outputs 0 and 1, input 1 for output 1, and every call serves
output 1 from input 1 while all pointers turn together.
-/

namespace SwitchSimulation

section
variable (n : Nat)

def Starves (i j : Nat) (p : Pointers) (voqSize : Nat → Nat → Nat) : Prop :=
  voqSize i j > 0 ∧ ¬ Matches (schedule n p voqSize) i j

def Reachable (p : Pointers) : Prop := ∃ earlier, exec (scheduleCall n) Pointers.zero earlier = p

def NoStarvationCycle : Prop :=
  ∀ (p : Pointers) (i j : Nat) (calls : List (Nat → Nat → Nat)), Reachable n p → i < n → j < n →
    calls ≠ [] → Meets (scheduleCall n) (Starves n i j) p calls → exec (scheduleCall n) p calls ≠ p

/-- The call starves `voqs[i][j]`, the inputs with packets for `j` are those
of `waiting`, and output `j` does not leave a grant pointer that has come to `i`. -/
def StarvesSteadily (i j : Nat) (waiting : Nat → Bool) (p : Pointers) (voqSize : Nat → Nat → Nat) : Prop :=
  Starves n i j p voqSize ∧ (∀ x < n, decide (voqSize x j > 0) = waiting x) ∧
    (p.grant j = i → ∀ x < n, ¬ Matches (schedule n p voqSize) x j)

end

section
variable {n : Nat} {p : Pointers} {voqSize : Nat → Nat → Nat} {i j x o : Nat}

theorem Reachable.below (hn : 0 < n) (h : Reachable n p) : p.Below n := by
  obtain ⟨earlier, rfl⟩ := h
  exact reachable_below hn earlier

/-! ## The first round of a call -/

def firstGrant (n : Nat) (p : Pointers) (voqSize : Nat → Nat → Nat) (j : Nat) : Option Nat :=
  firstFrom n (p.grant j) fun x => voqSize x j > 0

theorem grantOf_reset (hj : j < n) :
    grantOf n voqSize (scheduleReset p.grant p.accept) j = firstGrant n p voqSize j := by
  unfold grantOf
  rw [if_pos ⟨hj, rfl⟩]
  rfl

theorem firstGrant_isSome (hi : i < n) (hw : voqSize i j > 0) : ∃ x, firstGrant n p voqSize j = some x :=
  firstFrom_isSome hi (by simpa using hw)

/-- The first input from the pointer gets a grant of `j` in the first round. If
it is not matched to `j`, it has accepted another output, and its own pointer
comes one step nearer to `j`. -/
theorem firstGrant_refused (hn : 2 ≤ n) (hj : j < n) (hp : p.Below n) (hx : firstGrant n p voqSize j = some x)
    (hne : ¬ Matches (schedule n p voqSize) x j) :
    (∃ o, o ≠ j ∧ acceptOf n voqSize (scheduleReset p.grant p.accept) x = some o) ∧
      p.accept x ≠ j ∧ (scheduleCall n p voqSize).1.accept x = (p.accept x + 1) % n := by
  have hg : grantOf n voqSize (scheduleReset p.grant p.accept) j = some x := by rw [grantOf_reset hj, hx]
  obtain ⟨o, ho⟩ : ∃ o, acceptOf n voqSize (scheduleReset p.grant p.accept) x = some o :=
    firstFrom_isSome hj (by simpa using hg)
  have hm : Matches (schedule n p voqSize) x o := matches_of_accept (r := 0) (rounds_pos hn) ho
  have hoj : o ≠ j := by
    intro h
    rw [h] at hm
    exact hne hm
  refine ⟨⟨o, hoj, ho⟩, ?_, ?_⟩
  · intro ha
    have hself : acceptOf n voqSize (scheduleReset p.grant p.accept) x = some (p.accept x) :=
      firstFrom_self (p := p.accept x) (hp x).2 (by simpa [ha] using hg)
    rw [ho, ha] at hself
    exact hoj (Option.some.inj hself)
  · rw [scheduleCall_accept, if_pos hm.1]

/-! ## Steady requests -/

def firstWaiting (n : Nat) (waiting : Nat → Bool) (j : Nat) (p : Pointers) : Nat :=
  (firstFrom n (p.grant j) waiting).getD 0

/-- How far the grant pointer of `j` is from `i`, then how far the input that
`j` grants first is from accepting `j`. -/
def steadyRank (n i j : Nat) (waiting : Nat → Bool) (p : Pointers) : Nat :=
  n * ahead n (p.grant j) i + ahead n (p.accept (firstWaiting n waiting j p)) j

theorem steadyRank_lt (hn : 2 ≤ n) (hi : i < n) (hj : j < n) {waiting : Nat → Bool} (hp : p.Below n)
    (h : StarvesSteadily n i j waiting p voqSize) :
    steadyRank n i j waiting (scheduleCall n p voqSize).1 < steadyRank n i j waiting p := by
  obtain ⟨⟨hw, hij⟩, hwait, hstay⟩ := h
  by_cases hm : (schedule n p voqSize).outputMatched j = true
  · -- output `j` serves another input, and its pointer moves towards `i`
    have hne : i ≠ p.grant j := by
      intro h
      obtain ⟨x, hx, hxj⟩ := outputMatched_iff.mp hm
      exact hstay h.symm x hx hxj
    have hstep := ahead_advance (hp j).1 hi hne
    have hg : (scheduleCall n p voqSize).1.grant j = (p.grant j + 1) % n := by
      rw [scheduleCall_grant, if_pos hm]
    unfold steadyRank
    rw [hg, ← hstep, Nat.mul_add]
    have := ahead_lt (n := n) (p := (scheduleCall n p voqSize).1.accept
      (firstWaiting n waiting j (scheduleCall n p voqSize).1)) hj
    omega
  · -- output `j` is idle: the input it grants first has refused
    have hg : (scheduleCall n p voqSize).1.grant j = p.grant j := by rw [scheduleCall_grant, if_neg hm]
    obtain ⟨x, hx⟩ := firstGrant_isSome (p := p) hi hw
    have hfirst : firstWaiting n waiting j p = x := by
      unfold firstWaiting
      rw [← firstFrom_congr hwait, show firstFrom n (p.grant j) (fun x => decide (voqSize x j > 0)) = some x from hx]
      rfl
    have hxj : ¬ Matches (schedule n p voqSize) x j := by
      intro h
      exact hm (outputMatched_iff.mpr ⟨x, (firstFrom_some hx).1, h⟩)
    obtain ⟨-, hne, ha⟩ := firstGrant_refused hn hj hp hx hxj
    have hstep := ahead_advance (hp x).2 hj (Ne.symm hne)
    unfold steadyRank
    rw [show firstWaiting n waiting j (scheduleCall n p voqSize).1 = firstWaiting n waiting j p by
      unfold firstWaiting; rw [hg], hfirst, hg, ha]
    omega

theorem no_steady_cycle (hn : 2 ≤ n) (hi : i < n) (hj : j < n) {waiting : Nat → Bool} (hp : p.Below n)
    {calls : List (Nat → Nat → Nat)} (hc : calls ≠ [])
    (hm : Meets (scheduleCall n) (StarvesSteadily n i j waiting) p calls) :
    exec (scheduleCall n) p calls ≠ p := by
  apply Meets.no_return (Pointers.Below n) (steadyRank n i j waiting) _ hp hm hc
  intro _ _ hb hs
  exact ⟨scheduleCall_below (by omega) hb, steadyRank_lt hn hi hj hb hs⟩

/-! ## Two ports -/

theorem schedule_two :
    schedule 2 p voqSize = simultaneousRound 2 voqSize (scheduleReset p.grant p.accept) := by
  unfold schedule iSLIPSchedule
  rw [show ISLIP_ROUNDS 2 = 0 + 1 from Nat.clog_eq_one (by decide) (by decide), iSLIPRounds_succ]
  rfl

theorem matches_two (hm : Matches (schedule 2 p voqSize) x o) :
    acceptOf 2 voqSize (scheduleReset p.grant p.accept) x = some o := by
  obtain ⟨ha, ho⟩ := hm
  rw [schedule_two] at ha ho
  cases round_active ha with
  | inl h => cases h.1
  | inr h => rw [h, ho]

/-- If the first grant of `j` is refused, nothing else happens in the call:
the other output granted to the same input. -/
theorem refused_two (hj : j < 2) (hp : p.Below 2) (hx : firstGrant 2 p voqSize j = some x)
    (hne : ¬ Matches (schedule 2 p voqSize) x j) :
    p.accept x = 1 - j ∧ (scheduleCall 2 p voqSize).1.accept x = j ∧
      (∀ y < 2, y ≠ x → (scheduleCall 2 p voqSize).1.accept y = p.accept y) ∧
      (scheduleCall 2 p voqSize).1.grant j = p.grant j := by
  obtain ⟨⟨o, hoj, ho⟩, hpx, ha⟩ := firstGrant_refused (Nat.le_refl 2) hj hp hx hne
  have hgj := (grantOf_reset hj).trans hx
  have hgo := acceptOf_some ho
  have hlo := (grantOf_some hgo).1
  have hpx' := (hp x).2
  have hall : ∀ {y o'}, Matches (schedule 2 p voqSize) y o' → y = x := by
    intro y o' hm
    have hgy := acceptOf_some (matches_two hm)
    have hlo' := (grantOf_some hgy).1
    obtain rfl | rfl : o' = j ∨ o' = o := by omega
    · rw [hgj] at hgy; exact (Option.some.inj hgy).symm
    · rw [hgo] at hgy; exact (Option.some.inj hgy).symm
  refine ⟨by omega, by omega, ?_, ?_⟩
  · intro y _ hy
    rw [scheduleCall_accept, if_neg fun h => hy (hall ⟨h, rfl⟩)]
  · rw [scheduleCall_grant, if_neg]
    intro h
    obtain ⟨y, -, hy⟩ := outputMatched_iff.mp h
    rw [hall hy] at hy
    exact hne hy

def rankTwo (i j : Nat) (p : Pointers) : Nat :=
  (if p.grant j = i then 0 else 2 + if p.accept (1 - i) = 1 - j then 1 else 0) +
    if p.accept i = 1 - j then 1 else 0

theorem rankTwo_lt (hi : i < 2) (hj : j < 2) (hp : p.Below 2) (h : Starves 2 i j p voqSize) :
    rankTwo i j (scheduleCall 2 p voqSize).1 < rankTwo i j p := by
  obtain ⟨hw, hij⟩ := h
  have hpj := (hp j).1
  obtain ⟨x, hx⟩ := firstGrant_isSome (p := p) hi hw
  have hx2 := (firstFrom_some hx).1
  have h1i : 1 - i ≠ i := by omega
  have h1j : j ≠ 1 - j := by omega
  by_cases hxi : x = i
  · -- `j` grants to `i`, which accepts the other output
    subst hxi
    obtain ⟨h1, h2, h3, h4⟩ := refused_two hj hp hx hij
    simp [rankTwo, h1, h2, h3 (1 - x) (by omega) h1i, h4, h1j]
  · have hgi : p.grant j ≠ i := by
      intro h
      have hself : firstGrant 2 p voqSize j = some (p.grant j) := firstFrom_self hpj (by simpa [h] using hw)
      rw [hx, h] at hself
      exact hxi (Option.some.inj hself)
    obtain rfl : x = 1 - i := by omega
    by_cases hm : Matches (schedule 2 p voqSize) (1 - i) j
    · -- `j` serves the other input, and its pointer comes to `i`
      have hg : (scheduleCall 2 p voqSize).1.grant j = i := by
        rw [scheduleCall_grant, if_pos (outputMatched_iff.mpr ⟨_, hx2, hm⟩)]
        omega
      simp only [rankTwo, hg, if_pos, if_neg hgi]
      split <;> omega
    · -- `j` grants to the other input, which accepts the other output
      obtain ⟨h1, h2, h3, h4⟩ := refused_two hj hp hx hm
      simp [rankTwo, h1, h2, h3 i hi (Ne.symm h1i), h4, h1j, hgi]

theorem no_cycle_two : NoStarvationCycle 2 := by
  intro p i j calls hr hi hj hc hm
  apply Meets.no_return (Pointers.Below 2) (rankTwo i j) _ (hr.below (by decide)) hm hc
  intro _ _ hb hs
  exact ⟨scheduleCall_below (by decide) hb, rankTwo_lt hi hj hb hs⟩

end

/-! ## Three or more ports -/

def cycleVoqs (x o : Nat) : Nat := if x = 0 ∧ o ≤ 1 ∨ x = 1 ∧ o = 1 then 1 else 0

def cyclePointers (k : Nat) : Pointers :=
  ⟨fun o => if o < 2 then k else 0, fun x => if x < 2 then k else 0⟩

section
variable {n k : Nat} (hn : 3 ≤ n) (hk : k < n)

theorem cycleVoqs_pos {x o : Nat} : cycleVoqs x o > 0 ↔ x = 0 ∧ o ≤ 1 ∨ x = 1 ∧ o = 1 := by
  unfold cycleVoqs
  split
  · next h => simp [h]
  · next h => simp [h]

theorem firstOf_cycle_zero (hn : 3 ≤ n) : firstGrant n (cyclePointers k) cycleVoqs 0 = some 0 := by
  refine firstFrom_only (by omega) (by decide) fun y _ hy => ?_
  have := cycleVoqs_pos.mp (of_decide_eq_true hy)
  omega

include hn hk

/-- Output 1 grants to input 0 only when its pointer, and so that of input 0,
is not 1; then output 0 is the nearer one. -/
theorem cycle_accept_zero :
    acceptOf n cycleVoqs (scheduleReset (cyclePointers k).grant (cyclePointers k).accept) 0 = some 0 := by
  refine firstFrom_eq (by omega) (by simpa [grantOf_reset (show 0 < n by omega)] using firstOf_cycle_zero hn) ?_
  intro y hy hg
  have hg := of_decide_eq_true hg
  have hpos := cycleVoqs_pos.mp (grantOf_some hg).2.2.2.2
  obtain rfl | rfl : y = 0 ∨ y = 1 := by omega
  · exact Nat.le_refl _
  · have hk1 : k ≠ 1 := by
      intro h
      subst h
      have hself : firstGrant n (cyclePointers 1) cycleVoqs 1 = some 1 := firstFrom_self hk (by decide)
      rw [grantOf_reset hy, hself] at hg
      cases hg
    change ahead n k 0 ≤ ahead n k 1
    unfold ahead
    rw [Nat.mod_eq_of_lt hk]
    rcases Nat.eq_zero_or_pos k with rfl | hk0
    · simp
    · rw [Nat.mod_eq_of_lt (show 0 + n - k < n by omega), Nat.mod_eq_of_lt (show 1 + n - k < n by omega)]
      omega

theorem cycle_match_zero : Matches (schedule n (cyclePointers k) cycleVoqs) 0 0 :=
  matches_of_accept (r := 0) (rounds_pos (by omega)) (cycle_accept_zero hn hk)

theorem cycle_match_one : Matches (schedule n (cyclePointers k) cycleVoqs) 1 1 := by
  let s₀ := scheduleReset (cyclePointers k).grant (cyclePointers k).accept
  let s := iSLIPRounds n cycleVoqs 1 s₀
  have hs : IsMatching n cycleVoqs s := iSLIPRounds_matching (scheduleReset_matching _ _) 1
  have hr : 1 < ISLIP_ROUNDS n := by
    unfold ISLIP_ROUNDS
    rw [Nat.lt_clog_iff_pow_lt (by decide)]
    omega
  have h0 : Matches s 0 0 := by
    change Matches (iSLIPRounds n cycleVoqs (0 + 1) s₀) 0 0
    rw [iSLIPRounds_succ]
    exact round_accepts (cycle_accept_zero hn hk)
  by_cases h1 : s.mappingActive 1 = true
  · have hpos := cycleVoqs_pos.mp (hs.nonempty 1 h1)
    have h11 : Matches s 1 1 := ⟨h1, by omega⟩
    exact Matches.rounds (scheduleReset_matching _ _) (Nat.le_of_lt hr) h11
  · -- output 1 is free, and input 1 is the only one left that requests it
    have hfree : s.outputMatched 1 = false := by
      rw [← Bool.not_eq_true]
      intro h
      obtain ⟨x, -, hx, hxo⟩ := hs.covered 1 h
      have hpos := cycleVoqs_pos.mp (hs.nonempty x hx)
      obtain rfl | rfl : x = 0 ∨ x = 1 := by omega
      · rw [h0.2] at hxo; cases hxo
      · exact h1 hx
    have hg : grantOf n cycleVoqs s 1 = some 1 := by
      unfold grantOf
      rw [if_pos ⟨by omega, hfree⟩]
      refine firstFrom_only (by omega) ?_ fun y _ hy => ?_
      · simpa [requests, ← hs.active_iff, cycleVoqs_pos] using h1
      · simp only [requests, ← hs.active_iff, Bool.and_eq_true, Bool.not_eq_true', decide_eq_true_eq,
          cycleVoqs_pos] at hy
        by_contra hne
        obtain rfl : y = 0 := by omega
        rw [h0.1] at hy
        cases hy.1
    refine matches_of_accept hr (firstFrom_only (by omega) (by simpa using hg) fun y _ hy => ?_)
    have hpos := cycleVoqs_pos.mp (grantOf_some (of_decide_eq_true hy)).2.2.2.2
    omega

theorem cycle_call :
    (scheduleCall n (cyclePointers k) cycleVoqs).1 = cyclePointers ((k + 1) % n) := by
  have h0 := cycle_match_zero hn hk
  have h1 := cycle_match_one hn hk
  have hs : IsMatching n cycleVoqs (schedule n (cyclePointers k) cycleVoqs) := schedule_matching
  have hin : ∀ x, (schedule n (cyclePointers k) cycleVoqs).mappingActive x = true ↔ x < 2 := by
    intro x
    constructor
    · intro h
      have := cycleVoqs_pos.mp (hs.nonempty x h)
      omega
    · intro h
      obtain rfl | rfl : x = 0 ∨ x = 1 := by omega
      · exact h0.1
      · exact h1.1
  have hout : ∀ o, (schedule n (cyclePointers k) cycleVoqs).outputMatched o = true ↔ o < 2 := by
    intro o
    rw [outputMatched_iff]
    constructor
    · intro ⟨x, _, hx⟩
      obtain rfl | rfl : x = 0 ∨ x = 1 := by have := (hin x).mp hx.1; omega
      · rw [← hx.2, h0.2]; decide
      · rw [← hx.2, h1.2]; decide
    · intro h
      obtain rfl | rfl : o = 0 ∨ o = 1 := by omega
      · exact ⟨0, by omega, h0⟩
      · exact ⟨1, by omega, h1⟩
  ext z
  · simp only [scheduleCall_grant, hout]
    by_cases hz : z < 2
    · simp only [cyclePointers, if_pos hz]
    · simp only [cyclePointers, if_neg hz]
  · simp only [scheduleCall_accept, hin]
    by_cases hz : z < 2
    · simp only [cyclePointers, if_pos hz]
    · simp only [cyclePointers, if_neg hz]

theorem cycle_run (calls : Nat) :
    Meets (scheduleCall n) (Starves n 0 1) (cyclePointers k) (List.replicate calls cycleVoqs) ∧
      exec (scheduleCall n) (cyclePointers k) (List.replicate calls cycleVoqs) =
        cyclePointers ((k + calls) % n) := by
  induction calls generalizing k with
  | zero => exact ⟨trivial, by rw [List.replicate_zero, exec_nil, Nat.add_zero, Nat.mod_eq_of_lt hk]⟩
  | succ calls ih =>
    have hc := cycle_call hn hk
    obtain ⟨hm, he⟩ := ih (k := (k + 1) % n) (Nat.mod_lt _ (by omega))
    rw [List.replicate_succ]
    refine ⟨⟨⟨by decide, fun h => ?_⟩, by rw [hc]; exact hm⟩, ?_⟩
    · have := h.2.symm.trans (cycle_match_zero hn hk).2
      cases this
    · rw [exec_cons, hc, he, Nat.mod_add_mod, Nat.add_right_comm, Nat.add_assoc]

end

/-- `n` equal calls starve `voqs[0][1]` and turn the pointers full circle. -/
theorem starvation_cycle {n : Nat} (hn : 3 ≤ n) : ¬ NoStarvationCycle n := by
  intro h
  have hz : cyclePointers 0 = Pointers.zero := by
    ext z <;> simp [cyclePointers, Pointers.zero]
  obtain ⟨hm, he⟩ := cycle_run hn (k := 0) (by omega) n
  refine h (cyclePointers 0) 0 1 (List.replicate n cycleVoqs) ⟨[], hz.symm⟩ (by omega) (by omega) ?_ hm ?_
  · intro hc
    have := congrArg List.length hc
    simp at this
    omega
  · rw [he, Nat.zero_add, Nat.mod_self]

theorem starvation_cycle_three : ¬ NoStarvationCycle 3 := starvation_cycle (Nat.le_refl 3)

/-- Two ports have no starvation cycle and more ports have one, unless the
requests for `j` are steady and a grant pointer that has come to `i` waits there. -/
theorem no_starvation_cycle :
    (∀ n ≥ 2, NoStarvationCycle n ↔ n = 2) ∧
      ∀ n ≥ 2, ∀ (p : Pointers) (i j : Nat) (waiting : Nat → Bool) (calls : List (Nat → Nat → Nat)),
        Reachable n p → i < n → j < n → calls ≠ [] →
        Meets (scheduleCall n) (StarvesSteadily n i j waiting) p calls → exec (scheduleCall n) p calls ≠ p := by
  constructor
  · intro n hn
    constructor
    · intro h
      by_contra hne
      exact starvation_cycle (by omega) h
    · rintro rfl; exact no_cycle_two
  · intro n hn p i j waiting calls hr hi hj hc hm
    exact no_steady_cycle hn hi hj (hr.below (by omega)) hc hm

theorem no_starvation_cycle_two : NoStarvationCycle 2 ∧
    exec (scheduleCall 2) Pointers.zero [fun _ o => 1 - o] ≠ Pointers.zero := by
  refine ⟨(no_starvation_cycle.1 2 (by decide)).mpr rfl, ?_⟩
  -- both inputs have packets for output 0, which grants input 0 and starves input 1
  have hm : ¬ Matches (schedule 2 Pointers.zero fun _ o => 1 - o) 1 0 := by
    rw [schedule_two]; decide +kernel
  refine no_starvation_cycle.2 2 (by decide) Pointers.zero 1 0 (fun _ => true) [fun _ o => 1 - o] ⟨[], rfl⟩
    (by decide) (by decide) (by simp) ⟨⟨⟨by decide, hm⟩, by decide, fun h => ?_⟩, trivial⟩
  cases h

end SwitchSimulation
