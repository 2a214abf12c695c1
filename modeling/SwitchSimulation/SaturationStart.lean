import SwitchSimulation.Counting
import SwitchSimulation.Saturation
import SwitchSimulation.ScheduleProgress
import SwitchSimulation.Starvation

/-!
# Saturation from the first call

A switch starts with all pointers at 0, so they are not different. Under
saturation the first `r` ports, as many as there are rounds, move in step from
then on, and each port behind them starts one call after the one before it.
The pointers and the matching of every call have a closed form.
-/

namespace SwitchSimulation

/-- The first `r` ports point at `h`, the next `k` ports one place behind each
other, and the ports behind those have not moved. -/
def stepPtr (n r h k z : Nat) : Nat :=
  if z < r then h
  else if r + k ≤ z then 0
  else if z + 1 ≤ h + r then h + r - (z + 1)
  else h + r + n - (z + 1)

/-- The output of input `x` in a call that finds the first ports at `h`. -/
def stepTarget (n r h x : Nat) : Nat :=
  if ahead n h x < r then if x < r then x else r - 1 - ahead n h x else r - 1 + n - ahead n h x

/-- As long as some port has not moved, `h` has not come round. -/
structure InStep (n r h k : Nat) : Prop where
  rounds_pos : 0 < r
  rounds_le : 2 * r ≤ n + 1
  head_lt : h < n
  le : r + k ≤ n
  warm : r + k < n → k = h

/-- Inputs that are matched after `m + 1` rounds. -/
def Joined (n h k m x : Nat) : Prop := ahead n h x ≤ m ∨ n ≤ ahead n h x + k

structure StepPointers (n r h k : Nat) (p : Pointers) : Prop where
  grant : ∀ z < n, p.grant z = stepPtr n r h k z
  accept : ∀ z < n, p.accept z = stepPtr n r h k z

structure StepRound (n r h k m : Nat) (s : Schedule) : Prop where
  joined : ∀ x < n, Joined n h k m x → Matches s x (stepTarget n r h x)
  only : ∀ x < n, s.mappingActive x = true → Joined n h k m x

theorem ahead_eq {n p x : Nat} (hp : p < n) (hx : x < n) :
    ahead n p x = if p ≤ x then x - p else x + n - p := by
  unfold ahead
  rw [Nat.mod_eq_of_lt hp]
  by_cases h : p ≤ x
  · rw [if_pos h, show x + n - p = x - p + n by omega, Nat.add_mod_right, Nat.mod_eq_of_lt (by omega)]
  · rw [if_neg h, Nat.mod_eq_of_lt (by omega)]

theorem rounds_twice {n : Nat} (hn : 2 ≤ n) : 2 * ISLIP_ROUNDS n ≤ n + 1 := by
  have hpow : ∀ m : Nat, 2 * m ≤ 2 ^ m := by
    intro m
    induction m with
    | zero => decide
    | succ m ih =>
      rw [Nat.pow_succ]
      have : 1 ≤ 2 ^ m := Nat.one_le_two_pow
      rcases Nat.eq_zero_or_pos m with rfl | hm
      · decide
      · omega
  have hpos := rounds_pos hn
  have hlt : 2 ^ (ISLIP_ROUNDS n - 1) < n := by
    rw [← Nat.lt_clog_iff_pow_lt (by decide)]
    exact Nat.sub_lt hpos (by decide)
  have := hpow (ISLIP_ROUNDS n - 1)
  omega

theorem Joined.mono {n h k m m' x : Nat} (hj : Joined n h k m x) (hm : m ≤ m') : Joined n h k m' x :=
  hj.imp_left fun h => Nat.le_trans h hm

section
variable {n r h k m x o y z : Nat} (hi : InStep n r h k)
include hi

theorem stepPtr_lt (hz : z < n) : stepPtr n r h k z < n := by
  have := hi.head_lt
  unfold stepPtr
  split_ifs <;> omega

/-- In the first round every output grants an input that joins in this round. -/
theorem stepPtr_joined (hz : z < n) : Joined n h k 0 (stepPtr n r h k z) := by
  have hlt := stepPtr_lt hi hz
  obtain ⟨hr, hr2, hh, hle, hw⟩ := hi
  unfold Joined
  rw [ahead_eq hh hlt]
  unfold stepPtr
  split_ifs <;> omega

theorem stepTarget_lt (hx : x < n) : stepTarget n r h x < n := by
  have := hi.rounds_pos
  have := hi.le
  have hlt := ahead_lt (p := h) hx
  unfold stepTarget
  split_ifs <;> omega

theorem stepPtr_target (hx : x < n) (hj : Joined n h k 0 x) : stepPtr n r h k (stepTarget n r h x) = x := by
  obtain ⟨hr, hr2, hh, hle, hw⟩ := hi
  unfold Joined at hj
  unfold stepTarget
  rw [ahead_eq hh hx] at hj ⊢
  unfold stepPtr
  split_ifs at * <;> omega

/-- A port behind the first ones grants the input whose target it is. -/
theorem stepPtr_source (hro : r ≤ o) (ho : o < r + k) :
    Joined n h k 0 (stepPtr n r h k o) ∧ stepTarget n r h (stepPtr n r h k o) = o := by
  have hlt := stepPtr_lt hi (show o < n by have := hi.le; omega)
  obtain ⟨hr, hr2, hh, hle, hw⟩ := hi
  unfold Joined stepTarget
  rw [ahead_eq hh hlt]
  unfold stepPtr
  split_ifs <;> omega

theorem stepPtr_head : stepPtr n r h k h = stepTarget n r h h := by
  obtain ⟨hr, hr2, hh, hle, hw⟩ := hi
  unfold stepTarget
  rw [ahead_self hh]
  unfold stepPtr
  split_ifs <;> omega

theorem stepTarget_nearest (hx : x < n) (hy : y < n) (hp : stepPtr n r h k y = x) :
    ahead n (stepPtr n r h k x) (stepTarget n r h x) ≤ ahead n (stepPtr n r h k x) y := by
  have hh := hi.head_lt
  have hhead : x = h → ahead n (stepPtr n r h k x) (stepTarget n r h x) ≤ ahead n (stepPtr n r h k x) y := by
    rintro rfl
    rw [stepPtr_head hi, ahead_self (stepTarget_lt hi hx)]
    exact Nat.zero_le _
  by_cases hyr : y < r
  · exact hhead (hp.symm.trans (if_pos hyr))
  · by_cases hyk : y < r + k
    · rw [← hp, (stepPtr_source hi (by omega) hyk).2]
    · -- `y` has not moved and grants input 0
      have hx0 : x = 0 := by
        rw [← hp]
        unfold stepPtr
        rw [if_neg hyr, if_pos (by omega)]
      have hk := hi.warm (by omega)
      have hr := hi.rounds_pos
      by_cases hh0 : h = 0
      · exact hhead (hx0.trans hh0.symm)
      · subst hx0
        have ht : stepTarget n r h 0 = r - 1 + h := by
          have hd : ahead n h 0 = n - h := by rw [ahead_eq hh hx, if_neg (by omega), Nat.zero_add]
          unfold stepTarget
          rw [hd, if_neg (by omega)]
          omega
        have hp0 : stepPtr n r h k 0 = h := if_pos hr
        rw [ht, hp0, ahead_eq hh hy, ahead_eq hh (by omega), if_pos (by omega), if_pos (by omega)]
        omega

theorem stepTarget_inj (hx : x < n) (hy : y < n) (h' : stepTarget n r h x = stepTarget n r h y) : x = y := by
  obtain ⟨hr, hr2, hh, hle, hw⟩ := hi
  unfold stepTarget at h'
  rw [ahead_eq hh hx, ahead_eq hh hy] at h'
  split_ifs at h' <;> omega

/-- The outputs of the moving ports are targets of inputs that have joined by the last round. -/
theorem exists_stepTarget (ho : o < r + k) :
    ∃ x < n, Joined n h k (r - 1) x ∧ stepTarget n r h x = o := by
  have hon : o < n := by have := hi.le; omega
  by_cases hro : r ≤ o
  · obtain ⟨hj, ht⟩ := stepPtr_source hi hro ho
    exact ⟨_, stepPtr_lt hi hon, hj.mono (Nat.zero_le _), ht⟩
  · obtain ⟨hr, hr2, hh, hle, hw⟩ := hi
    by_cases hx : h ≤ o ∨ n ≤ h + (r - 1 - o)
    · refine ⟨o, hon, ?_⟩
      unfold Joined stepTarget
      rw [ahead_eq hh hon]
      split_ifs <;> omega
    · have hlt : h + (r - 1 - o) < n := by omega
      refine ⟨h + (r - 1 - o), hlt, ?_⟩
      unfold Joined stepTarget
      rw [ahead_eq hh hlt]
      split_ifs <;> omega

theorem stepTarget_moving (hx : x < n) (hj : Joined n h k (r - 1) x) : stepTarget n r h x < r + k := by
  have hr := hi.rounds_pos
  have hlt := ahead_lt (p := h) hx
  unfold Joined at hj
  unfold stepTarget
  split_ifs <;> omega

/-- What lies between the pointer of an input and its target is matched already. -/
theorem stepTarget_passed (hm : m + 1 < r) (hx : x < n) (hd : ahead n h x = m + 1) (ho : o < n)
    (hlt : ahead n (stepPtr n r h k x) o < ahead n (stepPtr n r h k x) (stepTarget n r h x)) :
    ∃ y < n, Joined n h k m y ∧ stepTarget n r h y = o := by
  by_cases hxr : x < r
  · -- the pointer is at `h` and the target is `x` itself
    have hp : stepPtr n r h k x = h := if_pos hxr
    have ht : stepTarget n r h x = x := by
      unfold stepTarget
      rw [if_pos (by omega), if_pos hxr]
    rw [hp, ht, hd] at hlt
    by_cases hro : r ≤ o
    · have hok : o < r + k := by
        by_contra hge
        have hh := hi.head_lt
        have hw := hi.warm (by omega)
        rw [ahead_eq hh ho, if_pos (by omega)] at hlt
        omega
      obtain ⟨hj, ht'⟩ := stepPtr_source hi hro hok
      exact ⟨_, stepPtr_lt hi ho, hj.mono (Nat.zero_le _), ht'⟩
    · refine ⟨o, ho, Or.inl (Nat.lt_succ_iff.mp hlt), ?_⟩
      unfold stepTarget
      rw [if_pos (by omega), if_pos (by omega)]
  · -- the pointer is at the target
    have hp : stepPtr n r h k x = stepTarget n r h x := by
      obtain ⟨hr, hr2, hh, hle, hw⟩ := hi
      unfold stepTarget
      rw [ahead_eq hh hx] at hd ⊢
      unfold stepPtr
      split_ifs at * <;> omega
    rw [hp, ahead_self (stepTarget_lt hi hx)] at hlt
    exact absurd hlt (Nat.not_lt_zero _)

end

/-! ## Rounds of one call -/

theorem iSLIPRounds_moved (n : Nat) (voqSize : Nat → Nat → Nat) (grantPtr acceptPtr : Nat → Nat) (rounds : Nat) :
    PointersMoved n grantPtr acceptPtr (iSLIPRounds n voqSize rounds (scheduleReset grantPtr acceptPtr)) := by
  apply forRange_keeps (PointersMoved n grantPtr acceptPtr)
  · constructor <;> simp [scheduleReset]
  · intro _ _ t ht
    rw [iSLIPRound_eq]
    exact simultaneousRound_moved ht

section
variable {n r h k m x o : Nat} {p : Pointers} {voqSize : Nat → Nat → Nat} {s : Schedule}
variable (hi : InStep n r h k) (hp : StepPointers n r h k p) (hs : Saturated n voqSize)
include hi hp hs

theorem grantOf_first (ho : o < n) :
    grantOf n voqSize (scheduleReset p.grant p.accept) o = some (stepPtr n r h k o) := by
  have hlt := stepPtr_lt hi ho
  rw [grantOf_reset ho]
  unfold firstGrant
  rw [hp.grant o ho]
  exact firstFrom_self hlt (by simpa using hs _ hlt o ho)

theorem acceptOf_first (hx : x < n) (hj : Joined n h k 0 x) :
    acceptOf n voqSize (scheduleReset p.grant p.accept) x = some (stepTarget n r h x) := by
  have ht := stepTarget_lt hi hx
  unfold acceptOf
  rw [show (scheduleReset p.grant p.accept).acceptPtr x = stepPtr n r h k x from hp.accept x hx]
  refine firstFrom_eq ht ?_ ?_
  · rw [grantOf_first hi hp hs ht, stepPtr_target hi hx hj]
    exact decide_eq_true rfl
  · intro y hy hg
    have hg := of_decide_eq_true hg
    rw [grantOf_first hi hp hs hy] at hg
    exact stepTarget_nearest hi hx hy (Option.some.inj hg)

theorem first_round : StepRound n r h k 0 (simultaneousRound n voqSize (scheduleReset p.grant p.accept)) where
  joined := fun x hx hj => round_accepts (acceptOf_first hi hp hs hx hj)
  only := by
    intro x hx ha
    cases round_active ha with
    | inl h => cases h.1
    | inr hacc =>
      have hg := acceptOf_some hacc
      have ho := (grantOf_some hg).1
      rw [grantOf_first hi hp hs ho] at hg
      rw [← Option.some.inj hg]
      exact stepPtr_joined hi ho

end

section
variable {n r h k m x o : Nat} {p : Pointers} {voqSize : Nat → Nat → Nat} {s : Schedule}
variable (hm : IsMatching n voqSize s) (hr : StepRound n r h k m s)
include hm hr

theorem outputMatched_step :
    s.outputMatched o = true ↔ ∃ x < n, Joined n h k m x ∧ stepTarget n r h x = o := by
  constructor
  · intro ho
    obtain ⟨x, hx, ha, he⟩ := hm.covered o ho
    have hj := hr.only x hx ha
    exact ⟨x, hx, hj, (hr.joined x hx hj).2.symm.trans he⟩
  · rintro ⟨x, hx, hj, rfl⟩
    have hxo := hr.joined x hx hj
    rw [← hxo.2]
    exact hm.matched x hxo.1

theorem inputMatched_step (hx : x < n) : s.inputMatched x = true ↔ Joined n h k m x := by
  rw [← hm.active_iff]
  exact ⟨hr.only x hx, fun hj => (hr.joined x hx hj).1⟩

variable (hi : InStep n r h k) (hp : StepPointers n r h k p) (hs : Saturated n voqSize)
variable (hv : PointersMoved n p.grant p.accept s) (hmr : m + 1 < r)
include hi hp hs hv hmr

omit hs hp hm hr hv in
theorem not_joined_next (hd : ahead n h x = m + 1) : ¬ Joined n h k m x := by
  have := hi.le
  unfold Joined
  omega

omit hp hs hv hmr in
/-- The pointer of an unmatched output is at `h` or has never moved. -/
theorem free_output (ho : o < n) (hf : s.outputMatched o = false) : o < r ∨ r + k ≤ o := by
  by_contra hne
  obtain ⟨hj, ht⟩ := stepPtr_source hi (show r ≤ o by omega) (show o < r + k by omega)
  rw [← Bool.not_eq_true, outputMatched_step hm hr] at hf
  exact hf ⟨_, stepPtr_lt hi ho, hj.mono (Nat.zero_le _), ht⟩

theorem grantOf_next (hx : x < n) (hd : ahead n h x = m + 1) (ho : o < n) (hf : s.outputMatched o = false) :
    grantOf n voqSize s o = some x := by
  have hptr : s.grantPtr o = stepPtr n r h k o := by
    rw [hv.grant, if_neg (by simp [hf]), hp.grant o ho]
  have hfree := free_output hm hr hi ho hf
  have hnx : s.inputMatched x = false := by
    rw [← Bool.not_eq_true, inputMatched_step hm hr hx]
    exact not_joined_next hi hmr hd
  unfold grantOf
  rw [if_pos ⟨ho, hf⟩, hptr]
  refine firstFrom_eq hx (by simpa [requests, hnx] using hs x hx o ho) ?_
  intro y hy hq
  have hny : ¬ Joined n h k m y := by
    rw [← inputMatched_step hm hr hy]
    simp only [requests, Bool.and_eq_true, Bool.not_eq_true'] at hq
    simp [hq.1]
  have hlt := stepPtr_lt hi ho
  obtain ⟨hr, hr2, hh, hle, hw⟩ := hi
  unfold Joined at hny
  rw [ahead_eq hh hx] at hd
  rw [ahead_eq hh hy] at hny
  rw [ahead_eq hlt hx, ahead_eq hlt hy]
  unfold stepPtr
  split_ifs at * <;> omega

theorem acceptOf_next (hx : x < n) (hd : ahead n h x = m + 1) :
    acceptOf n voqSize s x = some (stepTarget n r h x) := by
  have hnx : ¬ s.inputMatched x = true := by
    rw [inputMatched_step hm hr hx]
    exact not_joined_next hi hmr hd
  have ht := stepTarget_lt hi hx
  have hft : s.outputMatched (stepTarget n r h x) = false := by
    rw [← Bool.not_eq_true, outputMatched_step hm hr]
    intro ⟨y, hy, hj, he⟩
    rw [stepTarget_inj hi hy hx he] at hj
    exact not_joined_next hi hmr hd hj
  unfold acceptOf
  rw [hv.accept, if_neg hnx, hp.accept x hx]
  refine firstFrom_eq ht ?_ ?_
  · rw [grantOf_next hm hr hi hp hs hv hmr hx hd ht hft]
    exact decide_eq_true rfl
  · intro o ho hg
    have hfo := (grantOf_some (of_decide_eq_true hg)).2.2.1
    apply Nat.le_of_not_lt
    intro hlt
    obtain ⟨y, hy, hj, he⟩ := stepTarget_passed hi hmr hx hd ho hlt
    rw [(outputMatched_step hm hr).mpr ⟨y, hy, hj, he⟩] at hfo
    cases hfo

theorem next_round : StepRound n r h k (m + 1) (simultaneousRound n voqSize s) where
  joined := by
    intro x hx hj
    by_cases hj' : Joined n h k m x
    · have hxo := hr.joined x hx hj'
      obtain ⟨ha, ho⟩ := round_keeps hm hxo.1
      exact ⟨ha, ho.trans hxo.2⟩
    · have hd : ahead n h x = m + 1 := by
        unfold Joined at hj hj'
        omega
      exact round_accepts (acceptOf_next hm hr hi hp hs hv hmr hx hd)
  only := by
    intro x hx ha
    cases round_active ha with
    | inl h' => exact (hr.only x hx h'.1).mono (Nat.le_succ m)
    | inr hacc =>
      -- all grants of the round go to one input
      have hg := acceptOf_some hacc
      obtain ⟨ho, -, hf, -⟩ := grantOf_some hg
      have hd : ahead n h ((h + (m + 1)) % n) = m + 1 := ahead_add (by have := hi.le; omega)
      rw [grantOf_next hm hr hi hp hs hv hmr (Nat.mod_lt _ (by omega)) hd ho hf] at hg
      rw [← Option.some.inj hg]
      exact Or.inl (Nat.le_of_eq hd)

end

section
variable {n r h k x o : Nat} {p : Pointers} {voqSize : Nat → Nat → Nat}
variable (hi : InStep n r h k) (hp : StepPointers n r h k p) (hs : Saturated n voqSize)
include hi hp hs

theorem step_rounds (m : Nat) (hm : m < r) :
    StepRound n r h k m (iSLIPRounds n voqSize (m + 1) (scheduleReset p.grant p.accept)) := by
  induction m with
  | zero =>
    rw [iSLIPRounds_succ]
    exact first_round hi hp hs
  | succ m ih =>
    rw [iSLIPRounds_succ]
    exact next_round (iSLIPRounds_matching (scheduleReset_matching _ _) _) (ih (by omega)) hi hp hs
      (iSLIPRounds_moved n voqSize p.grant p.accept _) hm

end

/-! ## Consecutive calls -/

section
variable {n r h k x o z : Nat}

theorem succ_mod (hz : z < n) : (z + 1) % n = if z + 1 = n then 0 else z + 1 := by
  by_cases he : z + 1 = n
  · rw [if_pos he, he, Nat.mod_self]
  · rw [if_neg he, Nat.mod_eq_of_lt (by omega)]

theorem joined_last_iff (hi : InStep n r h k) (hz : z < n) : Joined n h k (r - 1) z ↔ z < r + k := by
  obtain ⟨hr, hr2, hh, hle, hw⟩ := hi
  unfold Joined
  rw [ahead_eq hh hz]
  split_ifs <;> omega

/-- Every moving port moves on, and one more port starts if there is one left. -/
theorem stepPtr_next (hi : InStep n r h k) (hz : z < n) :
    stepPtr n r ((h + 1) % n) (min (k + 1) (n - r)) z =
      if z < r + k then (stepPtr n r h k z + 1) % n else stepPtr n r h k z := by
  rw [succ_mod (stepPtr_lt hi hz), succ_mod hi.head_lt]
  obtain ⟨hr, hr2, hh, hle, hw⟩ := hi
  unfold stepPtr
  split_ifs <;> omega

/-- The pointers after `t` saturated calls. -/
def StepAt (n t : Nat) (p : Pointers) : Prop :=
  StepPointers n (ISLIP_ROUNDS n) (t % n) (min t (n - ISLIP_ROUNDS n)) p

/-- The matching of the call after `t` saturated calls. -/
structure StepMatching (n t : Nat) (s : Schedule) : Prop where
  active : ∀ x < n, s.mappingActive x = true ↔ x < min n (ISLIP_ROUNDS n + t)
  mapped : ∀ x < n, s.mappingActive x = true → s.portMapping x = stepTarget n (ISLIP_ROUNDS n) (t % n) x

theorem inStep_at (hn : 2 ≤ n) (t : Nat) :
    InStep n (ISLIP_ROUNDS n) (t % n) (min t (n - ISLIP_ROUNDS n)) where
  rounds_pos := rounds_pos hn
  rounds_le := rounds_twice hn
  head_lt := Nat.mod_lt _ (by omega)
  le := by
    have := rounds_twice hn
    omega
  warm := by
    intro hlt
    rw [Nat.mod_eq_of_lt (by omega)]
    omega

theorem stepAt_zero (n : Nat) : StepAt n 0 Pointers.zero := by
  have hz : ∀ z, stepPtr n (ISLIP_ROUNDS n) (0 % n) (min 0 (n - ISLIP_ROUNDS n)) z = 0 := by
    intro z
    rw [Nat.zero_mod, Nat.zero_min]
    unfold stepPtr
    split_ifs <;> omega
  exact ⟨fun z _ => (hz z).symm, fun z _ => (hz z).symm⟩

theorem stepPtr_at_next (hn : 2 ≤ n) (t : Nat) (hz : z < n) :
    stepPtr n (ISLIP_ROUNDS n) ((t + 1) % n) (min (t + 1) (n - ISLIP_ROUNDS n)) z =
      if z < ISLIP_ROUNDS n + min t (n - ISLIP_ROUNDS n) then
        (stepPtr n (ISLIP_ROUNDS n) (t % n) (min t (n - ISLIP_ROUNDS n)) z + 1) % n
      else stepPtr n (ISLIP_ROUNDS n) (t % n) (min t (n - ISLIP_ROUNDS n)) z := by
  have hmin : min (t + 1) (n - ISLIP_ROUNDS n) = min (min t (n - ISLIP_ROUNDS n) + 1) (n - ISLIP_ROUNDS n) := by
    omega
  rw [hmin, ← Nat.mod_add_mod]
  exact stepPtr_next (inStep_at hn t) hz

variable {t : Nat} {p : Pointers} {voqSize : Nat → Nat → Nat} (hn : 2 ≤ n) (hp : StepAt n t p)
variable (hs : Saturated n voqSize)
include hn hp hs

theorem step_last : StepRound n (ISLIP_ROUNDS n) (t % n) (min t (n - ISLIP_ROUNDS n)) (ISLIP_ROUNDS n - 1)
    (schedule n p voqSize) := by
  have hi := inStep_at hn t
  have hr := hi.rounds_pos
  have hround := step_rounds hi hp hs (ISLIP_ROUNDS n - 1) (by omega)
  rw [Nat.sub_add_cancel hr] at hround
  exact hround

theorem step_matching : StepMatching n t (schedule n p voqSize) := by
  have hlast := step_last hn hp hs
  constructor
  · intro x hx
    have hj := joined_last_iff (inStep_at hn t) hx
    have hsize : x < ISLIP_ROUNDS n + min t (n - ISLIP_ROUNDS n) ↔ x < min n (ISLIP_ROUNDS n + t) := by omega
    rw [← hsize, ← hj]
    exact ⟨hlast.only x hx, fun h => (hlast.joined x hx h).1⟩
  · intro x hx ha
    exact (hlast.joined x hx (hlast.only x hx ha)).2

theorem step_serves (hz : z < n) :
    Serves n (schedule n p voqSize) z ↔ z < ISLIP_ROUNDS n + min t (n - ISLIP_ROUNDS n) := by
  have hi := inStep_at hn t
  have hlast := step_last hn hp hs
  constructor
  · rintro ⟨x, hx, ha, rfl⟩
    have hj := hlast.only x hx ha
    rw [(hlast.joined x hx hj).2]
    exact stepTarget_moving hi hx hj
  · intro hlt
    obtain ⟨x, hx, hj, he⟩ := exists_stepTarget hi hlt
    exact ⟨x, hx, he ▸ hlast.joined x hx hj⟩

theorem step_at_next : StepAt n (t + 1) (scheduleCall n p voqSize).1 := by
  have hle := (inStep_at hn t).le
  constructor
  · intro z hz
    rw [stepPtr_at_next hn t hz, scheduleCall_grant_serves, hp.grant z hz]
    exact if_congr (step_serves hn hp hs hz) rfl rfl
  · intro z hz
    rw [stepPtr_at_next hn t hz, scheduleCall_accept, hp.accept z hz]
    refine if_congr ?_ rfl rfl
    rw [(step_matching hn hp hs).active z hz]
    omega

end

section
variable {n t : Nat} {p : Pointers} {s : Schedule} {x o : Nat}

/-- The matchings of a saturated run, call by call. -/
theorem step_run (hn : 2 ≤ n) {calls : List (Nat → Nat → Nat)} (hs : ∀ v ∈ calls, Saturated n v)
    (hp : StepAt n t p) :
    List.Forall₂ (StepMatching n) (List.range' t calls.length) (outs (scheduleCall n) p calls) := by
  induction calls generalizing t p with
  | nil => exact .nil
  | cons voqSize calls ih =>
    obtain ⟨hv, hs⟩ := List.forall_mem_cons.mp hs
    rw [List.length_cons, List.range'_succ, outs_cons]
    exact .cons (step_matching hn hp hv) (ih hs (step_at_next hn hp hv))

theorem step_exec (hn : 2 ≤ n) {calls : List (Nat → Nat → Nat)} (hs : ∀ v ∈ calls, Saturated n v)
    (hp : StepAt n t p) : StepAt n (t + calls.length) (exec (scheduleCall n) p calls) := by
  induction calls generalizing t p with
  | nil => exact hp
  | cons voqSize calls ih =>
    obtain ⟨hv, hs⟩ := List.forall_mem_cons.mp hs
    rw [List.length_cons, exec_cons, ← Nat.add_assoc, Nat.add_right_comm]
    exact ih hs (step_at_next hn hp hv)

theorem StepMatching.size (h : StepMatching n t s) : matchingSize n s = min n (ISLIP_ROUNDS n + t) := by
  have hfilter : (Finset.range n).filter (fun x => s.mappingActive x = true) =
      Finset.range (min n (ISLIP_ROUNDS n + t)) := by
    ext x
    rw [Finset.mem_filter, Finset.mem_range, Finset.mem_range]
    constructor
    · intro ⟨hx, ha⟩
      exact (h.active x hx).mp ha
    · intro hx
      have hxn : x < n := by omega
      exact ⟨hxn, (h.active x hxn).mpr hx⟩
  unfold matchingSize
  rw [hfilter, Finset.card_range]

theorem StepMatching.matches_iff (h : StepMatching n t s) (hx : x < n) :
    Matches s x o ↔ x < min n (ISLIP_ROUNDS n + t) ∧ stepTarget n (ISLIP_ROUNDS n) (t % n) x = o := by
  constructor
  · intro ⟨ha, ho⟩
    exact ⟨(h.active x hx).mp ha, (h.mapped x hx ha).symm.trans ho⟩
  · intro ⟨hlt, ho⟩
    have ha := (h.active x hx).mpr hlt
    exact ⟨ha, (h.mapped x hx ha).trans ho⟩

end

/-! ## Throughput and shares -/

/-- A saturated switch matches as many inputs in its first call as there are
rounds, one more in every call after it, and all of them from then on. -/
theorem saturated_warm_up (n : Nat) (hn : 2 ≤ n) (calls : List (Nat → Nat → Nat))
    (hs : ∀ voqSize ∈ calls, Saturated n voqSize) :
    (outs (scheduleCall n) Pointers.zero calls).map (matchingSize n) =
      (List.range calls.length).map fun t => min n (ISLIP_ROUNDS n + t) := by
  have hrun := step_run hn hs (stepAt_zero n)
  rw [List.range_eq_range']
  generalize List.range' 0 calls.length = ts, outs (scheduleCall n) Pointers.zero calls = ss at hrun ⊢
  induction hrun with
  | nil => rfl
  | cons h _ ih => rw [List.map_cons, List.map_cons, h.size, ih]

theorem saturated_warm_up_four :
    (outs (scheduleCall 4) Pointers.zero (List.replicate 4 fun _ _ => 1)).map (matchingSize 4) =
      (List.range 4).map fun t => min 4 (ISLIP_ROUNDS 4 + t) :=
  saturated_warm_up 4 (by decide) _ fun v hv => by
    rw [List.eq_of_mem_replicate hv]
    exact fun _ _ _ _ => Nat.one_pos

section
variable {n r h x o : Nat}

theorem stepTarget_mod : stepTarget n r (h % n) x = stepTarget n r h x := by
  unfold stepTarget
  rw [ahead_mod]

theorem stepTarget_first_ports (hr : r ≤ n) (hx : x < r) (ho : o < r) (he : stepTarget n r h x = o) : x = o := by
  have hlt := ahead_lt (n := n) (p := h) (show x < n by omega)
  unfold stepTarget at he
  split_ifs at he <;> omega

/-- How often the inputs that are `d` places ahead, for `d` from 0 to `n - 1`, have target `o`. -/
theorem count_targets (hr : 0 < r) (hrn : r ≤ n) (hx : x < n) (ho : o < n) :
    (List.range n).countP
        (fun d => decide ((if d < r then if x < r then x else r - 1 - d else r - 1 + n - d) = o)) =
      if x < r ∧ o < r then if x = o then r else 0 else 1 := by
  by_cases hor : o < r
  · by_cases hxr : x < r
    · rw [if_pos ⟨hxr, hor⟩]
      by_cases hxo : x = o
      · rw [if_pos hxo]
        refine (List.countP_congr ?_).trans (countP_range_lt hrn)
        intro d hd
        have hd := List.mem_range.mp hd
        rw [decide_eq_true_iff, decide_eq_true_iff]
        split_ifs <;> omega
      · rw [if_neg hxo, List.countP_eq_zero]
        intro d hd
        have hd := List.mem_range.mp hd
        rw [decide_eq_true_iff]
        split_ifs <;> omega
    · rw [if_neg fun h => hxr h.1]
      refine countP_range_one (d := r - 1 - o) (by omega) fun d hd => ?_
      rw [decide_eq_true_iff]
      split_ifs <;> omega
  · rw [if_neg fun h => hor h.2]
    refine countP_range_one (d := n + r - 1 - o) (by omega) fun d hd => ?_
    rw [decide_eq_true_iff]
    split_ifs <;> omega

end

/-- In a saturated run two different ones of the first `⌈log₂ n⌉` ports are
never matched. In `n` consecutive calls at full throughput an input among them
is matched to the output of its own number in `⌈log₂ n⌉` calls, and every other
pair of ports in one. -/
theorem saturated_shares (n : Nat) (hn : 2 ≤ n) (calls : List (Nat → Nat → Nat))
    (hs : ∀ voqSize ∈ calls, Saturated n voqSize) :
    (∀ s ∈ outs (scheduleCall n) Pointers.zero calls, ∀ x < ISLIP_ROUNDS n, ∀ o < ISLIP_ROUNDS n, x ≠ o →
        ¬ Matches s x o) ∧
      ∀ before block after, calls = before ++ block ++ after → n ≤ ISLIP_ROUNDS n + before.length →
        block.length = n → ∀ x < n, ∀ o < n,
          (outs (scheduleCall n) (exec (scheduleCall n) Pointers.zero before) block).countP
              (fun s => Matches s x o) =
            if x < ISLIP_ROUNDS n ∧ o < ISLIP_ROUNDS n then if x = o then ISLIP_ROUNDS n else 0 else 1 := by
  have hr := rounds_pos hn
  have hrn : ISLIP_ROUNDS n ≤ n := by
    have := rounds_twice hn
    omega
  constructor
  · intro s hmem x hx o ho hne hxo
    obtain ⟨t, -, hst⟩ := exists_of_forall₂ (step_run hn hs (stepAt_zero n)) hmem
    exact hne (stepTarget_first_ports hrn hx ho ((hst.matches_iff (by omega)).mp hxo).2)
  · intro before block after he hlen hblock x hx o ho
    subst he
    have hbefore : ∀ v ∈ before, Saturated n v := fun v hv => hs v (by simp [hv])
    have hin : ∀ v ∈ block, Saturated n v := fun v hv => hs v (by simp [hv])
    have hrun := step_run hn hin (step_exec hn hbefore (stepAt_zero n))
    rw [Nat.zero_add, hblock] at hrun
    have hturn := countP_of_forall₂ (q := fun t => stepTarget n (ISLIP_ROUNDS n) t x = o)
      (r := fun s => Matches s x o) hrun fun t ht s hst => by
        have hfull : x < min n (ISLIP_ROUNDS n + t) := by
          have := (List.mem_range'_1.mp ht).1
          omega
        rw [decide_eq_decide, hst.matches_iff hx, stepTarget_mod]
        exact (and_iff_right hfull).symm
    rw [← hturn]
    exact (countP_turn hx _).trans (count_targets hr hrn hx ho)

theorem saturated_shares_four :
    (outs (scheduleCall 4) (exec (scheduleCall 4) Pointers.zero (List.replicate 2 fun _ _ => 1))
      (List.replicate 4 fun _ _ => 1)).countP (fun s => Matches s 1 1) = 2 := by
  have hs : ∀ v ∈ List.replicate 2 (fun _ _ => 1) ++ List.replicate 4 (fun _ _ => 1) ++ [], Saturated 4 v := by
    intro v hv
    simp only [List.append_nil, List.mem_append, List.mem_replicate] at hv
    rcases hv with ⟨-, rfl⟩ | ⟨-, rfl⟩ <;> exact fun _ _ _ _ => Nat.one_pos
  have hr : ISLIP_ROUNDS 4 = 2 := by decide +kernel
  have h := (saturated_shares 4 (by decide) _ hs).2 _ _ [] rfl (by rw [hr]; decide) (by simp) 1 (by decide) 1
    (by decide)
  rw [hr] at h
  exact h

end SwitchSimulation
