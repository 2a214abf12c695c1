import SwitchSimulation.Machine
import SwitchSimulation.ScheduleRound

/-!
# Calls of the scheduler

A pair that a round matches stays matched to the end of the call, and a call
moves exactly the pointers of the matched ports, by one.
-/

namespace SwitchSimulation

/-- Every pointer has moved by one if its port is matched, and not at all otherwise. -/
structure PointersMoved (n : Nat) (grantPtr acceptPtr : Nat → Nat) (s : Schedule) : Prop where
  grant : ∀ o, s.grantPtr o = if s.outputMatched o = true then (grantPtr o + 1) % n else grantPtr o
  accept : ∀ x, s.acceptPtr x = if s.inputMatched x = true then (acceptPtr x + 1) % n else acceptPtr x

section
variable {n : Nat} {voqSize : Nat → Nat → Nat} {s : Schedule} {grantPtr acceptPtr : Nat → Nat} {x o : Nat}

/-! ## Matched pairs -/

theorem IsMatching.unique (hm : IsMatching n voqSize s) {y : Nat} (h : Matches s x o) (h' : Matches s y o) :
    x = y := hm.inj x y h.1 h'.1 (h.2.trans h'.2.symm)

theorem Matches.round (hm : IsMatching n voqSize s) (h : Matches s x o) :
    Matches (iSLIPRound n voqSize s) x o := by
  rw [iSLIPRound_eq]
  obtain ⟨ha, ho⟩ := round_keeps hm h.1
  exact ⟨ha, ho.trans h.2⟩

theorem iSLIPRounds_succ (rounds : Nat) :
    iSLIPRounds n voqSize (rounds + 1) s = simultaneousRound n voqSize (iSLIPRounds n voqSize rounds s) :=
  iSLIPRound_eq

theorem Matches.rounds (hm : IsMatching n voqSize s) {r r' : Nat} (hr : r ≤ r')
    (h : Matches (iSLIPRounds n voqSize r s) x o) : Matches (iSLIPRounds n voqSize r' s) x o := by
  induction r', hr using Nat.le_induction with
  | base => exact h
  | succ k _ ih => exact ih.round (iSLIPRounds_matching hm k)

theorem matches_of_accept {r : Nat} (hr : r < ISLIP_ROUNDS n)
    (h : acceptOf n voqSize (iSLIPRounds n voqSize r (scheduleReset grantPtr acceptPtr)) x = some o) :
    Matches (iSLIPSchedule n voqSize grantPtr acceptPtr) x o := by
  refine Matches.rounds (scheduleReset_matching grantPtr acceptPtr) (r := r + 1) hr ?_
  rw [iSLIPRounds_succ]
  exact round_accepts h

theorem rounds_pos (hn : 2 ≤ n) : 0 < ISLIP_ROUNDS n := Nat.clog_pos (by decide) hn

/-! ## Pointers -/

theorem simultaneousRound_moved (h : PointersMoved n grantPtr acceptPtr s) :
    PointersMoved n grantPtr acceptPtr (simultaneousRound n voqSize s) where
  grant := by
    intro o
    rw [simultaneousRound_outputMatched, show (simultaneousRound n voqSize s).grantPtr o =
      if takenUpTo n voqSize s n o then (s.grantPtr o + 1) % n else s.grantPtr o from rfl, h.grant o]
    by_cases ht : takenUpTo n voqSize s n o = true
    · obtain ⟨x, -, ha⟩ := takenUpTo_iff.mp ht
      simp [ht, (grantOf_some (acceptOf_some ha)).2.2.1]
    · simp [ht]
  accept := by
    intro x
    cases ha : acceptOf n voqSize s x with
    | none => simp [simultaneousRound, acceptsUpTo, h.accept x, ha]
    | some o =>
      obtain ⟨-, hx, -, hi, -⟩ := grantOf_some (acceptOf_some ha)
      simp [simultaneousRound, acceptsUpTo, h.accept x, ha, hx, hi]

theorem iSLIPSchedule_moved (n : Nat) (voqSize : Nat → Nat → Nat) (grantPtr acceptPtr : Nat → Nat) :
    PointersMoved n grantPtr acceptPtr (iSLIPSchedule n voqSize grantPtr acceptPtr) := by
  apply forRange_keeps (PointersMoved n grantPtr acceptPtr)
  · constructor <;> simp [scheduleReset]
  · intro _ _ t ht
    rw [iSLIPRound_eq]
    exact simultaneousRound_moved ht

end

/-! ## Sequences of calls -/

def Pointers.Below (n : Nat) (p : Pointers) : Prop := ∀ x, p.grant x < n ∧ p.accept x < n

section
variable {n : Nat} {p : Pointers} {voqSize : Nat → Nat → Nat} {x o : Nat}

theorem schedule_matching : IsMatching n voqSize (schedule n p voqSize) := iSLIPSchedule_matching _ _

theorem scheduleCall_grant (o : Nat) : (scheduleCall n p voqSize).1.grant o =
    if (schedule n p voqSize).outputMatched o = true then (p.grant o + 1) % n else p.grant o :=
  (iSLIPSchedule_moved n voqSize p.grant p.accept).grant o

theorem scheduleCall_accept (x : Nat) : (scheduleCall n p voqSize).1.accept x =
    if (schedule n p voqSize).mappingActive x = true then (p.accept x + 1) % n else p.accept x := by
  rw [(schedule_matching).active_iff]
  exact (iSLIPSchedule_moved n voqSize p.grant p.accept).accept x

theorem outputMatched_iff :
    (schedule n p voqSize).outputMatched o = true ↔ ∃ x < n, Matches (schedule n p voqSize) x o := by
  constructor
  · exact schedule_matching.covered o
  · intro ⟨x, _, h⟩
    rw [← h.2]
    exact schedule_matching.matched x h.1

theorem scheduleCall_below (hn : 0 < n) (h : p.Below n) : (scheduleCall n p voqSize).1.Below n := by
  intro x
  rw [scheduleCall_grant, scheduleCall_accept]
  constructor
  · split
    · exact Nat.mod_lt _ hn
    · exact (h x).1
  · split
    · exact Nat.mod_lt _ hn
    · exact (h x).2

theorem reachable_below (hn : 0 < n) (calls : List (Nat → Nat → Nat)) :
    (exec (scheduleCall n) Pointers.zero calls).Below n :=
  exec_inv (Pointers.Below n) (fun _ _ h => scheduleCall_below hn h) (fun _ => ⟨hn, hn⟩) calls

/-! ## How far the pointers move -/

def Serves (n : Nat) (s : Schedule) (o : Nat) : Prop := ∃ x < n, Matches s x o

instance (n : Nat) (s : Schedule) (o : Nat) : Decidable (Serves n s o) :=
  inferInstanceAs (Decidable (∃ x < n, Matches s x o))

theorem scheduleCall_grant_serves (o : Nat) : (scheduleCall n p voqSize).1.grant o =
    if Serves n (schedule n p voqSize) o then (p.grant o + 1) % n else p.grant o := by
  rw [scheduleCall_grant]
  exact if_congr outputMatched_iff rfl rfl

theorem grant_run {o : Nat} (ho : p.grant o < n) (calls : List (Nat → Nat → Nat)) :
    (exec (scheduleCall n) p calls).grant o =
      (p.grant o + (outs (scheduleCall n) p calls).countP fun s => Serves n s o) % n := by
  apply counter_run (fun p : Pointers => p.grant o) _ _ ho
  intro p voqSize
  rw [scheduleCall_grant_serves]
  exact if_congr decide_eq_true_iff.symm rfl rfl

theorem accept_run {x : Nat} (hx : p.accept x < n) (calls : List (Nat → Nat → Nat)) :
    (exec (scheduleCall n) p calls).accept x =
      (p.accept x + (outs (scheduleCall n) p calls).countP fun s => s.mappingActive x) % n := by
  apply counter_run (fun p : Pointers => p.accept x) _ _ hx
  intro p voqSize
  exact scheduleCall_accept x

end

/-- A call moves the pointers of the matched ports by one, and a run of calls
moves each pointer by the number of calls that matched its port. -/
theorem pointer_frame (n : Nat) (p : Pointers) (hp : ∀ x < n, p.grant x < n ∧ p.accept x < n) :
    (∀ voqSize, ∀ o < n, (scheduleCall n p voqSize).1.grant o =
        if ∃ x < n, Matches (schedule n p voqSize) x o then (p.grant o + 1) % n else p.grant o) ∧
      (∀ voqSize, ∀ x < n, (scheduleCall n p voqSize).1.accept x =
        if (schedule n p voqSize).mappingActive x = true then (p.accept x + 1) % n else p.accept x) ∧
      ∀ calls, ∀ x < n,
        (exec (scheduleCall n) p calls).grant x < n ∧ (exec (scheduleCall n) p calls).accept x < n ∧
        (exec (scheduleCall n) p calls).grant x =
          (p.grant x + (outs (scheduleCall n) p calls).countP fun s => ∃ y < n, Matches s y x) % n ∧
        (exec (scheduleCall n) p calls).accept x =
          (p.accept x + (outs (scheduleCall n) p calls).countP fun s => s.mappingActive x) % n := by
  refine ⟨fun _ o _ => scheduleCall_grant_serves o, fun _ x _ => scheduleCall_accept x, ?_⟩
  intro calls x hx
  have hg := grant_run (hp x hx).1 calls
  have ha := accept_run (hp x hx).2 calls
  refine ⟨?_, ?_, hg, ha⟩
  · rw [hg]; exact Nat.mod_lt _ (by omega)
  · rw [ha]; exact Nat.mod_lt _ (by omega)

theorem pointer_frame_two :
    (exec (scheduleCall 2) Pointers.zero [fun _ _ => 1, fun _ _ => 1]).accept 1 =
      (0 + (outs (scheduleCall 2) Pointers.zero [fun _ _ => 1, fun _ _ => 1]).countP
        fun s => s.mappingActive 1) % 2 := by
  have hzero : ∀ x < 2, Pointers.zero.grant x < 2 ∧ Pointers.zero.accept x < 2 := by decide
  exact ((pointer_frame 2 Pointers.zero hzero).2.2 _ 1 (by decide)).2.2.2

end SwitchSimulation
