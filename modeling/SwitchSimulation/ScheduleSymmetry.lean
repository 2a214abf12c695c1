import SwitchSimulation.ScheduleWord

/-!
# Turned ports and closed groups of ports

`Carried` relates two schedules: what the first does for the inputs of `X` and
the outputs of `Y`, the second does for these ports turned by `a` and `b`
places. A round keeps this as long as in neither of the two queues lead from
one side of the groups to the other. With all ports in the groups this says
that only the pointers tell the ports apart; with `a` and `b` zero it says
that the groups do not notice the other ports.
-/

namespace SwitchSimulation

/-- The requests between `X` and `Y` are the same up to the turn, and no queue leads out of or into the groups. -/
structure Mirrors (n a b : Nat) (X Y : Nat → Prop) (v v' : Nat → Nat → Nat) : Prop where
  inside : ∀ x < n, ∀ o < n, X x → Y o → (v' (turn n a x) (turn n b o) > 0 ↔ v x o > 0)
  closed : ∀ x < n, ∀ o < n, v x o > 0 → (X x ↔ Y o)
  closed' : ∀ x < n, ∀ o < n, v' (turn n a x) (turn n b o) > 0 → (X x ↔ Y o)

structure PointersCarried (n a b : Nat) (X Y : Nat → Prop) (p p' : Pointers) : Prop where
  grant : ∀ o < n, Y o → p'.grant (turn n b o) % n = turn n a (p.grant o)
  accept : ∀ x < n, X x → p'.accept (turn n a x) % n = turn n b (p.accept x)

structure Carried (n a b : Nat) (X Y : Nat → Prop) (s s' : Schedule) : Prop where
  pointers : PointersCarried n a b X Y ⟨s.grantPtr, s.acceptPtr⟩ ⟨s'.grantPtr, s'.acceptPtr⟩
  inputMatched : ∀ x < n, X x → s'.inputMatched (turn n a x) = s.inputMatched x
  outputMatched : ∀ o < n, Y o → s'.outputMatched (turn n b o) = s.outputMatched o
  pairs : ∀ x < n, X x → ∀ o < n, (Matches s' (turn n a x) (turn n b o) ↔ Matches s x o)

section
variable {n a b : Nat} {X Y : Nat → Prop} {v v' : Nat → Nat → Nat} {s s' : Schedule} {x o : Nat}

theorem scheduleReset_carried {p p' : Pointers} (hp : PointersCarried n a b X Y p p') :
    Carried n a b X Y (scheduleReset p.grant p.accept) (scheduleReset p'.grant p'.accept) :=
  ⟨hp, fun _ _ _ => rfl, fun _ _ _ => rfl, fun _ _ _ _ _ => iff_of_false (fun h => by cases h.1) fun h => by cases h.1⟩

theorem map_turn_eq {m : Option Nat} (hm : ∀ y ∈ m, y < n) (hx : x < n) :
    m.map (turn n a) = some (turn n a x) ↔ m = some x := by
  cases m with
  | none => simp
  | some y =>
    rw [Option.map_some, Option.some.injEq, Option.some.injEq]
    exact ⟨turn_inj (hm y rfl) hx, fun h => by rw [h]⟩

/-! ## One round -/

section
variable (hc : Carried n a b X Y s s') (hv : Mirrors n a b X Y v v')
include hc hv

theorem grantOf_carried (ho : o < n) (hY : Y o) :
    grantOf n v' s' (turn n b o) = (grantOf n v s o).map (turn n a) := by
  have hreq : ∀ y < n, requests v' s' (turn n b o) (turn n a y) = requests v s o y := by
    intro y hy
    unfold requests
    by_cases hX : X y
    · rw [hc.inputMatched y hy hX, decide_eq_decide.mpr (hv.inside y hy o ho hX hY)]
    · -- neither queue has packets, since it would lead into the group
      rw [decide_eq_false fun h => hX ((hv.closed' y hy o ho h).mpr hY),
        decide_eq_false fun h => hX ((hv.closed y hy o ho h).mpr hY), Bool.and_false, Bool.and_false]
  unfold grantOf
  rw [hc.outputMatched o ho hY]
  by_cases hf : s.outputMatched o = false
  · rw [if_pos ⟨turn_lt ho, hf⟩, if_pos ⟨ho, hf⟩]
    exact firstFrom_turn (hc.pointers.grant o ho hY) hreq
  · rw [if_neg fun h => hf h.2, if_neg fun h => hf h.2]
    rfl

theorem granted_carried (hx : x < n) (hX : X x) (ho : o < n) :
    grantOf n v' s' (turn n b o) = some (turn n a x) ↔ grantOf n v s o = some x := by
  by_cases hY : Y o
  · rw [grantOf_carried hc hv ho hY]
    exact map_turn_eq (fun y hy => (grantOf_some hy).2.1) hx
  · refine iff_of_false (fun h => ?_) fun h => ?_
    · exact hY ((hv.closed' x hx o ho (grantOf_some h).2.2.2.2).mp hX)
    · exact hY ((hv.closed x hx o ho (grantOf_some h).2.2.2.2).mp hX)

theorem acceptOf_carried (hx : x < n) (hX : X x) :
    acceptOf n v' s' (turn n a x) = (acceptOf n v s x).map (turn n b) :=
  firstFrom_turn (hc.pointers.accept x hx hX) fun _ ho => decide_eq_decide.mpr (granted_carried hc hv hx hX ho)

theorem accepted_carried (hx : x < n) (hX : X x) (ho : o < n) :
    acceptOf n v' s' (turn n a x) = some (turn n b o) ↔ acceptOf n v s x = some o := by
  rw [acceptOf_carried hc hv hx hX]
  exact map_turn_eq (fun y hy => (grantOf_some (acceptOf_some hy)).1) ho

theorem takenUpTo_carried (ho : o < n) (hY : Y o) :
    takenUpTo n v' s' n (turn n b o) = takenUpTo n v s n o := by
  rw [Bool.eq_iff_iff, takenUpTo_iff, takenUpTo_iff]
  constructor
  · intro ⟨y, hy, ha⟩
    rw [← turn_ahead (a := a) hy] at ha
    have hlt : ahead n a y < n := ahead_lt hy
    have hX : X (ahead n a y) := (hv.closed' _ hlt o ho (grantOf_some (acceptOf_some ha)).2.2.2.2).mpr hY
    exact ⟨_, hlt, (accepted_carried hc hv hlt hX ho).mp ha⟩
  · intro ⟨x, hx, ha⟩
    have hX : X x := (hv.closed x hx o ho (grantOf_some (acceptOf_some ha)).2.2.2.2).mpr hY
    exact ⟨turn n a x, turn_lt hx, (accepted_carried hc hv hx hX ho).mpr ha⟩

omit hc hv in
theorem matches_simultaneousRound (hx : x < n) : Matches (simultaneousRound n v s) x o ↔
    acceptOf n v s x = some o ∨ acceptOf n v s x = none ∧ Matches s x o := by
  cases ha : acceptOf n v s x with
  | none => simp [Matches, simultaneousRound, acceptsUpTo, grantsUpTo, ha]
  | some y => simp [Matches, simultaneousRound, acceptsUpTo, grantsUpTo, ha, hx]

theorem simultaneousRound_carried :
    Carried n a b X Y (simultaneousRound n v s) (simultaneousRound n v' s') where
  pointers := by
    constructor
    · intro o ho hY
      change (if takenUpTo n v' s' n (turn n b o) then (s'.grantPtr (turn n b o) + 1) % n
          else s'.grantPtr (turn n b o)) % n =
        turn n a (if takenUpTo n v s n o then (s.grantPtr o + 1) % n else s.grantPtr o)
      rw [takenUpTo_carried hc hv ho hY]
      split
      · rw [Nat.mod_mod, ← turn_succ, ← hc.pointers.grant o ho hY, Nat.mod_add_mod]
      · exact hc.pointers.grant o ho hY
    · intro x hx hX
      change (if turn n a x < n ∧ (acceptOf n v' s' (turn n a x)).isSome then (s'.acceptPtr (turn n a x) + 1) % n
          else s'.acceptPtr (turn n a x)) % n =
        turn n b (if x < n ∧ (acceptOf n v s x).isSome then (s.acceptPtr x + 1) % n else s.acceptPtr x)
      rw [acceptOf_carried hc hv hx hX, Option.isSome_map]
      by_cases hs : (acceptOf n v s x).isSome = true
      · rw [if_pos ⟨turn_lt hx, hs⟩, if_pos ⟨hx, hs⟩, Nat.mod_mod, ← turn_succ, ← hc.pointers.accept x hx hX,
          Nat.mod_add_mod]
      · rw [if_neg fun h => hs h.2, if_neg fun h => hs h.2]
        exact hc.pointers.accept x hx hX
  inputMatched := by
    intro x hx hX
    change (s'.inputMatched (turn n a x) || decide (turn n a x < n) && (acceptOf n v' s' (turn n a x)).isSome) =
      (s.inputMatched x || decide (x < n) && (acceptOf n v s x).isSome)
    rw [hc.inputMatched x hx hX, acceptOf_carried hc hv hx hX, Option.isSome_map, decide_eq_true hx,
      decide_eq_true (turn_lt hx)]
  outputMatched := by
    intro o ho hY
    rw [simultaneousRound_outputMatched, simultaneousRound_outputMatched, hc.outputMatched o ho hY,
      takenUpTo_carried hc hv ho hY]
  pairs := by
    intro x hx hX o ho
    rw [matches_simultaneousRound (turn_lt hx), matches_simultaneousRound hx, accepted_carried hc hv hx hX ho,
      hc.pairs x hx hX o ho, acceptOf_carried hc hv hx hX, Option.map_eq_none_iff]

end

/-! ## Calls -/

theorem schedule_carried {p p' : Pointers} (hp : PointersCarried n a b X Y p p') (hv : Mirrors n a b X Y v v') :
    Carried n a b X Y (schedule n p v) (schedule n p' v') := by
  refine forRange_rel (fun _ => Carried n a b X Y) (scheduleReset_carried hp) ?_
  intro _ _ s s' hs
  rw [iSLIPRound_eq, iSLIPRound_eq]
  exact simultaneousRound_carried hs hv

theorem scheduleCall_carried {p p' : Pointers} (hp : PointersCarried n a b X Y p p')
    (hv : Mirrors n a b X Y v v') :
    PointersCarried n a b X Y (scheduleCall n p v).1 (scheduleCall n p' v').1 ∧
      Carried n a b X Y (scheduleCall n p v).2 (scheduleCall n p' v').2 :=
  ⟨(schedule_carried hp hv).pointers, schedule_carried hp hv⟩

end

/-! ## Turning all ports -/

def Pointers.turned (n a b : Nat) (p : Pointers) : Pointers :=
  ⟨fun o => turn n a (p.grant (ahead n b o)), fun x => turn n b (p.accept (ahead n a x))⟩

def voqsTurned (n a b : Nat) (v : Nat → Nat → Nat) (x o : Nat) : Nat := v (ahead n a x) (ahead n b o)

section
variable {n a b : Nat}

theorem turned_carried (p : Pointers) :
    PointersCarried n a b (fun _ => True) (fun _ => True) p (p.turned n a b) := by
  refine ⟨fun o ho _ => ?_, fun x hx _ => ?_⟩
  · simp only [Pointers.turned, ahead_turn ho]
    exact Nat.mod_eq_of_lt (Nat.mod_lt _ (by omega))
  · simp only [Pointers.turned, ahead_turn hx]
    exact Nat.mod_eq_of_lt (Nat.mod_lt _ (by omega))

theorem voqsTurned_mirrors (v : Nat → Nat → Nat) :
    Mirrors n a b (fun _ => True) (fun _ => True) v (voqsTurned n a b v) := by
  refine ⟨fun x hx o ho _ _ => ?_, fun _ _ _ _ _ => Iff.rfl, fun _ _ _ _ _ => Iff.rfl⟩
  unfold voqsTurned
  rw [ahead_turn hx, ahead_turn ho]

theorem turned_runs (p : Pointers) (calls : List (Nat → Nat → Nat)) :
    List.Forall₂ (fun s s' => ∀ x < n, ∀ o < n, Matches s' (turn n a x) (turn n b o) ↔ Matches s x o)
      (outs (scheduleCall n) p calls)
      (outs (scheduleCall n) (p.turned n a b) (calls.map (voqsTurned n a b))) := by
  have hcalls : List.Forall₂ (Mirrors n a b (fun _ => True) fun _ => True) calls
      (calls.map (voqsTurned n a b)) := by
    rw [List.forall₂_map_right_iff, List.forall₂_same]
    exact fun v _ => voqsTurned_mirrors v
  have hstep : ∀ (p p' : Pointers) (v v' : Nat → Nat → Nat),
      PointersCarried n a b (fun _ => True) (fun _ => True) p p' →
      Mirrors n a b (fun _ => True) (fun _ => True) v v' →
      PointersCarried n a b (fun _ => True) (fun _ => True) (scheduleCall n p v).1 (scheduleCall n p' v').1 ∧
        Carried n a b (fun _ => True) (fun _ => True) (scheduleCall n p v).2 (scheduleCall n p' v').2 :=
    fun _ _ _ _ => scheduleCall_carried
  exact (sim_run_pairs _ hstep (turned_carried p) hcalls).2.imp fun _ _ h x hx o ho => h.pairs x hx trivial o ho

theorem turned_lt (p : Pointers) : ∀ x < n, (p.turned n a b).grant x < n ∧ (p.turned n a b).accept x < n :=
  fun _ hx => ⟨Nat.mod_lt _ (Nat.zero_lt_of_lt hx), Nat.mod_lt _ (Nat.zero_lt_of_lt hx)⟩

end

/-- A run of calls with all inputs turned by `a` places and all outputs by `b`,
queues and pointers alike, makes the turned matchings: only the pointers tell
the ports apart. -/
theorem scheduler_turns (n a b : Nat) (hn : n ≤ 2 ^ 31) (p : Pointers)
    (hp : ∀ x < n, p.grant x < n ∧ p.accept x < n) (calls : List (Nat → Nat → Nat)) :
    List.Forall₂ (fun s s' => ∀ x < n, ∀ o < n, Matches s' (turn n a x) (turn n b o) ↔ Matches s x o)
      (outs (scheduleCall32 n) p calls)
      (outs (scheduleCall32 n) (p.turned n a b) (calls.map (voqsTurned n a b))) := by
  rw [(scheduleCall32_run hn (noWrap_of_lt hn hp) calls).2.1,
    (scheduleCall32_run hn (noWrap_of_lt hn (turned_lt p)) _).2.1]
  exact turned_runs p calls

theorem scheduler_turns_three :
    List.Forall₂ (fun s s' => ∀ x < 3, ∀ o < 3, Matches s' (turn 3 1 x) (turn 3 2 o) ↔ Matches s x o)
      (outs (scheduleCall32 3) ⟨id, fun _ => 1⟩ [fun x _ => x, fun _ o => o])
      (outs (scheduleCall32 3) (Pointers.turned 3 1 2 ⟨id, fun _ => 1⟩)
        ([fun x _ => x, fun _ o => o].map (voqsTurned 3 1 2))) :=
  scheduler_turns 3 1 2 (by decide) ⟨id, fun _ => 1⟩ (by decide) _

end SwitchSimulation
