import SwitchSimulation.Counting
import SwitchSimulation.ScheduleWord
import SwitchSimulation.Starvation

/-!
# A contended output

Some inputs have packets for output `j` and for no other output, and no other
input has any for `j`. The grant pointer of `j` then moves by one in every
call, whichever input it serves: an input is served once for each place of the
pointer from which it is the first. What an input gets depends on the gap in
front of it.
-/

namespace SwitchSimulation

/-- The inputs of `waiting` request `j` and nothing else, and no other input requests `j`. -/
structure HotSpot (n j : Nat) (waiting : Nat → Bool) (voqSize : Nat → Nat → Nat) : Prop where
  requests : ∀ x < n, voqSize x j > 0 ↔ waiting x = true
  only : ∀ x < n, waiting x = true → ∀ o < n, o ≠ j → voqSize x o = 0

section
variable {n j i : Nat} {waiting : Nat → Bool} {p : Pointers} {voqSize : Nat → Nat → Nat}

/-! ## One call -/

theorem hotSpot_grant (hj : j < n) (h : HotSpot n j waiting voqSize) :
    grantOf n voqSize (scheduleReset p.grant p.accept) j = firstFrom n (p.grant j) waiting := by
  rw [grantOf_reset hj]
  apply firstFrom_congr
  intro x hx
  rw [Bool.eq_iff_iff, decide_eq_true_iff]
  exact h.requests x hx

theorem hotSpot_matches (hn : 2 ≤ n) (hj : j < n) (h : HotSpot n j waiting voqSize)
    (hi : firstFrom n (p.grant j) waiting = some i) : Matches (schedule n p voqSize) i j := by
  obtain ⟨hin, hw⟩ := firstFrom_some hi
  have ha : acceptOf n voqSize (scheduleReset p.grant p.accept) i = some j := by
    refine firstFrom_only hj ?_ ?_
    · rw [hotSpot_grant hj h, hi]
      exact decide_eq_true rfl
    · intro o ho hg
      -- the input has no packets for another output
      have hpos := (grantOf_some (of_decide_eq_true hg)).2.2.2.2
      by_contra hne
      rw [h.only i hin hw o ho hne] at hpos
      exact absurd hpos (Nat.lt_irrefl 0)
  exact matches_of_accept (r := 0) (rounds_pos hn) ha

variable {k : Nat} (hn : 2 ≤ n) (hj : j < n) (hk : k < n) (hw : waiting k = true)
include hn hj hk hw

theorem hotSpot_matches_iff (h : HotSpot n j waiting voqSize) :
    Matches (schedule n p voqSize) i j ↔ firstFrom n (p.grant j) waiting = some i := by
  obtain ⟨x, hx⟩ := firstFrom_isSome (p := p.grant j) hk hw
  rw [hx, Option.some.injEq]
  constructor
  · intro hm
    exact schedule_matching.unique (hotSpot_matches hn hj h hx) hm
  · rintro rfl
    exact hotSpot_matches hn hj h hx

theorem hotSpot_pointer (h : HotSpot n j waiting voqSize) :
    (scheduleCall n p voqSize).1.grant j = (p.grant j + 1) % n := by
  obtain ⟨x, hx⟩ := firstFrom_isSome (p := p.grant j) hk hw
  rw [scheduleCall_grant_serves, if_pos ⟨x, (firstFrom_some hx).1, hotSpot_matches hn hj h hx⟩]

/-! ## Consecutive calls -/

theorem hotSpot_count {calls : List (Nat → Nat → Nat)} (hs : ∀ v ∈ calls, HotSpot n j waiting v)
    (hg : p.grant j < n) : (outs (scheduleCall n) p calls).countP (fun s => Matches s i j) =
      (List.range calls.length).countP fun t => firstFrom n ((p.grant j + t) % n) waiting = some i := by
  induction calls generalizing p with
  | nil => rfl
  | cons voqSize calls ih =>
    obtain ⟨hv, hs⟩ := List.forall_mem_cons.mp hs
    have hfirst : Matches (schedule n p voqSize) i j ↔ firstFrom n ((p.grant j + 0) % n) waiting = some i := by
      rw [Nat.add_zero, Nat.mod_eq_of_lt hg]
      exact hotSpot_matches_iff hn hj hk hw hv
    have hnext : (scheduleCall n p voqSize).1.grant j < n := by
      rw [hotSpot_pointer hn hj hk hw hv]
      exact Nat.mod_lt _ (by omega)
    have hrest : ∀ t, ((scheduleCall n p voqSize).1.grant j + t) % n = (p.grant j + (t + 1)) % n := by
      intro t
      rw [hotSpot_pointer hn hj hk hw hv, Nat.mod_add_mod, Nat.add_assoc, Nat.add_comm 1]
    rw [outs_cons, List.countP_cons, ih hs hnext, List.length_cons, List.range_succ_eq_map, List.countP_cons,
      List.countP_map]
    simp only [hrest, decide_eq_true_eq]
    congr 1
    exact if_congr hfirst rfl rfl

end

/-- In any `n` consecutive calls a contended output serves each input as often
as there are places of its pointer from which the input is the first that
waits; so every waiting input is served at least once. -/
theorem hot_spot_shares (n j : Nat) (hn : 2 ≤ n) (hw : n ≤ 2 ^ 31) (hj : j < n) (waiting : Nat → Bool)
    (hk : ∃ k < n, waiting k = true) (p : Pointers) (hp : ∀ x < n, p.grant x < n ∧ p.accept x < n)
    (calls : List (Nat → Nat → Nat)) (hs : ∀ voqSize ∈ calls, HotSpot n j waiting voqSize) (hlen : calls.length = n) :
    (∀ i, (outs (scheduleCall32 n) p calls).countP (fun s => Matches s i j) =
        (List.range n).countP fun g => firstFrom n g waiting = some i) ∧
      ∀ i < n, waiting i = true → 0 < (outs (scheduleCall32 n) p calls).countP fun s => Matches s i j := by
  obtain ⟨k, hk, hwk⟩ := hk
  rw [(scheduleCall32_run hw (noWrap_of_lt hw hp) calls).2.1]
  have hcount : ∀ i, (outs (scheduleCall n) p calls).countP (fun s => Matches s i j) =
      (List.range n).countP fun g => firstFrom n g waiting = some i := by
    intro i
    rw [hotSpot_count hn hj hk hwk hs (hp j hj).1, hlen]
    exact countP_places (p.grant j) fun g => decide (firstFrom n g waiting = some i)
  refine ⟨hcount, fun i hi hwi => ?_⟩
  rw [hcount, List.countP_pos_iff]
  exact ⟨i, List.mem_range.mpr hi, decide_eq_true (firstFrom_self hi hwi)⟩

/-- Inputs 0 and 1 of four contend for output 2: the gap in front of input 0
gives it three calls of four. -/
theorem hot_spot_shares_four :
    (outs (scheduleCall32 4) Pointers.zero
      (List.replicate 4 fun x o => if x < 2 ∧ o = 2 then 1 else 0)).countP (fun s => Matches s 0 2) = 3 := by
  have hs : ∀ v ∈ List.replicate 4 (fun x o => if x < 2 ∧ o = 2 then 1 else 0),
      HotSpot 4 2 (fun x => decide (x < 2)) v := by
    intro v hv
    rw [List.eq_of_mem_replicate hv]
    exact ⟨by decide, by decide⟩
  have h := (hot_spot_shares 4 2 (by decide) (by decide) (by decide) (fun x => decide (x < 2))
    ⟨0, by decide, rfl⟩ Pointers.zero (by decide) _ hs rfl).1 0
  rw [h]
  decide

end SwitchSimulation
