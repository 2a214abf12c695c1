import SwitchSimulation.Starvation

/-!
# An input with one request

Steady requests alone do not keep an input from starving: its grants may be
lost to its other requests. An input that asks for one output only accepts
every grant, so it starves only while the pointer of that output comes nearer
to it, or while the input that is granted first refuses.
-/

namespace SwitchSimulation

/-- Input `i` asks for output `j` and nothing else, and the inputs that ask for `j` are those of `waiting`. -/
structure LoneRequest (n i j : Nat) (waiting : Nat → Bool) (voqSize : Nat → Nat → Nat) : Prop where
  asks : voqSize i j > 0
  alone : ∀ o < n, voqSize i o > 0 → o = j
  steady : ∀ x < n, decide (voqSize x j > 0) = waiting x

section
variable {n i j : Nat} {waiting : Nat → Bool} {p : Pointers} {voqSize : Nat → Nat → Nat}

/-- A pointer that has come to the input stays there until the input is served. -/
theorem loneRequest_matches (hn : 2 ≤ n) (hi : i < n) (hj : j < n) (h : LoneRequest n i j waiting voqSize)
    (hp : p.grant j = i) : Matches (schedule n p voqSize) i j := by
  have hg : grantOf n voqSize (scheduleReset p.grant p.accept) j = some i := by
    rw [grantOf_reset hj]
    unfold firstGrant
    rw [hp]
    exact firstFrom_self hi (decide_eq_true h.asks)
  have ha : acceptOf n voqSize (scheduleReset p.grant p.accept) i = some j := by
    refine firstFrom_only hj (decide_eq_true hg) ?_
    intro o ho hgo
    exact h.alone o ho (grantOf_some (of_decide_eq_true hgo)).2.2.2.2
  exact matches_of_accept (r := 0) (rounds_pos hn) ha

theorem loneRequest_starves (hn : 2 ≤ n) (hi : i < n) (hj : j < n) (h : LoneRequest n i j waiting voqSize)
    (hne : ¬ Matches (schedule n p voqSize) i j) : StarvesSteadily n i j waiting p voqSize :=
  ⟨⟨h.asks, hne⟩, h.steady, fun hp => absurd (loneRequest_matches hn hi hj h hp) hne⟩

theorem steadyRank_le (hi : i < n) (hj : j < n) : steadyRank n i j waiting p < n * n := by
  have hg : ahead n (p.grant j) i ≤ n - 1 := Nat.le_sub_one_of_lt (ahead_lt hi)
  have ha : ahead n (p.accept (firstWaiting n waiting j p)) j < n := ahead_lt hj
  calc steadyRank n i j waiting p
      < n * ahead n (p.grant j) i + n := Nat.add_lt_add_left ha _
    _ ≤ n * (n - 1) + n := Nat.add_le_add_right (Nat.mul_le_mul_left n hg) n
    _ = n * n := by rw [← Nat.mul_succ, Nat.succ_eq_add_one, Nat.sub_add_cancel (by omega)]

end

/-- After any calls, an input that keeps asking for one output only is matched
to it within `n²` calls, if the inputs that ask for this output stay the same. -/
theorem lone_request_served (n : Nat) (hn : 2 ≤ n) (i j : Nat) (hi : i < n) (hj : j < n)
    (waiting : Nat → Bool) (earlier calls : List (Nat → Nat → Nat))
    (h : ∀ voqSize ∈ calls, LoneRequest n i j waiting voqSize) (hlen : n * n ≤ calls.length) :
    ∃ s ∈ outs (scheduleCall n) (exec (scheduleCall n) Pointers.zero earlier) calls, Matches s i j := by
  have hb : (exec (scheduleCall n) Pointers.zero earlier).Below n := reachable_below (by omega) earlier
  have hm : Meets (scheduleCall n) (fun _ v => LoneRequest n i j waiting v)
      (exec (scheduleCall n) Pointers.zero earlier) calls := meets_inputs.mpr h
  refine hm.progress (Pointers.Below n) (steadyRank n i j waiting) ?_ hb
    (Nat.lt_of_lt_of_le (steadyRank_le hi hj) hlen)
  intro p v hb hv
  by_cases hmatch : Matches (schedule n p v) i j
  · exact Or.inl hmatch
  · exact Or.inr ⟨scheduleCall_below (by omega) hb,
      steadyRank_lt hn hi hj hb (loneRequest_starves hn hi hj hv hmatch)⟩

/-- Input 1 asks for output 0, which input 0 asks for too, beside output 1. -/
def sharedOutput (x o : Nat) : Nat := if x = 0 ∨ o = 0 then 1 else 0

theorem lone_request_served_two :
    ∃ s ∈ outs (scheduleCall 2) (exec (scheduleCall 2) Pointers.zero [sharedOutput])
      (List.replicate 4 sharedOutput), Matches s 1 0 := by
  refine lone_request_served 2 (by decide) 1 0 (by decide) (by decide) (fun _ => true) [sharedOutput] _ ?_ (by decide)
  intro v hv
  rw [List.eq_of_mem_replicate hv]
  exact ⟨by decide, by decide, by decide⟩

end SwitchSimulation
