import Mathlib.Data.Finset.Card
import SwitchSimulation.ScheduleWord

/-!
# Saturated traffic

When every queue has packets, an output grants to the input at its pointer.
Pointers that differ pairwise make these grants a perfect matching, which the
first round accepts as it is. The call then moves all grant pointers by one,
so they still differ, and `n` calls serve every pair once.
-/

namespace SwitchSimulation

def Saturated (n : Nat) (voqSize : Nat → Nat → Nat) : Prop := ∀ x < n, ∀ o < n, voqSize x o > 0

structure Desynchronised (n : Nat) (p : Pointers) : Prop where
  lt : ∀ o < n, p.grant o < n
  inj : ∀ o < n, ∀ o' < n, p.grant o = p.grant o' → o = o'

structure IsPerfect (n : Nat) (s : Schedule) : Prop where
  active : ∀ x < n, s.mappingActive x = true
  lt : ∀ x < n, s.portMapping x < n
  inj : ∀ x < n, ∀ x' < n, s.portMapping x = s.portMapping x' → x = x'

section
variable {n : Nat} {p : Pointers} {voqSize : Nat → Nat → Nat} {x o : Nat}

theorem Desynchronised.surj (hd : Desynchronised n p) (hx : x < n) : ∃ o < n, p.grant o = x := by
  have hmaps : Set.MapsTo p.grant (Finset.range n) (Finset.range n) := by
    intro o ho
    exact Finset.mem_coe.mpr (Finset.mem_range.mpr (hd.lt o (Finset.mem_range.mp ho)))
  have hinj : Set.InjOn p.grant (Finset.range n) := by
    intro o ho o' ho' he
    exact hd.inj o (Finset.mem_range.mp ho) o' (Finset.mem_range.mp ho') he
  obtain ⟨o, ho, he⟩ := Finset.surjOn_of_injOn_of_card_le p.grant hmaps hinj (Nat.le_refl _)
    (Finset.mem_coe.mpr (Finset.mem_range.mpr hx))
  exact ⟨o, Finset.mem_range.mp ho, he⟩

/-! ## One call -/

theorem grantOf_saturated (hs : Saturated n voqSize) (hd : Desynchronised n p) (ho : o < n) :
    grantOf n voqSize (scheduleReset p.grant p.accept) o = some (p.grant o) := by
  unfold grantOf
  rw [if_pos ⟨ho, rfl⟩]
  have hlt := hd.lt o ho
  exact firstFrom_self hlt (by simpa [requests, scheduleReset] using hs _ hlt o ho)

theorem acceptOf_saturated (hs : Saturated n voqSize) (hd : Desynchronised n p) (ho : o < n) :
    acceptOf n voqSize (scheduleReset p.grant p.accept) (p.grant o) = some o := by
  apply firstFrom_only ho
  · simpa using grantOf_saturated hs hd ho
  · intro y hy hg
    have hg := of_decide_eq_true hg
    rw [grantOf_saturated hs hd hy] at hg
    exact hd.inj y hy o ho (Option.some.inj hg)

theorem saturated_matches (hn : 2 ≤ n) (hs : Saturated n voqSize) (hd : Desynchronised n p) (ho : o < n) :
    Matches (schedule n p voqSize) (p.grant o) o :=
  matches_of_accept (r := 0) (rounds_pos hn) (acceptOf_saturated hs hd ho)

theorem saturated_matches_iff (hn : 2 ≤ n) (hs : Saturated n voqSize) (hd : Desynchronised n p) (ho : o < n) :
    Matches (schedule n p voqSize) x o ↔ p.grant o = x := by
  constructor
  · intro h
    exact schedule_matching.unique (saturated_matches hn hs hd ho) h
  · rintro rfl
    exact saturated_matches hn hs hd ho

theorem saturated_perfect (hn : 2 ≤ n) (hs : Saturated n voqSize) (hd : Desynchronised n p) :
    IsPerfect n (schedule n p voqSize) := by
  have hactive : ∀ x < n, (schedule n p voqSize).mappingActive x = true := by
    intro x hx
    obtain ⟨o, ho, rfl⟩ := hd.surj hx
    exact (saturated_matches hn hs hd ho).1
  refine ⟨hactive, ?_, ?_⟩
  · intro x hx
    exact schedule_matching.lt x (hactive x hx)
  · intro x hx x' hx' he
    exact schedule_matching.inj x x' (hactive x hx) (hactive x' hx') he

theorem saturated_grant (hn : 2 ≤ n) (hs : Saturated n voqSize) (hd : Desynchronised n p) (ho : o < n) :
    (scheduleCall n p voqSize).1.grant o = (p.grant o + 1) % n := by
  rw [scheduleCall_grant_serves, if_pos ⟨p.grant o, hd.lt o ho, saturated_matches hn hs hd ho⟩]

theorem saturated_desynchronised (hn : 2 ≤ n) (hs : Saturated n voqSize) (hd : Desynchronised n p) :
    Desynchronised n (scheduleCall n p voqSize).1 where
  lt := by
    intro o ho
    rw [saturated_grant hn hs hd ho]
    exact Nat.mod_lt _ (by omega)
  inj := by
    intro o ho o' ho' he
    rw [saturated_grant hn hs hd ho, saturated_grant hn hs hd ho', Nat.add_comm, Nat.add_comm (p.grant o')] at he
    exact hd.inj o ho o' ho' (slot_inj (hd.lt o ho) (hd.lt o' ho') he)

/-! ## Consecutive calls -/

theorem saturated_count (hn : 2 ≤ n) {calls : List (Nat → Nat → Nat)} (hs : ∀ v ∈ calls, Saturated n v)
    (hd : Desynchronised n p) (ho : o < n) :
    (outs (scheduleCall n) p calls).countP (fun s => Matches s x o) =
      (List.range calls.length).countP fun k => (p.grant o + k) % n = x := by
  induction calls generalizing p with
  | nil => rfl
  | cons voqSize calls ih =>
    obtain ⟨hv, hs⟩ := List.forall_mem_cons.mp hs
    have hfirst : Matches (schedule n p voqSize) x o ↔ (p.grant o + 0) % n = x := by
      rw [Nat.add_zero, Nat.mod_eq_of_lt (hd.lt o ho)]
      exact saturated_matches_iff hn hv hd ho
    have hrest : ∀ k, (((scheduleCall n p voqSize).1.grant o + k) % n = x) = ((p.grant o + (k + 1)) % n = x) := by
      intro k
      rw [saturated_grant hn hv hd ho, Nat.mod_add_mod, Nat.add_assoc, Nat.add_comm 1]
    rw [outs_cons, List.countP_cons, ih hs (saturated_desynchronised hn hv hd), List.length_cons,
      List.range_succ_eq_map, List.countP_cons, List.countP_map]
    simp only [hrest, decide_eq_true_eq]
    congr 1
    exact if_congr hfirst rfl rfl

theorem count_turn {g : Nat} (hx : x < n) : (List.range n).countP (fun k => (g + k) % n = x) = 1 := by
  have heq : ∀ k ∈ List.range n, decide ((g + k) % n = x) = true ↔ (k == ahead n g x) = true := by
    intro k hk
    rw [decide_eq_true_iff, beq_iff_eq]
    constructor
    · rintro rfl
      exact (ahead_add (List.mem_range.mp hk)).symm
    · rintro rfl
      exact add_ahead hx
  rw [List.countP_congr heq]
  exact List.count_eq_one_of_mem List.nodup_range (List.mem_range.mpr (ahead_lt hx))

end

section
variable {n : Nat} (hn : 2 ≤ n) {p : Pointers} (hd : Desynchronised n p) {calls : List (Nat → Nat → Nat)}
include hn hd

theorem saturated_always (hs : ∀ v ∈ calls, Saturated n v) :
    Always (scheduleCall n) (Desynchronised n) p calls :=
  (meets_inputs.mpr hs).always (Desynchronised n) (fun _ _ hd hv => saturated_desynchronised hn hv hd) hd

theorem saturated_all_perfect (hs : ∀ v ∈ calls, Saturated n v) :
    ∀ s ∈ outs (scheduleCall n) p calls, IsPerfect n s :=
  (meets_inputs.mpr hs).outs (Desynchronised n)
    (fun _ _ hd hv => ⟨saturated_desynchronised hn hv hd, saturated_perfect hn hv hd⟩) hd

/-- In a block of `n` calls the pointer of each output comes past each input once. -/
theorem saturated_block {before block : List (Nat → Nat → Nat)} (hbefore : ∀ v ∈ before, Saturated n v)
    (hblock : ∀ v ∈ block, Saturated n v) (hlen : block.length = n) {x o : Nat} (hx : x < n) (ho : o < n) :
    (outs (scheduleCall n) (exec (scheduleCall n) p before) block).countP (fun s => Matches s x o) = 1 := by
  have hd' := (saturated_always hn hd hbefore).last
  rw [saturated_count hn hblock hd' ho, hlen, count_turn hx]

end

/-- Under saturation, from grant pointers that are different ports and accept
pointers that do not wrap, every call of a run makes a perfect matching and
keeps the grant pointers different, and any `n` consecutive calls match each
pair once. -/
theorem saturated_throughput (n : Nat) (hn : 2 ≤ n) (hw : n ≤ 2 ^ 31) (p : Pointers) (hd : Desynchronised n p)
    (ha : ∀ x < n, p.accept x + n ≤ 2 ^ 32) (calls : List (Nat → Nat → Nat))
    (hs : ∀ voqSize ∈ calls, Saturated n voqSize) :
    (∀ s ∈ outs (scheduleCall32 n) p calls, IsPerfect n s) ∧
      Always (scheduleCall32 n) (Desynchronised n) p calls ∧
      ∀ before block after, calls = before ++ block ++ after → block.length = n → ∀ x < n, ∀ o < n,
        (outs (scheduleCall32 n) (exec (scheduleCall32 n) p before) block).countP (fun s => Matches s x o) = 1 := by
  have hp : NoWrap n p.grant p.accept := by
    intro x hx
    have := hd.lt x hx
    exact ⟨by omega, ha x hx⟩
  obtain ⟨-, houts, halways⟩ := scheduleCall32_run hw hp calls
  refine ⟨?_, (halways _).mpr (saturated_always hn hd hs), ?_⟩
  · rw [houts]
    exact saturated_all_perfect hn hd hs
  · intro before block after he hlen x hx o ho
    subst he
    have hbefore : ∀ v ∈ before, Saturated n v := fun v hv => hs v (by simp [hv])
    have hblock : ∀ v ∈ block, Saturated n v := fun v hv => hs v (by simp [hv])
    have hp' : NoWrap n (exec (scheduleCall n) p before).grant (exec (scheduleCall n) p before).accept :=
      exec_inv (fun p : Pointers => NoWrap n p.grant p.accept) (fun _ _ => iSLIPSchedule_keeps hw) hp before
    rw [(scheduleCall32_run hw hp before).1, (scheduleCall32_run hw hp' block).2.1]
    exact saturated_block hn hd hbefore hblock hlen hx ho

/-- The accept pointer of input 0 is the last one that does not wrap. -/
theorem saturated_throughput_three :
    (outs (scheduleCall32 3) (exec (scheduleCall32 3) ⟨id, fun x => if x = 0 then 2 ^ 32 - 3 else 2⟩ [])
      [fun _ _ => 1, fun _ _ => 4, fun _ _ => 1]).countP (fun s => Matches s 0 2) = 1 := by
  have hsat : ∀ voqSize ∈ [fun _ _ => 1, fun _ _ => 4, fun _ _ => 1], Saturated 3 voqSize := by
    intro v hv
    simp only [List.mem_cons, List.not_mem_nil, or_false] at hv
    rcases hv with rfl | rfl | rfl <;> exact fun _ _ _ _ => Nat.zero_lt_succ _
  exact (saturated_throughput 3 (by decide) (by decide) ⟨id, fun x => if x = 0 then 2 ^ 32 - 3 else 2⟩
    ⟨fun _ h => h, fun _ _ _ _ h => h⟩ (by decide) _ hsat).2.2 [] _ [] rfl rfl 0 (by decide) 2 (by decide)

/-- Grant pointers 0 and 2 of two ports differ and mean the same input; and an
accept pointer that wraps goes past its own output. -/
theorem saturated_imperfect :
    (Saturated 2 (fun _ _ => 1) ∧ (∀ o < 2, ∀ o' < 2, 2 * o = 2 * o' → o = o') ∧
        ¬ IsPerfect 2 (schedule32 2 ⟨fun o => 2 * o, fun _ => 0⟩ fun _ _ => 1)) ∧
      Saturated 3 (fun _ _ => 1) ∧ Desynchronised 3 ⟨id, fun _ => 2 ^ 32 - 1⟩ ∧
        ¬ IsPerfect 3 (schedule32 3 ⟨id, fun _ => 2 ^ 32 - 1⟩ fun _ _ => 1) := by
  have hsat : ∀ n, Saturated n (fun _ _ => 1) := fun _ _ _ _ _ => Nat.zero_lt_one
  refine ⟨⟨hsat 2, by decide, fun h => ?_⟩, hsat 3, ⟨fun _ h => h, fun _ _ _ _ h => h⟩, fun h => ?_⟩
  · have hidle : (schedule32 2 ⟨fun o => 2 * o, fun _ => 0⟩ fun _ _ => 1).mappingActive 1 = false := by
      decide +kernel
    rw [h.active 1 (by decide)] at hidle
    cases hidle
  · have hidle : (schedule32 3 ⟨id, fun _ => 2 ^ 32 - 1⟩ fun _ _ => 1).mappingActive 2 = false := by
      decide +kernel
    rw [h.active 2 (by decide)] at hidle
    cases hidle

end SwitchSimulation
