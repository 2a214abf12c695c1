import SwitchSimulation.Starvation
import SwitchSimulation.SwitchBacklog

/-!
# Who is served, and when

A tick sends the head of a matched queue whose output has a host. A packet that
shares its two ports with no other crosses the switch in the tick it arrives
in, and so does every packet of an input that receives packets for port 0 only.
With two ports no queue waits for more than four ticks before each service.
-/

namespace SwitchSimulation

section
variable {Packet Addr Host : Type*} {n : Nat} {addrOf : Packet → Addr} {s : Switch Packet}
variable {inp : TickInput Packet Addr Host} {i j : Nat}

theorem switchTick_delivered (hi : i < n) (hj : j < n) : delivered (switchTick n addrOf s inp).2 i j =
    if (tickSchedule n addrOf s inp).portMapping i = j ∧ (inp.hostLookup j).isSome then
      (bufferTraffic addrOf n inp s.voqs i j).head?.toList
    else [] := by
  have hflow : s.voqs i j ++ accepted addrOf n inp i j =
      delivered (switchTick n addrOf s inp).2 i j ++ (switchTick n addrOf s inp).1.voqs i j :=
    switchTick_conserves s i j
  rw [← bufferTraffic_apply, switchTick_voqs] at hflow
  by_cases hm : (tickSchedule n addrOf s inp).portMapping i = j ∧ (inp.hostLookup j).isSome
  · rw [if_pos ⟨⟨hj, hi⟩, hm⟩] at hflow
    rw [if_pos hm]
    apply List.append_cancel_right
    rw [head_append_tail]
    exact hflow.symm
  · rw [if_neg fun h => hm h.2] at hflow
    rw [if_neg hm]
    exact List.append_cancel_right hflow.symm

/-! ## A packet without competition -/

/-- Input `x` has packets for output `o` alone, and no other input has any for it. -/
structure Alone (n : Nat) (voqSize : Nat → Nat → Nat) (x o : Nat) : Prop where
  waits : voqSize x o > 0
  input : ∀ y < n, voqSize x y > 0 → y = o
  output : ∀ y < n, voqSize y o > 0 → y = x

theorem Alone.matches {p : Pointers} {voqSize : Nat → Nat → Nat} {x o : Nat} (h : Alone n voqSize x o)
    (hn : 2 ≤ n) (hx : x < n) (ho : o < n) : Matches (schedule n p voqSize) x o := by
  have hg : grantOf n voqSize (scheduleReset p.grant p.accept) o = some x := by
    rw [grantOf_reset ho]
    exact firstFrom_only hx (decide_eq_true h.waits) fun y hy hw => h.output y hy (of_decide_eq_true hw)
  refine matches_of_accept (r := 0) (rounds_pos hn) (firstFrom_only ho (decide_eq_true hg) ?_)
  intro y hy hgy
  exact h.input y hy (grantOf_some (of_decide_eq_true hgy)).2.2.2.2

/-- No two inputs receive packets for the same port. -/
def Uncontended (n : Nat) (addrOf : Packet → Addr) (inp : TickInput Packet Addr Host) : Prop :=
  ∀ j < n, ∀ i < n, ∀ i' < n, accepted addrOf n inp i j ≠ [] → accepted addrOf n inp i' j ≠ [] → i' = i

instance (n : Nat) (addrOf : Packet → Addr) (inp : TickInput Packet Addr Host) [DecidableEq Packet] :
    Decidable (Uncontended n addrOf inp) :=
  inferInstanceAs (Decidable (∀ j < n, ∀ i < n, ∀ i' < n,
    accepted addrOf n inp i j ≠ [] → accepted addrOf n inp i' j ≠ [] → i' = i))

theorem accepted_eq (i j : Nat) : accepted addrOf n inp i j = [] ∨
    ∃ packet, inp.portLookup (addrOf packet) = some j ∧ inp.traffic i = some packet ∧
      accepted addrOf n inp i j = [packet] := by
  unfold accepted
  by_cases hi : i < n
  · rw [if_pos hi]
    cases hp : inp.traffic i with
    | none => exact Or.inl rfl
    | some packet =>
      by_cases ho : inp.portLookup (addrOf packet) = some j
      · exact Or.inr ⟨packet, ho, rfl, by simp [ho]⟩
      · exact Or.inl (by simp [ho])
  · exact Or.inl (if_neg hi)

theorem accepted_head (i j : Nat) : (accepted addrOf n inp i j).head?.toList = accepted addrOf n inp i j := by
  rcases accepted_eq i j with hnone | ⟨packet, -, -, hone⟩
  · rw [hnone]
    rfl
  · rw [hone]
    rfl

theorem accepted_tail (i j : Nat) : (accepted addrOf n inp i j).tail = [] := by
  rcases accepted_eq i j with hnone | ⟨packet, -, -, hone⟩
  · rw [hnone]
    rfl
  · rw [hone]
    rfl

theorem accepted_port {j' : Nat} (h : accepted addrOf n inp i j ≠ []) (h' : accepted addrOf n inp i j' ≠ []) :
    j' = j := by
  obtain ⟨packet, ho, hp, -⟩ := (accepted_eq i j).resolve_left h
  obtain ⟨packet', ho', hp', -⟩ := (accepted_eq i j').resolve_left h'
  rw [hp] at hp'
  cases hp'
  rw [ho] at ho'
  exact (Option.some.inj ho').symm

def IsEmpty (n : Nat) (s : Switch Packet) : Prop := ∀ i < n, ∀ j < n, s.voqs i j = []

theorem uncontended_tick (hn : 2 ≤ n) (he : IsEmpty n s) (hh : AllHosts n inp) (hu : Uncontended n addrOf inp)
    (hi : i < n) (hj : j < n) : (switchTick n addrOf s inp).1.voqs i j = [] ∧
      delivered (switchTick n addrOf s inp).2 i j = accepted addrOf n inp i j := by
  have hbuffer : ∀ x < n, ∀ o < n, bufferTraffic addrOf n inp s.voqs x o = accepted addrOf n inp x o := by
    intro x hx o ho
    rw [bufferTraffic_apply, he x hx o ho, List.nil_append]
  rw [switchTick_voqs, switchTick_delivered hi hj, hbuffer i hi j hj]
  by_cases hne : accepted addrOf n inp i j = []
  · rw [hne]
    split <;> split <;> exact ⟨rfl, rfl⟩
  · have hwaits : ∀ x < n, ∀ o < n, (bufferTraffic addrOf n inp s.voqs x o).length > 0 →
        accepted addrOf n inp x o ≠ [] := by
      intro x hx o ho hpos
      rw [hbuffer x hx o ho] at hpos
      exact List.length_pos_iff.mp hpos
    have halone : Alone n (fun x o => (bufferTraffic addrOf n inp s.voqs x o).length) i j := by
      refine ⟨?_, fun o ho hw => ?_, fun x hx hw => ?_⟩
      · rw [hbuffer i hi j hj]
        exact List.length_pos_iff.mpr hne
      · exact accepted_port hne (hwaits i hi o ho hw)
      · exact hu j hj i hi x hx hne (hwaits x hx j hj hw)
    have hm : Matches (tickSchedule n addrOf s inp) i j := halone.matches hn hi hj
    rw [if_pos ⟨⟨hj, hi⟩, hm.2, hh j hj⟩, if_pos ⟨hm.2, hh j hj⟩]
    exact ⟨accepted_tail i j, accepted_head i j⟩

end

/-- If every port has a host and in no tick two inputs receive packets for the
same port, every packet is sent in the tick it arrives in. -/
theorem uncontended_cut_through {Packet Addr Host : Type*} (n : Nat) (hn : 2 ≤ n) (addrOf : Packet → Addr)
    (portMatch : Nat → Nat) (portMatchActive : Nat → Bool) (ticks : List (TickInput Packet Addr Host))
    (hh : ∀ inp ∈ ticks, AllHosts n inp) (hu : ∀ inp ∈ ticks, Uncontended n addrOf inp) :
    Always (switchTick n addrOf) (IsEmpty n) (emptySwitch portMatch portMatchActive) ticks ∧
      ∀ i < n, ∀ j < n,
        (outs (switchTick n addrOf) (emptySwitch portMatch portMatchActive) ticks).map (delivered · i j) =
          ticks.map fun inp => accepted addrOf n inp i j := by
  have hempty : IsEmpty n (emptySwitch portMatch portMatchActive : Switch Packet) := fun _ _ _ _ => rfl
  have hm : Meets (switchTick n addrOf) (fun _ inp => AllHosts n inp ∧ Uncontended n addrOf inp)
      (emptySwitch portMatch portMatchActive) ticks :=
    meets_inputs.mpr fun inp hinp => ⟨hh inp hinp, hu inp hinp⟩
  have hstep : ∀ (s : Switch Packet) (inp : TickInput Packet Addr Host), IsEmpty n s →
      AllHosts n inp ∧ Uncontended n addrOf inp → IsEmpty n (switchTick n addrOf s inp).1 :=
    fun s inp he h i hi j hj => (uncontended_tick hn he h.1 h.2 hi hj).1
  refine ⟨hm.always (IsEmpty n) hstep hempty, fun i hi j hj => ?_⟩
  exact hm.outs_eq_map (IsEmpty n) _ _
    (fun s inp he h => ⟨hstep s inp he h, (uncontended_tick hn he h.1 h.2 hi hj).2⟩) hempty

section

/-- Two ticks in which four inputs send to four different ports, then one with a single packet. -/
def permutedTicks : List (TickInput Nat Nat Unit) :=
  [⟨fun i => some (3 - i), some, fun _ => some ()⟩, ⟨fun i => some ((i + 1) % 4), some, fun _ => some ()⟩,
    ⟨fun i => if i = 2 then some 2 else none, some, fun _ => some ()⟩]

theorem uncontended_cut_through_four :
    (outs (switchTick 4 id) (emptySwitch (fun _ => 0) fun _ => false) permutedTicks).map (delivered · 2 3) =
      [[], [3], []] := by
  have h := (uncontended_cut_through 4 (by decide) id (fun _ => 0) (fun _ => false) permutedTicks (by decide)
    (by decide)).2 2 (by decide) 3 (by decide)
  rw [h]
  decide

end

/-! ## The first output -/

section
variable {Packet Addr Host : Type*} {n : Nat} {addrOf : Packet → Addr} {s : Switch Packet}
variable {inp : TickInput Packet Addr Host} {i : Nat}

/-- What input `i` receives in the tick is filed under port 0 or not at all. -/
def FiledFirst (addrOf : Packet → Addr) (i : Nat) (inp : TickInput Packet Addr Host) : Prop :=
  ∀ packet ∈ inp.traffic i, ∀ o ∈ inp.portLookup (addrOf packet), o = 0

instance (addrOf : Packet → Addr) (i : Nat) (inp : TickInput Packet Addr Host) :
    Decidable (FiledFirst addrOf i inp) :=
  inferInstanceAs (Decidable (∀ packet ∈ inp.traffic i, ∀ o ∈ inp.portLookup (addrOf packet), o = 0))

theorem FiledFirst.accepted_nil (h : FiledFirst addrOf i inp) {o : Nat} (ho : o ≠ 0) :
    accepted addrOf n inp i o = [] := by
  rcases accepted_eq i o with hnone | ⟨packet, hport, hp, -⟩
  · exact hnone
  · exact absurd (h packet hp o hport) ho

/-- Without packets for the other outputs an input is mapped to output 0: as
matched to it, or as the mapping starts. -/
theorem mapped_first (h : ∀ o, o ≠ 0 → bufferTraffic addrOf n inp s.voqs i o = []) :
    (tickSchedule n addrOf s inp).portMapping i = 0 := by
  cases ha : (tickSchedule n addrOf s inp).mappingActive i with
  | false => exact tickSchedule_matching.idle i ha
  | true =>
    have hpos : (bufferTraffic addrOf n inp s.voqs i _).length > 0 := tickSchedule_matching.nonempty i ha
    by_contra hne
    rw [h _ hne] at hpos
    exact Nat.lt_irrefl 0 hpos

theorem first_output_tick (hi : i < n) (hh : (inp.hostLookup 0).isSome = true) (hf : FiledFirst addrOf i inp)
    (he : ∀ o, s.voqs i o = []) : (∀ o, (switchTick n addrOf s inp).1.voqs i o = []) ∧
      delivered (switchTick n addrOf s inp).2 i 0 = accepted addrOf n inp i 0 := by
  have hn : 0 < n := Nat.zero_lt_of_lt hi
  have hbuffer : ∀ o, bufferTraffic addrOf n inp s.voqs i o = accepted addrOf n inp i o := by
    intro o
    rw [bufferTraffic_apply, he o, List.nil_append]
  have hmap : (tickSchedule n addrOf s inp).portMapping i = 0 := by
    refine mapped_first fun o ho => ?_
    rw [hbuffer o, hf.accepted_nil ho]
  constructor
  · intro o
    rw [switchTick_voqs, hbuffer o]
    by_cases ho : o = 0
    · subst ho
      rw [if_pos ⟨⟨hn, hi⟩, hmap, hh⟩, accepted_tail]
    · rw [hf.accepted_nil ho]
      split <;> rfl
  · rw [switchTick_delivered hi hn, if_pos ⟨hmap, hh⟩, hbuffer 0, accepted_head]

end

/-- An input that receives packets for port 0 only never waits for it, however
many inputs send to port 0 at once: the mapping of an unmatched input is 0, and
it is sent from all the same. -/
theorem first_output_cut_through {Packet Addr Host : Type*} (n : Nat) (addrOf : Packet → Addr)
    (portMatch : Nat → Nat) (portMatchActive : Nat → Bool) (ticks : List (TickInput Packet Addr Host)) (i : Nat)
    (hi : i < n) (hh : ∀ inp ∈ ticks, (inp.hostLookup 0).isSome = true)
    (hf : ∀ inp ∈ ticks, FiledFirst addrOf i inp) :
    Always (switchTick n addrOf) (fun s => ∀ o, s.voqs i o = []) (emptySwitch portMatch portMatchActive) ticks ∧
      (outs (switchTick n addrOf) (emptySwitch portMatch portMatchActive) ticks).map (delivered · i 0) =
        ticks.map fun inp => accepted addrOf n inp i 0 := by
  have hm : Meets (switchTick n addrOf) (fun _ inp => (inp.hostLookup 0).isSome = true ∧ FiledFirst addrOf i inp)
      (emptySwitch portMatch portMatchActive) ticks :=
    meets_inputs.mpr fun inp hinp => ⟨hh inp hinp, hf inp hinp⟩
  refine ⟨hm.always _ ?_ fun _ => rfl, hm.outs_eq_map (fun s => ∀ o, s.voqs i o = []) _ _ ?_ fun _ => rfl⟩
  · intro s inp he h
    exact (first_output_tick hi h.1 h.2 he).1
  · intro s inp he h
    exact first_output_tick hi h.1 h.2 he

section

/-- Four inputs that send to port 0 at once, input 3 not in the second tick. -/
def crowdedTicks : List (TickInput Nat Nat Unit) :=
  [openTick some, openTick fun i => if i = 3 then none else some i, openTick some]

theorem first_output_cut_through_four :
    (outs (switchTick 4 fun _ => 0) (emptySwitch (fun _ => 0) fun _ => false) crowdedTicks).map
      (delivered · 3 0) = [[3], [], [3]] := by
  have h := (first_output_cut_through 4 (fun _ => 0) (fun _ => 0) (fun _ => false) crowdedTicks 3 (by decide)
    (by decide) (by decide)).2
  rw [h]
  decide

end

/-! ## Two ports -/

section
variable {Packet Addr Host : Type*} {addrOf : Packet → Addr} {s : Switch Packet}
variable {inp : TickInput Packet Addr Host} {i j : Nat}

theorem switchTick_below {n : Nat} (hn : 0 < n) (hp : s.pointers.Below n) :
    (switchTick n addrOf s inp).1.pointers.Below n := scheduleCall_below hn hp

theorem rankTwo_le (p : Pointers) : rankTwo i j p ≤ 4 := by
  unfold rankTwo
  split <;> split <;> (try split) <;> omega

/-- A tick serves a non-empty queue with one packet, or not at all and lowers its rank. -/
theorem switchTick_two (hi : i < 2) (hj : j < 2) (hp : s.pointers.Below 2) (hh : (inp.hostLookup j).isSome = true)
    (hw : s.voqs i j ≠ []) :
    (delivered (switchTick 2 addrOf s inp).2 i j).length = 1 ∨
      (delivered (switchTick 2 addrOf s inp).2 i j).length = 0 ∧
        rankTwo i j (switchTick 2 addrOf s inp).1.pointers < rankTwo i j s.pointers := by
  have hpos : (bufferTraffic addrOf 2 inp s.voqs i j).length > 0 := by
    rw [bufferTraffic_apply, List.length_append]
    have := List.length_pos_iff.mpr hw
    omega
  rw [switchTick_delivered hi hj]
  by_cases hm : (tickSchedule 2 addrOf s inp).portMapping i = j
  · left
    obtain ⟨packet, rest, hl⟩ := List.exists_cons_of_length_pos hpos
    rw [if_pos ⟨hm, hh⟩, hl]
    rfl
  · right
    have hstarves : Starves 2 i j s.pointers fun x o => (bufferTraffic addrOf 2 inp s.voqs x o).length :=
      ⟨hpos, fun h => hm h.2⟩
    rw [if_neg fun h => hm h.1]
    exact ⟨rfl, rankTwo_lt hi hj hp hstarves⟩

theorem switchTick_waiting (s : Switch Packet) : (s.voqs i j).length ≤
    (delivered (switchTick 2 addrOf s inp).2 i j).length + ((switchTick 2 addrOf s inp).1.voqs i j).length := by
  have h : s.voqs i j ++ accepted addrOf 2 inp i j = _ := switchTick_conserves s i j
  have hlen := congrArg List.length h
  simp only [List.length_append] at hlen
  omega

theorem two_port_progress (hi : i < 2) (hj : j < 2) {ticks : List (TickInput Packet Addr Host)} {k : Nat}
    (hp : s.pointers.Below 2) (hh : ∀ inp ∈ ticks, (inp.hostLookup j).isSome = true)
    (hk : k ≤ (s.voqs i j).length) (hlen : rankTwo i j s.pointers + 5 * k ≤ ticks.length + 4) :
    k ≤ ((outs (switchTick 2 addrOf) s ticks).flatMap (delivered · i j)).length := by
  induction ticks generalizing s k with
  | nil =>
    rw [List.length_nil] at hlen
    omega
  | cons inp ticks ih =>
    obtain ⟨hh0, hh⟩ := List.forall_mem_cons.mp hh
    have hp' : (switchTick 2 addrOf s inp).1.pointers.Below 2 := switchTick_below (by decide) hp
    have hwait : (s.voqs i j).length ≤ (delivered (switchTick 2 addrOf s inp).2 i j).length + _ :=
      switchTick_waiting s
    rw [List.length_cons] at hlen
    rw [outs_cons, List.flatMap_cons, List.length_append]
    rcases Nat.eq_zero_or_pos k with rfl | hpos
    · exact Nat.zero_le _
    · have hw : s.voqs i j ≠ [] := List.length_pos_iff.mp (by omega)
      have htick : (delivered (switchTick 2 addrOf s inp).2 i j).length = 1 ∨ _ := switchTick_two hi hj hp hh0 hw
      rcases htick with hone | ⟨hnone, hlt⟩
      · -- one packet less to wait for, and the rank starts anew
        have hrank : rankTwo i j (switchTick 2 addrOf s inp).1.pointers ≤ 4 := rankTwo_le _
        have hrest := ih (k := k - 1) hp' hh (by omega) (by omega)
        omega
      · have hrest := ih (k := k) hp' hh (by omega) (by omega)
        omega

end

/-- With two ports and a host at port `j`, the first `k` packets that wait for
`j` at an input, after any run, are all sent within the next `5 * k` ticks, in order. -/
theorem two_port_latency {Packet Addr Host : Type*} (addrOf : Packet → Addr) (portMatch : Nat → Nat)
    (portMatchActive : Nat → Bool) (earlier ticks : List (TickInput Packet Addr Host)) (i j : Nat) (hi : i < 2)
    (hj : j < 2) (hh : ∀ inp ∈ ticks, (inp.hostLookup j).isSome = true) (k : Nat) :
    let s := exec (switchTick 2 addrOf) (emptySwitch portMatch portMatchActive) earlier
    k ≤ (s.voqs i j).length → 5 * k ≤ ticks.length →
      (s.voqs i j).take k <+: (outs (switchTick 2 addrOf) s ticks).flatMap (delivered · i j) := by
  intro s hk hlen
  have hp : s.pointers.Below 2 := by
    refine exec_inv (fun s : Switch Packet => s.pointers.Below 2) (fun s _ h => switchTick_below (by decide) h) ?_ _
    exact fun _ => ⟨Nat.zero_lt_two, Nat.zero_lt_two⟩
  have hrank : rankTwo i j s.pointers ≤ 4 := rankTwo_le _
  have hsent : k ≤ ((outs (switchTick 2 addrOf) s ticks).flatMap (delivered · i j)).length :=
    two_port_progress hi hj hp hh hk (by omega)
  -- what waits and what is sent are both the beginning of the same flow
  have hflow : s.voqs i j ++ arrived addrOf 2 ticks i j = _ := run_conserves s ticks i j
  have hwait : (s.voqs i j).take k <+: s.voqs i j ++ arrived addrOf 2 ticks i j :=
    (List.take_prefix k _).trans (List.prefix_append _ _)
  rw [hflow] at hwait
  refine List.prefix_of_prefix_length_le hwait (List.prefix_append _ _) ?_
  rw [List.length_take]
  omega

theorem two_port_latency_burst :
    let s := exec (switchTick 2 id) (emptySwitch (fun _ => 0) fun _ => false)
      [openTick fun _ => some 1, openTick fun _ => some 1]
    (s.voqs 0 1).take 1 <+:
      (outs (switchTick 2 id) s (List.replicate 5 (openTick fun _ => some 1))).flatMap (delivered · 0 1) :=
  two_port_latency id (fun _ => 0) (fun _ => false) _ _ 0 1 (by decide) (by decide) (by decide) 1
    (by decide +kernel) (by decide)

end SwitchSimulation
