import Mathlib.Algebra.Order.BigOperators.Group.Finset
import SwitchSimulation.Leak
import SwitchSimulation.ScheduleProgress
import SwitchSimulation.SwitchFlow

/-!
# The backlog of the switch

A tick takes in what arrives, and sends at least one packet if there is one to
send and every port has a host. So the backlog stays within what the traffic
brings in excess of one packet for each tick, and a switch without traffic
empties.
-/

namespace SwitchSimulation

section
variable {Packet Addr Host : Type*}

def backlog (n : Nat) (voqs : Nat → Nat → List Packet) : Nat :=
  ∑ x ∈ Finset.range n, ∑ o ∈ Finset.range n, (voqs x o).length

/-- The packets of a tick that are filed under a port below `n`. -/
def arrivals (n : Nat) (addrOf : Packet → Addr) (inp : TickInput Packet Addr Host) : Nat :=
  ∑ x ∈ Finset.range n, ∑ o ∈ Finset.range n, (accepted addrOf n inp x o).length

def AllHosts (n : Nat) (inp : TickInput Packet Addr Host) : Prop := ∀ o < n, (inp.hostLookup o).isSome = true

instance (n : Nat) (inp : TickInput Packet Addr Host) : Decidable (AllHosts n inp) :=
  inferInstanceAs (Decidable (∀ o < n, (inp.hostLookup o).isSome = true))

/-- No lookup of the tick gives a port that the switch does not have. -/
def KnownPorts (n : Nat) (inp : TickInput Packet Addr Host) : Prop := ∀ addr, ∀ o ∈ inp.portLookup addr, o < n

variable {n : Nat} {addrOf : Packet → Addr} {s : Switch Packet} {inp : TickInput Packet Addr Host}
variable {voqs voqs' : Nat → Nat → List Packet}

theorem backlog_pos_iff :
    0 < backlog n voqs ↔ ∃ x < n, ∃ o < n, (voqs x o).length > 0 := by
  unfold backlog
  simp only [Finset.sum_pos_iff, Finset.mem_range]

theorem backlog_le (h : ∀ x < n, ∀ o < n, (voqs x o).length ≤ (voqs' x o).length) :
    backlog n voqs ≤ backlog n voqs' :=
  Finset.sum_le_sum fun x hx => Finset.sum_le_sum fun o ho => h x (Finset.mem_range.mp hx) o (Finset.mem_range.mp ho)

theorem backlog_lt (h : ∀ x < n, ∀ o < n, (voqs x o).length ≤ (voqs' x o).length)
    (hlt : ∃ x < n, ∃ o < n, (voqs x o).length < (voqs' x o).length) : backlog n voqs < backlog n voqs' := by
  obtain ⟨x, hx, o, ho, hxo⟩ := hlt
  refine Finset.sum_lt_sum ?_ ⟨x, Finset.mem_range.mpr hx, ?_⟩
  · intro y hy
    exact Finset.sum_le_sum fun o' ho' => h y (Finset.mem_range.mp hy) o' (Finset.mem_range.mp ho')
  · refine Finset.sum_lt_sum ?_ ⟨o, Finset.mem_range.mpr ho, hxo⟩
    intro o' ho'
    exact h x hx o' (Finset.mem_range.mp ho')

/-! ## One tick -/

theorem backlog_buffer :
    backlog n (bufferTraffic addrOf n inp voqs) = backlog n voqs + arrivals n addrOf inp := by
  unfold backlog arrivals
  simp only [bufferTraffic_apply, List.length_append, Finset.sum_add_distrib]

theorem switchTick_voqs (x o : Nat) : (switchTick n addrOf s inp).1.voqs x o =
    if (o < n ∧ x < n) ∧ (tickSchedule n addrOf s inp).portMapping x = o ∧ (inp.hostLookup o).isSome then
      (bufferTraffic addrOf n inp s.voqs x o).tail
    else bufferTraffic addrOf n inp s.voqs x o := by
  have h : (switchTick n addrOf s inp).1.voqs = _ := congrArg Prod.fst outputPackets_eq
  rw [h]
  simp only [outputStage, Nat.not_lt_zero, and_false, or_false]

theorem switchTick_length_le (x o : Nat) :
    ((switchTick n addrOf s inp).1.voqs x o).length ≤ (bufferTraffic addrOf n inp s.voqs x o).length := by
  rw [switchTick_voqs]
  split
  · rw [List.length_tail]
    exact Nat.sub_le _ _
  · exact Nat.le_refl _

/-- The queue of a matched pair whose output has a host gives a packet. -/
theorem switchTick_served {x o : Nat} (hx : x < n) (hm : Matches (tickSchedule n addrOf s inp) x o)
    (hh : (inp.hostLookup o).isSome = true) :
    ((switchTick n addrOf s inp).1.voqs x o).length + 1 = (bufferTraffic addrOf n inp s.voqs x o).length := by
  have hpos := tickSchedule_matching.nonempty x hm.1
  have hlt := tickSchedule_matching.lt x hm.1
  rw [hm.2] at hpos hlt
  rw [switchTick_voqs, if_pos ⟨⟨hlt, hx⟩, hm.2, hh⟩, List.length_tail]
  exact Nat.sub_add_cancel hpos

theorem switchTick_backlog (hn : 2 ≤ n) (hh : AllHosts n inp) :
    backlog n (switchTick n addrOf s inp).1.voqs + 1 ≤ backlog n s.voqs + arrivals n addrOf inp ∨
      backlog n (switchTick n addrOf s inp).1.voqs = 0 := by
  rw [← backlog_buffer]
  by_cases hb : 0 < backlog n (bufferTraffic addrOf n inp s.voqs)
  · left
    obtain ⟨x, hx, o, ho, hm⟩ : ∃ x < n, ∃ o < n, Matches (tickSchedule n addrOf s inp) x o :=
      Backlogged.serves (backlog_pos_iff.mp hb) hn
    refine backlog_lt (fun x _ o _ => switchTick_length_le x o) ⟨x, hx, o, ho, ?_⟩
    have := switchTick_served hx hm (hh o ho)
    omega
  · right
    have hle : backlog n (switchTick n addrOf s inp).1.voqs ≤ backlog n (bufferTraffic addrOf n inp s.voqs) :=
      backlog_le fun x _ o _ => switchTick_length_le x o
    omega

theorem accepted_of_no_arrivals (h : arrivals n addrOf inp = 0) {i j : Nat} (hi : i < n) (hj : j < n) :
    accepted addrOf n inp i j = [] := by
  simp only [arrivals, Finset.sum_eq_zero_iff, Finset.mem_range, List.length_eq_zero_iff] at h
  exact h i hi j hj

end

/-! ## Runs -/

section
variable {Packet Addr Host : Type*} {n : Nat} {addrOf : Packet → Addr} {ticks : List (TickInput Packet Addr Host)}

theorem backlog_always (hn : 2 ≤ n) {bound : Nat} {s : Switch Packet} (hh : ∀ inp ∈ ticks, AllHosts n inp)
    (hc : Conforms bound (ticks.map (arrivals n addrOf))) (he : backlog n s.voqs = 0) :
    Always (switchTick n addrOf) (fun s => backlog n s.voqs ≤ bound) s ticks := by
  have hm : Meets (switchTick n addrOf) (fun _ inp => AllHosts n inp) s ticks := meets_inputs.mpr hh
  exact hm.stock_le (fun _ => True) (fun s : Switch Packet => backlog n s.voqs) (arrivals n addrOf)
    (fun _ _ _ h => ⟨trivial, switchTick_backlog hn h⟩) trivial hc he

theorem backlog_dry (hn : 2 ≤ n) (s : Switch Packet) (hh : ∀ inp ∈ ticks, AllHosts n inp)
    (hz : ∀ inp ∈ ticks, arrivals n addrOf inp = 0) :
    backlog n (exec (switchTick n addrOf) s ticks).voqs ≤ backlog n s.voqs - ticks.length := by
  have hm : Meets (switchTick n addrOf) (fun _ inp => AllHosts n inp) s ticks := meets_inputs.mpr hh
  exact hm.stock_dry (fun _ => True) (fun s : Switch Packet => backlog n s.voqs) (arrivals n addrOf)
    (fun _ _ _ h => ⟨trivial, switchTick_backlog hn h⟩) trivial hz

end

/-- If every port has a host and no stretch of ticks brings more packets than it
has ticks and `bound` more, the created switch never holds more than `bound` packets. -/
theorem backlog_bounded {Packet Addr Host : Type*} (n : Nat) (hn : 2 ≤ n) (addrOf : Packet → Addr)
    (portMatch : Nat → Nat) (portMatchActive : Nat → Bool) (bound : Nat)
    (ticks : List (TickInput Packet Addr Host)) (hh : ∀ inp ∈ ticks, AllHosts n inp)
    (hc : Conforms bound (ticks.map (arrivals n addrOf))) :
    Always (switchTick n addrOf) (fun s => backlog n s.voqs ≤ bound) (emptySwitch portMatch portMatchActive)
      ticks :=
  backlog_always hn hh hc (by simp [emptySwitch, backlog])

section

def openTick (traffic : Nat → Option Nat) : TickInput Nat Nat Unit :=
  ⟨traffic, fun addr => if addr < 2 then some addr else none, fun _ => some ()⟩

theorem openTick_known (traffic : Nat → Option Nat) : KnownPorts 2 (openTick traffic) := by
  intro addr o ho
  by_cases h : addr < 2
  · rw [show (openTick traffic).portLookup addr = some addr from if_pos h] at ho
    cases ho
    exact h
  · rw [show (openTick traffic).portLookup addr = none from if_neg h] at ho
    cases ho

/-- Two packets in the first tick and none in the next two. -/
def burst : List (TickInput Nat Nat Unit) :=
  [openTick fun _ => some 1, openTick fun _ => none, openTick fun _ => none]

theorem backlog_bounded_burst :
    Always (switchTick 2 id) (fun s => backlog 2 s.voqs ≤ 1) (emptySwitch (fun _ => 0) fun _ => false) burst :=
  backlog_bounded 2 (by decide) id _ _ 1 burst (by decide) (by decide)

end

/-- A switch without traffic and with a host at every port sends all that it
holds, each queue in order, in as many ticks as it holds packets. -/
theorem switch_drains {Packet Addr Host : Type*} (n : Nat) (hn : 2 ≤ n) (hw : n ≤ 2 ^ 31) (addrOf : Packet → Addr)
    (s : Switch Packet) (hp : ∀ x < n, s.pointers.grant x < n ∧ s.pointers.accept x < n)
    (ticks : List (TickInput Packet Addr Host)) (hh : ∀ inp ∈ ticks, AllHosts n inp)
    (hz : ∀ inp ∈ ticks, arrivals n addrOf inp = 0) (hlen : backlog n s.voqs ≤ ticks.length) :
    ∀ i < n, ∀ j < n, (exec (switchTick32 n addrOf) s ticks).voqs i j = [] ∧
      (outs (switchTick32 n addrOf) s ticks).flatMap (delivered · i j) = s.voqs i j := by
  intro i hi j hj
  obtain ⟨hexec, houts, -⟩ := switchTick32_run addrOf hw (noWrap_of_lt hw hp) ticks
  rw [hexec, houts]
  have hempty : (exec (switchTick n addrOf) s ticks).voqs i j = [] := by
    by_contra hne
    have hpos := backlog_pos_iff.mpr ⟨i, hi, j, hj, List.length_pos_iff.mpr hne⟩
    have hdry := backlog_dry hn s hh hz
    omega
  have hnone : arrived addrOf n ticks i j = [] := by
    refine List.flatMap_eq_nil_iff.mpr fun inp hinp => ?_
    exact accepted_of_no_arrivals (hz inp hinp) hi hj
  have hflow : s.voqs i j ++ arrived addrOf n ticks i j = _ := run_conserves s ticks i j
  rw [hnone, List.append_nil, hempty, List.append_nil] at hflow
  exact ⟨hempty, hflow.symm⟩

/-- Each of the two inputs holds two packets for the output of its own number. -/
def twoEach : Switch Nat :=
  ⟨fun i j => if i = j then [5, 6] else [], ⟨fun _ => 1, fun _ => 0⟩, fun _ => 0, fun _ => false⟩

theorem switch_drains_two :
    (exec (switchTick32 2 id) twoEach (List.replicate 4 (openTick fun _ => none))).voqs 1 1 = [] ∧
      (outs (switchTick32 2 id) twoEach (List.replicate 4 (openTick fun _ => none))).flatMap (delivered · 1 1) =
        [5, 6] :=
  switch_drains 2 (by decide) (by decide) id twoEach (by decide) _ (by decide) (by decide) (by decide) 1 (by decide) 1 (by decide)

end SwitchSimulation
