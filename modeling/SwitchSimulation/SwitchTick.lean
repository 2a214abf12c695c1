import Mathlib.Data.List.Range
import SwitchSimulation.ScheduleRun
import SwitchSimulation.Switch

/-!
# One tick and the crossbar

The output loops call `send` once for each input mapped to an output with a
host. They read the mapping without the active flags, and an unmatched input
is mapped to output 0: the tick respects the crossbar just when output 0 has
no host or the schedule leaves no input unmatched.
-/

namespace SwitchSimulation

section
variable {Packet Addr Host : Type*} (n : Nat) (voqs : Nat → Nat → List Packet) (portMapping : Nat → Nat)
variable (inp : TickInput Packet Addr Host)

/-! ## What the output loops do -/

def sendsTo (q i : Nat) : List (Sent Packet Host) :=
  match inp.hostLookup i with
  | none => []
  | some host =>
    ((List.range q).filter fun j => portMapping j = i).map fun j => ⟨j, i, host, (voqs j i).head?⟩

/-- The queues and the calls of `send` when the loops are done with the first
`p` outputs, and with the first `q` inputs for output `p`. -/
def outputStage (p q : Nat) : (Nat → Nat → List Packet) × List (Sent Packet Host) :=
  (fun x o =>
      if (o < p ∧ x < n ∨ o = p ∧ x < q) ∧ portMapping x = o ∧ (inp.hostLookup o).isSome then (voqs x o).tail
      else voqs x o,
    (List.range p).flatMap (sendsTo voqs portMapping inp n) ++ sendsTo voqs portMapping inp q p)

variable {n voqs portMapping inp} {p q : Nat}

theorem sendPacket_stage {host : Host} (hh : inp.hostLookup p = some host) :
    sendPacket portMapping host p q (outputStage n voqs portMapping inp p q) =
      outputStage n voqs portMapping inp p (q + 1) := by
  unfold sendPacket
  by_cases hm : portMapping q = p
  · rw [if_pos hm]
    refine Prod.ext (funext fun x => funext fun o => ?_) ?_
    · change setVoq _ _ _ _ x o = _
      rw [setVoq_apply]
      by_cases hxo : x = q ∧ o = p
      · obtain ⟨rfl, rfl⟩ := hxo
        simp [outputStage, hm, hh]
      · have hlt : o = p → (x < q + 1 ↔ x < q) := by omega
        simp only [outputStage, if_neg hxo]
        by_cases ho : o = p
        · simp [ho, hlt ho]
        · simp [ho]
    · simp [outputStage, sendsTo, hh, hm, List.range_succ]
  · rw [if_neg hm]
    refine Prod.ext ?_ ?_
    · funext x o
      by_cases hxq : x = q
      · subst hxq
        by_cases ho : o = p
        · subst ho; simp [outputStage, hm]
        · simp [outputStage, ho]
      · have hlt : x < q + 1 ↔ x < q := by omega
        simp only [outputStage, hlt]
    · simp [outputStage, sendsTo, hh, hm, List.range_succ]

theorem sendTo_stage : sendTo q portMapping inp p (outputStage n voqs portMapping inp p 0) =
    outputStage n voqs portMapping inp p q := by
  unfold sendTo
  cases hh : inp.hostLookup p with
  | none =>
    refine Prod.ext ?_ ?_
    · funext x o
      by_cases ho : o = p
      · subst ho; simp [outputStage, hh]
      · simp [outputStage, ho]
    · simp [outputStage, sendsTo, hh]
  | some host =>
    exact forRange_inv (fun q t => t = outputStage n voqs portMapping inp p q) rfl
      fun q _ t ht => by rw [ht, sendPacket_stage hh]

theorem sendsTo_zero : sendsTo voqs portMapping inp 0 p = [] := by
  unfold sendsTo
  cases inp.hostLookup p <;> rfl

theorem outputStage_next :
    outputStage n voqs portMapping inp p n = outputStage n voqs portMapping inp (p + 1) 0 := by
  refine Prod.ext ?_ ?_
  · funext x o
    have hiff : (o < p ∧ x < n ∨ o = p ∧ x < n) ↔ (o < p + 1 ∧ x < n ∨ o = p + 1 ∧ x < 0) := by omega
    simp only [outputStage, hiff]
  · simp [outputStage, List.range_succ, sendsTo_zero]

theorem outputPackets_eq :
    outputPackets n p portMapping inp voqs = outputStage n voqs portMapping inp p 0 := by
  apply forRange_inv fun p t => t = outputStage n voqs portMapping inp p 0
  · refine Prod.ext ?_ ?_
    · funext x o; simp [outputStage]
    · simp [outputStage, sendsTo_zero]
  · intro p _ t ht
    rw [ht, sendTo_stage, outputStage_next]

/-! ## The calls of send -/

theorem mem_sendsTo {m : Sent Packet Host} : m ∈ sendsTo voqs portMapping inp q p ↔
    m.output = p ∧ m.input < q ∧ portMapping m.input = p ∧ inp.hostLookup p = some m.host ∧
      m.packet = (voqs m.input p).head? := by
  unfold sendsTo
  cases hh : inp.hostLookup p with
  | none => simp
  | some host =>
    simp only [List.mem_map, List.mem_filter, List.mem_range, decide_eq_true_eq, Option.some.injEq]
    constructor
    · rintro ⟨j, ⟨hj, hm⟩, rfl⟩; exact ⟨rfl, hj, hm, rfl, rfl⟩
    · obtain ⟨x, o, h, packet⟩ := m
      dsimp only
      rintro ⟨rfl, hx, hm, rfl, rfl⟩
      exact ⟨x, ⟨hx, hm⟩, rfl⟩

theorem mem_sends {m : Sent Packet Host} : m ∈ (outputStage n voqs portMapping inp n 0).2 ↔
    m.output < n ∧ m.input < n ∧ portMapping m.input = m.output ∧ inp.hostLookup m.output = some m.host ∧
      m.packet = (voqs m.input m.output).head? := by
  simp only [outputStage, List.mem_append, List.mem_flatMap, List.mem_range, mem_sendsTo, Nat.not_lt_zero,
    false_and, and_false, or_false]
  constructor
  · rintro ⟨o, ho, rfl, h⟩; exact ⟨ho, h⟩
  · intro ⟨ho, h⟩; exact ⟨m.output, ho, rfl, h⟩

theorem sends_pairwise : (outputStage n voqs portMapping inp n 0).2.Pairwise fun m m' =>
    ¬ (m.input = m'.input ∧ m.output = m'.output) := by
  simp only [outputStage, sendsTo_zero, List.append_nil]
  refine List.pairwise_flatMap.mpr ⟨fun o _ => ?_, ?_⟩
  · unfold sendsTo
    cases inp.hostLookup o with
    | none => exact .nil
    | some host =>
      refine List.pairwise_map.mpr ((List.nodup_range.filter _).imp ?_)
      intro x y hne h
      exact hne h.1
  · refine List.pairwise_lt_range.imp ?_
    intro o o' hlt m hm m' hm' h
    rw [mem_sendsTo] at hm hm'
    omega

end

/-! ## The crossbar -/

/-- The calls of `send` in a tick, against the queues after buffering and the
schedule computed from them. -/
structure RespectsCrossbar {Packet Addr Host : Type*} (n : Nat) (voqs : Nat → Nat → List Packet)
    (sched : Schedule) (inp : TickInput Packet Addr Host) (sends : List (Sent Packet Host)) : Prop where
  output_once : sends.Pairwise fun m m' => m.output ≠ m'.output
  input_once : sends.Pairwise fun m m' => m.input ≠ m'.input
  heads : ∀ m ∈ sends, ∃ packet, m.packet = some packet ∧ (voqs m.input m.output).head? = some packet
  pairs : ∀ x < n, ∀ o < n, (∃ m ∈ sends, m.input = x ∧ m.output = o ∧ m.packet ≠ none) ↔
    Matches sched x o ∧ ∃ host, inp.hostLookup o = some host

section
variable {Packet Addr Host : Type*} {n : Nat} {addrOf : Packet → Addr} {s : Switch Packet}
variable {inp : TickInput Packet Addr Host}

theorem tickSchedule_matching :
    IsMatching n (fun i j => (bufferTraffic addrOf n inp s.voqs i j).length) (tickSchedule n addrOf s inp) :=
  schedule_matching

theorem mem_tick_sends {m : Sent Packet Host} : m ∈ (switchTick n addrOf s inp).2 ↔
    m.output < n ∧ m.input < n ∧ (tickSchedule n addrOf s inp).portMapping m.input = m.output ∧
      inp.hostLookup m.output = some m.host ∧
      m.packet = (bufferTraffic addrOf n inp s.voqs m.input m.output).head? := by
  rw [← mem_sends, ← outputPackets_eq]; rfl

theorem tick_sends_pairwise : (switchTick n addrOf s inp).2.Pairwise fun m m' =>
    ¬ (m.input = m'.input ∧ m.output = m'.output) := by
  have h : (outputStage n (bufferTraffic addrOf n inp s.voqs)
    (tickSchedule n addrOf s inp).portMapping inp n 0).2.Pairwise _ := sends_pairwise
  rw [← outputPackets_eq] at h
  exact h

/-- Either no input that the schedule leaves unmatched is in range of the loop
for output 0, or output 0 has no host. -/
def NoStraySends (n : Nat) (addrOf : Packet → Addr) (s : Switch Packet) (inp : TickInput Packet Addr Host) : Prop :=
  inp.hostLookup 0 = none ∨ ∀ x < n, (tickSchedule n addrOf s inp).mappingActive x = true

theorem matches_of_send (h : NoStraySends n addrOf s inp) {m : Sent Packet Host}
    (hm : m ∈ (switchTick n addrOf s inp).2) : Matches (tickSchedule n addrOf s inp) m.input m.output := by
  obtain ⟨_, hin, hmap, hhost, _⟩ := mem_tick_sends.mp hm
  refine ⟨?_, hmap⟩
  cases h with
  | inr h => exact h _ hin
  | inl h =>
    cases ha : (tickSchedule n addrOf s inp).mappingActive m.input with
    | true => rfl
    | false =>
      -- an unmatched input is mapped to output 0
      rw [tickSchedule_matching.idle _ ha] at hmap
      rw [← hmap, h] at hhost
      cases hhost

theorem head_of_matches {x o : Nat} (h : Matches (tickSchedule n addrOf s inp) x o) :
    ∃ packet, (bufferTraffic addrOf n inp s.voqs x o).head? = some packet := by
  have hpos := tickSchedule_matching.nonempty x h.1
  rw [h.2] at hpos
  obtain ⟨packet, rest, hl⟩ := List.exists_cons_of_length_pos hpos
  exact ⟨packet, by rw [hl]; rfl⟩

theorem respects_of_noStraySends (h : NoStraySends n addrOf s inp) :
    RespectsCrossbar n (bufferTraffic addrOf n inp s.voqs) (tickSchedule n addrOf s inp) inp
      (switchTick n addrOf s inp).2 where
  output_once := by
    refine tick_sends_pairwise.imp_of_mem fun hm hm' hne ho => hne ⟨?_, ho⟩
    have hx := matches_of_send h hm
    rw [ho] at hx
    exact tickSchedule_matching.unique hx (matches_of_send h hm')
  input_once := by
    refine tick_sends_pairwise.imp_of_mem fun hm hm' hne hx => hne ⟨hx, ?_⟩
    rw [← (matches_of_send h hm).2, ← (matches_of_send h hm').2, hx]
  heads := by
    intro m hm
    obtain ⟨packet, hp⟩ := head_of_matches (matches_of_send h hm)
    obtain ⟨-, -, -, -, hq⟩ := mem_tick_sends.mp hm
    exact ⟨packet, hq.trans hp, hp⟩
  pairs := by
    intro x hx o ho
    constructor
    · rintro ⟨m, hm, rfl, rfl, -⟩
      exact ⟨matches_of_send h hm, m.host, (mem_tick_sends.mp hm).2.2.2.1⟩
    · intro ⟨hmatch, host, hhost⟩
      obtain ⟨packet, hp⟩ := head_of_matches hmatch
      refine ⟨⟨x, o, host, some packet⟩, mem_tick_sends.mpr ⟨ho, hx, hmatch.2, hhost, hp.symm⟩, rfl, rfl, ?_⟩
      exact Option.some_ne_none packet

end

def strayTick : TickInput Nat Nat Nat := ⟨fun i => if i = 0 then some 1 else none, some, some⟩

end SwitchSimulation
