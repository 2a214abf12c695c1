import SwitchSimulation.SwitchTick

/-!
# Packet conservation

For each pair of ports, what arrived on the input for the output is what was
sent to the output's host from their queue, followed by what the queue holds.
Every assignment of a tick that touches a queue or calls `send` keeps this.
-/

namespace SwitchSimulation

section
variable {Packet Addr Host : Type*} (addrOf : Packet → Addr)

/-- What the first `k` inputs receive for port `j` in a tick, on input `i`. -/
def accepted (k : Nat) (inp : TickInput Packet Addr Host) (i j : Nat) : List Packet :=
  if i < k then (inp.traffic i).toList.filter fun packet => inp.portLookup (addrOf packet) = some j else []

def arrived (n : Nat) (ticks : List (TickInput Packet Addr Host)) (i j : Nat) : List Packet :=
  ticks.flatMap fun inp => accepted addrOf n inp i j

def delivered (sends : List (Sent Packet Host)) (i j : Nat) : List Packet :=
  sends.filterMap fun m => if m.input = i ∧ m.output = j then m.packet else none

/-! ## Moments of a tick -/

/-- A tick has buffered the traffic of its first `k` inputs; or it has
scheduled, and is done with its first `p` outputs and, for output `p`, with
its first `q` inputs. -/
inductive Moment
  | buffering (k : Nat)
  | sending (p q : Nat)

def Moment.buffered (n : Nat) : Moment → Nat
  | .buffering k => k
  | .sending _ _ => n

def tickAt (n : Nat) (s : Switch Packet) (inp : TickInput Packet Addr Host) :
    Moment → (Nat → Nat → List Packet) × List (Sent Packet Host)
  | .buffering k => (bufferTraffic addrOf k inp s.voqs, [])
  | .sending p q =>
    sendTo q (tickSchedule n addrOf s inp).portMapping inp p
      (outputPackets n p (tickSchedule n addrOf s inp).portMapping inp (bufferTraffic addrOf n inp s.voqs))

/-! ## One step -/

variable {addrOf} {n : Nat} {inp : TickInput Packet Addr Host} {voqs : Nat → Nat → List Packet}
variable {portMapping : Nat → Nat}

theorem delivered_append (sends sends' : List (Sent Packet Host)) (i j : Nat) :
    delivered (sends ++ sends') i j = delivered sends i j ++ delivered sends' i j := List.filterMap_append

theorem head_append_tail {α : Type*} (l : List α) : l.head?.toList ++ l.tail = l := by
  cases l <;> rfl

theorem bufferPacket_same (i j : Nat) :
    bufferPacket addrOf inp i voqs i j = voqs i j ++ accepted addrOf (i + 1) inp i j := by
  cases hp : inp.traffic i with
  | none => simp [bufferPacket, accepted, hp]
  | some packet =>
    cases ho : inp.portLookup (addrOf packet) with
    | none => simp [bufferPacket, accepted, hp, ho]
    | some o =>
      by_cases hoj : j = o
      · subst hoj; simp [bufferPacket, accepted, hp, ho, setVoq_apply]
      · simp [bufferPacket, accepted, hp, ho, setVoq_apply, hoj, Ne.symm hoj]

theorem bufferPacket_other {i k : Nat} (hik : i ≠ k) (j : Nat) :
    bufferPacket addrOf inp k voqs i j = voqs i j := by
  cases hp : inp.traffic k with
  | none => simp [bufferPacket, hp]
  | some packet =>
    cases ho : inp.portLookup (addrOf packet) <;> simp [bufferPacket, hp, ho, setVoq_apply, hik]

theorem bufferTraffic_apply (k i j : Nat) :
    bufferTraffic addrOf k inp voqs i j = voqs i j ++ accepted addrOf k inp i j := by
  apply forRange_inv fun k (t : Nat → Nat → List Packet) => t i j = voqs i j ++ accepted addrOf k inp i j
  · simp [accepted]
  intro k _ t ht
  by_cases hik : i = k
  · subst hik
    have hnone : accepted addrOf i inp i j = [] := if_neg (Nat.lt_irrefl i)
    rw [bufferPacket_same, ht, hnone, List.append_nil]
  · have hlt : i < k + 1 ↔ i < k := by omega
    rw [bufferPacket_other hik, ht]
    simp only [accepted, hlt]

theorem sendPacket_conserves (host : Host) (i j : Nat)
    (t : (Nat → Nat → List Packet) × List (Sent Packet Host)) (x o : Nat) :
    delivered (sendPacket portMapping host i j t).2 x o ++ (sendPacket portMapping host i j t).1 x o =
      delivered t.2 x o ++ t.1 x o := by
  unfold sendPacket
  by_cases hm : portMapping j = i
  · rw [if_pos hm]
    dsimp only
    by_cases hxo : x = j ∧ o = i
    · obtain ⟨rfl, rfl⟩ := hxo
      have hone : delivered [(⟨x, o, host, (t.1 x o).head?⟩ : Sent Packet Host)] x o = (t.1 x o).head?.toList := by
        cases (t.1 x o).head? <;> simp [delivered]
      rw [delivered_append, hone, setVoq_apply, if_pos ⟨rfl, rfl⟩, List.append_assoc, head_append_tail]
    · have hnone : delivered [(⟨j, i, host, (t.1 j i).head?⟩ : Sent Packet Host)] x o = [] := by
        have : ¬ (j = x ∧ i = o) := fun h => hxo ⟨h.1.symm, h.2.symm⟩
        simp [delivered, this]
      rw [delivered_append, hnone, setVoq_apply, if_neg hxo, List.append_nil]
  · rw [if_neg hm]

theorem sendTo_conserves (q i : Nat) (t : (Nat → Nat → List Packet) × List (Sent Packet Host)) (x o : Nat) :
    delivered (sendTo q portMapping inp i t).2 x o ++ (sendTo q portMapping inp i t).1 x o =
      delivered t.2 x o ++ t.1 x o := by
  unfold sendTo
  cases inp.hostLookup i with
  | none => rfl
  | some host =>
    let flow (t : (Nat → Nat → List Packet) × List (Sent Packet Host)) := delivered t.2 x o ++ t.1 x o
    refine forRange_keeps (fun t' => flow t' = flow t) rfl ?_
    intro j _ t' ht
    exact (sendPacket_conserves host i j t' x o).trans ht

theorem outputPackets_conserves (p x o : Nat) :
    delivered (outputPackets n p portMapping inp voqs).2 x o ++ (outputPackets n p portMapping inp voqs).1 x o =
      voqs x o := by
  let flow (t : (Nat → Nat → List Packet) × List (Sent Packet Host)) := delivered t.2 x o ++ t.1 x o
  refine forRange_keeps (fun t => flow t = voqs x o) rfl ?_
  intro i _ t ht
  exact (sendTo_conserves n i t x o).trans ht

theorem tickAt_conserves (s : Switch Packet) (m : Moment) (i j : Nat) :
    s.voqs i j ++ accepted addrOf (m.buffered n) inp i j =
      delivered (tickAt addrOf n s inp m).2 i j ++ (tickAt addrOf n s inp m).1 i j := by
  cases m with
  | buffering k => exact (bufferTraffic_apply k i j).symm
  | sending p q =>
    simp only [tickAt]
    rw [sendTo_conserves, outputPackets_conserves, bufferTraffic_apply]
    rfl

theorem switchTick_conserves (s : Switch Packet) (i j : Nat) :
    s.voqs i j ++ accepted addrOf n inp i j =
      delivered (switchTick n addrOf s inp).2 i j ++ (switchTick n addrOf s inp).1.voqs i j := by
  rw [← bufferTraffic_apply]
  exact (outputPackets_conserves n i j).symm

theorem tickAt_host {s : Switch Packet} {m : Moment} {call : Sent Packet Host}
    (h : call ∈ (tickAt addrOf n s inp m).2) : inp.hostLookup call.output = some call.host := by
  cases m with
  | buffering k => cases h
  | sending p q =>
    simp only [tickAt] at h
    rw [outputPackets_eq, sendTo_stage] at h
    simp only [outputStage, List.mem_append, List.mem_flatMap, mem_sendsTo] at h
    rcases h with ⟨o, -, rfl, -, -, h, -⟩ | ⟨rfl, -, -, h, -⟩
    · exact h
    · exact h

/-! ## Runs -/

theorem run_conserves (s : Switch Packet) (ticks : List (TickInput Packet Addr Host)) (i j : Nat) :
    s.voqs i j ++ arrived addrOf n ticks i j =
      (outs (switchTick n addrOf) s ticks).flatMap (delivered · i j) ++
        (exec (switchTick n addrOf) s ticks).voqs i j := by
  induction ticks generalizing s with
  | nil => simp [arrived]
  | cons inp ticks ih =>
    have h := ih (switchTick n addrOf s inp).1
    simp only [arrived, List.flatMap_cons, outs_cons, exec_cons] at h ⊢
    rw [← List.append_assoc, switchTick_conserves, List.append_assoc, h, List.append_assoc]

end

/-- After any run of ticks from the created switch, and at every moment of one
more tick, each flow is conserved in order; and what is sent goes to the host
looked up at the flow's port. -/
theorem packets_conserved {Packet Addr Host : Type*} (n : Nat) (addrOf : Packet → Addr)
    (portMatch : Nat → Nat) (portMatchActive : Nat → Bool) (ticks : List (TickInput Packet Addr Host))
    (inp : TickInput Packet Addr Host) (m : Moment) :
    let s := exec (switchTick n addrOf) (emptySwitch portMatch portMatchActive) ticks
    let sent i j :=
      (outs (switchTick n addrOf) (emptySwitch portMatch portMatchActive) ticks).flatMap (delivered · i j)
    (∀ i j, arrived addrOf n ticks i j = sent i j ++ s.voqs i j) ∧
      (∀ i j, arrived addrOf n ticks i j ++ accepted addrOf (m.buffered n) inp i j =
        sent i j ++ delivered (tickAt addrOf n s inp m).2 i j ++ (tickAt addrOf n s inp m).1 i j) ∧
      (∀ call ∈ (tickAt addrOf n s inp m).2, inp.hostLookup call.output = some call.host) := by
  intro s sent
  have hrun : ∀ i j, arrived addrOf n ticks i j = sent i j ++ s.voqs i j := fun i j =>
    run_conserves (emptySwitch portMatch portMatchActive) ticks i j
  refine ⟨hrun, fun i j => ?_, fun call h => tickAt_host h⟩
  rw [hrun, List.append_assoc, tickAt_conserves, List.append_assoc]

end SwitchSimulation
