import SwitchSimulation.ScheduleSymmetry
import SwitchSimulation.SwitchService

/-!
# Groups of ports that do not notice the others

As long as the inputs of `X` and the outputs of `Y` exchange packets with each
other only, what passes between them does not depend on the traffic of the
other ports, nor on the hosts there.
-/

namespace SwitchSimulation

section
variable {Packet Addr Host : Type*}

/-- Two ticks in which `X` and `Y` exchange the same packets, and none with other ports. -/
structure SameTraffic (n : Nat) (addrOf : Packet → Addr) (X Y : Nat → Prop)
    (inp inp' : TickInput Packet Addr Host) : Prop where
  traffic : ∀ x < n, X x → ∀ o < n, Y o → accepted addrOf n inp' x o = accepted addrOf n inp x o
  closed : ∀ x < n, ∀ o < n, accepted addrOf n inp x o ≠ [] → (X x ↔ Y o)
  closed' : ∀ x < n, ∀ o < n, accepted addrOf n inp' x o ≠ [] → (X x ↔ Y o)
  hosts : ∀ o < n, Y o → (inp'.hostLookup o).isSome = (inp.hostLookup o).isSome

structure SameGroup (n : Nat) (X Y : Nat → Prop) (s s' : Switch Packet) : Prop where
  voqs : ∀ x < n, X x → ∀ o < n, Y o → s'.voqs x o = s.voqs x o
  closed : ∀ x < n, ∀ o < n, s.voqs x o ≠ [] → (X x ↔ Y o)
  closed' : ∀ x < n, ∀ o < n, s'.voqs x o ≠ [] → (X x ↔ Y o)
  pointers : PointersCarried n 0 0 X Y s.pointers s'.pointers

variable {n : Nat} {addrOf : Packet → Addr} {X Y : Nat → Prop} {inp inp' : TickInput Packet Addr Host}
variable {s s' : Switch Packet} {x o : Nat}

/-! ## One tick -/

theorem buffer_closed (hs : ∀ x < n, ∀ o < n, s.voqs x o ≠ [] → (X x ↔ Y o))
    (ht : ∀ x < n, ∀ o < n, accepted addrOf n inp x o ≠ [] → (X x ↔ Y o)) (hx : x < n) (ho : o < n)
    (hne : bufferTraffic addrOf n inp s.voqs x o ≠ []) : X x ↔ Y o := by
  rw [bufferTraffic_apply] at hne
  by_cases hq : s.voqs x o = []
  · rw [hq, List.nil_append] at hne
    exact ht x hx o ho hne
  · exact hs x hx o ho hq

theorem switchTick_closed (hs : ∀ x < n, ∀ o < n, s.voqs x o ≠ [] → (X x ↔ Y o))
    (ht : ∀ x < n, ∀ o < n, accepted addrOf n inp x o ≠ [] → (X x ↔ Y o)) (hx : x < n) (ho : o < n)
    (hne : (switchTick n addrOf s inp).1.voqs x o ≠ []) : X x ↔ Y o := by
  refine buffer_closed hs ht hx ho fun hb => hne ?_
  rw [switchTick_voqs, hb]
  split <;> rfl

section
variable (hg : SameGroup n X Y s s') (ht : SameTraffic n addrOf X Y inp inp')
include hg ht

theorem buffer_same (hx : x < n) (hX : X x) (ho : o < n) (hY : Y o) :
    bufferTraffic addrOf n inp' s'.voqs x o = bufferTraffic addrOf n inp s.voqs x o := by
  rw [bufferTraffic_apply, bufferTraffic_apply, hg.voqs x hx hX o ho hY, ht.traffic x hx hX o ho hY]

theorem buffer_mirrors : Mirrors n 0 0 X Y (fun i j => (bufferTraffic addrOf n inp s.voqs i j).length)
    fun i j => (bufferTraffic addrOf n inp' s'.voqs i j).length := by
  refine ⟨fun x hx o ho hX hY => ?_, fun x hx o ho hw => ?_, fun x hx o ho hw => ?_⟩
  · rw [turn_zero hx, turn_zero ho, buffer_same hg ht hx hX ho hY]
  · exact buffer_closed hg.closed ht.closed hx ho (List.length_pos_iff.mp hw)
  · rw [turn_zero hx, turn_zero ho] at hw
    exact buffer_closed hg.closed' ht.closed' hx ho (List.length_pos_iff.mp hw)

theorem tickSchedule_carried :
    Carried n 0 0 X Y (tickSchedule n addrOf s inp) (tickSchedule n addrOf s' inp') :=
  schedule_carried hg.pointers (buffer_mirrors hg ht)

/-- Unmatched inputs included: these are mapped to output 0 in both. -/
theorem portMapping_same (hx : x < n) (hX : X x) :
    (tickSchedule n addrOf s' inp').portMapping x = (tickSchedule n addrOf s inp).portMapping x := by
  have hc := tickSchedule_carried hg ht
  have hactive : (tickSchedule n addrOf s' inp').mappingActive x =
      (tickSchedule n addrOf s inp).mappingActive x := by
    rw [tickSchedule_matching.active_iff, tickSchedule_matching.active_iff, ← hc.inputMatched x hx hX, turn_zero hx]
  by_cases ha : (tickSchedule n addrOf s inp).mappingActive x = true
  · have hlt := tickSchedule_matching.lt x ha
    have hpair := (hc.pairs x hx hX _ hlt).mpr ⟨ha, rfl⟩
    rw [turn_zero hx, turn_zero hlt] at hpair
    exact hpair.2
  · rw [Bool.not_eq_true] at ha
    rw [tickSchedule_matching.idle x ha, tickSchedule_matching.idle x (hactive.trans ha)]

theorem switchTick_sameGroup : SameGroup n X Y (switchTick n addrOf s inp).1 (switchTick n addrOf s' inp').1 where
  voqs := by
    intro x hx hX o ho hY
    rw [switchTick_voqs, switchTick_voqs, portMapping_same hg ht hx hX, ht.hosts o ho hY,
      buffer_same hg ht hx hX ho hY]
  closed := fun _ hx _ ho => switchTick_closed hg.closed ht.closed hx ho
  closed' := fun _ hx _ ho => switchTick_closed hg.closed' ht.closed' hx ho
  pointers := (tickSchedule_carried hg ht).pointers

theorem delivered_same (hx : x < n) (hX : X x) (ho : o < n) (hY : Y o) :
    delivered (switchTick n addrOf s' inp').2 x o = delivered (switchTick n addrOf s inp).2 x o := by
  rw [switchTick_delivered hx ho, switchTick_delivered hx ho, portMapping_same hg ht hx hX, ht.hosts o ho hY,
    buffer_same hg ht hx hX ho hY]

end

theorem emptySwitch_sameGroup (portMatch portMatch' : Nat → Nat) (portMatchActive portMatchActive' : Nat → Bool) :
    SameGroup n X Y (emptySwitch portMatch portMatchActive : Switch Packet)
      (emptySwitch portMatch' portMatchActive') where
  voqs := fun _ _ _ _ _ _ => rfl
  closed := fun _ _ _ _ h => absurd rfl h
  closed' := fun _ _ _ _ h => absurd rfl h
  pointers := ⟨fun _ _ _ => rfl, fun _ _ _ => rfl⟩

end

/-- Two runs whose ticks agree on a closed group of ports deliver the same
packets between its ports, tick by tick, whatever the other ports do. -/
theorem switch_isolates {Packet Addr Host : Type*} (n : Nat) (addrOf : Packet → Addr) (X Y : Nat → Prop)
    (portMatch portMatch' : Nat → Nat) (portMatchActive portMatchActive' : Nat → Bool)
    (ticks ticks' : List (TickInput Packet Addr Host))
    (h : List.Forall₂ (SameTraffic n addrOf X Y) ticks ticks') :
    List.Forall₂ (fun sends sends' => ∀ x < n, X x → ∀ o < n, Y o → delivered sends' x o = delivered sends x o)
      (outs (switchTick n addrOf) (emptySwitch portMatch portMatchActive) ticks)
      (outs (switchTick n addrOf) (emptySwitch portMatch' portMatchActive') ticks') := by
  have hstep : ∀ (s s' : Switch Packet) (inp inp' : TickInput Packet Addr Host), SameGroup n X Y s s' →
      SameTraffic n addrOf X Y inp inp' →
      SameGroup n X Y (switchTick n addrOf s inp).1 (switchTick n addrOf s' inp').1 ∧
        ∀ x < n, X x → ∀ o < n, Y o →
          delivered (switchTick n addrOf s' inp').2 x o = delivered (switchTick n addrOf s inp).2 x o :=
    fun _ _ _ _ hg ht => ⟨switchTick_sameGroup hg ht, fun _ hx hX _ ho hY => delivered_same hg ht hx hX ho hY⟩
  exact (sim_run_pairs _ hstep (emptySwitch_sameGroup _ _ _ _) h).2

section

/-- Inputs 0 and 1 send to port 1, input 2 to port `o`; there is no host at port 3. -/
def groupTick (o : Nat) : TickInput Nat Nat Unit :=
  ⟨fun i => if i < 2 then some 1 else if i = 2 then some o else none, some,
    fun j => if j < 3 then some () else none⟩

theorem switch_isolates_four :
    List.Forall₂ (fun sends sends' => ∀ x < 4, x < 2 → ∀ o < 4, o < 2 →
        delivered sends' x o = delivered sends x o)
      (outs (switchTick 4 id) (emptySwitch (fun _ => 0) fun _ => false) [groupTick 2, groupTick 3])
      (outs (switchTick 4 id) (emptySwitch (fun _ => 0) fun _ => false) [groupTick 3, groupTick 3]) := by
  have htick : ∀ o, 2 ≤ o → o < 4 → SameTraffic 4 id (· < 2) (· < 2) (groupTick o) (groupTick 3) := by
    intro o h2 h4
    obtain rfl | rfl : o = 2 ∨ o = 3 := by omega
    · exact ⟨by decide, by decide, by decide, by decide⟩
    · exact ⟨by decide, by decide, by decide, by decide⟩
  exact switch_isolates 4 id (· < 2) (· < 2) _ _ _ _ _ _
    (.cons (htick 2 (by decide) (by decide)) (.cons (htick 3 (by decide) (by decide)) .nil))

end

end SwitchSimulation
