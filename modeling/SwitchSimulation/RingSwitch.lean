import SwitchSimulation.QueueFifo
import SwitchSimulation.SwitchBacklog

/-!
# The switch on ring buffers

The tick of `cb_ib_voqs_iSLIP.c` with the queues of `queue.c` in place of the
lists of `Switch`. What it decides depends on the sizes of the queues alone,
and the packets are right as long as no packet arrives at a full ring; behind
that `send` and `free` get words that never were packets, so the runs of this
module end there.
-/

namespace SwitchSimulation

structure RingSwitch (Packet : Type*) where
  voqs : Nat → Nat → Queue Packet
  pointers : Pointers
  portMatch : Nat → Nat
  portMatchActive : Nat → Bool

/-- `fresh i` is what a buffer contains that the enqueue for input `i` may allocate. -/
structure RingInput (Packet Addr Host : Type*) extends TickInput Packet Addr Host where
  fresh : Nat → Nat → Option Packet

section
variable {Packet Addr Host : Type*}

/-- A switch with a ring of its own for each `voqs[i][j]`. -/
def emptyRingSwitch (fresh : Nat → Nat → Nat → Option Packet) (portMatch : Nat → Nat)
    (portMatchActive : Nat → Bool) : RingSwitch Packet :=
  ⟨fun i j => queueCreate (fresh i j), Pointers.zero, portMatch, portMatchActive⟩

def setQueue (voqs : Nat → Nat → Queue Packet) (i j : Nat) (queue : Queue Packet) : Nat → Nat → Queue Packet :=
  Function.update voqs i (Function.update (voqs i) j queue)

theorem setQueue_apply (voqs : Nat → Nat → Queue Packet) (i j : Nat) (queue : Queue Packet) (x o : Nat) :
    setQueue voqs i j queue x o = if x = i ∧ o = j then queue else voqs x o := by
  unfold setQueue
  by_cases hx : x = i
  · subst hx
    by_cases ho : o = j <;> simp [ho]
  · simp [hx]

variable (n : Nat) (addrOf : Packet → Addr)

/-! ## Buffering -/

def ringBufferPacket (inp : RingInput Packet Addr Host) (i : Nat) (voqs : Nat → Nat → Queue Packet) :
    Nat → Nat → Queue Packet :=
  match inp.traffic i with
  | none => voqs
  | some packet =>
    match inp.portLookup (addrOf packet) with
    | none => voqs
    | some outputPort =>
      setQueue voqs i outputPort (queueEnqueue (voqs i outputPort) (some packet) (inp.fresh i))

def ringBufferTraffic (k : Nat) (inp : RingInput Packet Addr Host) (voqs : Nat → Nat → Queue Packet) :
    Nat → Nat → Queue Packet :=
  forRange k (ringBufferPacket addrOf inp) voqs

/-! ## Output -/

def ringSendPacket (portMapping : Nat → Nat) (host : Host) (i j : Nat)
    (t : (Nat → Nat → Queue Packet) × List (Sent Packet Host)) :
    (Nat → Nat → Queue Packet) × List (Sent Packet Host) :=
  if portMapping j = i then
    (setQueue t.1 j i (queueDequeue (t.1 j i)).1, t.2 ++ [⟨j, i, host, (queueDequeue (t.1 j i)).2⟩])
  else t

def ringSendTo (q : Nat) (portMapping : Nat → Nat) (inp : RingInput Packet Addr Host) (i : Nat)
    (t : (Nat → Nat → Queue Packet) × List (Sent Packet Host)) :
    (Nat → Nat → Queue Packet) × List (Sent Packet Host) :=
  match inp.hostLookup i with
  | none => t
  | some host => forRange q (ringSendPacket portMapping host i) t

def ringOutputPackets (portMapping : Nat → Nat) (inp : RingInput Packet Addr Host)
    (voqs : Nat → Nat → Queue Packet) : (Nat → Nat → Queue Packet) × List (Sent Packet Host) :=
  forRange n (ringSendTo n portMapping inp) (voqs, [])

/-! ## Tick -/

def ringTickSchedule (s : RingSwitch Packet) (inp : RingInput Packet Addr Host) : Schedule :=
  schedule n s.pointers fun i j => queueSize (ringBufferTraffic addrOf n inp s.voqs i j)

def ringTick (s : RingSwitch Packet) (inp : RingInput Packet Addr Host) :
    RingSwitch Packet × List (Sent Packet Host) :=
  let sched := ringTickSchedule n addrOf s inp
  let t := ringOutputPackets n sched.portMapping inp (ringBufferTraffic addrOf n inp s.voqs)
  (⟨t.1, ⟨sched.grantPtr, sched.acceptPtr⟩, sched.portMapping, sched.mappingActive⟩, t.2)

end

/-! ## The two switches in step -/

/-- A relation between a queue and a list that the operations keep, an enqueue
only where there is room, and what is seen of the packet that a dequeue returns. -/
structure QueueView {Packet γ : Type*} (Q : Queue Packet → List Packet → Prop) (room : Queue Packet → Prop)
    (view : Option Packet → γ) : Prop where
  size : ∀ q l, Q q l → queueSize q = l.length
  enqueue : ∀ q l packet fresh, Q q l → room q → Q (queueEnqueue q (some packet) fresh) (l ++ [packet])
  dequeue : ∀ q l, Q q l → Q (queueDequeue q).1 l.tail ∧ view (queueDequeue q).2 = view l.head?

def Sent.seen {Packet Host γ : Type*} (view : Option Packet → γ) (m : Sent Packet Host) : Nat × Nat × Host × γ :=
  (m.input, m.output, m.host, view m.packet)

structure InStepWith {Packet : Type*} (Q : Queue Packet → List Packet → Prop) (s : RingSwitch Packet)
    (a : Switch Packet) : Prop where
  voqs : ∀ i j, Q (s.voqs i j) (a.voqs i j)
  pointers : s.pointers = a.pointers
  portMatch : s.portMatch = a.portMatch
  portMatchActive : s.portMatchActive = a.portMatchActive

/-- The two states of the output loops, up to what is seen of the packets sent. -/
structure StageRelated {Packet Host γ : Type*} (Q : Queue Packet → List Packet → Prop) (view : Option Packet → γ)
    (t : (Nat → Nat → Queue Packet) × List (Sent Packet Host))
    (u : (Nat → Nat → List Packet) × List (Sent Packet Host)) : Prop where
  voqs : ∀ i j, Q (t.1 i j) (u.1 i j)
  sends : t.2.map (Sent.seen view) = u.2.map (Sent.seen view)

section
variable {Packet Addr Host γ : Type*} {Q : Queue Packet → List Packet → Prop} {room : Queue Packet → Prop}
variable {view : Option Packet → γ} (hv : QueueView Q room view)
variable {n : Nat} {addrOf : Packet → Addr} {inp : RingInput Packet Addr Host}
variable {voqs : Nat → Nat → Queue Packet} {lists : Nat → Nat → List Packet}

theorem setQueue_related {i j : Nat} {q : Queue Packet} {l : List Packet} (h : ∀ x o, Q (voqs x o) (lists x o))
    (hq : Q q l) (x o : Nat) : Q (setQueue voqs i j q x o) (setVoq lists i j l x o) := by
  rw [setQueue_apply, setVoq_apply]
  by_cases hxo : x = i ∧ o = j
  · rw [if_pos hxo, if_pos hxo]
    exact hq
  · rw [if_neg hxo, if_neg hxo]
    exact h x o

/-- Every queue that an arrival of the tick is filed in has room. -/
def RoomForArrivals (room : Queue Packet → Prop) (n : Nat) (addrOf : Packet → Addr)
    (voqs : Nat → Nat → Queue Packet) (inp : RingInput Packet Addr Host) : Prop :=
  ∀ i < n, ∀ packet ∈ inp.traffic i, ∀ o ∈ inp.portLookup (addrOf packet), room (voqs i o)

include hv

theorem ringBufferPacket_related {i : Nat} (h : ∀ x o, Q (voqs x o) (lists x o))
    (hr : ∀ packet ∈ inp.traffic i, ∀ o ∈ inp.portLookup (addrOf packet), room (voqs i o)) (x o : Nat) :
    Q (ringBufferPacket addrOf inp i voqs x o) (bufferPacket addrOf inp.toTickInput i lists x o) := by
  unfold ringBufferPacket bufferPacket
  cases hp : inp.traffic i with
  | none => exact h x o
  | some packet =>
    cases ho : inp.portLookup (addrOf packet) with
    | none =>
      simp only [ho]
      exact h x o
    | some outputPort =>
      simp only [ho]
      exact setQueue_related h (hv.enqueue _ _ packet _ (h i outputPort) (hr packet hp outputPort ho)) x o

omit hv in
theorem ringBufferPacket_other {i k : Nat} (hik : i ≠ k) : ringBufferPacket addrOf inp k voqs i = voqs i := by
  unfold ringBufferPacket
  cases hp : inp.traffic k with
  | none => rfl
  | some packet =>
    cases ho : inp.portLookup (addrOf packet) with
    | none => simp only [ho]
    | some outputPort =>
      simp only [ho]
      exact Function.update_of_ne hik _ _

theorem ringBufferTraffic_related (h : ∀ x o, Q (voqs x o) (lists x o))
    (hr : RoomForArrivals room n addrOf voqs inp) (x o : Nat) :
    Q (ringBufferTraffic addrOf n inp voqs x o) (bufferTraffic addrOf n inp.toTickInput lists x o) := by
  -- the rows behind the loop index are as they were, so that their queues still have room
  have hloop : (∀ x o, Q (ringBufferTraffic addrOf n inp voqs x o)
      (bufferTraffic addrOf n inp.toTickInput lists x o)) ∧
      ∀ x, n ≤ x → ringBufferTraffic addrOf n inp voqs x = voqs x := by
    refine forRange_rel
      (fun k (v : Nat → Nat → Queue Packet) (l : Nat → Nat → List Packet) =>
        (∀ x o, Q (v x o) (l x o)) ∧ ∀ x, k ≤ x → v x = voqs x) ⟨h, fun _ _ => rfl⟩ ?_
    intro i hi v l ⟨hvl, hrows⟩
    refine ⟨fun x o => ringBufferPacket_related hv hvl ?_ x o, fun x hx => ?_⟩
    · rw [hrows i (Nat.le_refl i)]
      exact hr i hi
    · rw [ringBufferPacket_other (by omega)]
      exact hrows x (by omega)
  exact hloop.1 x o

theorem ringSendPacket_related {portMapping : Nat → Nat} {host : Host} {i j : Nat}
    {t : (Nat → Nat → Queue Packet) × List (Sent Packet Host)}
    {u : (Nat → Nat → List Packet) × List (Sent Packet Host)} (h : StageRelated Q view t u) :
    StageRelated Q view (ringSendPacket portMapping host i j t) (sendPacket portMapping host i j u) := by
  unfold ringSendPacket sendPacket
  by_cases hm : portMapping j = i
  · rw [if_pos hm, if_pos hm]
    obtain ⟨hq, hp⟩ := hv.dequeue _ _ (h.voqs j i)
    refine ⟨setQueue_related h.voqs hq, ?_⟩
    simp only [List.map_append, List.map_cons, List.map_nil, h.sends, Sent.seen, hp]
  · rw [if_neg hm, if_neg hm]
    exact h

theorem ringOutputPackets_related {portMapping : Nat → Nat} (h : ∀ x o, Q (voqs x o) (lists x o)) :
    StageRelated Q view (ringOutputPackets n portMapping inp voqs)
      (outputPackets n n portMapping inp.toTickInput lists) := by
  refine forRange_rel (fun _ => StageRelated Q view) ⟨h, rfl⟩ ?_
  intro i _ t u htu
  unfold ringSendTo sendTo
  cases hh : inp.hostLookup i with
  | none => exact htu
  | some host => exact forRange_rel (fun _ => StageRelated Q view) htu fun j _ t u => ringSendPacket_related hv

/-! ## Ticks -/

theorem ringTickSchedule_eq {s : RingSwitch Packet} {a : Switch Packet} (h : InStepWith Q s a)
    (hr : RoomForArrivals room n addrOf s.voqs inp) :
    ringTickSchedule n addrOf s inp = tickSchedule n addrOf a inp.toTickInput := by
  have hsize : (fun i j => queueSize (ringBufferTraffic addrOf n inp s.voqs i j)) =
      fun i j => (bufferTraffic addrOf n inp.toTickInput a.voqs i j).length := by
    funext i j
    exact hv.size _ _ (ringBufferTraffic_related hv h.voqs hr i j)
  unfold ringTickSchedule tickSchedule
  rw [hsize, h.pointers]

theorem ringTick_related {s : RingSwitch Packet} {a : Switch Packet} (h : InStepWith Q s a)
    (hr : RoomForArrivals room n addrOf s.voqs inp) :
    InStepWith Q (ringTick n addrOf s inp).1 (switchTick n addrOf a inp.toTickInput).1 ∧
      (ringTick n addrOf s inp).2.map (Sent.seen view) =
        (switchTick n addrOf a inp.toTickInput).2.map (Sent.seen view) := by
  have hsched := ringTickSchedule_eq hv h hr
  have hout : StageRelated Q view
      (ringOutputPackets n (tickSchedule n addrOf a inp.toTickInput).portMapping inp
        (ringBufferTraffic addrOf n inp s.voqs))
      (outputPackets n n (tickSchedule n addrOf a inp.toTickInput).portMapping inp.toTickInput
        (bufferTraffic addrOf n inp.toTickInput a.voqs)) :=
    ringOutputPackets_related hv (ringBufferTraffic_related hv h.voqs hr)
  unfold ringTick switchTick
  rw [hsched]
  exact ⟨⟨hout.voqs, rfl, rfl, rfl⟩, hout.sends⟩

theorem ringRun_related {s : RingSwitch Packet} {a : Switch Packet} {ticks : List (RingInput Packet Addr Host)}
    (h : InStepWith Q s a)
    (hm : Meets (ringTick n addrOf) (fun s inp => RoomForArrivals room n addrOf s.voqs inp) s ticks) :
    InStepWith Q (exec (ringTick n addrOf) s ticks)
        (exec (switchTick n addrOf) a (ticks.map RingInput.toTickInput)) ∧
      (outs (ringTick n addrOf) s ticks).map (List.map (Sent.seen view)) =
        (outs (switchTick n addrOf) a (ticks.map RingInput.toTickInput)).map (List.map (Sent.seen view)) :=
  sim_run_view (InStepWith Q) RingInput.toTickInput _ _ (fun _ _ _ h hr => ringTick_related hv h hr) h hm

end

/-! ## Sizes -/

def SizeHolds {Packet : Type*} (q : Queue Packet) (l : List Packet) : Prop := q.size = l.length

/-- What can be seen of a packet if only the sizes of the queues are known. -/
def unseen {Packet : Type*} (_ : Option Packet) : Unit := ()

theorem sizeView {Packet : Type*} : QueueView (@SizeHolds Packet) (fun _ => True) unseen where
  size _ _ h := h
  enqueue q l packet fresh h _ := by
    have hs : (queueEnqueue q (some packet) fresh).size = q.size + 1 := by
      unfold queueEnqueue
      split <;> rfl
    unfold SizeHolds at h ⊢
    rw [hs, h, List.length_append, List.length_singleton]
  dequeue q l h := by
    refine ⟨?_, rfl⟩
    unfold SizeHolds at h ⊢
    rw [List.length_tail, ← h]
    unfold queueDequeue
    split <;> rename_i hq
    · rw [hq]
    · rfl

theorem emptyRingSwitch_sizes {Packet : Type*} (fresh : Nat → Nat → Nat → Option Packet) (portMatch : Nat → Nat)
    (portMatchActive : Nat → Bool) : InStepWith SizeHolds (emptyRingSwitch fresh portMatch portMatchActive)
      (emptySwitch portMatch portMatchActive) :=
  ⟨fun _ _ => rfl, rfl, rfl, rfl⟩

/-! ## Packets -/

structure RingList {Packet : Type*} (q : Queue Packet) (l : List Packet) : Prop where
  holds : QueueHolds q (l.map some)
  capacity : q.capacity = queueDefaultCapacity

def NotFull {Packet : Type*} (q : Queue Packet) : Prop := queueSize q < queueDefaultCapacity

instance {Packet : Type*} (q : Queue Packet) : Decidable (NotFull q) :=
  inferInstanceAs (Decidable (queueSize q < queueDefaultCapacity))

theorem queueDequeue_capacity {Packet : Type*} (q : Queue Packet) : (queueDequeue q).1.capacity = q.capacity := by
  unfold queueDequeue
  split <;> rfl

theorem packetView {Packet : Type*} : QueueView (@RingList Packet) NotFull id where
  size q l h := by
    unfold queueSize
    rw [← h.holds.length, List.length_map]
  enqueue q l packet fresh h hr := by
    have hroom : q.size < q.capacity := by
      rw [h.capacity]
      exact hr
    rw [queueEnqueue_of_room hroom]
    refine ⟨?_, h.capacity⟩
    rw [List.map_append]
    exact queueStore_holds h.holds hroom (some packet)
  dequeue q l h := by
    refine ⟨⟨?_, (queueDequeue_capacity q).trans h.capacity⟩, ?_⟩
    · rw [List.map_tail]
      exact queueDequeue_holds h.holds
    · rw [id, id, queueDequeue_snd, queuePeek_holds h.holds, List.head?_map]
      cases l.head? <;> rfl

section
variable {Packet Addr Host : Type*} {n : Nat} {addrOf : Packet → Addr} {ticks : List (RingInput Packet Addr Host)}

def RoomInRings (n : Nat) (addrOf : Packet → Addr) (s : RingSwitch Packet) (inp : RingInput Packet Addr Host) :
    Prop :=
  RoomForArrivals NotFull n addrOf s.voqs inp

instance (n : Nat) (addrOf : Packet → Addr) (s : RingSwitch Packet) (inp : RingInput Packet Addr Host) :
    Decidable (RoomInRings n addrOf s inp) :=
  inferInstanceAs (Decidable
    (∀ i < n, ∀ packet ∈ inp.traffic i, ∀ o ∈ inp.portLookup (addrOf packet), NotFull (s.voqs i o)))

theorem Sent.seen_id_injective : Function.Injective (Sent.seen id : Sent Packet Host → _) := by
  rintro ⟨_, _, _, _⟩ ⟨_, _, _, _⟩ h
  simpa [Sent.seen] using h

theorem emptyRingSwitch_lists (fresh : Nat → Nat → Nat → Option Packet) (portMatch : Nat → Nat)
    (portMatchActive : Nat → Bool) :
    InStepWith RingList (emptyRingSwitch fresh portMatch portMatchActive) (emptySwitch portMatch portMatchActive) :=
  ⟨fun _ _ => ⟨queueCreate_holds _, rfl⟩, rfl, rfl, rfl⟩

theorem ringRun_lists {fresh : Nat → Nat → Nat → Option Packet} {portMatch : Nat → Nat}
    {portMatchActive : Nat → Bool} (hm : Meets (ringTick n addrOf) (RoomInRings n addrOf)
      (emptyRingSwitch fresh portMatch portMatchActive) ticks) :
    InStepWith RingList (exec (ringTick n addrOf) (emptyRingSwitch fresh portMatch portMatchActive) ticks)
        (exec (switchTick n addrOf) (emptySwitch portMatch portMatchActive) (ticks.map RingInput.toTickInput)) ∧
      outs (ringTick n addrOf) (emptyRingSwitch fresh portMatch portMatchActive) ticks =
        outs (switchTick n addrOf) (emptySwitch portMatch portMatchActive)
          (ticks.map RingInput.toTickInput) := by
  obtain ⟨h, ho⟩ := ringRun_related packetView (emptyRingSwitch_lists fresh portMatch portMatchActive) hm
  exact ⟨h, List.map_injective_iff.mpr (List.map_injective_iff.mpr Sent.seen_id_injective) ho⟩

/-- No packet of the tick arrives at a list that would fill a ring. -/
def RoomInLists (n : Nat) (addrOf : Packet → Addr) (a : Switch Packet) (inp : TickInput Packet Addr Host) : Prop :=
  ∀ i < n, ∀ packet ∈ inp.traffic i, ∀ o ∈ inp.portLookup (addrOf packet),
    (a.voqs i o).length < queueDefaultCapacity

/-- Up to the first overflow the rings are as full as the lists. -/
theorem roomInRings_iff (fresh : Nat → Nat → Nat → Option Packet) (portMatch : Nat → Nat)
    (portMatchActive : Nat → Bool) (ticks : List (RingInput Packet Addr Host)) :
    Meets (ringTick n addrOf) (RoomInRings n addrOf) (emptyRingSwitch fresh portMatch portMatchActive) ticks ↔
      Meets (switchTick n addrOf) (RoomInLists n addrOf) (emptySwitch portMatch portMatchActive)
        (ticks.map RingInput.toTickInput) := by
  refine meets_sim_iff (InStepWith RingList) RingInput.toTickInput
    (fun _ _ _ h hr => (ringTick_related packetView h hr).1) ?_
    (emptyRingSwitch_lists fresh portMatch portMatchActive) ticks
  intro s a inp h
  have hsize : ∀ i o, NotFull (s.voqs i o) ↔ (a.voqs i o).length < queueDefaultCapacity := by
    intro i o
    unfold NotFull
    rw [packetView.size _ _ (h.voqs i o)]
  simp only [RoomForArrivals, RoomInLists, hsize]

end

/-- A run overflows no ring just when no packet arrives at a list of 16 packets
in the same run of the switch on lists; and then each ring reads as the list of
its queue, and the pointers and the result arrays are the same. -/
theorem ring_switch_control {Packet Addr Host : Type*} (n : Nat) (addrOf : Packet → Addr)
    (fresh : Nat → Nat → Nat → Option Packet) (portMatch : Nat → Nat) (portMatchActive : Nat → Bool)
    (ticks : List (RingInput Packet Addr Host)) :
    let s := exec (ringTick n addrOf) (emptyRingSwitch fresh portMatch portMatchActive) ticks
    let a := exec (switchTick n addrOf) (emptySwitch portMatch portMatchActive) (ticks.map RingInput.toTickInput)
    (Meets (ringTick n addrOf) (RoomInRings n addrOf) (emptyRingSwitch fresh portMatch portMatchActive) ticks ↔
      Meets (switchTick n addrOf) (RoomInLists n addrOf) (emptySwitch portMatch portMatchActive)
        (ticks.map RingInput.toTickInput)) ∧
      (Meets (ringTick n addrOf) (RoomInRings n addrOf) (emptyRingSwitch fresh portMatch portMatchActive) ticks →
        (∀ i j, QueueHolds (s.voqs i j) ((a.voqs i j).map some)) ∧ s.pointers = a.pointers ∧
          s.portMatch = a.portMatch ∧ s.portMatchActive = a.portMatchActive) := by
  intro s a
  refine ⟨roomInRings_iff fresh portMatch portMatchActive ticks, fun hm => ?_⟩
  have h : InStepWith RingList s a := (ringRun_lists hm).1
  exact ⟨fun i j => (h.voqs i j).holds, h.pointers, h.portMatch, h.portMatchActive⟩

/-- As long as no packet arrives at a full ring, the switch on rings makes the
calls of `send` that the switch on lists makes. -/
theorem ring_switch_refines {Packet Addr Host : Type*} (n : Nat) (addrOf : Packet → Addr)
    (fresh : Nat → Nat → Nat → Option Packet) (portMatch : Nat → Nat) (portMatchActive : Nat → Bool)
    (ticks : List (RingInput Packet Addr Host))
    (hm : Meets (ringTick n addrOf) (RoomInRings n addrOf) (emptyRingSwitch fresh portMatch portMatchActive) ticks) :
    outs (ringTick n addrOf) (emptyRingSwitch fresh portMatch portMatchActive) ticks =
      outs (switchTick n addrOf) (emptySwitch portMatch portMatchActive) (ticks.map RingInput.toTickInput) :=
  (ringRun_lists hm).2

section

def ringOpenTick (traffic : Nat → Option Nat) : RingInput Nat Nat Unit := ⟨openTick traffic, fun _ _ => some 99⟩

theorem ring_switch_refines_numbers :
    let ticks := [ringOpenTick fun i => some (1 - i), ringOpenTick some, ringOpenTick fun _ => some 1,
      ringOpenTick fun _ => none, ringOpenTick fun _ => none]
    outs (ringTick 2 id) (emptyRingSwitch (fun _ _ _ => none) (fun _ => 0) fun _ => false) ticks =
      outs (switchTick 2 id) (emptySwitch (fun _ => 0) fun _ => false) (ticks.map RingInput.toTickInput) :=
  ring_switch_refines 2 id _ _ _ _ (by decide +kernel)

theorem ring_switch_control_numbers :
    let ticks := [ringOpenTick fun i => some (1 - i), ringOpenTick some, ringOpenTick fun _ => some 1]
    QueueHolds
      ((exec (ringTick 2 id) (emptyRingSwitch (fun _ _ _ => none) (fun _ => 0) fun _ => false) ticks).voqs 1 1)
      (((exec (switchTick 2 id) (emptySwitch (fun _ => 0) fun _ => false)
        (ticks.map RingInput.toTickInput)).voqs 1 1).map some) :=
  ((ring_switch_control 2 id (fun _ _ _ => none) (fun _ => 0) (fun _ => false) _).2 (by decide +kernel)).1 1 1

end

/-! ## Traffic that the rings hold -/

section
variable {Packet Addr Host : Type*} {n : Nat} {addrOf : Packet → Addr} {ticks : List (RingInput Packet Addr Host)}

theorem length_le_backlog {voqs : Nat → Nat → List Packet} {x o : Nat} (hx : x < n) (ho : o < n) :
    (voqs x o).length ≤ backlog n voqs := by
  have hrow : (voqs x o).length ≤ ∑ o ∈ Finset.range n, (voqs x o).length :=
    Finset.single_le_sum (f := fun o => (voqs x o).length) (fun _ _ => Nat.zero_le _) (Finset.mem_range.mpr ho)
  exact hrow.trans (Finset.single_le_sum (f := fun x => ∑ o ∈ Finset.range n, (voqs x o).length)
    (fun _ _ => Nat.zero_le _) (Finset.mem_range.mpr hx))

theorem roomInRings_of_backlog {s : RingSwitch Packet} {a : Switch Packet} {inp : RingInput Packet Addr Host}
    (h : InStepWith SizeHolds s a) (hb : backlog n a.voqs < queueDefaultCapacity) (hk : KnownPorts n inp.toTickInput) :
    RoomInRings n addrOf s inp := by
  intro i hi packet _ o ho
  have hsize : queueSize (s.voqs i o) = (a.voqs i o).length := h.voqs i o
  have hle : (a.voqs i o).length ≤ backlog n a.voqs := length_le_backlog hi (hk _ o ho)
  unfold NotFull
  omega

theorem ringTicks_have_room {fresh : Nat → Nat → Nat → Option Packet} {portMatch : Nat → Nat}
    {portMatchActive : Nat → Bool} (hk : ∀ inp ∈ ticks, KnownPorts n inp.toTickInput)
    (hb : Always (switchTick n addrOf) (fun a => backlog n a.voqs < queueDefaultCapacity)
      (emptySwitch portMatch portMatchActive) (ticks.map RingInput.toTickInput)) :
    Meets (ringTick n addrOf) (RoomInRings n addrOf) (emptyRingSwitch fresh portMatch portMatchActive) ticks :=
  meets_of_sim (InStepWith SizeHolds) RingInput.toTickInput
    (fun _ _ _ h => (ringTick_related sizeView h fun _ _ _ _ _ _ => trivial).1)
    (fun _ _ _ h hb hk => roomInRings_of_backlog h hb hk)
    (emptyRingSwitch_sizes fresh portMatch portMatchActive) hb hk

end

/-- If every port has a host and no stretch of ticks brings more than 15 packets
beyond its length, no ring overflows: of every flow, what has arrived is what has
been sent, in order, followed by what its ring holds. -/
theorem ring_switch_lossless {Packet Addr Host : Type*} (n : Nat) (hn : 2 ≤ n) (addrOf : Packet → Addr)
    (fresh : Nat → Nat → Nat → Option Packet) (portMatch : Nat → Nat) (portMatchActive : Nat → Bool)
    (ticks : List (RingInput Packet Addr Host)) (hk : ∀ inp ∈ ticks, KnownPorts n inp.toTickInput)
    (hh : ∀ inp ∈ ticks, AllHosts n inp.toTickInput)
    (hc : Conforms 15 (ticks.map fun inp => arrivals n addrOf inp.toTickInput)) (i j : Nat) :
    ∃ waiting : List Packet,
      QueueHolds ((exec (ringTick n addrOf) (emptyRingSwitch fresh portMatch portMatchActive) ticks).voqs i j)
          (waiting.map some) ∧
        arrived addrOf n (ticks.map RingInput.toTickInput) i j =
          (outs (ringTick n addrOf) (emptyRingSwitch fresh portMatch portMatchActive) ticks).flatMap
            (delivered · i j) ++ waiting := by
  have hb : Always (switchTick n addrOf) (fun a => backlog n a.voqs ≤ 15) (emptySwitch portMatch portMatchActive)
      (ticks.map RingInput.toTickInput) := by
    refine backlog_always hn (List.forall_mem_map.mpr hh) ?_ (by simp [emptySwitch, backlog])
    rw [List.map_map]
    exact hc
  have hroom : Meets (ringTick n addrOf) (RoomInRings n addrOf)
      (emptyRingSwitch fresh portMatch portMatchActive) ticks :=
    ringTicks_have_room hk (hb.mono fun _ h => Nat.lt_succ_of_le h)
  obtain ⟨h, ho⟩ := ringRun_lists hroom
  refine ⟨_, (h.voqs i j).holds, ?_⟩
  rw [ho, ← run_conserves]
  rfl

section

def ringBurst : List (RingInput Nat Nat Unit) :=
  [ringOpenTick fun _ => some 1, ringOpenTick fun _ => none, ringOpenTick fun _ => none]

theorem ring_switch_lossless_burst :
    ∃ waiting : List Nat,
      QueueHolds ((exec (ringTick 2 id) (emptyRingSwitch (fun _ _ _ => none) (fun _ => 0) fun _ => false)
          ringBurst).voqs 1 1) (waiting.map some) ∧
        arrived id 2 (ringBurst.map RingInput.toTickInput) 1 1 =
          (outs (ringTick 2 id) (emptyRingSwitch (fun _ _ _ => none) (fun _ => 0) fun _ => false)
            ringBurst).flatMap (delivered · 1 1) ++ waiting := by
  refine ring_switch_lossless 2 (by decide) id _ _ _ ringBurst ?_ (by decide) (by decide +kernel) 1 1
  intro inp hinp
  obtain rfl | rfl : inp = ringOpenTick (fun _ => some 1) ∨ inp = ringOpenTick fun _ => none := by
    simpa [ringBurst] using hinp
  · exact openTick_known _
  · exact openTick_known _

end

end SwitchSimulation
