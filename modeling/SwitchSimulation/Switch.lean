import SwitchSimulation.ScheduleWord

/-!
# The switch (`cb_ib_voqs_iSLIP.c`)

A virtual output queue is the list of its packets, oldest first. A tick reads
the host table through its two lookups and returns its calls of `send` in
order, `none` being the NULL that a dequeue from an empty queue gives. Packets
are values, so the copy into the queue is the packet itself.
-/

namespace SwitchSimulation

structure Switch (Packet : Type*) where
  voqs : Nat → Nat → List Packet
  pointers : Pointers
  portMatch : Nat → Nat
  portMatchActive : Nat → Bool

/-- A switch with an empty queue of its own for each `voqs[i][j]`, and zero
pointers. `cb_ib_voqs_iSLIP_create` makes no more than one queue for each `voqs[i]`
(`createVoqs`). The two result arrays are not initialised. -/
def emptySwitch {Packet : Type*} (portMatch : Nat → Nat) (portMatchActive : Nat → Bool) : Switch Packet :=
  ⟨fun _ _ => [], Pointers.zero, portMatch, portMatchActive⟩

/-- A call of `send`. It is followed by `free(out_packet)`. -/
structure Sent (Packet Host : Type*) where
  input : Nat
  output : Nat
  host : Host
  packet : Option Packet

structure TickInput (Packet Addr Host : Type*) where
  traffic : Nat → Option Packet
  portLookup : Addr → Option Nat
  hostLookup : Nat → Option Host

section
variable {Packet Addr Host : Type*}

def setVoq (voqs : Nat → Nat → List Packet) (i j : Nat) (queue : List Packet) : Nat → Nat → List Packet :=
  Function.update voqs i (Function.update (voqs i) j queue)

theorem setVoq_apply (voqs : Nat → Nat → List Packet) (i j : Nat) (queue : List Packet) (x o : Nat) :
    setVoq voqs i j queue x o = if x = i ∧ o = j then queue else voqs x o := by
  unfold setVoq
  by_cases hx : x = i
  · subst hx
    by_cases ho : o = j <;> simp [ho]
  · simp [hx]

variable (n : Nat) (addrOf : Packet → Addr)

/-! ## Buffering -/

def bufferPacket (inp : TickInput Packet Addr Host) (i : Nat) (voqs : Nat → Nat → List Packet) :
    Nat → Nat → List Packet :=
  match inp.traffic i with
  | none => voqs
  | some packet =>
    match inp.portLookup (addrOf packet) with
    | none => voqs
    | some outputPort => setVoq voqs i outputPort (voqs i outputPort ++ [packet])

def bufferTraffic (k : Nat) (inp : TickInput Packet Addr Host) (voqs : Nat → Nat → List Packet) :
    Nat → Nat → List Packet :=
  forRange k (bufferPacket addrOf inp) voqs

/-! ## Output -/

def sendPacket (portMapping : Nat → Nat) (host : Host) (i j : Nat)
    (t : (Nat → Nat → List Packet) × List (Sent Packet Host)) :
    (Nat → Nat → List Packet) × List (Sent Packet Host) :=
  if portMapping j = i then
    (setVoq t.1 j i (t.1 j i).tail, t.2 ++ [⟨j, i, host, (t.1 j i).head?⟩])
  else t

/-- The loop over the first `q` inputs for output `i`. -/
def sendTo (q : Nat) (portMapping : Nat → Nat) (inp : TickInput Packet Addr Host) (i : Nat)
    (t : (Nat → Nat → List Packet) × List (Sent Packet Host)) :
    (Nat → Nat → List Packet) × List (Sent Packet Host) :=
  match inp.hostLookup i with
  | none => t
  | some host => forRange q (sendPacket portMapping host i) t

def outputPackets (p : Nat) (portMapping : Nat → Nat) (inp : TickInput Packet Addr Host)
    (voqs : Nat → Nat → List Packet) : (Nat → Nat → List Packet) × List (Sent Packet Host) :=
  forRange p (sendTo n portMapping inp) (voqs, [])

/-! ## Tick -/

def tickSchedule (s : Switch Packet) (inp : TickInput Packet Addr Host) : Schedule :=
  schedule n s.pointers fun i j => (bufferTraffic addrOf n inp s.voqs i j).length

def switchTick (s : Switch Packet) (inp : TickInput Packet Addr Host) :
    Switch Packet × List (Sent Packet Host) :=
  let sched := tickSchedule n addrOf s inp
  let t := outputPackets n n sched.portMapping inp (bufferTraffic addrOf n inp s.voqs)
  (⟨t.1, ⟨sched.grantPtr, sched.acceptPtr⟩, sched.portMapping, sched.mappingActive⟩, t.2)

/-- The tick with the pointers of the scheduler in 32 bits. -/
def switchTick32 (s : Switch Packet) (inp : TickInput Packet Addr Host) :
    Switch Packet × List (Sent Packet Host) :=
  let sched := schedule32 n s.pointers fun i j => (bufferTraffic addrOf n inp s.voqs i j).length
  let t := outputPackets n n sched.portMapping inp (bufferTraffic addrOf n inp s.voqs)
  (⟨t.1, ⟨sched.grantPtr, sched.acceptPtr⟩, sched.portMapping, sched.mappingActive⟩, t.2)

variable {n}

theorem switchTick32_eq {s : Switch Packet} (hn : n ≤ 2 ^ 31) (hp : NoWrap n s.pointers.grant s.pointers.accept)
    (inp : TickInput Packet Addr Host) : switchTick32 n addrOf s inp = switchTick n addrOf s inp := by
  unfold switchTick32 switchTick tickSchedule schedule32 schedule
  rw [iSLIPSchedule32_eq hn hp]

/-- A run of ticks from pointers that do not wrap. -/
theorem switchTick32_run {s : Switch Packet} (hn : n ≤ 2 ^ 31) (hp : NoWrap n s.pointers.grant s.pointers.accept)
    (ticks : List (TickInput Packet Addr Host)) :
    exec (switchTick32 n addrOf) s ticks = exec (switchTick n addrOf) s ticks ∧
      outs (switchTick32 n addrOf) s ticks = outs (switchTick n addrOf) s ticks ∧
      ∀ P, Always (switchTick32 n addrOf) P s ticks ↔ Always (switchTick n addrOf) P s ticks :=
  run_congr (fun s : Switch Packet => NoWrap n s.pointers.grant s.pointers.accept)
    (fun _ _ => iSLIPSchedule_keeps hn) (fun _ inp hp => switchTick32_eq addrOf hn hp inp) hp ticks

end

end SwitchSimulation
