import SwitchSimulation.HostTableCalls
import SwitchSimulation.Switch
import SwitchSimulation.SwitchMemory

/-!
# The switch as it is created (`cb_ib_voqs_iSLIP.c`)

The switch with the memory that `cb_ib_voqs_iSLIP_create` gives it, where
`voqs[i][j]` is whatever word lies at that place. A call of `queue.c` on a
block that does not hold a `struct queue` is a fault, and so is one on a word
that is no address. A fault is the end of the program; what was sent before it
stays sent. The host table has a memory of its own, since blocks do not overlap.
-/

namespace SwitchSimulation

inductive SwitchFault
  | host (fault : HostFault)
  | noQueue
  | noSend
  deriving DecidableEq

/-! ## Queues in memory -/

/-- The queue in a block, with the block of its elements. -/
def queueRead (m : Memory Word) (block : Nat) : Option (Nat × Queue Word) :=
  match m.blocks block with
  | [.addr elems, .uints head tail, .uints size capacity, .freePacket] =>
    if h : head < capacity ∧ tail < capacity then
      some (elems, ⟨fun k => (m.blocks elems)[k]?, head, tail, size, capacity, h.1, h.2⟩)
    else none
  | _ => none

def queueWrite (m : Memory Word) (block elems : Nat) (q : Queue Word) : Memory Word :=
  let words := (List.range (m.blocks elems).length).map fun k => (q.elems k).getD (.other 0)
  { m with blocks := Function.update (Function.update m.blocks elems words) block (queueWords elems q) }

def queueSizeIn (m : Memory Word) (block : Nat) : Option Nat := (queueRead m block).map fun r => queueSize r.2

def queueEnqueueIn (fresh : Nat → Nat → Word) (m : Memory Word) (block : Nat) (elem : Word) : Option (Memory Word) :=
  (queueRead m block).map fun r =>
    let q := queueEnqueue32 r.2 (some elem) fun k => some (fresh m.next k)
    if (r.2.size + 1) % 2 ^ 32 > r.2.capacity then
      queueWrite (m.malloc fresh (2 * r.2.capacity)).1 block m.next q
    else queueWrite m block r.1 q

def queueDequeueIn (m : Memory Word) (block : Nat) : Option (Memory Word × Option Word) :=
  (queueRead m block).map fun r => (queueWrite m block r.1 (queueDequeue r.2).1, (queueDequeue r.2).2)

/-- A call on `voqs[i][j]`. -/
def atVoq {β : Type*} (m : Memory Word) (voqs i j : Nat) (call : Nat → Option β) : Option β :=
  match voqAt m voqs i j with
  | some (.addr queue) => call queue
  | _ => none

/-! ## The scheduler -/

section
variable (n : Nat) (voqSize : Nat → Nat → Option Nat)

/-- The body of `grantBody32`, where a size need not exist. -/
def tryGrantBody (i j : Nat) (t : Schedule × Bool) : Option (Schedule × Bool) :=
  let inputPort := portIndex32 n (t.1.grantPtr i) j
  if t.1.inputMatched inputPort = false then
    (voqSize inputPort i).map fun size => if size > 0 then (makeGrant i inputPort t.1, true) else t
  else some t

def tryGrantOutput (i : Nat) (s : Schedule) : Option Schedule :=
  if s.outputMatched i = false then
    (forTry n (fun j t => if t.2 then some t else tryGrantBody n voqSize i j t) (s, false)).map Prod.fst
  else some s

def tryGrantPhase (s : Schedule) : Option Schedule := forTry n (tryGrantOutput n voqSize) s

def tryISLIPRound (s : Schedule) : Option Schedule :=
  (tryGrantPhase n voqSize (resetGrants s)).map (acceptPhase32 n)

def tryISLIPSchedule (grantPtr acceptPtr : Nat → Nat) : Option Schedule :=
  forTry (ISLIP_ROUNDS n) (fun _ => tryISLIPRound n voqSize) (scheduleReset grantPtr acceptPtr)

end

/-! ## The switch -/

structure NetworkSwitch (O : KeyOps (BitVec 32)) where
  memory : Memory Word
  voqs : Nat
  hosts : HostState O
  pointers : Pointers
  portMatch : Nat → Nat
  portMatchActive : Nat → Bool
  fault : Option SwitchFault

/-- `PACKET_SIZE` in words. -/
def packetWords : Nat := 8

/-- The words of the packets that arrive, and what the pointers to addresses in
the descriptors point at. -/
structure SwitchTraffic where
  traffic : Nat → Option (List Word)
  pointee : BitVec 64 → BitVec 32

/-- A call of `send` with the words of the packet, and the address of the host. -/
abbrev SentWords := Sent (List Word) (HostDesc × BitVec 32)

inductive SwitchCall
  | registerHost (hostDesc : HostDesc) (addr : BitVec 32) (port : Nat)
  | deregisterHost (port indeterminate : Nat)
  | tick (inp : SwitchTraffic)

section
variable {O : KeyOps (BitVec 32)} (W : CodeWords) (n : Nat) (addrOf : List Word → BitVec 32)
variable (fresh : Nat → Nat → Word)

def cbIbVoqsISLIPCreate (m : Memory Word) (hostsFresh : Nat → Nat → BitVec 64) (hostsMemory : Memory (BitVec 64))
    (portMatch : Nat → Nat) (portMatchActive : Nat → Bool) : NetworkSwitch O where
  memory := (createVoqs fresh m n).1
  voqs := (createVoqs fresh m n).2
  hosts := hostStart hostsFresh hostsMemory n
  pointers := Pointers.zero
  portMatch := portMatch
  portMatchActive := portMatchActive
  fault := none

def hostsCall (s : NetworkSwitch O) (c : HostCall) : NetworkSwitch O :=
  { s with
    hosts := (hostStep W s.hosts c).1
    fault := (hostStep W s.hosts c).1.fault.map SwitchFault.host }

def cbIbVoqsISLIPRegisterHost (s : NetworkSwitch O) (hostDesc : HostDesc) (addr : BitVec 32) (port : Nat) :
    NetworkSwitch O := hostsCall W s (.register hostDesc addr port)

def cbIbVoqsISLIPDeregisterHost (s : NetworkSwitch O) (port indeterminate : Nat) : NetworkSwitch O :=
  hostsCall W s (.deregister port indeterminate)

/-! ## Tick -/

/-- The round of the buffering loop for input `i`. -/
def bufferIn (inp : SwitchTraffic) (i : Nat) (s : NetworkSwitch O) : NetworkSwitch O :=
  if s.fault.isSome then s
  else
    match inp.traffic i with
    | none => s
    | some packet =>
      match hostTablePortLookup W s.hosts.table (addrOf packet) with
      | .error fault => { s with fault := some (.host fault) }
      | .ok none => s
      | .ok (some outputPort) =>
        let copy := s.memory.malloc (fun _ k => packet.getD k (.other 0)) packetWords
        match atVoq copy.1 s.voqs i outputPort fun queue => queueEnqueueIn fresh copy.1 queue (.addr copy.2) with
        | some m => { s with memory := m }
        | none => { s with fault := some .noQueue }

def packetAt (m : Memory Word) : Word → List Word
  | .addr block => m.blocks block
  | _ => []

def sendPacketIn (inp : SwitchTraffic) (portMapping : Nat → Nat) (host : HostDesc) (i j : Nat)
    (t : NetworkSwitch O × List SentWords) : NetworkSwitch O × List SentWords :=
  if t.1.fault.isSome then t
  else if portMapping j = i then
    match atVoq t.1.memory t.1.voqs j i (queueDequeueIn t.1.memory) with
    | some (m, word) =>
      ({ t.1 with memory := m }, t.2 ++ [⟨j, i, (host, inp.pointee host.addr), word.map (packetAt m)⟩])
    | none => ({ t.1 with fault := some .noQueue }, t.2)
  else t

/-- The round of the output loop for output `i`. A descriptor without a `send`
fails the assertion. -/
def sendToIn (inp : SwitchTraffic) (portMapping : Nat → Nat) (i : Nat) (t : NetworkSwitch O × List SentWords) :
    NetworkSwitch O × List SentWords :=
  if t.1.fault.isSome then t
  else
    match hostTableHostLookup t.1.hosts.table i with
    | .error fault => ({ t.1 with fault := some (.host fault) }, t.2)
    | .ok none => t
    | .ok (some host) =>
      if host.send = 0 then ({ t.1 with fault := some .noSend }, t.2)
      else forRange n (sendPacketIn inp portMapping host i) t

def voqSizeIn (s : NetworkSwitch O) (i j : Nat) : Option Nat := atVoq s.memory s.voqs i j (queueSizeIn s.memory)

def cbIbVoqsISLIPTick (s : NetworkSwitch O) (inp : SwitchTraffic) : NetworkSwitch O × List SentWords :=
  let s := forRange n (bufferIn W addrOf fresh inp) s
  if s.fault.isSome then (s, [])
  else
    match tryISLIPSchedule n (voqSizeIn s) s.pointers.grant s.pointers.accept with
    | none => ({ s with fault := some .noQueue }, [])
    | some sched =>
      let s := { s with
        pointers := ⟨sched.grantPtr, sched.acceptPtr⟩
        portMatch := sched.portMapping
        portMatchActive := sched.mappingActive }
      forRange n (sendToIn n inp sched.portMapping) (s, [])

/-- Its output is the calls of `send` that the call makes. -/
def switchStep (s : NetworkSwitch O) (c : SwitchCall) : NetworkSwitch O × List SentWords :=
  if s.fault.isSome then (s, [])
  else
    match c with
    | .registerHost hostDesc addr port => (cbIbVoqsISLIPRegisterHost W s hostDesc addr port, [])
    | .deregisterHost port indeterminate => (cbIbVoqsISLIPDeregisterHost W s port indeterminate, [])
    | .tick inp => cbIbVoqsISLIPTick W n addrOf fresh s inp

end

end SwitchSimulation
