import SwitchSimulation.Buckets
import SwitchSimulation.Custody
import SwitchSimulation.SwitchBacklog

/-!
# The packets of a tick in memory

A tick copies each packet that it can file into a block of its own and frees
the packet it was given. A copy is freed behind the call of `send` that it is
dequeued for; a NULL that is dequeued is passed to `free` to no effect.
-/

namespace SwitchSimulation

structure PacketCopy (Packet : Type*) where
  block : Nat
  bytes : Packet

/-- The copies below `next` are those allocated so far. `freed` and `freedTraffic`
list the arguments of `free` among the copies and among the packets given. -/
structure PacketStore (Packet : Type*) where
  voqs : Nat → Nat → List (PacketCopy Packet)
  next : Nat
  freed : List Nat
  freedTraffic : List Packet

structure PacketSwitch (Packet : Type*) where
  store : PacketStore Packet
  pointers : Pointers
  portMatch : Nat → Nat
  portMatchActive : Nat → Bool

section
variable {Packet Addr Host : Type*}

/-- A switch with an empty queue of its own for each `voqs[i][j]`. -/
def emptyPacketSwitch (portMatch : Nat → Nat) (portMatchActive : Nat → Bool) : PacketSwitch Packet :=
  ⟨⟨fun _ _ => [], 0, [], []⟩, Pointers.zero, portMatch, portMatchActive⟩

variable (n : Nat) (addrOf : Packet → Addr)

/-! ## Buffering -/

def bufferCopy (inp : TickInput Packet Addr Host) (i : Nat) (t : PacketStore Packet) : PacketStore Packet :=
  match inp.traffic i with
  | none => t
  | some packet =>
    match inp.portLookup (addrOf packet) with
    | none => { t with freedTraffic := t.freedTraffic ++ [packet] }
    | some outputPort =>
      { t with
        voqs := setVoq t.voqs i outputPort (t.voqs i outputPort ++ [⟨t.next, packet⟩])
        next := t.next + 1
        freedTraffic := t.freedTraffic ++ [packet] }

def bufferCopies (inp : TickInput Packet Addr Host) (t : PacketStore Packet) : PacketStore Packet :=
  forRange n (bufferCopy addrOf inp) t

/-! ## Output -/

def sendCopy (portMapping : Nat → Nat) (host : Host) (i j : Nat)
    (t : PacketStore Packet × List (Sent (PacketCopy Packet) Host)) :
    PacketStore Packet × List (Sent (PacketCopy Packet) Host) :=
  if portMapping j = i then
    ({ t.1 with
        voqs := setVoq t.1.voqs j i (t.1.voqs j i).tail
        freed := t.1.freed ++ (t.1.voqs j i).head?.toList.map PacketCopy.block },
      t.2 ++ [⟨j, i, host, (t.1.voqs j i).head?⟩])
  else t

def sendCopiesTo (q : Nat) (portMapping : Nat → Nat) (inp : TickInput Packet Addr Host) (i : Nat)
    (t : PacketStore Packet × List (Sent (PacketCopy Packet) Host)) :
    PacketStore Packet × List (Sent (PacketCopy Packet) Host) :=
  match inp.hostLookup i with
  | none => t
  | some host => forRange q (sendCopy portMapping host i) t

def outputCopies (portMapping : Nat → Nat) (inp : TickInput Packet Addr Host) (t : PacketStore Packet) :
    PacketStore Packet × List (Sent (PacketCopy Packet) Host) :=
  forRange n (sendCopiesTo n portMapping inp) (t, [])

/-! ## Tick -/

def packetTick (s : PacketSwitch Packet) (inp : TickInput Packet Addr Host) :
    PacketSwitch Packet × List (Sent (PacketCopy Packet) Host) :=
  let store := bufferCopies n addrOf inp s.store
  let sched := schedule n s.pointers fun i j => (store.voqs i j).length
  let t := outputCopies n sched.portMapping inp store
  (⟨t.1, ⟨sched.grantPtr, sched.acceptPtr⟩, sched.portMapping, sched.mappingActive⟩, t.2)

end

section
variable {Packet Addr Host : Type*} {n : Nat} {addrOf : Packet → Addr} {inp : TickInput Packet Addr Host}
variable {voqs : Nat → Nat → List (PacketCopy Packet)} {t : PacketStore Packet} {s : PacketSwitch Packet}

theorem bufferCopy_none {i : Nat} (hp : inp.traffic i = none) : bufferCopy addrOf inp i t = t := by
  unfold bufferCopy
  rw [hp]

theorem bufferCopy_unknown {i : Nat} {packet : Packet} (hp : inp.traffic i = some packet)
    (ho : inp.portLookup (addrOf packet) = none) :
    bufferCopy addrOf inp i t = { t with freedTraffic := t.freedTraffic ++ [packet] } := by
  unfold bufferCopy
  simp only [hp, ho]

theorem bufferCopy_filed {i o : Nat} {packet : Packet} (hp : inp.traffic i = some packet)
    (ho : inp.portLookup (addrOf packet) = some o) : bufferCopy addrOf inp i t =
      ⟨setVoq t.voqs i o (t.voqs i o ++ [⟨t.next, packet⟩]), t.next + 1, t.freed, t.freedTraffic ++ [packet]⟩ := by
  unfold bufferCopy
  simp only [hp, ho]

/-- What every call of `send` with the `free` behind it keeps, the output loops keep. -/
theorem outputCopies_keeps (P : PacketStore Packet × List (Sent (PacketCopy Packet) Host) → Prop)
    {portMapping : Nat → Nat}
    (hs : ∀ i < n, ∀ j < n, ∀ (host : Host) u, P u → P (sendCopy portMapping host i j u)) (h : P (t, [])) :
    P (outputCopies n portMapping inp t) := by
  apply forRange_keeps P h
  intro i hi u hu
  unfold sendCopiesTo
  cases inp.hostLookup i with
  | none => exact hu
  | some host => exact forRange_keeps P hu fun j hj u hu => hs i hi j hj host u hu

/-! ## Custody of the copies -/

def heldCopies (n : Nat) (voqs : Nat → Nat → List (PacketCopy Packet)) : List Nat :=
  gather n fun i => gather n fun j => (voqs i j).map PacketCopy.block

/-- Every copy allocated has been freed once or waits in one place of one queue. -/
def CopyCustody (n : Nat) (t : PacketStore Packet) : Prop :=
  Custody (List.range t.next) t.freed (heldCopies n t.voqs)

theorem heldCopies_setVoq (voqs : Nat → Nat → List (PacketCopy Packet)) (i j : Nat)
    (queue : List (PacketCopy Packet)) : heldCopies n (setVoq voqs i j queue) =
      gather n (Function.update (fun i => gather n fun j => (voqs i j).map PacketCopy.block) i
        (gather n (Function.update (fun j => (voqs i j).map PacketCopy.block) j (queue.map PacketCopy.block)))) := by
  apply gather_congr
  intro x _
  by_cases hx : x = i
  · subst hx
    rw [Function.update_self]
    apply gather_congr
    intro o _
    unfold setVoq
    rw [Function.update_self]
    by_cases ho : o = j
    · rw [ho, Function.update_self, Function.update_self]
    · rw [Function.update_of_ne ho, Function.update_of_ne ho]
  · unfold setVoq
    rw [Function.update_of_ne hx, Function.update_of_ne hx]

theorem heldCopies_enqueue {i j : Nat} (hi : i < n) (hj : j < n) (copy : PacketCopy Packet) :
    (heldCopies n (setVoq voqs i j (voqs i j ++ [copy]))).Perm (copy.block :: heldCopies n voqs) := by
  rw [heldCopies_setVoq, List.map_append]
  exact gather_add hi (gather_add hj (List.perm_append_singleton _ _))

theorem heldCopies_dequeue {i j : Nat} (hi : i < n) (hj : j < n) {copy : PacketCopy Packet}
    {rest : List (PacketCopy Packet)} (hq : voqs i j = copy :: rest) :
    (heldCopies n voqs).Perm (copy.block :: heldCopies n (setVoq voqs i j rest)) := by
  rw [heldCopies_setVoq]
  refine gather_sub hi (gather_sub hj ?_)
  rw [hq, List.map_cons]

theorem bufferCopy_custody {i : Nat} (hi : i < n) (hk : KnownPorts n inp) (h : CopyCustody n t) :
    CopyCustody n (bufferCopy addrOf inp i t) := by
  cases hp : inp.traffic i with
  | none => rw [bufferCopy_none hp]; exact h
  | some packet =>
    cases ho : inp.portLookup (addrOf packet) with
    | none => rw [bufferCopy_unknown hp ho]; exact h
    | some outputPort =>
      have hnew : t.next ∉ List.range t.next := fun hin => Nat.lt_irrefl _ (List.mem_range.mp hin)
      rw [bufferCopy_filed hp ho]
      exact ((Custody.add h hnew).perm (heldCopies_enqueue hi (hk _ _ ho) ⟨t.next, packet⟩).symm).range_succ

theorem sendCopy_custody {portMapping : Nat → Nat} {host : Host} {i j : Nat} (hi : i < n) (hj : j < n)
    {u : PacketStore Packet × List (Sent (PacketCopy Packet) Host)} (h : CopyCustody n u.1) :
    CopyCustody n (sendCopy portMapping host i j u).1 := by
  unfold sendCopy
  by_cases hm : portMapping j = i
  · rw [if_pos hm]
    cases hq : u.1.voqs j i with
    | nil =>
      have hsame : setVoq u.1.voqs j i [] = u.1.voqs := by
        funext x o
        rw [setVoq_apply]
        by_cases hxo : x = j ∧ o = i
        · rw [if_pos hxo, hxo.1, hxo.2, hq]
        · rw [if_neg hxo]
      unfold CopyCustody
      simp only [List.tail_nil, List.head?_nil, Option.toList_none, List.map_nil, List.append_nil, hsame]
      exact h
    | cons copy rest => exact (Custody.perm h (heldCopies_dequeue hj hi hq)).free
  · rw [if_neg hm]
    exact h

theorem packetTick_custody (hk : KnownPorts n inp) (h : CopyCustody n s.store) :
    CopyCustody n (packetTick n addrOf s inp).1.store := by
  have hbuffer : CopyCustody n (bufferCopies n addrOf inp s.store) :=
    forRange_keeps (CopyCustody n) h fun i hi t ht => bufferCopy_custody hi hk ht
  exact outputCopies_keeps (fun u => CopyCustody n u.1) (fun i hi j hj host u hu => sendCopy_custody hi hj hu) hbuffer

/-! ## The packets given -/

/-- The packets that the ticks were given, in the order of the inputs. -/
def given (n : Nat) (ticks : List (TickInput Packet Addr Host)) : List Packet :=
  ticks.flatMap fun inp => (List.range n).filterMap inp.traffic

theorem bufferCopies_traffic (t : PacketStore Packet) : (bufferCopies n addrOf inp t).freedTraffic =
    t.freedTraffic ++ (List.range n).filterMap inp.traffic := by
  unfold bufferCopies
  apply forRange_inv fun k (u : PacketStore Packet) =>
    u.freedTraffic = t.freedTraffic ++ (List.range k).filterMap inp.traffic
  · exact (List.append_nil _).symm
  · intro k _ u hu
    rw [List.range_succ, List.filterMap_append, ← List.append_assoc, ← hu]
    cases hp : inp.traffic k with
    | none => rw [bufferCopy_none hp, List.filterMap_cons_none hp, List.filterMap_nil, List.append_nil]
    | some packet =>
      rw [List.filterMap_cons_some hp, List.filterMap_nil]
      cases ho : inp.portLookup (addrOf packet) with
      | none => rw [bufferCopy_unknown hp ho]
      | some outputPort => rw [bufferCopy_filed hp ho]

theorem sendCopy_traffic (portMapping : Nat → Nat) (host : Host) (i j : Nat)
    (u : PacketStore Packet × List (Sent (PacketCopy Packet) Host)) :
    (sendCopy portMapping host i j u).1.freedTraffic = u.1.freedTraffic := by
  unfold sendCopy
  split <;> rfl

theorem packetTick_traffic (s : PacketSwitch Packet) : (packetTick n addrOf s inp).1.store.freedTraffic =
    s.store.freedTraffic ++ (List.range n).filterMap inp.traffic := by
  rw [← bufferCopies_traffic]
  exact outputCopies_keeps (fun u => u.1.freedTraffic = _) (fun i _ j _ host u hu => (sendCopy_traffic ..).trans hu)
    rfl

theorem packetRun_traffic (ticks : List (TickInput Packet Addr Host)) (s : PacketSwitch Packet) :
    (exec (packetTick n addrOf) s ticks).store.freedTraffic = s.store.freedTraffic ++ given n ticks := by
  induction ticks generalizing s with
  | nil => exact (List.append_nil _).symm
  | cons inp ticks ih =>
    rw [exec_cons, ih, packetTick_traffic, List.append_assoc]
    rfl

/-! ## What is freed is what was sent -/

def sentBlocks (sends : List (Sent (PacketCopy Packet) Host)) : List Nat :=
  sends.flatMap fun m => m.packet.toList.map PacketCopy.block

theorem bufferCopies_freed (t : PacketStore Packet) : (bufferCopies n addrOf inp t).freed = t.freed := by
  apply forRange_keeps (fun u : PacketStore Packet => u.freed = t.freed) rfl
  intro i _ u hu
  cases hp : inp.traffic i with
  | none => rw [bufferCopy_none hp]; exact hu
  | some packet =>
    cases ho : inp.portLookup (addrOf packet) with
    | none => rw [bufferCopy_unknown hp ho]; exact hu
    | some outputPort => rw [bufferCopy_filed hp ho]; exact hu

theorem sendCopy_freed {portMapping : Nat → Nat} {host : Host} {i j : Nat} {freed : List Nat}
    {u : PacketStore Packet × List (Sent (PacketCopy Packet) Host)} (h : u.1.freed = freed ++ sentBlocks u.2) :
    (sendCopy portMapping host i j u).1.freed = freed ++ sentBlocks (sendCopy portMapping host i j u).2 := by
  unfold sendCopy
  by_cases hm : portMapping j = i
  · rw [if_pos hm]
    unfold sentBlocks at h ⊢
    simp only [h, List.flatMap_append, List.flatMap_singleton, List.append_assoc]
  · rw [if_neg hm]
    exact h

theorem packetTick_freed (s : PacketSwitch Packet) : (packetTick n addrOf s inp).1.store.freed =
    s.store.freed ++ sentBlocks (packetTick n addrOf s inp).2 := by
  have hbuffer : (bufferCopies n addrOf inp s.store).freed = s.store.freed := bufferCopies_freed s.store
  exact outputCopies_keeps (fun u => u.1.freed = s.store.freed ++ sentBlocks u.2)
    (fun i _ j _ host u hu => sendCopy_freed hu) (hbuffer.trans (List.append_nil _).symm)

theorem packetRun_freed (ticks : List (TickInput Packet Addr Host)) (s : PacketSwitch Packet) :
    (exec (packetTick n addrOf) s ticks).store.freed =
      s.store.freed ++ (outs (packetTick n addrOf) s ticks).flatMap sentBlocks := by
  induction ticks generalizing s with
  | nil => exact (List.append_nil _).symm
  | cons inp ticks ih => rw [exec_cons, ih, packetTick_freed, outs_cons, List.flatMap_cons, List.append_assoc]

/-! ## Forgetting the blocks -/

def bytesOf (voqs : Nat → Nat → List (PacketCopy Packet)) : Nat → Nat → List Packet :=
  fun i j => (voqs i j).map PacketCopy.bytes

def Sent.bytes (m : Sent (PacketCopy Packet) Host) : Sent Packet Host :=
  ⟨m.input, m.output, m.host, m.packet.map PacketCopy.bytes⟩

def PacketSwitch.bytes (s : PacketSwitch Packet) : Switch Packet :=
  ⟨bytesOf s.store.voqs, s.pointers, s.portMatch, s.portMatchActive⟩

theorem bytesOf_setVoq (voqs : Nat → Nat → List (PacketCopy Packet)) (i j : Nat)
    (queue : List (PacketCopy Packet)) :
    bytesOf (setVoq voqs i j queue) = setVoq (bytesOf voqs) i j (queue.map PacketCopy.bytes) := by
  funext x o
  unfold bytesOf
  rw [setVoq_apply, setVoq_apply]
  exact apply_ite (List.map PacketCopy.bytes) _ _ _

theorem bufferCopy_bytes (i : Nat) (t : PacketStore Packet) :
    bytesOf (bufferCopy addrOf inp i t).voqs = bufferPacket addrOf inp i (bytesOf t.voqs) := by
  unfold bufferPacket
  cases hp : inp.traffic i with
  | none => rw [bufferCopy_none hp]
  | some packet =>
    cases ho : inp.portLookup (addrOf packet) with
    | none =>
      rw [bufferCopy_unknown hp ho]
      simp only [ho]
    | some outputPort =>
      rw [bufferCopy_filed hp ho, bytesOf_setVoq, List.map_append]
      simp only [ho]
      rfl

theorem bufferCopies_bytes (t : PacketStore Packet) :
    bytesOf (bufferCopies n addrOf inp t).voqs = bufferTraffic addrOf n inp (bytesOf t.voqs) :=
  forRange_map (fun t : PacketStore Packet => bytesOf t.voqs) (fun i _ t => bufferCopy_bytes i t) t

/-- What the output loops of `Switch` work on. -/
def stageBytes (u : PacketStore Packet × List (Sent (PacketCopy Packet) Host)) :
    (Nat → Nat → List Packet) × List (Sent Packet Host) := (bytesOf u.1.voqs, u.2.map Sent.bytes)

theorem sendCopy_bytes (portMapping : Nat → Nat) (host : Host) (i j : Nat)
    (u : PacketStore Packet × List (Sent (PacketCopy Packet) Host)) :
    stageBytes (sendCopy portMapping host i j u) = sendPacket portMapping host i j (stageBytes u) := by
  unfold sendCopy sendPacket
  by_cases hm : portMapping j = i
  · rw [if_pos hm, if_pos hm]
    unfold stageBytes
    rw [bytesOf_setVoq, List.map_append, List.map_tail]
    simp only [bytesOf, List.head?_map]
    rfl
  · rw [if_neg hm, if_neg hm]

theorem outputCopies_bytes (portMapping : Nat → Nat) (t : PacketStore Packet) :
    stageBytes (outputCopies n portMapping inp t) = outputPackets n n portMapping inp (bytesOf t.voqs) := by
  refine forRange_map stageBytes (fun i _ u => ?_) (t, [])
  unfold sendCopiesTo sendTo
  cases inp.hostLookup i with
  | none => rfl
  | some host => exact forRange_map stageBytes (fun j _ u => sendCopy_bytes portMapping host i j u) u

theorem packetTick_bytes (s : PacketSwitch Packet) :
    (packetTick n addrOf s inp).1.bytes = (switchTick n addrOf s.bytes inp).1 ∧
      (packetTick n addrOf s inp).2.map Sent.bytes = (switchTick n addrOf s.bytes inp).2 := by
  let sched := tickSchedule n addrOf s.bytes inp
  have hbuffer : bytesOf (bufferCopies n addrOf inp s.store).voqs =
      bufferTraffic addrOf n inp s.bytes.voqs := bufferCopies_bytes s.store
  have hsched : (schedule n s.pointers fun i j => ((bufferCopies n addrOf inp s.store).voqs i j).length) = sched := by
    unfold sched tickSchedule
    rw [← hbuffer]
    simp only [bytesOf, List.length_map]
    rfl
  have houtput : stageBytes (outputCopies n sched.portMapping inp (bufferCopies n addrOf inp s.store)) =
      outputPackets n n sched.portMapping inp (bufferTraffic addrOf n inp s.bytes.voqs) :=
    hbuffer ▸ outputCopies_bytes sched.portMapping _
  unfold packetTick
  simp only [hsched]
  constructor
  · exact congrArg (fun voqs => (⟨voqs, ⟨sched.grantPtr, sched.acceptPtr⟩, sched.portMapping, sched.mappingActive⟩ :
      Switch Packet)) (congrArg Prod.fst houtput)
  · exact congrArg Prod.snd houtput

end

/-- In every run each copy of a packet has been freed once or waits in one queue;
those freed are those sent, in order; each packet that was given has been freed
in its tick; and what is sent is what a switch sends that does not copy. -/
theorem packet_memory {Packet Addr Host : Type*} (n : Nat) (addrOf : Packet → Addr) (portMatch : Nat → Nat)
    (portMatchActive : Nat → Bool) (ticks : List (TickInput Packet Addr Host))
    (hk : ∀ inp ∈ ticks, KnownPorts n inp) :
    let s := emptyPacketSwitch portMatch portMatchActive
    Always (packetTick n addrOf) (fun s => CopyCustody n s.store) s ticks ∧
      (exec (packetTick n addrOf) s ticks).store.freed = (outs (packetTick n addrOf) s ticks).flatMap sentBlocks ∧
      (exec (packetTick n addrOf) s ticks).store.freedTraffic = given n ticks ∧
      (outs (packetTick n addrOf) s ticks).map (List.map Sent.bytes) =
        outs (switchTick n addrOf) (emptySwitch portMatch portMatchActive) ticks := by
  intro s
  have hm : Meets (packetTick n addrOf) (fun _ inp => KnownPorts n inp) s ticks := meets_inputs.mpr hk
  have hstart : CopyCustody n s.store := by
    have hnil : heldCopies n s.store.voqs = [] := (gather_congr fun _ _ => gather_nil n).trans (gather_nil n)
    unfold CopyCustody
    rw [hnil]
    exact Custody.empty
  refine ⟨hm.always (fun s => CopyCustody n s.store) (fun s inp h hinp => packetTick_custody hinp h) hstart,
    packetRun_freed ticks s, packetRun_traffic ticks s, ?_⟩
  have hrun := sim_run_view (fun s a => s.bytes = a) id (List.map Sent.bytes) id
    (fun s a inp h _ => h ▸ packetTick_bytes s) (show s.bytes = emptySwitch portMatch portMatchActive from rfl) hm
  simpa only [List.map_id] using hrun.2

section

theorem packet_memory_burst :
    Custody (List.range 2) [0] (heldCopies 2
      (exec (packetTick 2 id) (emptyPacketSwitch (fun _ => 0) fun _ => false)
        [openTick fun _ => some 1]).store.voqs) :=
  ((packet_memory 2 id (fun _ => 0) (fun _ => false) [openTick fun _ => some 1] fun inp hinp => by
    rw [List.mem_singleton.mp hinp]
    exact openTick_known _).1).last

end

end SwitchSimulation
