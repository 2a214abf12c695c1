import SwitchSimulation.CreatedSwitch

/-!
# Delivery on the created switch

A tick of a switch that `cb_ib_voqs_iSLIP_create` has made never gets as far as
a call of `send`. With two ports or more the scheduler asks for the size of a
queue, and no pair of ports has one; with one port there are no rounds, but
the slot of the port does not lie in the block of the hosts.
-/

namespace SwitchSimulation

/-! ## The scheduler -/

section
variable {n : Nat} {voqSize : Nat → Nat → Option Nat}

theorem portIndex32_lt (hn : 0 < n) (ptr j : Nat) : portIndex32 n ptr j < n := Nat.mod_lt _ hn

/-- Where every pair of ports has a queue the scheduler is the one of the sizes. -/
theorem tryISLIPSchedule_eq {size : Nat → Nat → Nat} (h : ∀ i < n, ∀ j < n, voqSize i j = some (size i j))
    (grantPtr acceptPtr : Nat → Nat) :
    tryISLIPSchedule n voqSize grantPtr acceptPtr = some (iSLIPSchedule32 n size grantPtr acceptPtr) := by
  have hbody : ∀ i < n, ∀ j < n, ∀ t : Schedule × Bool,
      tryGrantBody n voqSize i j t = some (grantBody32 n size i j t) := by
    intro i hi j _ t
    have hsize := h _ (portIndex32_lt (Nat.zero_lt_of_lt hi) (t.1.grantPtr i) j) i hi
    unfold tryGrantBody grantBody32
    simp only [hsize, Option.map_some]
    split <;> rfl
  have houtput : ∀ i < n, ∀ s : Schedule, tryGrantOutput n voqSize i s = some (grantOutput32 n size i s) := by
    intro i hi s
    unfold tryGrantOutput grantOutput32
    rw [forTry_eq fun j hj t => ?_]
    · split <;> rfl
    · rw [hbody i hi j hj]
      exact (apply_ite some _ _ _).symm
  have hround : ∀ s : Schedule, tryISLIPRound n voqSize s = some (iSLIPRound32 n size s) := by
    intro s
    unfold tryISLIPRound tryGrantPhase
    rw [forTry_eq fun i hi t => houtput i hi t]
    rfl
  exact forTry_eq (fun _ _ s => hround s) _

/-- The first thing that the first round reads is a size. -/
theorem tryISLIPSchedule_none (hn : 2 ≤ n) (h : ∀ i < n, ∀ j < n, voqSize i j = none) (grantPtr acceptPtr : Nat → Nat) :
    tryISLIPSchedule n voqSize grantPtr acceptPtr = none := by
  have hpos : 0 < n := by omega
  have hbody : tryGrantBody n voqSize 0 0 (resetGrants (scheduleReset grantPtr acceptPtr), false) = none := by
    have hsize : voqSize (portIndex32 n (grantPtr 0) 0) 0 = none := h _ (portIndex32_lt hpos _ _) 0 hpos
    simp only [tryGrantBody, resetGrants, scheduleReset, hsize, if_true, Option.map_none]
  have houtput : tryGrantOutput n voqSize 0 (resetGrants (scheduleReset grantPtr acceptPtr)) = none := by
    unfold tryGrantOutput
    rw [forTry_fails hpos ((if_neg Bool.false_ne_true).trans hbody)]
    rfl
  refine forTry_fails (Nat.clog_pos (by decide) hn) ?_
  unfold tryISLIPRound tryGrantPhase
  rw [forTry_fails hpos houtput]
  rfl

theorem tryISLIPSchedule_one (hn : n ≤ 1) (grantPtr acceptPtr : Nat → Nat) :
    tryISLIPSchedule n voqSize grantPtr acceptPtr = some (scheduleReset grantPtr acceptPtr) := by
  unfold tryISLIPSchedule
  rw [show ISLIP_ROUNDS n = 0 from Nat.clog_of_right_le_one hn 2]
  rfl

end

/-! ## Queues that are not there -/

section
variable {fresh : Nat → Nat → Word} {m m' : Memory Word} {n voqs i : Nat}

theorem queueRead_none {block : Nat} (h : (m.blocks block).length ≠ 4) : queueRead m block = none := by
  unfold queueRead
  split
  · next he => rw [he] at h; exact absurd rfl h
  · rfl

/-- The blocks of the queues stay what they are when others are allocated. -/
theorem RowsMade.atVoq_none {β : Type*} {call : Nat → Option β} (h : RowsMade fresh n voqs n m)
    (hold : ∀ b < m.next, m'.blocks b = m.blocks b) (hi : i < n) (j : Nat)
    (hcall : ∀ queue, queueRead m' queue = none → call queue = none) : atVoq m' voqs i j call = none := by
  have hnext := h.next
  have hrow : rowQueue voqs i + 1 < m.next := by
    unfold rowQueue at hnext ⊢
    omega
  have hload : m'.load voqs i = m.load voqs i := by
    unfold Memory.load
    rw [hold voqs (by unfold rowQueue at hnext; omega)]
  have hvoq : SwitchSimulation.voqAt m' voqs i j = SwitchSimulation.voqAt m voqs i j := by
    unfold SwitchSimulation.voqAt
    rw [hload, h.row i hi]
    simp only [Memory.load, hold _ (Nat.lt_of_succ_lt hrow)]
  unfold atVoq
  rw [hvoq]
  split
  · next queue hv =>
    obtain rfl := h.addr hi hv
    apply hcall
    apply queueRead_none
    rw [hold _ hrow, h.elems i hi, List.length_map, List.length_range]
    decide
  · rfl

end

/-! ## Ticks -/

section
variable {O : KeyOps (BitVec 32)}

structure Created (fresh : Nat → Nat → Word) (n : Nat) (s : NetworkSwitch O) : Prop where
  hosts : HostInv n s.hosts
  rows : s.fault = none → RowsMade fresh n s.voqs n s.memory

variable {W : CodeWords} {n : Nat} {addrOf : List Word → BitVec 32} {fresh : Nat → Nat → Word}
variable {s : NetworkSwitch O} {inp : SwitchTraffic}

/-- The switch as it was, but for a fault. -/
def SameUpToFault (s t : NetworkSwitch O) : Prop := t = s ∨ ∃ fault, t = { s with fault := some fault }

theorem bufferIn_same (h : Created fresh n s) (hf : s.fault = none) {i : Nat} (hi : i < n) :
    SameUpToFault s (bufferIn W addrOf fresh inp i s) := by
  unfold bufferIn
  rw [if_neg (by rw [hf]; decide)]
  split
  · exact Or.inl rfl
  · next packet _ =>
    split
    · exact Or.inr ⟨_, rfl⟩
    · exact Or.inl rfl
    · next outputPort _ =>
      let m' := (s.memory.malloc (fun _ k => packet.getD k (.other 0)) packetWords).1
      have hold : ∀ b < s.memory.next, m'.blocks b = s.memory.blocks b :=
        fun b hb => Memory.malloc_old (Nat.ne_of_lt hb) _
      have hnone : (atVoq m' s.voqs i outputPort fun queue =>
          queueEnqueueIn fresh m' queue (.addr s.memory.next)) = none :=
        (h.rows hf).atVoq_none hold hi outputPort fun queue hq => by unfold queueEnqueueIn; rw [hq]; rfl
      simp only [Memory.malloc_snd, m', hnone] at hnone ⊢
      exact Or.inr ⟨_, rfl⟩

theorem bufferTrafficIn_same (h : Created fresh n s) (hf : s.fault = none) :
    SameUpToFault s (forRange n (bufferIn W addrOf fresh inp) s) := by
  apply forRange_keeps (SameUpToFault s) (Or.inl rfl)
  rintro i hi t (rfl | ⟨fault, rfl⟩)
  · exact bufferIn_same h hf hi
  · refine Or.inr ⟨fault, ?_⟩
    unfold bufferIn
    exact if_pos rfl

theorem voqSizeIn_none (h : Created fresh n s) (hf : s.fault = none) : ∀ i < n, ∀ j < n, voqSizeIn s i j = none :=
  fun _ hi j _ => (h.rows hf).atVoq_none (fun _ _ => rfl) hi j
    fun queue hq => by unfold queueSizeIn; rw [hq]; rfl

/-- The slot of the one port of a switch does not lie in the block of the hosts. -/
theorem hostLookup_one (h : HostInv 1 s.hosts) : hostTableHostLookup s.hosts.table 0 = .error .outsideBlock := by
  have hout : ¬ (s.hosts.table.active 0).isSome := by
    rw [active_isSome_iff h.law, h.ports]
    decide
  rw [hostTableHostLookup, Option.not_isSome_iff_eq_none.mp hout]
  rfl

/-- What a tick does to a switch as it was created. -/
structure Silent (n : Nat) (s : NetworkSwitch O) (r : NetworkSwitch O × List SentWords) : Prop where
  sends : r.2 = []
  fault : r.1.fault = none ↔ n = 0
  hosts : r.1.hosts = s.hosts
  voqs : r.1.voqs = s.voqs
  memory : r.1.memory = s.memory

theorem tick_silent (h : Created fresh n s) (hf : s.fault = none) (inp : SwitchTraffic) :
    Silent n s (cbIbVoqsISLIPTick W n addrOf fresh s inp) := by
  have hfault : ∀ fault : SwitchFault, n ≠ 0 → (some fault = none ↔ n = 0) :=
    fun fault hn => iff_of_false (Option.some_ne_none fault) hn
  unfold cbIbVoqsISLIPTick
  have hsame : SameUpToFault s (forRange n (bufferIn W addrOf fresh inp) s) := bufferTrafficIn_same h hf
  rcases hsame with he | ⟨fault, he⟩
  · simp only [he, hf, Option.isSome_none, Bool.false_eq_true, if_false]
    by_cases hn : 2 ≤ n
    · rw [tryISLIPSchedule_none hn (voqSizeIn_none h hf)]
      exact ⟨rfl, hfault _ (by omega), rfl, rfl, rfl⟩
    · rw [tryISLIPSchedule_one (by omega)]
      obtain rfl | rfl : n = 0 ∨ n = 1 := by omega
      · exact ⟨rfl, iff_of_true rfl rfl, rfl, rfl, rfl⟩
      · simp only [forRange, sendToIn, hostLookup_one h.hosts, Option.isSome_none, Bool.false_eq_true, if_false]
        exact ⟨rfl, hfault _ (by decide), rfl, rfl, rfl⟩
  · simp only [he, Option.isSome_some, if_true]
    refine ⟨rfl, hfault _ ?_, rfl, rfl, rfl⟩
    rintro rfl
    have := congrArg NetworkSwitch.fault he
    rw [forRange_zero, hf] at this
    cases this

/-! ## Runs -/

theorem hostsCall_created (h : Created fresh n s) (hf : s.fault = none) (c : HostCall) :
    Created fresh n (hostsCall W s c) := ⟨hostStep_inv h.hosts c, fun _ => h.rows hf⟩

theorem switchStep_created (h : Created fresh n s) (c : SwitchCall) :
    Created fresh n (switchStep W n addrOf fresh s c).1 ∧ (switchStep W n addrOf fresh s c).2 = [] := by
  unfold switchStep
  by_cases hf : s.fault = none
  · rw [if_neg (by rw [hf]; decide)]
    cases c with
    | registerHost hostDesc addr port => exact ⟨hostsCall_created h hf _, rfl⟩
    | deregisterHost port indeterminate => exact ⟨hostsCall_created h hf _, rfl⟩
    | tick inp =>
      have hsilent : Silent n s (cbIbVoqsISLIPTick W n addrOf fresh s inp) := tick_silent h hf inp
      refine ⟨⟨?_, fun _ => ?_⟩, hsilent.sends⟩
      · simp only [hsilent.hosts]
        exact h.hosts
      · simp only [hsilent.voqs, hsilent.memory]
        exact h.rows hf
  · rw [if_pos (Option.isSome_iff_ne_none.mpr hf)]
    exact ⟨h, rfl⟩

theorem fault_sticks {t : NetworkSwitch O} (h : t.fault ≠ none) (calls : List SwitchCall) :
    (exec (switchStep W n addrOf fresh) t calls).fault ≠ none := by
  refine exec_inv (fun t : NetworkSwitch O => t.fault ≠ none) (fun t c ht => ?_) h calls
  unfold switchStep
  rw [if_pos (Option.isSome_iff_ne_none.mpr ht)]
  exact ht

theorem tick_stops (hn : n ≠ 0) {calls : List SwitchCall} (hin : SwitchCall.tick inp ∈ calls) (h : Created fresh n s) :
    (exec (switchStep W n addrOf fresh) s calls).fault ≠ none := by
  induction calls generalizing s with
  | nil => exact absurd hin List.not_mem_nil
  | cons c calls ih =>
    rw [exec_cons]
    cases List.mem_cons.mp hin with
    | inl he =>
      apply fault_sticks
      rw [← he]
      unfold switchStep
      by_cases hf : s.fault = none
      · rw [if_neg (by rw [hf]; decide)]
        exact fun hr => hn ((tick_silent h hf inp).fault.mp hr)
      · rw [if_pos (Option.isSome_iff_ne_none.mpr hf)]
        exact hf
    | inr hin => exact ih hin (switchStep_created h c).1

structure NoPorts (fresh : Nat → Nat → Word) (s : NetworkSwitch O) : Prop where
  created : Created fresh 0 s
  fault : s.fault = none
  hosts : s.hosts.fault = none

theorem hostsCall_noPorts (h : NoPorts fresh s) (c : HostCall) : NoPorts fresh (hostsCall W s c) := by
  have hsame : (hostsCall W s c).hosts = s.hosts := hostStep_no_ports h.created.hosts h.hosts c
  have hfault : (hostsCall W s c).hosts.fault = none := by rw [hsame, h.hosts]
  refine ⟨hostsCall_created h.created h.fault c, ?_, hfault⟩
  exact congrArg (Option.map SwitchFault.host) hfault

theorem switchStep_noPorts (h : NoPorts fresh s) (c : SwitchCall) :
    NoPorts fresh (switchStep W 0 addrOf fresh s c).1 := by
  have hcreated : Created fresh 0 (switchStep W 0 addrOf fresh s c).1 := (switchStep_created h.created c).1
  unfold switchStep at hcreated ⊢
  rw [if_neg (by rw [h.fault]; decide)] at hcreated ⊢
  cases c with
  | registerHost hostDesc addr port => exact hostsCall_noPorts h _
  | deregisterHost port indeterminate => exact hostsCall_noPorts h _
  | tick inp =>
    have hsilent : Silent 0 s (cbIbVoqsISLIPTick W 0 addrOf fresh s inp) := tick_silent h.created h.fault inp
    refine ⟨hcreated, hsilent.fault.mpr rfl, ?_⟩
    simp only [hsilent.hosts]
    exact h.hosts

theorem create_created (m : Memory Word) (hostsFresh : Nat → Nat → BitVec 64) (hostsMemory : Memory (BitVec 64))
    (portMatch : Nat → Nat) (portMatchActive : Nat → Bool) : Created fresh n
      (cbIbVoqsISLIPCreate n fresh m hostsFresh hostsMemory portMatch portMatchActive : NetworkSwitch O) :=
  ⟨hostStart_inv hostsFresh hostsMemory n, fun _ => createVoqs_made fresh m n⟩

/-- The packet is for the host that it is sent to. NULL is no packet. -/
def RightHost (O : KeyOps (BitVec 32)) (addrOf : List Word → BitVec 32) (m : SentWords) : Prop :=
  ∀ packet ∈ m.packet, O.compare (addrOf packet) m.host.2 = .EQ

def AllRight (O : KeyOps (BitVec 32)) (addrOf : List Word → BitVec 32) (log : List (List SentWords)) : Prop :=
  ∀ sends ∈ log, ∀ m ∈ sends, RightHost O addrOf m

theorem switchStep_outs (h : Created fresh n s) (calls : List SwitchCall) :
    ∀ sends ∈ outs (switchStep W n addrOf fresh) s calls, sends = [] :=
  (meets_true s calls).outs (Created fresh n) (fun _ c h _ => switchStep_created h c) h

end

end SwitchSimulation
