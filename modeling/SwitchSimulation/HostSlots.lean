import SwitchSimulation.HostTableAgreement

/-!
# The slots of the host table

What a caller goes by is the descriptor that was given for each port. The last
slot of a table never lies in the block of the hosts. In a slot that does, the
flag `active` is 0 when the slot is active, a lookup takes any other value for
active, and nothing sets the flags of a new table; so a slot says what was
given only where nothing is given, and the results of the calls are right only
where the flags happen to be.
-/

namespace SwitchSimulation

section
variable {O : KeyOps (BitVec 32)}

/-- The descriptor without its flag. -/
def HostDesc.host (hostDesc : HostDesc) : BitVec 64 × BitVec 64 × BitVec 64 × BitVec 64 :=
  (hostDesc.data, hostDesc.addr, hostDesc.send, hostDesc.addrFree)

/-- A lookup of the port yields what was given for it. -/
def SlotRight (s : HostState O) (p : Nat) : Prop :=
  ∃ r, hostTableHostLookup s.table p = .ok r ∧ r.map HostDesc.host = (s.given p).map fun g => g.1.host

def SlotLaw (s : HostState O) : Prop := s.fault = none ∧ ∀ p < s.table.numPorts, SlotRight s p

/-- The law for one port. -/
def SlotLawAt (p : Nat) (s : HostState O) : Prop := s.fault = none ∧ SlotRight s p

variable {s : HostState O} {n p : Nat}

theorem slot_isSome {t : HostTable O} (h : (t.active p).isSome) : ∃ hostDesc, t.slot p = some hostDesc := by
  have hword : ∀ k ≤ 4, ∃ word, t.slotWord p k = some word := by
    intro k hk
    rw [active_isSome] at h
    apply Option.isSome_iff_exists.mp
    unfold HostTable.slotWord
    rw [Memory.load_isSome]
    omega
  obtain ⟨data, h0⟩ := hword 0 (by decide)
  obtain ⟨addr, h1⟩ := hword 1 (by decide)
  obtain ⟨send, h2⟩ := hword 2 (by decide)
  obtain ⟨addrFree, h3⟩ := hword 3 (by decide)
  obtain ⟨active, h4⟩ := hword 4 (by decide)
  exact ⟨⟨data, addr, send, addrFree, active⟩, by rw [HostTable.slot, h0, h1, h2, h3, h4]⟩

theorem hostLookup_of_active {t : HostTable O} (h : t.active p = some HOST_DESC_ACTIVE) :
    hostTableHostLookup t p = .ok none := by
  rw [hostTableHostLookup, h]
  rfl

theorem hostLookup_of_ne {t : HostTable O} (hin : (t.active p).isSome) (h : t.active p ≠ some HOST_DESC_ACTIVE) :
    ∃ hostDesc, hostTableHostLookup t p = .ok (some hostDesc) := by
  obtain ⟨a, ha⟩ := Option.isSome_iff_exists.mp hin
  obtain ⟨hostDesc, hd⟩ := slot_isSome hin
  refine ⟨hostDesc, ?_⟩
  rw [hostTableHostLookup, ha, inBlock, Except.bind, hd]
  exact if_pos fun he => h (by rw [ha, he]; rfl)

/-- The test of the flag is the wrong way round, so a slot is right only where nothing was given. -/
theorem slotRight_iff (h : HostInv n s) (hin : (s.table.active p).isSome) :
    SlotRight s p ↔ s.given p = none ∧ s.table.active p = some HOST_DESC_ACTIVE := by
  unfold SlotRight
  by_cases ha : s.table.active p = some HOST_DESC_ACTIVE
  · rw [hostLookup_of_active ha]
    cases s.given p <;> simp [ha]
  · obtain ⟨hostDesc, hl⟩ := hostLookup_of_ne hin ha
    rw [hl]
    cases hg : s.given p with
    | none => simp [ha]
    | some g => exact absurd (h.active p g hg) ha

theorem slotRight_outside (hout : ¬ (s.table.active p).isSome) : ¬ SlotRight s p := by
  intro ⟨r, hr, _⟩
  rw [hostTableHostLookup, Option.not_isSome_iff_eq_none.mp hout] at hr
  cases hr

/-! ## Steps -/

def HostCall.Keeps (p : Nat) : HostCall → Prop
  | .register _ _ _ => True
  | .deregister port _ => port ≠ p

variable {W : CodeWords} {c : HostCall}

theorem fault_of_step (h : (hostStep W s c).1.fault = none) : s.fault = none := by
  cases hf : s.fault with
  | none => rfl
  | some fault =>
    rw [hostStep_of_fault hf, hf] at h
    cases h

/-- What a call leaves alone. -/
theorem hostStep_frame (h : HostInv n s) (hp : c.Accepted s.table → c.port ≠ p) :
    (hostStep W s c).1.given p = s.given p ∧ (hostStep W s c).1.table.active p = s.table.active p := by
  obtain ⟨fault, hs⟩ | ⟨hostDesc, addr, port, t', rfl, hc, hfill, hs⟩ | ⟨port, indeterminate, rfl, hc, hs⟩ :=
    hostStep_cases (W := W) h.law c
  · rw [hs]
    exact ⟨rfl, rfl⟩
  · have hne : p ≠ port := (hp hc).symm
    rw [hs]
    exact ⟨Function.update_of_ne hne .., (hfill.active p).trans (if_neg hne)⟩
  · have hne : p ≠ port := (hp hc).symm
    have hin : (s.table.active port).isSome := hc.in_block
    rw [hs]
    exact ⟨Function.update_of_ne hne .., (active_setActive hin _ p).trans (if_neg hne)⟩

/-- An accepted deregister call that returns leaves the flag as inactive. -/
theorem deregister_inactive (h : HostInv n s) {port indeterminate : Nat}
    (hc : (HostCall.deregister port indeterminate).Accepted s.table)
    (hf : (hostStep W s (.deregister port indeterminate)).1.fault = none) :
    (hostStep W s (.deregister port indeterminate)).1.table.active port = some HOST_DESC_INACTIVE := by
  have hs := fault_of_step hf
  have hin : (s.table.active port).isSome := hc.in_block
  by_cases hm : s.table.KeyMissing port
  · rw [hostStep_deregister hs h.law hc hm]
    exact (active_setActive hin _ port).trans (if_pos rfl)
  · rw [hostStep_key_found hs h.law hc hm] at hf
    cases hf

theorem hostStep_slotLaw (h : HostInv n s) (hin : (s.table.active p).isSome) (hl : SlotLawAt p s) (c : HostCall) :
    SlotLawAt p (hostStep W s c).1 ↔ (hostStep W s c).1.fault = none ∧ c.Keeps p := by
  refine and_congr_right fun hf => ?_
  obtain ⟨hnone, hactive⟩ := (slotRight_iff h hin).mp hl.2
  have hkeep (hp : c.Accepted s.table → c.port ≠ p) : SlotRight (hostStep W s c).1 p := by
    obtain ⟨hg, ha⟩ := hostStep_frame (W := W) h hp
    rw [slotRight_iff (hostStep_inv h c) (by rw [ha]; exact hin), hg, ha]
    exact ⟨hnone, hactive⟩
  cases c with
  | register hostDesc addr port =>
    refine iff_of_true (hkeep fun hc hp => ?_) trivial
    -- the flag says that the port is taken
    rw [show port = p from hp] at hc
    exact hc.2.2 hactive
  | deregister port indeterminate =>
    constructor
    · rintro hr rfl
      have hlt : port < s.table.numPorts := by
        have := (active_isSome_iff h.law).mp hin
        omega
      have hc : (HostCall.deregister port indeterminate).Accepted s.table :=
        ⟨hlt, hin, by rw [hactive]; decide⟩
      have ha := deregister_inactive h hc hf
      have hactive' := ((slotRight_iff (hostStep_inv h _) (by rw [ha]; rfl)).mp hr).2
      rw [ha] at hactive'
      exact absurd hactive' (by decide)
    · intro hp
      exact hkeep fun _ => hp

/-! ## Results -/

def expectedResult (s : HostState O) : HostCall → Nat
  | .register _ _ port =>
    if port ≥ s.table.numPorts then REG_ERROR_INVALID_PORT
    else if (s.given port).isSome then REG_ERROR_ALREADY_SET else REG_SUCCESS
  | .deregister port _ =>
    if port ≥ s.table.numPorts then REG_ERROR_INVALID_PORT
    else if (s.given port).isSome then REG_SUCCESS else REG_ERROR_NOT_SET

def isRegError (result : Nat) : Prop :=
  result = REG_ERROR_ALREADY_SET ∨ result = REG_ERROR_NOT_SET ∨ result = REG_ERROR_INVALID_PORT

variable (W) in
/-- The call returns the right result, and if that is an error the tables are as they were. -/
def RightAnswer (s : HostState O) (c : HostCall) : Prop :=
  (hostStep W s c).2 = .ok (expectedResult s c) ∧
    (isRegError (expectedResult s c) → (hostStep W s c).1.table.addrTable = s.table.addrTable ∧
      (hostStep W s c).1.table.memory = s.table.memory)

variable (W) in
/-- The flag that the call reads lies in the block. A register call for a port
of the table finds the port registered if its flag says so; otherwise the
address of `hash_table_insert` is `REG_SUCCESS` and the address table has room.
A deregister call that passes its checks finds the port registered and nothing
to remove, and what it leaves as its result is `REG_SUCCESS`. -/
def ProtocolCall (s : HostState O) (c : HostCall) : Prop :=
  c.InBlock s.table ∧
    match c with
    | .register _ addr port => port < s.table.numPorts →
        if s.table.active port = some HOST_DESC_ACTIVE then (s.given port).isSome = true
        else W.hashTableInsert = REG_SUCCESS ∧ s.table.Room addr
    | .deregister port indeterminate => port < s.table.numPorts →
        s.table.active port ≠ some HOST_DESC_INACTIVE →
          (s.given port).isSome = true ∧ indeterminate = REG_SUCCESS ∧ s.table.KeyMissing port

theorem fault_of_result {result : Nat} (h : (hostStep W s c).2 = .ok result) : (hostStep W s c).1.fault = none := by
  unfold hostStep at h ⊢
  split at h
  · cases h
  · split at h
    · rfl
    · cases h

theorem rightAnswer_of_error {fault : HostFault} (h : (hostStep W s c).2 = .error fault) : ¬ RightAnswer W s c := by
  intro hr
  rw [hr.1] at h
  cases h

theorem rightAnswer_refused (hf : s.fault = none) (hin : c.InBlock s.table) (hc : ¬ c.Accepted s.table) :
    RightAnswer W s c ↔
      expectedResult s c = if c.port ≥ s.table.numPorts then REG_ERROR_INVALID_PORT else c.refusal := by
  unfold RightAnswer
  rw [hostStep_refused hf hin hc, Except.ok.injEq, eq_comm]
  exact and_iff_left fun _ => ⟨rfl, rfl⟩

theorem not_isRegError_success : ¬ isRegError REG_SUCCESS := by unfold isRegError; decide

theorem HostInv.not_given (h : HostInv n s) (ha : s.table.active p ≠ some HOST_DESC_ACTIVE) :
    s.given p = none := by
  cases hg : s.given p with
  | none => rfl
  | some g => exact absurd (h.active p g hg) ha

theorem setActive_changes {t : HostTable O} {port : Nat} {active : BitVec 32} (hin : (t.active port).isSome)
    (ha : t.active port ≠ some active) : (t.setActive port active).memory ≠ t.memory := by
  intro hmemory
  have hsame : (t.setActive port active).active port = t.active port := by
    obtain ⟨word, hw⟩ := setActive_eq hin active
    rw [hw] at hmemory ⊢
    unfold HostTable.active HostTable.slotWord
    rw [hmemory]
    rfl
  rw [active_setActive hin, if_pos rfl] at hsame
  exact ha hsame.symm

theorem rightAnswer_no_port (hf : s.fault = none) (hp : ¬ c.port < s.table.numPorts) :
    RightAnswer W s c ↔ ProtocolCall W s c := by
  have hin : c.InBlock s.table := fun h => absurd h hp
  have hc : ¬ c.Accepted s.table := fun hc => by cases c <;> exact hp hc.1
  have hp' : c.port ≥ s.table.numPorts := Nat.not_lt.mp hp
  refine iff_of_true ((rightAnswer_refused hf hin hc).mpr ?_) ⟨hin, ?_⟩
  · rw [if_pos hp']
    cases c <;> exact if_pos hp'
  · cases c <;> exact fun h => absurd h hp

theorem rightAnswer_register (h : HostInv n s) (hf : s.fault = none) (hostDesc : HostDesc) (addr : BitVec 32)
    {port : Nat} (hp : port < s.table.numPorts) (hin : (HostCall.register hostDesc addr port).InBlock s.table) :
    RightAnswer W s (.register hostDesc addr port) ↔ ProtocolCall W s (.register hostDesc addr port) := by
  have hp' : ¬ port ≥ s.table.numPorts := Nat.not_le.mpr hp
  unfold ProtocolCall
  rw [and_iff_right hin]
  by_cases ha : s.table.active port = some HOST_DESC_ACTIVE
  · rw [rightAnswer_refused hf hin fun hc => hc.2.2 ha]
    simp only [expectedResult, HostCall.port, HostCall.refusal, hp, hp', ha, if_true, if_false, true_imp_iff]
    cases hg : (s.given port).isSome with
    | true => simp
    | false => simp [REG_ERROR_ALREADY_SET, REG_SUCCESS]
  · have hc : (HostCall.register hostDesc addr port).Accepted s.table := ⟨hp, hin hp, ha⟩
    have hexpected : expectedResult s (.register hostDesc addr port) = REG_SUCCESS := by
      simp [expectedResult, hp', h.not_given ha]
    simp only [hp, true_imp_iff, if_neg ha]
    by_cases hroom : s.table.Room addr
    · obtain ⟨t', -, hstep⟩ := hostStep_register (W := W) hf h.law hc hroom
      unfold RightAnswer
      rw [hexpected, hstep, Except.ok.injEq]
      exact and_congr_right fun _ => iff_of_true (fun he => absurd he not_isRegError_success) hroom
    · have herror := congrArg Prod.snd (hostStep_no_room (W := W) hf h.law hc hroom)
      exact iff_of_false (rightAnswer_of_error herror) fun hr => hroom hr.2

theorem rightAnswer_deregister (h : HostInv n s) (hf : s.fault = none) {port : Nat} (indeterminate : Nat)
    (hp : port < s.table.numPorts) (hin : (HostCall.deregister port indeterminate).InBlock s.table) :
    RightAnswer W s (.deregister port indeterminate) ↔ ProtocolCall W s (.deregister port indeterminate) := by
  have hp' : ¬ port ≥ s.table.numPorts := Nat.not_le.mpr hp
  unfold ProtocolCall
  rw [and_iff_right hin]
  by_cases ha : s.table.active port = some HOST_DESC_INACTIVE
  · rw [rightAnswer_refused hf hin fun hc => hc.2.2 ha]
    have hg : s.given port = none := h.not_given (by rw [ha]; decide)
    simp [expectedResult, HostCall.port, HostCall.refusal, hp', ha, hg]
  · have hc : (HostCall.deregister port indeterminate).Accepted s.table := ⟨hp, hin hp, ha⟩
    have hslot : (s.table.active port).isSome := hin hp
    simp only [hp, true_imp_iff, ne_eq, ha, not_false_eq_true]
    by_cases hm : s.table.KeyMissing port
    · unfold RightAnswer
      rw [hostStep_deregister hf h.law hc hm, Except.ok.injEq]
      simp only [expectedResult, if_neg hp', hm, and_true]
      by_cases hg : (s.given port).isSome = true
      · rw [if_pos hg, and_iff_right hg]
        exact and_iff_left fun he => absurd he not_isRegError_success
      · refine iff_of_false ?_ fun hr => hg hr.1
        rw [if_neg hg]
        -- the error would have to leave the flag as it was
        exact fun hu => setActive_changes hslot ha (hu.2 (Or.inr (Or.inl rfl))).2
    · have herror := congrArg Prod.snd (hostStep_key_found (W := W) hf h.law hc hm)
      exact iff_of_false (rightAnswer_of_error herror) fun hr => hm hr.2.2

theorem rightAnswer_iff (h : HostInv n s ∧ s.fault = none) (c : HostCall) : RightAnswer W s c ↔ ProtocolCall W s c := by
  by_cases hp : c.port < s.table.numPorts
  · by_cases hin : c.InBlock s.table
    · cases c with
      | register hostDesc addr port => exact rightAnswer_register h.1 h.2 hostDesc addr hp hin
      | deregister port indeterminate => exact rightAnswer_deregister h.1 h.2 indeterminate hp hin
    · have herror := congrArg Prod.snd (hostStep_error h.2 (call_outside (W := W) hin))
      exact iff_of_false (rightAnswer_of_error herror) fun hr => hin hr.1
  · exact rightAnswer_no_port h.2 hp

theorem no_ports_slotLaw {s : HostState O} (h : HostInv 0 s) (hf : s.fault = none) (calls : List HostCall) :
    Always (hostStep W) SlotLaw s calls := by
  refine (always_inv (fun s : HostState O => HostInv 0 s ∧ s.fault = none) ?_ ⟨h, hf⟩ calls).mono ?_
  · intro s c ⟨h, hf⟩
    rw [hostStep_no_ports h hf]
    exact ⟨h, hf⟩
  · intro s ⟨h, hf⟩
    exact ⟨hf, fun p hp => absurd (h.ports ▸ hp) (Nat.not_lt_zero p)⟩

/-- The law for a port whose slot lies in the block. -/
theorem slotLawAt_run_iff (h : HostInv n s) (hin : 5 * (p + 1) ≤ 3 * n) (calls : List HostCall) :
    Always (hostStep W) (SlotLawAt p) s calls ↔ SlotLawAt p s ∧
      Meets (hostStep W) (fun s c => (hostStep W s c).1.fault = none ∧ c.Keeps p) s calls := by
  have hslot {s : HostState O} (h : HostInv n s) : (s.table.active p).isSome := by
    rw [active_isSome_iff h.law, h.ports]
    exact hin
  have hrun := meets_of_inv (HostInv n) (fun _ c h => hostStep_inv (W := W) h c) h calls
  have hiff (h0 : SlotLawAt p s) := always_iff_meets (SlotLawAt p)
    (fun s c hl h => hostStep_slotLaw (W := W) h (hslot h) hl c) h0 hrun
  constructor
  · intro ha
    exact ⟨ha.head, (hiff ha.head).mp ha⟩
  · intro ⟨h0, hm⟩
    exact (hiff h0).mpr hm

end

/-- The lookups yield what was given in every state of a run just when there
are no ports. For a port whose slot lies in the block they do just when the
fresh memory marks the slot as active, so that the port cannot be registered,
and no call of the run faults or deregisters the port. -/
theorem host_slot_law_iff (O : KeyOps (BitVec 32)) (W : CodeWords) (fresh : Nat → Nat → BitVec 64)
    (m : Memory (BitVec 64)) (numPorts : Nat) (calls : List HostCall) :
    let s : HostState O := hostStart fresh m numPorts
    (Always (hostStep W) SlotLaw s calls ↔ numPorts = 0) ∧
      ∀ p, 5 * (p + 1) ≤ 3 * numPorts → (Always (hostStep W) (SlotLawAt p) s calls ↔
        s.table.active p = some HOST_DESC_ACTIVE ∧
          Meets (hostStep W) (fun s c => (hostStep W s c).1.fault = none ∧ c.Keeps p) s calls) := by
  intro s
  have hinv : HostInv numPorts s := hostStart_inv fresh m numPorts
  refine ⟨⟨fun h => ?_, ?_⟩, fun p hp => ?_⟩
  · -- the flag of the last slot lies behind the block
    by_contra hn
    refine slotRight_outside ?_ (h.head.2 (numPorts - 1) (by rw [hinv.ports]; omega))
    rw [active_isSome_iff hinv.law, hinv.ports]
    omega
  · rintro rfl
    exact no_ports_slotLaw hinv rfl calls
  · have hlaw : SlotLawAt p s ↔ s.table.active p = some HOST_DESC_ACTIVE := by
      unfold SlotLawAt
      rw [slotRight_iff hinv ((active_isSome_iff hinv.law).mpr (by rw [hinv.ports]; exact hp))]
      exact ⟨fun h => h.2.2, fun h => ⟨rfl, rfl, h⟩⟩
    rw [← hlaw]
    exact slotLawAt_run_iff hinv hp calls

/-- Every call of a run gives the right result, and leaves the tables alone if
that is an error, just when all calls meet the condition on flags, words and keys. -/
theorem registration_protocol_iff (O : KeyOps (BitVec 32)) (W : CodeWords) (fresh : Nat → Nat → BitVec 64)
    (m : Memory (BitVec 64)) (numPorts : Nat) (calls : List HostCall) :
    Meets (hostStep W) (RightAnswer W) (hostStart fresh m numPorts : HostState O) calls ↔
      Meets (hostStep W) (ProtocolCall W) (hostStart fresh m numPorts : HostState O) calls := by
  refine meets_congr_within (fun s : HostState O => HostInv numPorts s ∧ s.fault = none) ?_
    (fun s c h _ => rightAnswer_iff h c) ⟨hostStart_inv fresh m numPorts, rfl⟩ (meets_true _ _)
  intro s c h _ hc
  exact ⟨hostStep_inv h.1 c, fault_of_result ((rightAnswer_iff h c).mpr hc).1⟩

theorem registered_host_not_found :
    ¬ Always (hostStep ⟨0xfa1e0ff3, 0x401136⟩) SlotLaw fourPorts [.register (plainHost 0x5000) 10 0] := by
  intro h
  obtain ⟨r, hr, hg⟩ := h.last.2 0 (by decide +kernel)
  have hnone : r = none := by
    have hl : hostTableHostLookup (exec (hostStep ⟨0xfa1e0ff3, 0x401136⟩) fourPorts
        [.register (plainHost 0x5000) 10 0]).table 0 = .ok none := hostLookup_of_active (by decide +kernel)
    exact (Except.ok.inj (hl.symm.trans hr)).symm
  rw [hnone] at hg
  revert hg
  decide +kernel

/-- A table for four ports in memory of zeros refuses the first host. -/
theorem zeroed_table_refuses :
    ¬ Meets (hostStep ⟨0xfa1e0ff3, 0x401136⟩) (RightAnswer ⟨0xfa1e0ff3, 0x401136⟩)
      (hostStart (fun _ _ => 0) ⟨fun _ => [], 0⟩ 4 : HostState natAddr)
      [.register (plainHost 0x5000) 10 0] := by
  intro h
  have hr := h.1.1
  rw [hostStep_refused rfl (fun _ => by decide +kernel) (by decide +kernel)] at hr
  cases hr

end SwitchSimulation
