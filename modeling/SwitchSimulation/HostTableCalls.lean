import SwitchSimulation.HostTable

/-!
# What the calls of a host table do

One lemma for each function says what it does in a table that keeps the law
of every run: all values of the address table are the one function, and none
has been freed. A call that would free one faults.
-/

namespace SwitchSimulation

section
variable {O : KeyOps (BitVec 32)}

def HostTable.entries (t : HostTable O) : List (HashTableEntry AddrBlock PortElem) :=
  hashTableElems t.addrTable.wide

/-- There is an entry for the address. -/
def HostTable.Holds (t : HostTable O) (addr : BitVec 32) : Prop :=
  ∃ e ∈ t.entries, O.compare addr e.key.bytes = .EQ

structure TableLaw (t : HostTable O) : Prop where
  inv : TableInv (blockOps O) t.addrTable.wide
  code : ∀ e ∈ t.entries, e.val = .code
  unfreed : t.addrTable.freedVals = []
  old : ∀ e ∈ t.entries, e.key.block < t.blocks
  length : (t.memory.blocks t.hosts).length = hostTableWords * t.numPorts

variable {t t' : HostTable O} {port : Nat} {addr : BitVec 32}

theorem entries_create (fresh : Nat → Nat → BitVec 64) (m : Memory (BitVec 64)) (numPorts : Nat) :
    (hostTableCreate fresh m numPorts : HostTable O).entries = [] := gather_nil _

theorem hostTableCreate_law (fresh : Nat → Nat → BitVec 64) (m : Memory (BitVec 64)) (numPorts : Nat) :
    TableLaw (hostTableCreate fresh m numPorts : HostTable O) := by
  refine ⟨hashTableCreate32_inv, ?_, rfl, ?_, ?_⟩
  · rw [entries_create]
    exact fun e he => absurd he List.not_mem_nil
  · rw [entries_create]
    exact fun e he => absurd he List.not_mem_nil
  · simp [hostTableCreate, Memory.malloc_new]

/-! ## Lookups -/

theorem addrLookup_none (h : TableLaw t) :
    hashTableLookup (blockOps O) t.addrTable.wide ⟨t.blocks, addr⟩ = none ↔ ¬ t.Holds addr := by
  rw [lookup_none_iff h.inv]
  constructor
  · intro hn ⟨e, he, hs⟩
    exact hn e he hs
  · intro hn e he hs
    exact hn ⟨e, he, hs⟩

theorem portLookup_spec (W : CodeWords) (h : TableLaw t) (addr : BitVec 32) :
    ∃ r, hostTablePortLookup W t addr = .ok r ∧ ∀ p, r = some p ↔ t.Holds addr ∧ p = W.portElemCreate := by
  unfold hostTablePortLookup
  rw [lookup32_eq h.inv]
  refine ⟨_, rfl, fun p => ?_⟩
  cases hl : hashTableLookup (blockOps O) t.addrTable.wide ⟨t.blocks, addr⟩ with
  | none => exact iff_of_false (Option.some_ne_none p ∘ Eq.symm) fun hp => (addrLookup_none h).mp hl hp.1
  | some v =>
    obtain ⟨e, he, hs, rfl⟩ := (lookup_some_iff h.inv).mp hl
    rw [h.code e he]
    have hholds : t.Holds addr := ⟨e, he, hs⟩
    simp [PortElem.portNum, hholds, eq_comm]

/-! ## Slots -/

theorem active_isSome : (t.active port).isSome ↔ hostDescWords * port + 4 < (t.memory.blocks t.hosts).length := by
  unfold HostTable.active HostTable.slotWord
  rw [Option.isSome_map, Memory.load_isSome]

theorem active_isSome_iff (h : TableLaw t) : (t.active port).isSome ↔ 5 * (port + 1) ≤ 3 * t.numPorts := by
  rw [active_isSome, h.length, hostDescWords, hostTableWords]
  omega

/-- The flag is the last word of a slot. -/
theorem addrBytes_isSome (h : (t.active port).isSome) : (t.addrBytes port).isSome := by
  rw [active_isSome] at h
  unfold HostTable.addrBytes HostTable.slotWord
  rw [Option.isSome_map, Memory.load_isSome]
  omega

theorem store_hosts_length (k : Nat) (word : BitVec 64) :
    ((t.store port k word).memory.blocks (t.store port k word).hosts).length = (t.memory.blocks t.hosts).length :=
  Memory.store_length ..

theorem slotWord_store {k : Nat} (hk : hostDescWords * port + k < (t.memory.blocks t.hosts).length)
    (word : BitVec 64) (q l : Nat) : (t.store port k word).slotWord q l =
      if hostDescWords * q + l = hostDescWords * port + k then some word else t.slotWord q l :=
  Memory.load_store hk word _

theorem active_store {k : Nat} (hk : k < 4) (hin : (t.active port).isSome) (word : BitVec 64) (q : Nat) :
    (t.store port k word).active q = t.active q := by
  rw [active_isSome] at hin
  unfold HostTable.active
  rw [slotWord_store (by omega), if_neg]
  unfold hostDescWords
  omega

theorem setActive_eq (hin : (t.active port).isSome) (a : BitVec 32) :
    ∃ word, t.setActive port a = t.store port 4 (setLowHalf word a) := by
  unfold HostTable.active at hin
  rw [Option.isSome_map] at hin
  obtain ⟨word, hw⟩ := Option.isSome_iff_exists.mp hin
  refine ⟨word, ?_⟩
  unfold HostTable.setActive
  rw [hw]

theorem active_store_flag (hin : (t.active port).isSome) (word : BitVec 64) (q : Nat) :
    (t.store port 4 word).active q = if q = port then some (lowHalf word) else t.active q := by
  rw [active_isSome] at hin
  unfold HostTable.active
  rw [slotWord_store hin, apply_ite (Option.map lowHalf)]
  refine if_congr ?_ rfl rfl
  unfold hostDescWords
  omega

theorem active_setActive (hin : (t.active port).isSome) (a : BitVec 32) (q : Nat) :
    (t.setActive port a).active q = if q = port then some a else t.active q := by
  obtain ⟨word, hw⟩ := setActive_eq hin a
  rw [hw, active_store_flag hin, lowHalf_setLowHalf]

theorem setActive_length (hin : (t.active port).isSome) (a : BitVec 32) :
    ((t.setActive port a).memory.blocks (t.setActive port a).hosts).length = (t.memory.blocks t.hosts).length := by
  obtain ⟨word, hw⟩ := setActive_eq hin a
  rw [hw, store_hosts_length]

theorem setActive_fields (t : HostTable O) (port : Nat) (a : BitVec 32) :
    (t.setActive port a).numPorts = t.numPorts ∧ (t.setActive port a).addrTable = t.addrTable ∧
      (t.setActive port a).blocks = t.blocks := by
  unfold HostTable.setActive
  split <;> exact ⟨rfl, rfl, rfl⟩

theorem setSlot_active (hin : (t.active port).isSome) (hostDesc : HostDesc) (q : Nat) :
    (t.setSlot port hostDesc).active q = if q = port then some (lowHalf hostDesc.active) else t.active q := by
  have hstore {u : HostTable O} (k : Nat) (hk : k < 4) (hu : (u.active port).isSome) (word : BitVec 64) :
      ((u.store port k word).active port).isSome := by rwa [active_store hk hu]
  have h0 := hstore 0 (by decide) hin hostDesc.data
  have h1 := hstore 1 (by decide) h0 hostDesc.addr
  have h2 := hstore 2 (by decide) h1 hostDesc.send
  have h3 := hstore 3 (by decide) h2 hostDesc.addrFree
  unfold HostTable.setSlot
  rw [active_store_flag h3, active_store (by decide) h2, active_store (by decide) h1, active_store (by decide) h0,
    active_store (by decide) hin]

theorem setSlot_length (hostDesc : HostDesc) :
    ((t.setSlot port hostDesc).memory.blocks (t.setSlot port hostDesc).hosts).length =
      (t.memory.blocks t.hosts).length := by
  unfold HostTable.setSlot
  rw [store_hosts_length, store_hosts_length, store_hosts_length, store_hosts_length, store_hosts_length]

/-! ## The address table -/

theorem insert_code (h : TableLaw t) {w : HashTable AddrBlock PortElem}
    (hw : hashTableInsert (blockOps O) t.addrTable.wide ⟨t.blocks, addr⟩ .code = some w) :
    TableInv (blockOps O) w ∧ w.freedVals = [] ∧
      ∃ rest, (hashTableElems w).Perm (⟨⟨t.blocks, addr⟩, .code⟩ :: rest) ∧
        (t.entries.Perm rest ∧ w.freedKeys = t.addrTable.freedKeys ∨
          ∃ e, O.compare addr e.key.bytes = .EQ ∧ t.entries.Perm (e :: rest) ∧
            w.freedKeys = t.addrTable.freedKeys ++ [e.key]) := by
  by_cases hold : ∃ e ∈ t.entries, (blockOps O).compare ⟨t.blocks, addr⟩ e.key = .EQ
  · obtain ⟨hi, e, rest, hs, helems, hnew, hk, hv⟩ := hashTableUpdate_spec h.inv .code hold
    obtain rfl := Option.some.inj ((insertAux_old h.inv hold .code 1).symm.trans hw)
    have hmem : e ∈ t.entries := helems.mem_iff.mpr List.mem_cons_self
    -- the block of the old entry is not the new one, and the value is the same
    have hne : e.key ≠ ⟨t.blocks, addr⟩ := fun he => Nat.lt_irrefl _ (he ▸ h.old e hmem)
    rw [if_pos hne] at hk
    rw [if_neg fun hn => hn (h.code e hmem), List.append_nil] at hv
    exact ⟨hi, hv.trans h.unfreed, rest, hnew, Or.inr ⟨e, hs, helems, hk⟩⟩
  · obtain ⟨w', hr, hi, helems, -, hk, hv⟩ := insert_new_spec h.inv (fun e he hs => hold ⟨e, he, hs⟩) .code
    obtain rfl := Option.some.inj ((hr 0).symm.trans hw)
    exact ⟨hi, hv.trans h.unfreed, _, helems, Or.inl ⟨.refl _, hk⟩⟩

theorem wide_injective {u v : HashTable32 AddrBlock PortElem} (h : u.wide = v.wide) : u = v := by
  cases u
  cases v
  simpa [HashTable32.wide, BitVec.toNat_inj] using h

theorem remove_missing (h : TableLaw t) (hn : ¬ t.Holds addr) :
    hashTableRemove32 (blockOps O) t.addrTable ⟨t.blocks, addr⟩ = .ok t.addrTable := by
  obtain ⟨u, hu, hw⟩ := remove32_agrees h.inv ⟨t.blocks, addr⟩
  obtain ⟨-, ⟨hsame, -⟩ | ⟨e, hs, helems, -⟩⟩ := hashTableRemove_spec h.inv ⟨t.blocks, addr⟩
  · rw [hu, wide_injective (hw.trans hsame)]
  · exact absurd ⟨e, helems.mem_iff.mpr List.mem_cons_self, hs⟩ hn

theorem remove_found (h : TableLaw t) (hh : t.Holds addr) :
    ∃ u, hashTableRemove32 (blockOps O) t.addrTable ⟨t.blocks, addr⟩ = .ok u ∧ .code ∈ u.freedVals := by
  obtain ⟨u, hu, hw⟩ := remove32_agrees h.inv ⟨t.blocks, addr⟩
  obtain ⟨-, ⟨-, hnone⟩ | ⟨e, hs, helems, -, hv⟩⟩ := hashTableRemove_spec h.inv ⟨t.blocks, addr⟩
  · obtain ⟨e, he, hs⟩ := hh
    exact absurd hs (hnone e he)
  · refine ⟨u, hu, ?_⟩
    have hfreed : u.freedVals = t.addrTable.freedVals ++ [e.val] := (congrArg HashTable.freedVals hw).trans hv
    rw [hfreed, h.code e (helems.mem_iff.mpr List.mem_cons_self)]
    exact List.mem_append_right _ (List.mem_singleton_self _)

/-! ## Calls that pass their checks -/

/-- The address table has room for an insert of the address. -/
def HostTable.Room (t : HostTable O) (addr : BitVec 32) : Prop :=
  TableRoom (blockOps O) t.addrTable (.insert ⟨t.blocks, addr⟩ .code)

/-- What a register call that passes its checks does. -/
structure Filled (t : HostTable O) (addr : BitVec 32) (port : Nat) (t' : HostTable O) : Prop where
  law : TableLaw t'
  numPorts : t'.numPorts = t.numPorts
  blocks : t'.blocks = t.blocks + 1
  active : ∀ q, t'.active q = if q = port then some HOST_DESC_ACTIVE else t.active q
  entries : ∃ rest, t'.entries.Perm (⟨⟨t.blocks, addr⟩, .code⟩ :: rest) ∧
    (t.entries.Perm rest ∧ t'.addrTable.freedKeys = t.addrTable.freedKeys ∨
      ∃ e, O.compare addr e.key.bytes = .EQ ∧ t.entries.Perm (e :: rest) ∧
        t'.addrTable.freedKeys = t.addrTable.freedKeys ++ [e.key])

theorem fill_spec (h : TableLaw t) (hin : (t.active port).isSome) (hostDesc : HostDesc) (hroom : t.Room addr) :
    ∃ t', hostTableFill t hostDesc addr port = .ok t' ∧ Filled t addr port t' := by
  obtain ⟨w, hw, u, hu, rfl⟩ := insert32_agrees h.inv .code hroom
  obtain ⟨hi, hv, hentries⟩ := insert_code h hw
  have hfree : PortElem.code ∉ u.freedVals := by
    rw [show u.freedVals = [] from hv]
    exact List.not_mem_nil
  have hset : ((t.setSlot port hostDesc).active port).isSome := by
    rw [setSlot_active hin, if_pos rfl]
    rfl
  have hmem : ∀ e ∈ hashTableElems u.wide, e = ⟨⟨t.blocks, addr⟩, .code⟩ ∨ e ∈ t.entries := by
    intro e he
    obtain ⟨rest, hnew, hold⟩ := hentries
    refine (List.mem_cons.mp (hnew.mem_iff.mp he)).imp_right fun hr => ?_
    rcases hold with ⟨hold, -⟩ | ⟨e', -, hold, -⟩
    · exact hold.mem_iff.mpr hr
    · exact hold.mem_iff.mpr (List.mem_cons_of_mem e' hr)
  unfold hostTableFill addrTableCall freePortElems
  rw [hu]
  simp only [if_neg hfree]
  refine ⟨_, rfl, ⟨hi, fun e he => ?_, hv, fun e he => ?_, ?_⟩, (setActive_fields ..).1, rfl, fun q => ?_, hentries⟩
  · rcases hmem e he with rfl | he
    · rfl
    · exact h.code e he
  · rcases hmem e he with rfl | he
    · exact Nat.lt_succ_self _
    · exact Nat.lt_succ_of_lt (h.old e he)
  · rw [(setActive_fields ..).1]
    exact (setActive_length hset _).trans ((setSlot_length hostDesc).trans h.length)
  · refine (active_setActive hset _ q).trans ?_
    rw [setSlot_active hin]
    split <;> rfl

theorem fill_faults (h : TableLaw t) (hostDesc : HostDesc) (hroom : ¬ t.Room addr) :
    hostTableFill t hostDesc addr port = .error (.table .moduloZero) := by
  obtain ⟨hnew, hge⟩ := not_or.mp hroom
  have hnew' : ∀ e ∈ t.entries, (blockOps O).compare ⟨t.blocks, addr⟩ e.key ≠ .EQ := fun e he hs => hnew ⟨e, he, hs⟩
  unfold hostTableFill addrTableCall
  rw [insert32_faults h.inv .code hnew' hge]
  rfl

theorem Filled.holds (h : Filled t addr port t') (a : BitVec 32) :
    t'.Holds a ↔ O.compare a addr = .EQ ∨ t.Holds a := by
  obtain ⟨rest, hnew, hold⟩ := h.entries
  constructor
  · intro ⟨e, he, hs⟩
    cases List.mem_cons.mp (hnew.mem_iff.mp he) with
    | inl he => exact Or.inl (by rwa [he] at hs)
    | inr he =>
      rcases hold with ⟨hold, -⟩ | ⟨e', -, hold, -⟩
      · exact Or.inr ⟨e, hold.mem_iff.mpr he, hs⟩
      · exact Or.inr ⟨e, hold.mem_iff.mpr (List.mem_cons_of_mem e' he), hs⟩
  · have hself : O.compare a addr = .EQ → t'.Holds a := fun hs => ⟨_, hnew.mem_iff.mpr List.mem_cons_self, hs⟩
    rintro (hs | ⟨e, he, hs⟩)
    · exact hself hs
    · rcases hold with ⟨hold, -⟩ | ⟨e', hs', hold, -⟩
      · exact ⟨e, hnew.mem_iff.mpr (List.mem_cons_of_mem _ (hold.mem_iff.mp he)), hs⟩
      · cases List.mem_cons.mp (hold.mem_iff.mp he) with
        | inl he => exact hself (O.eq_trans _ _ _ (he ▸ hs) (O.eq_symm _ _ hs'))
        | inr he => exact ⟨e, hnew.mem_iff.mpr (List.mem_cons_of_mem _ he), hs⟩

/-- The bytes of the pointer at the port are not found in the address table. -/
def HostTable.KeyMissing (t : HostTable O) (port : Nat) : Prop := ∃ bytes ∈ t.addrBytes port, ¬ t.Holds bytes

theorem empty_missing (h : TableLaw t) (hm : t.KeyMissing port) :
    hostTableEmpty t port = .ok (t.setActive port HOST_DESC_INACTIVE) := by
  obtain ⟨bytes, hb, hn⟩ := hm
  have hfree : PortElem.code ∉ t.addrTable.freedVals := by
    rw [h.unfreed]
    exact List.not_mem_nil
  unfold hostTableEmpty addrTableCall freePortElems
  rw [Option.mem_def.mp hb, inBlock, Except.bind, remove_missing h hn]
  simp only [if_neg hfree, Except.map]
  rw [← (setActive_fields t port HOST_DESC_INACTIVE).2.1]

theorem empty_found (h : TableLaw t) (hin : (t.active port).isSome) (hm : ¬ t.KeyMissing port) :
    hostTableEmpty t port = .error .badFree := by
  obtain ⟨bytes, hb⟩ := Option.isSome_iff_exists.mp (addrBytes_isSome hin)
  have hh : t.Holds bytes := Classical.not_not.mp fun hn => hm ⟨bytes, hb, hn⟩
  obtain ⟨u, hu, hfree⟩ := remove_found h hh
  unfold hostTableEmpty addrTableCall freePortElems
  rw [hb, inBlock, Except.bind, hu]
  simp only [if_pos hfree]
  rfl

theorem setActive_law (h : TableLaw t) (hin : (t.active port).isSome) (a : BitVec 32) :
    TableLaw (t.setActive port a) := by
  obtain ⟨hports, htable, hblocks⟩ := setActive_fields t port a
  refine ⟨?_, ?_, ?_, ?_, ?_⟩
  · rw [htable]
    exact h.inv
  · unfold HostTable.entries
    rw [htable]
    exact h.code
  · rw [htable]
    exact h.unfreed
  · unfold HostTable.entries
    rw [htable, hblocks]
    exact h.old
  · rw [setActive_length hin, hports]
    exact h.length

/-! ## One call -/

/-- The result of a call for a port of the table that the flag refuses. -/
def HostCall.refusal : HostCall → Nat
  | .register _ _ _ => REG_ERROR_ALREADY_SET
  | .deregister _ _ => REG_ERROR_NOT_SET

/-- The flag that the call reads, if it reads one, lies in the block. -/
def HostCall.InBlock (t : HostTable O) (c : HostCall) : Prop := c.port < t.numPorts → (t.active c.port).isSome

variable {W : CodeWords} {c : HostCall}

theorem HostCall.Accepted.in_block (h : c.Accepted t) : (t.active c.port).isSome := by
  cases c <;> exact h.2.1

theorem call_outside (h : ¬ c.InBlock t) : hostTableCall W t c = .error .outsideBlock := by
  obtain ⟨hp, hn⟩ := Classical.not_imp.mp h
  rw [Option.not_isSome_iff_eq_none] at hn
  have hp := Nat.not_le.mpr hp
  cases c with
  | register hostDesc addr port =>
    dsimp only [HostCall.port] at hp hn
    rw [hostTableCall, hostTableRegister, if_neg hp, hn]
    rfl
  | deregister port indeterminate =>
    dsimp only [HostCall.port] at hp hn
    rw [hostTableCall, hostTableDeregister, if_neg hp, hn]
    rfl

theorem call_refused (hin : c.InBlock t) (h : ¬ c.Accepted t) :
    hostTableCall W t c = .ok (t, if c.port ≥ t.numPorts then REG_ERROR_INVALID_PORT else c.refusal) := by
  by_cases hp : c.port ≥ t.numPorts
  · rw [if_pos hp]
    cases c <;> exact if_pos hp
  · have hlt := Nat.not_le.mp hp
    obtain ⟨a, ha⟩ := Option.isSome_iff_exists.mp (hin hlt)
    rw [if_neg hp]
    cases c with
    | register hostDesc addr port =>
      dsimp only [HostCall.port] at hp hlt ha
      have he : a = HOST_DESC_ACTIVE := Classical.byContradiction fun hne =>
        h ⟨hlt, by rw [ha]; rfl, by rw [ha]; exact hne ∘ Option.some.inj⟩
      rw [hostTableCall, hostTableRegister, if_neg hp, ha, inBlock, Except.bind]
      exact if_pos he
    | deregister port indeterminate =>
      dsimp only [HostCall.port] at hp hlt ha
      have he : a = HOST_DESC_INACTIVE := Classical.byContradiction fun hne =>
        h ⟨hlt, by rw [ha]; rfl, by rw [ha]; exact hne ∘ Option.some.inj⟩
      rw [hostTableCall, hostTableDeregister, if_neg hp, ha, inBlock, Except.bind]
      exact if_pos he

theorem register_accepted {hostDesc : HostDesc} (h : (HostCall.register hostDesc addr port).Accepted t) :
    hostTableCall W t (.register hostDesc addr port) =
      (hostTableFill t hostDesc addr port).map fun t' => (t', W.hashTableInsert) := by
  obtain ⟨hp, hin, hne⟩ := h
  obtain ⟨a, ha⟩ := Option.isSome_iff_exists.mp hin
  rw [hostTableCall, hostTableRegister, if_neg (Nat.not_le.mpr hp), ha, inBlock, Except.bind]
  exact if_neg fun he => hne (by rw [ha, he])

theorem deregister_accepted {indeterminate : Nat} (h : (HostCall.deregister port indeterminate).Accepted t) :
    hostTableCall W t (.deregister port indeterminate) =
      (hostTableEmpty t port).map fun t' => (t', indeterminate) := by
  obtain ⟨hp, hin, hne⟩ := h
  obtain ⟨a, ha⟩ := Option.isSome_iff_exists.mp hin
  rw [hostTableCall, hostTableDeregister, if_neg (Nat.not_le.mpr hp), ha, inBlock, Except.bind]
  exact if_neg fun he => hne (by rw [ha, he])

/-! ## One step -/

variable {s : HostState O}

theorem hostStep_of_fault {fault : HostFault} (h : s.fault = some fault) : hostStep W s c = (s, .error fault) := by
  rw [hostStep, h]

theorem hostStep_error {fault : HostFault} (h : s.fault = none) (hc : hostTableCall W s.table c = .error fault) :
    hostStep W s c = ({ s with fault := some fault }, .error fault) := by
  rw [hostStep, h]
  simp only [hc]

theorem hostStep_ok {result : Nat} (h : s.fault = none) (hc : hostTableCall W s.table c = .ok (t, result)) :
    hostStep W s c = (⟨t, s.record c, none⟩, .ok result) := by
  rw [hostStep, h]
  simp only [hc]

theorem hostStep_refused (h : s.fault = none) (hin : c.InBlock s.table) (hc : ¬ c.Accepted s.table) :
    hostStep W s c = (s, .ok (if c.port ≥ s.table.numPorts then REG_ERROR_INVALID_PORT else c.refusal)) := by
  have hrecord : s.record c = s.given := if_neg hc
  rw [hostStep_ok h (call_refused hin hc), hrecord, ← h]

theorem hostStep_register {hostDesc : HostDesc} (h : s.fault = none) (hlaw : TableLaw s.table)
    (hc : (HostCall.register hostDesc addr port).Accepted s.table) (hroom : s.table.Room addr) :
    ∃ t', Filled s.table addr port t' ∧ hostStep W s (.register hostDesc addr port) =
      (⟨t', Function.update s.given port (some (hostDesc, addr)), none⟩, .ok W.hashTableInsert) := by
  have hin : (s.table.active port).isSome := hc.in_block
  obtain ⟨t', hfill, hspec⟩ := fill_spec hlaw hin hostDesc hroom
  have hrecord : s.record (.register hostDesc addr port) = Function.update s.given port (some (hostDesc, addr)) :=
    if_pos hc
  refine ⟨t', hspec, ?_⟩
  rw [← hrecord]
  apply hostStep_ok h
  rw [register_accepted hc, hfill]
  rfl

theorem hostStep_no_room {hostDesc : HostDesc} (h : s.fault = none) (hlaw : TableLaw s.table)
    (hc : (HostCall.register hostDesc addr port).Accepted s.table) (hroom : ¬ s.table.Room addr) :
    hostStep W s (.register hostDesc addr port) =
      ({ s with fault := some (.table .moduloZero) }, .error (.table .moduloZero)) := by
  apply hostStep_error h
  rw [register_accepted hc, fill_faults hlaw hostDesc hroom]
  rfl

theorem hostStep_deregister {indeterminate : Nat} (h : s.fault = none) (hlaw : TableLaw s.table)
    (hc : (HostCall.deregister port indeterminate).Accepted s.table) (hm : s.table.KeyMissing port) :
    hostStep W s (.deregister port indeterminate) =
      (⟨s.table.setActive port HOST_DESC_INACTIVE, Function.update s.given port none, none⟩,
        .ok indeterminate) := by
  have hrecord : s.record (.deregister port indeterminate) = Function.update s.given port none := if_pos hc
  rw [← hrecord]
  apply hostStep_ok h
  rw [deregister_accepted hc, empty_missing hlaw hm]
  rfl

theorem hostStep_key_found {indeterminate : Nat} (h : s.fault = none) (hlaw : TableLaw s.table)
    (hc : (HostCall.deregister port indeterminate).Accepted s.table) (hm : ¬ s.table.KeyMissing port) :
    hostStep W s (.deregister port indeterminate) = ({ s with fault := some .badFree }, .error .badFree) := by
  have hin : (s.table.active port).isSome := hc.in_block
  apply hostStep_error h
  rw [deregister_accepted hc, empty_found hlaw hin hm]
  rfl

/-- All that a call can do to the state: register, deregister, or no more than end the program. -/
theorem hostStep_cases (hlaw : TableLaw s.table) (c : HostCall) :
    (∃ fault, (hostStep W s c).1 = { s with fault := fault }) ∨
      (∃ hostDesc addr port t', c = .register hostDesc addr port ∧ c.Accepted s.table ∧
        Filled s.table addr port t' ∧
        (hostStep W s c).1 = ⟨t', Function.update s.given port (some (hostDesc, addr)), none⟩) ∨
      ∃ port indeterminate, c = .deregister port indeterminate ∧ c.Accepted s.table ∧
        (hostStep W s c).1 = ⟨s.table.setActive port HOST_DESC_INACTIVE, Function.update s.given port none, none⟩ := by
  cases hf : s.fault with
  | some fault => exact Or.inl ⟨some fault, by rw [hostStep_of_fault hf, ← hf]⟩
  | none =>
    by_cases hin : c.InBlock s.table
    · by_cases hc : c.Accepted s.table
      · cases c with
        | register hostDesc addr port =>
          by_cases hroom : s.table.Room addr
          · obtain ⟨t', hfill, hstep⟩ := hostStep_register (W := W) hf hlaw hc hroom
            exact Or.inr (Or.inl ⟨hostDesc, addr, port, t', rfl, hc, hfill, congrArg Prod.fst hstep⟩)
          · exact Or.inl ⟨_, congrArg Prod.fst (hostStep_no_room hf hlaw hc hroom)⟩
        | deregister port indeterminate =>
          by_cases hm : s.table.KeyMissing port
          · have hstep := hostStep_deregister (W := W) hf hlaw hc hm
            exact Or.inr (Or.inr ⟨port, indeterminate, rfl, hc, congrArg Prod.fst hstep⟩)
          · exact Or.inl ⟨_, congrArg Prod.fst (hostStep_key_found hf hlaw hc hm)⟩
      · exact Or.inl ⟨none, by rw [hostStep_refused hf hin hc, ← hf]⟩
    · exact Or.inl ⟨_, congrArg Prod.fst (hostStep_error hf (call_outside hin))⟩

/-! ## Invariants of every run -/

structure HostInv (numPorts : Nat) (s : HostState O) : Prop where
  law : TableLaw s.table
  ports : s.table.numPorts = numPorts
  active : ∀ p g, s.given p = some g → s.table.active p = some HOST_DESC_ACTIVE

theorem hostStart_inv (fresh : Nat → Nat → BitVec 64) (m : Memory (BitVec 64)) (numPorts : Nat) :
    HostInv numPorts (hostStart fresh m numPorts : HostState O) :=
  ⟨hostTableCreate_law fresh m numPorts, rfl, fun _ _ h => (Option.some_ne_none _ h.symm).elim⟩

variable {n : Nat}

theorem HostInv.fill {t' : HostTable O} {g : HostDesc × BitVec 32} (h : HostInv n s)
    (hf : Filled s.table addr port t') : HostInv n (⟨t', Function.update s.given port (some g), none⟩ : HostState O) := by
  refine ⟨hf.law, hf.numPorts.trans h.ports, fun p x hx => ?_⟩
  simp only [hf.active]
  by_cases hp : p = port
  · rw [if_pos hp]
  · rw [if_neg hp]
    exact h.active p x ((Function.update_of_ne hp _ _).symm.trans hx)

theorem HostInv.empty (h : HostInv n s) (hin : (s.table.active port).isSome) : HostInv n
    (⟨s.table.setActive port HOST_DESC_INACTIVE, Function.update s.given port none, none⟩ : HostState O) := by
  refine ⟨setActive_law h.law hin _, (setActive_fields ..).1.trans h.ports, fun p x hx => ?_⟩
  simp only [active_setActive hin]
  by_cases hp : p = port
  · subst hp
    simp at hx
  · rw [if_neg hp]
    exact h.active p x ((Function.update_of_ne hp _ _).symm.trans hx)

theorem HostInv.fault (h : HostInv n s) (fault : Option HostFault) : HostInv n { s with fault := fault } :=
  ⟨h.law, h.ports, h.active⟩

theorem hostStep_inv (h : HostInv n s) (c : HostCall) : HostInv n (hostStep W s c).1 := by
  obtain ⟨fault, hs⟩ | ⟨hostDesc, addr, port, t', rfl, -, hfill, hs⟩ | ⟨port, indeterminate, rfl, hc, hs⟩ :=
    hostStep_cases h.law c
  · rw [hs]; exact h.fault fault
  · rw [hs]; exact h.fill hfill
  · rw [hs]; exact h.empty hc.in_block

/-- A table without ports refuses every call. -/
theorem hostStep_no_ports (h : HostInv 0 s) (hf : s.fault = none) (c : HostCall) : (hostStep W s c).1 = s := by
  have hlt : ¬ c.port < s.table.numPorts := by rw [h.ports]; exact Nat.not_lt_zero _
  have hc : ¬ c.Accepted s.table := fun hc => by cases c <;> exact hlt hc.1
  rw [hostStep_refused hf (fun hp => absurd hp hlt) hc]

end

end SwitchSimulation
