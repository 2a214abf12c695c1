import SwitchSimulation.HashTableWord
import SwitchSimulation.Machine
import SwitchSimulation.Memory

/-!
# The host table (`host_table.c`)

The address table maps blocks of memory that hold addresses to `port_elem_t`
pointers. `host_table_register` stores the function `port_elem_create` itself
where it means the element it has created, so that a lookup reads a port
number from the code of that function, and whoever frees the value frees the
function. `host_table_deregister` passes the place of a pointer to an address
where it means the pointer. The array of hosts is a block of
`sizeof(struct host_table)` bytes for each port, three words of 8 bytes, and a
`struct host_desc` has five.
-/

namespace SwitchSimulation

def HOST_DESC_ACTIVE : BitVec 32 := 0
def HOST_DESC_INACTIVE : BitVec 32 := 1

def REG_SUCCESS : Nat := 0
def REG_ERROR_ALREADY_SET : Nat := 1
def REG_ERROR_NOT_SET : Nat := 2
def REG_ERROR_INVALID_PORT : Nat := 3

/-- What ends the program: an access outside of a block, `free` of what is not
a block, and the faults of the hash table. -/
inductive HostFault
  | outsideBlock
  | badFree
  | table (fault : Fault)
  deriving DecidableEq

/-! ## Words -/

def hostTableWords : Nat := 3
def hostDescWords : Nat := 5

/-- An `int` at the place of a word, or the first `ADDR_SIZE` bytes of a pointer. -/
def lowHalf (word : BitVec 64) : BitVec 32 := word.extractLsb' 0 32

def setLowHalf (word : BitVec 64) (low : BitVec 32) : BitVec 64 := word.extractLsb' 32 32 ++ low

@[simp] theorem lowHalf_setLowHalf (word : BitVec 64) (low : BitVec 32) : lowHalf (setLowHalf word low) = low := by
  unfold lowHalf setLowHalf
  rw [BitVec.extractLsb'_append_eq_of_add_le (by decide), BitVec.extractLsb'_eq_self]

/-- The words of a `struct host_desc`. There are four more bytes behind `active`. -/
structure HostDesc where
  data : BitVec 64
  addr : BitVec 64
  send : BitVec 64
  addrFree : BitVec 64
  active : BitVec 64
  deriving DecidableEq

/-- A block of memory with a copy of an address. -/
structure AddrBlock where
  block : Nat
  bytes : BitVec 32
  deriving DecidableEq

def blockOps (O : KeyOps (BitVec 32)) : KeyOps AddrBlock where
  hash a := O.hash a.bytes
  compare a b := O.compare a.bytes b.bytes
  eq_refl a := O.eq_refl a.bytes
  eq_symm a b := O.eq_symm a.bytes b.bytes
  eq_trans a b c := O.eq_trans a.bytes b.bytes c.bytes
  hash_eq a b := O.hash_eq a.bytes b.bytes

/-- What a `port_elem_t` points at: an element, or the code of `port_elem_create`. -/
inductive PortElem
  | elem (portNum : Nat)
  | code
  deriving DecidableEq

/-- The words that the program's functions give where a number is expected: the
first word of the code of `port_elem_create`, and the address of `hash_table_insert`. -/
structure CodeWords where
  portElemCreate : Nat
  hashTableInsert : Nat

def PortElem.portNum (W : CodeWords) : PortElem → Nat
  | .elem portNum => portNum
  | .code => W.portElemCreate

/-- `hosts` is the number of its block; `blocks` counts the blocks for addresses. -/
structure HostTable (O : KeyOps (BitVec 32)) where
  numPorts : Nat
  addrTable : HashTable32 AddrBlock PortElem
  memory : Memory (BitVec 64)
  hosts : Nat
  blocks : Nat

section
variable {O : KeyOps (BitVec 32)} (W : CodeWords)

/-- Fresh memory is not initialised. -/
def hostTableCreate (fresh : Nat → Nat → BitVec 64) (m : Memory (BitVec 64)) (numPorts : Nat) : HostTable O :=
  ⟨numPorts, hashTableCreate32, (m.malloc fresh (hostTableWords * numPorts)).1,
    (m.malloc fresh (hostTableWords * numPorts)).2, 0⟩

/-! ## Slots -/

def inBlock {α : Type*} : Option α → Except HostFault α
  | some a => .ok a
  | none => .error .outsideBlock

/-- The `k`-th word of `hosts[port]`. -/
def HostTable.slotWord (t : HostTable O) (port k : Nat) : Option (BitVec 64) :=
  t.memory.load t.hosts (hostDescWords * port + k)

def HostTable.active (t : HostTable O) (port : Nat) : Option (BitVec 32) := (t.slotWord port 4).map lowHalf

/-- What `&hosts[port].addr` points at: the bytes of the pointer. -/
def HostTable.addrBytes (t : HostTable O) (port : Nat) : Option (BitVec 32) := (t.slotWord port 1).map lowHalf

def HostTable.slot (t : HostTable O) (port : Nat) : Option HostDesc :=
  match t.slotWord port 0, t.slotWord port 1, t.slotWord port 2, t.slotWord port 3, t.slotWord port 4 with
  | some data, some addr, some send, some addrFree, some active => some ⟨data, addr, send, addrFree, active⟩
  | _, _, _, _, _ => none

def HostTable.store (t : HostTable O) (port k : Nat) (word : BitVec 64) : HostTable O :=
  { t with memory := t.memory.store t.hosts (hostDescWords * port + k) word }

/-- `hosts[port] = host_desc`. -/
def HostTable.setSlot (t : HostTable O) (port : Nat) (hostDesc : HostDesc) : HostTable O :=
  ((((t.store port 0 hostDesc.data).store port 1 hostDesc.addr).store port 2 hostDesc.send).store port 3
    hostDesc.addrFree).store port 4 hostDesc.active

/-- `hosts[port].active = active`. -/
def HostTable.setActive (t : HostTable O) (port : Nat) (active : BitVec 32) : HostTable O :=
  match t.slotWord port 4 with
  | some word => t.store port 4 (setLowHalf word active)
  | none => t

/-! ## The functions -/

/-- The calls of `port_elem_free` that a call of the hash table makes. -/
def freePortElems (t : HashTable32 AddrBlock PortElem) : Except HostFault (HashTable32 AddrBlock PortElem) :=
  if .code ∈ t.freedVals then .error .badFree else .ok t

def addrTableCall (r : Except Fault (HashTable32 AddrBlock PortElem)) :
    Except HostFault (HashTable32 AddrBlock PortElem) :=
  match r with
  | .ok t => freePortElems t
  | .error fault => .error (.table fault)

/-- `addr` is what the pointer `hostDesc.addr` points at. The element that is
created is not used: the value inserted is the function that creates it. -/
def hostTableFill (t : HostTable O) (hostDesc : HostDesc) (addr : BitVec 32) (port : Nat) :
    Except HostFault (HostTable O) :=
  (addrTableCall (hashTableInsert32 (blockOps O) t.addrTable ⟨t.blocks, addr⟩ .code)).map fun addrTable =>
    { (t.setSlot port hostDesc).setActive port HOST_DESC_ACTIVE with
      addrTable := addrTable
      blocks := t.blocks + 1 }

def hostTableRegister (t : HostTable O) (hostDesc : HostDesc) (addr : BitVec 32) (port : Nat) :
    Except HostFault (HostTable O × Nat) :=
  if port ≥ t.numPorts then .ok (t, REG_ERROR_INVALID_PORT)
  else (inBlock (t.active port)).bind fun active =>
    if active = HOST_DESC_ACTIVE then .ok (t, REG_ERROR_ALREADY_SET)
    else (hostTableFill t hostDesc addr port).map fun t' => (t', W.hashTableInsert)

def hostTableEmpty (t : HostTable O) (port : Nat) : Except HostFault (HostTable O) :=
  (inBlock (t.addrBytes port)).bind fun bytes =>
    (addrTableCall (hashTableRemove32 (blockOps O) t.addrTable ⟨t.blocks, bytes⟩)).map fun addrTable =>
      { t.setActive port HOST_DESC_INACTIVE with addrTable := addrTable }

/-- There is no `return` behind the last statement: the result is indeterminate. -/
def hostTableDeregister (t : HostTable O) (port indeterminate : Nat) : Except HostFault (HostTable O × Nat) :=
  if port ≥ t.numPorts then .ok (t, REG_ERROR_INVALID_PORT)
  else (inBlock (t.active port)).bind fun active =>
    if active = HOST_DESC_INACTIVE then .ok (t, REG_ERROR_NOT_SET)
    else (hostTableEmpty t port).map fun t' => (t', indeterminate)

def hostTablePortLookup (t : HostTable O) (addr : BitVec 32) : Except HostFault (Option Nat) :=
  match hashTableLookup32 (blockOps O) t.addrTable ⟨t.blocks, addr⟩ with
  | .ok portElem => .ok (portElem.map (PortElem.portNum W))
  | .error fault => .error (.table fault)

def hostTableHostLookup (t : HostTable O) (port : Nat) : Except HostFault (Option HostDesc) :=
  (inBlock (t.active port)).bind fun active =>
    if active ≠ 0 then (inBlock (t.slot port)).map some else .ok none

/-- `host_table_free`, up to the release of the blocks of the table itself. -/
def hostTableFree (t : HostTable O) : Except HostFault (HashTable AddrBlock PortElem) :=
  if .code ∈ (hashTableFree t.addrTable.wide).freedVals then .error .badFree
  else .ok (hashTableFree t.addrTable.wide)

/-! ## Runs of calls -/

inductive HostCall
  | register (hostDesc : HostDesc) (addr : BitVec 32) (port : Nat)
  | deregister (port indeterminate : Nat)

def HostCall.port : HostCall → Nat
  | .register _ _ port => port
  | .deregister port _ => port

def hostTableCall (t : HostTable O) : HostCall → Except HostFault (HostTable O × Nat)
  | .register hostDesc addr port => hostTableRegister W t hostDesc addr port
  | .deregister port indeterminate => hostTableDeregister t port indeterminate

/-- The call passes its two checks. -/
def HostCall.Accepted (t : HostTable O) : HostCall → Prop
  | .register _ _ port =>
    port < t.numPorts ∧ (t.active port).isSome = true ∧ t.active port ≠ some HOST_DESC_ACTIVE
  | .deregister port _ =>
    port < t.numPorts ∧ (t.active port).isSome = true ∧ t.active port ≠ some HOST_DESC_INACTIVE

instance (t : HostTable O) : ∀ c : HostCall, Decidable (c.Accepted t)
  | .register _ _ port => inferInstanceAs
    (Decidable (port < t.numPorts ∧ (t.active port).isSome = true ∧ t.active port ≠ some HOST_DESC_ACTIVE))
  | .deregister port _ => inferInstanceAs
    (Decidable (port < t.numPorts ∧ (t.active port).isSome = true ∧ t.active port ≠ some HOST_DESC_INACTIVE))

/-- A host table, what was given for each port and is registered there, and the
fault that ended the program, if there was one. -/
structure HostState (O : KeyOps (BitVec 32)) where
  table : HostTable O
  given : Nat → Option (HostDesc × BitVec 32)
  fault : Option HostFault

def hostStart (fresh : Nat → Nat → BitVec 64) (m : Memory (BitVec 64)) (numPorts : Nat) : HostState O :=
  ⟨hostTableCreate fresh m numPorts, fun _ => none, none⟩

/-- Calls that pass the checks are the ones that register and deregister. -/
def HostState.record (s : HostState O) (c : HostCall) : Nat → Option (HostDesc × BitVec 32) :=
  if c.Accepted s.table then
    match c with
    | .register hostDesc addr port => Function.update s.given port (some (hostDesc, addr))
    | .deregister port _ => Function.update s.given port none
  else s.given

def hostStep (s : HostState O) (c : HostCall) : HostState O × Except HostFault Nat :=
  match s.fault with
  | some fault => (s, .error fault)
  | none =>
    match hostTableCall W s.table c with
    | .ok (t, result) => (⟨t, s.record c, none⟩, .ok result)
    | .error fault => ({ s with fault := some fault }, .error fault)

end

end SwitchSimulation
