import SwitchSimulation.HashTableOwnership
import SwitchSimulation.HostTableCalls

/-!
# What a host table frees

`host_table_register` allocates a block for the address and an element for
the port. The block becomes a key of the address table, which frees it when
another block with the same address takes its place; the element is lost. What
the table would free in the place of the element is the function
`port_elem_create`, and there the program ends.
-/

namespace SwitchSimulation

section
variable {O : KeyOps (BitVec 32)}

def HostTable.freedBlocks (t : HostTable O) : List Nat := t.addrTable.freedKeys.map AddrBlock.block

def entryBlock (e : HashTableEntry AddrBlock PortElem) : Nat := e.key.block

def HostTable.heldBlocks (t : HostTable O) : List Nat := t.entries.map entryBlock

/-- The blocks below `t.blocks` are those allocated so far. No value has been
freed, and a table that was given a block has an entry. -/
structure TableMemory (t : HostTable O) : Prop where
  law : TableLaw t
  blocks : Custody (List.range t.blocks) t.freedBlocks t.heldBlocks
  entries : t.entries = [] → t.blocks = 0

variable {t t' : HostTable O} {port : Nat} {addr : BitVec 32}

theorem hostTableCreate_memory (fresh : Nat → Nat → BitVec 64) (m : Memory (BitVec 64)) (numPorts : Nat) :
    TableMemory (hostTableCreate fresh m numPorts : HostTable O) := by
  refine ⟨hostTableCreate_law fresh m numPorts, ?_, fun _ => rfl⟩
  unfold HostTable.heldBlocks
  rw [entries_create]
  exact Custody.empty

/-! ## Calls -/

theorem setActive_memory (h : TableMemory t) (hin : (t.active port).isSome) (a : BitVec 32) :
    TableMemory (t.setActive port a) := by
  obtain ⟨-, htable, hblocks⟩ := setActive_fields t port a
  have hentries : (t.setActive port a).entries = t.entries := by
    unfold HostTable.entries
    rw [htable]
  refine ⟨setActive_law h.law hin a, ?_, ?_⟩
  · unfold HostTable.freedBlocks HostTable.heldBlocks
    rw [hentries, htable, hblocks]
    exact h.blocks
  · rw [hentries, hblocks]
    exact h.entries

/-- The new block is a key, and it may take the place of one with the same address. -/
theorem filled_memory (h : TableMemory t) (hf : Filled t addr port t') : TableMemory t' := by
  obtain ⟨rest, hnew, hold⟩ := hf.entries
  have hfresh : t.blocks ∉ List.range t.blocks := fun hin => Nat.lt_irrefl _ (List.mem_range.mp hin)
  refine ⟨hf.law, ?_, fun hnil => ?_⟩
  · rw [hf.blocks]
    refine Custody.range_succ (Custody.perm ?_ (hnew.map entryBlock).symm)
    rw [List.map_cons]
    unfold HostTable.freedBlocks
    rcases hold with ⟨hold, hk⟩ | ⟨e, -, hold, hk⟩
    · rw [hk]
      exact (h.blocks.perm (hold.map entryBlock)).add hfresh
    · rw [hk, List.map_append]
      exact (h.blocks.perm (hold.map entryBlock)).free.add hfresh
  · rw [hnil] at hnew
    exact absurd hnew.nil_eq.symm (List.cons_ne_nil _ _)

theorem hostStep_memory {W : CodeWords} {s : HostState O} (h : TableMemory s.table) (c : HostCall) :
    TableMemory (hostStep W s c).1.table := by
  obtain ⟨fault, hs⟩ | ⟨hostDesc, addr, port, t', rfl, -, hfill, hs⟩ | ⟨port, indeterminate, rfl, hc, hs⟩ :=
    hostStep_cases h.law c
  · rw [hs]; exact h
  · rw [hs]; exact filled_memory h hfill
  · rw [hs]; exact setActive_memory h hc.in_block _

/-! ## Freeing the table -/

theorem hostTableFree_returns (h : TableMemory t) : (∃ u, hostTableFree t = .ok u) ↔ t.blocks = 0 := by
  obtain ⟨-, -, hv⟩ := hashTableFree_spec t.addrTable.wide
  have hvals : (hashTableFree t.addrTable.wide).freedVals = t.entries.map HashTableEntry.val := by
    rw [hv, show t.addrTable.wide.freedVals = [] from h.law.unfreed]
    rfl
  unfold hostTableFree
  rw [hvals]
  by_cases hnil : t.entries = []
  · rw [hnil]
    exact iff_of_true ⟨_, if_neg List.not_mem_nil⟩ (h.entries hnil)
  · obtain ⟨e, he⟩ := List.exists_mem_of_ne_nil _ hnil
    have hmem : PortElem.code ∈ t.entries.map HashTableEntry.val := List.mem_map.mpr ⟨e, he, h.law.code e he⟩
    have hlt : e.key.block < t.blocks := h.law.old e he
    rw [if_pos hmem]
    exact iff_of_false (fun ⟨_, hu⟩ => nomatch hu) (by omega)

end

/-- In every run each block that a register call has allocated for an address
is freed once or is the key of one entry, and no value is freed. Freeing the
table at the end returns just when no register call has passed its checks: the
first value that it frees is `port_elem_create`. -/
theorem host_table_memory (O : KeyOps (BitVec 32)) (W : CodeWords) (fresh : Nat → Nat → BitVec 64)
    (m : Memory (BitVec 64)) (numPorts : Nat) (calls : List HostCall) :
    let s : HostState O := hostStart fresh m numPorts
    Always (hostStep W) (fun s => TableMemory s.table) s calls ∧
      ((∃ t, hostTableFree (exec (hostStep W) s calls).table = .ok t) ↔
        (exec (hostStep W) s calls).table.blocks = 0) := by
  intro s
  have hstart : TableMemory s.table := hostTableCreate_memory fresh m numPorts
  have halways := always_inv (fun s : HostState O => TableMemory s.table)
    (fun s c h => hostStep_memory (W := W) h c) hstart calls
  exact ⟨halways, hostTableFree_returns halways.last⟩

end SwitchSimulation
