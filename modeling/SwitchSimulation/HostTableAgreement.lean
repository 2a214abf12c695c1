import SwitchSimulation.HostTableCalls

/-!
# Do the addresses agree with the ports?

The registry is what a host table is for: which address is registered at
which port. Lookups agree with it in every state of a run just when every flag
that is read lies in the block of the hosts, every register call is for the
one port number that all lookups read from the code of `port_elem_create`, and
no deregister call is for a registered port or finds an entry to remove.
-/

namespace SwitchSimulation

section
variable {O : KeyOps (BitVec 32)}

def HostState.Registered (s : HostState O) (p : Nat) (a : BitVec 32) : Prop :=
  ∃ g, s.given p = some g ∧ O.compare a g.2 = .EQ

variable (W : CodeWords)

/-- No call has faulted, and a lookup gives the port of an address just when the
address is registered there. -/
def Agreement (s : HostState O) : Prop :=
  s.fault = none ∧ ∀ a, ∃ r, hostTablePortLookup W s.table a = .ok r ∧ ∀ p, r = some p ↔ s.Registered p a

/-- The flag that the call reads lies in the block. A register call that passes
its checks is for the port that lookups read. A deregister call that passes its
checks is for a port that is not registered, and finds nothing to remove. -/
def AgreeingCall (s : HostState O) (c : HostCall) : Prop :=
  c.InBlock s.table ∧ (c.Accepted s.table →
    match c with
    | .register _ _ port => port = W.portElemCreate
    | .deregister port _ => s.given port = none ∧ s.table.KeyMissing port)

variable {W} {s : HostState O} {port n : Nat} {addr : BitVec 32} {t' : HostTable O}

theorem agreement_iff (h : TableLaw s.table) : Agreement W s ↔
    s.fault = none ∧ ∀ a p, s.table.Holds a ∧ p = W.portElemCreate ↔ s.Registered p a := by
  refine and_congr_right fun _ => forall_congr' fun a => ?_
  obtain ⟨r, hr, hspec⟩ := portLookup_spec W h a
  simp only [hr, Except.ok.injEq, exists_eq_left', hspec]

/-- No address is registered at two ports. -/
theorem Agreement.unique (h : Agreement W s) {p q : Nat} {a : BitVec 32} (hp : s.Registered p a)
    (hq : s.Registered q a) : p = q := by
  obtain ⟨r, -, hr⟩ := h.2 a
  exact Option.some.inj (((hr p).mpr hp).symm.trans ((hr q).mpr hq))

theorem registered_self {g : HostDesc × BitVec 32} {p : Nat} (h : s.given p = some g) : s.Registered p g.2 :=
  ⟨g, h, O.eq_refl _⟩

/-! ## Deregistering -/

theorem agreement_empty (h : Agreement W s) (hi : HostInv n s) (hin : (s.table.active port).isSome) :
    Agreement W (⟨s.table.setActive port HOST_DESC_INACTIVE, Function.update s.given port none, none⟩ :
      HostState O) ↔ s.given port = none := by
  have hholds : ∀ a, (s.table.setActive port HOST_DESC_INACTIVE).Holds a ↔ s.table.Holds a := by
    intro a
    unfold HostTable.Holds HostTable.entries
    rw [(setActive_fields ..).2.1]
  rw [agreement_iff (setActive_law hi.law hin _)]
  have hbefore := ((agreement_iff hi.law).mp h).2
  constructor
  · intro ⟨_, hafter⟩
    cases hg : s.given port with
    | none => rfl
    | some g =>
      obtain ⟨hh, hp⟩ := (hbefore g.2 port).mpr (registered_self hg)
      obtain ⟨g', hg', -⟩ := (hafter g.2 port).mp ⟨(hholds _).mpr hh, hp⟩
      simp at hg'
  · intro hg
    refine ⟨rfl, fun a p => ?_⟩
    rw [hholds, hbefore a p]
    unfold HostState.Registered
    rw [show Function.update s.given port none = s.given by rw [← hg, Function.update_eq_self]]

/-! ## Registering -/

section
variable (h : Agreement W s) (hi : HostInv n s) (ha : s.table.active W.portElemCreate ≠ some HOST_DESC_ACTIVE)
include h hi ha

theorem Agreement.nothing (p : Nat) : s.given p = none := by
  cases hp : s.given p with
  | none => rfl
  | some g =>
    obtain ⟨-, rfl⟩ := (((agreement_iff hi.law).mp h).2 g.2 p).mpr (registered_self hp)
    exact absurd (hi.active _ g hp) ha

theorem Agreement.holds_nothing (a : BitVec 32) : ¬ s.table.Holds a := by
  intro hh
  obtain ⟨g, hg, -⟩ := (((agreement_iff hi.law).mp h).2 a _).mp ⟨hh, rfl⟩
  rw [h.nothing hi ha] at hg
  cases hg

theorem Agreement.room : s.table.Room addr := by
  have hnil : s.table.entries = [] := List.eq_nil_iff_forall_not_mem.mpr fun e he =>
    h.holds_nothing hi ha e.key.bytes ⟨e, he, O.eq_refl _⟩
  have hsize : s.table.addrTable.size.toNat = s.table.entries.length := hi.law.inv.size_eq
  rw [hnil, List.length_nil] at hsize
  exact Or.inr (by omega)

end

theorem agreement_fill (h : Agreement W s) (hi : HostInv n s) (ha : s.table.active port ≠ some HOST_DESC_ACTIVE)
    (hf : Filled s.table addr port t') (hostDesc : HostDesc) :
    Agreement W (⟨t', Function.update s.given port (some (hostDesc, addr)), none⟩ : HostState O) ↔
      port = W.portElemCreate := by
  rw [agreement_iff hf.law]
  constructor
  · intro ⟨_, hafter⟩
    exact ((hafter addr port).mpr ⟨_, Function.update_self .., O.eq_refl _⟩).2
  · rintro rfl
    refine ⟨rfl, fun a p => ?_⟩
    rw [hf.holds, or_iff_left (h.holds_nothing hi ha a)]
    unfold HostState.Registered
    by_cases hp : p = W.portElemCreate
    · subst hp; simp
    · simp [h.nothing hi ha p, hp]

/-! ## Runs -/

theorem not_agreement_of_fault {fault : HostFault} : ¬ Agreement W { s with fault := some fault } :=
  fun h => (Option.some_ne_none _ h.1).elim

theorem hostStep_agreement (h : Agreement W s) (hi : HostInv n s) (c : HostCall) :
    Agreement W (hostStep W s c).1 ↔ AgreeingCall W s c := by
  by_cases hin : c.InBlock s.table
  · by_cases hc : c.Accepted s.table
    · unfold AgreeingCall
      rw [and_iff_right hin, imp_iff_right hc]
      cases c with
      | register hostDesc addr port =>
        have hinactive := hc.2.2
        by_cases hroom : s.table.Room addr
        · obtain ⟨t', hf, hstep⟩ := hostStep_register (W := W) h.1 hi.law hc hroom
          rw [hstep, agreement_fill h hi hinactive hf]
        · rw [hostStep_no_room h.1 hi.law hc hroom]
          exact iff_of_false not_agreement_of_fault fun hp => hroom (h.room hi (hp ▸ hinactive))
      | deregister port indeterminate =>
        have hin : (s.table.active port).isSome := hc.in_block
        by_cases hm : s.table.KeyMissing port
        · rw [hostStep_deregister h.1 hi.law hc hm, agreement_empty h hi hin]
          exact (and_iff_left hm).symm
        · rw [hostStep_key_found h.1 hi.law hc hm]
          exact iff_of_false not_agreement_of_fault fun hp => hm hp.2
    · rw [hostStep_refused h.1 hin hc]
      exact iff_of_true h ⟨hin, fun hc' => absurd hc' hc⟩
  · rw [hostStep_error h.1 (call_outside hin)]
    exact iff_of_false not_agreement_of_fault fun hc => hin hc.1

end

/-- Lookups agree with the registered addresses in every state of a run just
when all its calls are agreeing ones. -/
theorem host_table_agrees_iff (O : KeyOps (BitVec 32)) (W : CodeWords) (fresh : Nat → Nat → BitVec 64)
    (m : Memory (BitVec 64)) (numPorts : Nat) (calls : List HostCall) :
    Always (hostStep W) (Agreement W) (hostStart fresh m numPorts : HostState O) calls ↔
      Meets (hostStep W) (AgreeingCall W) (hostStart fresh m numPorts : HostState O) calls := by
  have hinv : HostInv numPorts (hostStart fresh m numPorts : HostState O) := hostStart_inv fresh m numPorts
  refine always_iff_meets (Agreement W) (fun s c h hi => hostStep_agreement h hi c) ?_
    (meets_of_inv (HostInv numPorts) (fun s c h => hostStep_inv h c) hinv calls)
  rw [agreement_iff hinv.law]
  refine ⟨rfl, fun a p => iff_of_false ?_ ?_⟩
  · intro ⟨⟨e, he, _⟩, _⟩
    rw [show (hostStart fresh m numPorts : HostState O).table.entries = [] from entries_create fresh m numPorts] at he
    cases he
  · intro ⟨g, hg, _⟩
    cases hg

def natAddr : KeyOps (BitVec 32) := KeyOps.ofKey BitVec.toNat id

def plainHost (addr : BitVec 64) : HostDesc := ⟨0, addr, 0, 0, 1⟩

/-- A table for four ports, whose first two slots lie in the block, in memory of ones. -/
def fourPorts : HostState natAddr := hostStart (fun _ _ => 1) ⟨fun _ => [], 0⟩ 4

theorem host_table_disagrees : ¬ Always (hostStep ⟨0xfa1e0ff3, 0⟩) (Agreement ⟨0xfa1e0ff3, 0⟩) fourPorts
    [.register (plainHost 0x5000) 10 0, .register (plainHost 0x6000) 11 1] := by
  intro h
  obtain ⟨r, hr, hspec⟩ := h.last.2 10
  have hreg : r = some 0 := (hspec 0).mpr ⟨(plainHost 0x5000, 10), by decide +kernel, by decide⟩
  rw [hreg] at hr
  revert hr
  decide +kernel

end SwitchSimulation
