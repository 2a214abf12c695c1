import Mathlib.Data.List.Nodup
import SwitchSimulation.Machine
import SwitchSimulation.Memory

/-!
# The address blocks of host descriptors (`network_switch_common.c`)

`addr_clone` makes a copy of the address and returns the address itself, so a
descriptor points at the block of its caller, and freeing the descriptor frees
that block. The blocks of the descriptors are not modelled.
-/

namespace SwitchSimulation

def ADDR_SIZE : Nat := 4

/-- `data` stands for the fields `data`, `send` and `addr_free`. -/
structure HostDescriptor (D : Type*) where
  data : D
  addr : Nat
  deriving DecidableEq

structure AddrStore (W : Type*) where
  memory : Memory W
  freed : List Nat

section
variable {W D : Type*} (fresh : Nat → Nat → W)

/-! ## The functions -/

def addrClone (s : AddrStore W) (addr : Nat) : AddrStore W × Nat :=
  let r := s.memory.malloc fresh ADDR_SIZE
  ({ s with memory := r.1.copy r.2 addr ADDR_SIZE }, addr)

def hostDescCreate (s : AddrStore W) (data : D) (addr : Nat) : AddrStore W × HostDescriptor D :=
  ((addrClone fresh s addr).1, ⟨data, (addrClone fresh s addr).2⟩)

def hostDescFree (s : AddrStore W) (hostDesc : HostDescriptor D) : AddrStore W :=
  { s with freed := s.freed ++ [hostDesc.addr] }

/-! ## Runs of calls -/

/-- The descriptors that were created and not freed, with the address that
each was created from, and the address blocks of the callers with their contents. -/
structure DescState (W D : Type*) where
  store : AddrStore W
  live : List (HostDescriptor D × List W)
  addrs : List (Nat × List W)

def descStart (m : Memory W) : DescState W D := ⟨⟨m, []⟩, [], []⟩

/-- A caller gets itself a block with an address; a call creates a descriptor
from the `k`-th of these blocks; a call frees the `i`-th live descriptor. -/
inductive DescCall (W D : Type*)
  | newAddr (addr : Nat → W)
  | create (data : D) (k : Nat)
  | free (i : Nat)

def descStep (s : DescState W D) : DescCall W D → DescState W D × Unit
  | .newAddr addr =>
    let r := s.store.memory.malloc (fun _ => addr) ADDR_SIZE
    ({ s with store := { s.store with memory := r.1 }, addrs := s.addrs ++ [(r.2, r.1.blocks r.2)] }, ())
  | .create data k =>
    match s.addrs[k]? with
    | some addr =>
      let r := hostDescCreate fresh s.store data addr.1
      ({ s with store := r.1, live := s.live ++ [(r.2, s.store.memory.blocks addr.1)] }, ())
    | none => (s, ())
  | .free i =>
    match s.live[i]? with
    | some d => ({ s with store := hostDescFree s.store d.1, live := s.live.eraseIdx i }, ())
    | none => (s, ())

def Intact (s : AddrStore W) (block : Nat) (addr : List W) : Prop :=
  (block < s.memory.next ∧ block ∉ s.freed) ∧ s.memory.blocks block = addr

structure Independent (s : DescState W D) : Prop where
  live : ∀ d ∈ s.live, Intact s.store d.1.addr d.2
  addrs : ∀ a ∈ s.addrs, Intact s.store a.1 a.2
  once : s.store.freed.Nodup

def FreesNone (s : DescState W D) : DescCall W D → Prop
  | .free i => s.live[i]? = none
  | _ => True

/-! ## One call -/

structure Shared (s : DescState W D) : Prop where
  none_freed : s.store.freed = []
  addrs : ∀ a ∈ s.addrs, a.1 < s.store.memory.next ∧ s.store.memory.blocks a.1 = a.2
  live : ∀ d ∈ s.live, (d.1.addr, d.2) ∈ s.addrs

variable {fresh} {s : DescState W D}

theorem Shared.independent (h : Shared s) : Independent s := by
  have haddrs : ∀ a ∈ s.addrs, Intact s.store a.1 a.2 := by
    intro a ha
    obtain ⟨hlt, hb⟩ := h.addrs a ha
    exact ⟨⟨hlt, by rw [h.none_freed]; exact List.not_mem_nil⟩, hb⟩
  exact ⟨fun d hd => haddrs _ (h.live d hd), haddrs, by rw [h.none_freed]; exact .nil⟩

theorem descStart_shared (m : Memory W) : Shared (descStart m : DescState W D) :=
  ⟨rfl, fun _ ha => absurd ha List.not_mem_nil, fun _ hd => absurd hd List.not_mem_nil⟩

theorem addrClone_old (s : AddrStore W) (addr : Nat) {b : Nat} (hb : b < s.memory.next) :
    b < (addrClone fresh s addr).1.memory.next ∧ (addrClone fresh s addr).1.memory.blocks b = s.memory.blocks b := by
  have hne : b ≠ s.memory.next := Nat.ne_of_lt hb
  refine ⟨Nat.lt_succ_of_lt hb, ?_⟩
  simp only [addrClone, Memory.malloc_snd]
  rw [Memory.copy_other hne, Memory.malloc_old hne]

theorem Shared.newAddr (h : Shared s) (addr : Nat → W) : Shared (descStep fresh s (.newAddr addr)).1 := by
  refine ⟨h.none_freed, fun a ha => ?_, fun d hd => List.mem_append_left _ (h.live d hd)⟩
  simp only [descStep] at ha ⊢
  cases List.mem_append.mp ha with
  | inl ha =>
    obtain ⟨hlt, hb⟩ := h.addrs a ha
    exact ⟨Nat.lt_succ_of_lt hlt, by rw [Memory.malloc_old (Nat.ne_of_lt hlt), hb]⟩
  | inr ha =>
    rw [List.mem_singleton.mp ha]
    exact ⟨Nat.lt_succ_self _, rfl⟩

theorem Shared.create (h : Shared s) (data : D) (k : Nat) : Shared (descStep fresh s (.create data k)).1 := by
  cases hk : s.addrs[k]? with
  | none =>
    simp only [descStep, hk]
    exact h
  | some addr =>
    have hmem : addr ∈ s.addrs := List.mem_of_getElem? hk
    simp only [descStep, hk]
    refine ⟨h.none_freed, fun a ha => ?_, fun d hd => ?_⟩
    · obtain ⟨hlt, hb⟩ := h.addrs a ha
      rw [← hb]
      exact addrClone_old s.store addr.1 hlt
    · cases List.mem_append.mp hd with
      | inl hd => exact h.live d hd
      | inr hd =>
        -- the descriptor has the block of the caller, and not the copy
        rw [List.mem_singleton.mp hd]
        simp only [hostDescCreate, addrClone, (h.addrs addr hmem).2]
        exact hmem

theorem descStep_shared {c : DescCall W D} (h : Shared s) (hc : FreesNone s c) : Shared (descStep fresh s c).1 := by
  cases c with
  | newAddr addr => exact h.newAddr addr
  | create data k => exact h.create data k
  | free i =>
    have hi : s.live[i]? = none := hc
    simp only [descStep, hi]
    exact h

theorem freesNone_of_independent {c : DescCall W D} (h : Shared s) (hi : Independent (descStep fresh s c).1) :
    FreesNone s c := by
  cases c with
  | newAddr addr => trivial
  | create data k => trivial
  | free i =>
    cases hl : s.live[i]? with
    | none => exact hl
    | some d =>
      simp only [descStep, hl] at hi
      -- the freed block is one of the callers' own
      have hmem := h.live d (List.mem_of_getElem? hl)
      exact absurd (List.mem_append_right _ (List.mem_singleton_self _)) (hi.addrs _ hmem).1.2

/-- Descriptors and callers keep their addresses throughout a run just when no
descriptor is freed in it. -/
theorem descriptors_independent_iff (fresh : Nat → Nat → W) (m : Memory W) (calls : List (DescCall W D)) :
    Always (descStep fresh) Independent (descStart m) calls ↔
      Meets (descStep fresh) FreesNone (descStart m) calls :=
  always_iff_meets_within (D := fun _ _ => True) Shared (fun _ h => h.independent)
    (fun _ _ h _ hc => descStep_shared h hc) (fun _ _ h _ hi => freesNone_of_independent h hi)
    (descStart_shared m) (meets_true _ _)

def sharedAddr : List (DescCall Nat Unit) := [.newAddr id, .create () 0, .create () 0, .free 0]

theorem descriptors_not_independent :
    ¬ Always (descStep fun _ _ => 0) Independent (descStart ⟨fun _ => [], 0⟩) sharedAddr := by
  intro h
  have hlive := h.last.live (⟨(), 0⟩, [0, 1, 2, 3]) (by decide)
  exact absurd hlive.1.2 (by decide)

end

end SwitchSimulation
