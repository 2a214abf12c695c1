import Mathlib.Algebra.Group.Nat.Defs
import SwitchSimulation.ScheduleOrder
import SwitchSimulation.ScheduleRun

/-!
# The scheduler in 32 bits

`port_num_t` is `unsigned int`, so `iSLIP_grant_ptr[i] + j` wraps before it is
taken modulo the number of ports. The definitions are those of `Schedule` with
that addition. Where no pointer is above `2 ^ 32 - n`, and `n` is at most
`2 ^ 31`, nothing wraps and both are the same.
-/

namespace SwitchSimulation

/-- `(ptr + j) % num_ports` in `unsigned int`. -/
def portIndex32 (n ptr j : Nat) : Nat := (ptr + j) % 2 ^ 32 % n

section
variable (n : Nat) (voqSize : Nat → Nat → Nat)

/-! ## Grant phase -/

def grantBody32 (i j : Nat) (t : Schedule × Bool) : Schedule × Bool :=
  let inputPort := portIndex32 n (t.1.grantPtr i) j
  if t.1.inputMatched inputPort = false then
    if voqSize inputPort i > 0 then (makeGrant i inputPort t.1, true) else t
  else t

def grantOutput32 (i : Nat) (s : Schedule) : Schedule :=
  if s.outputMatched i = false then (forUntil n Prod.snd (grantBody32 n voqSize i) (s, false)).1 else s

def grantPhase32 (s : Schedule) : Schedule := forRange n (grantOutput32 n voqSize) s

/-! ## Accept phase -/

def accept32 (i outputPort : Nat) (s : Schedule) : Schedule :=
  { s with
    inputMatched := Function.update s.inputMatched i true
    outputMatched := Function.update s.outputMatched outputPort true
    portMapping := Function.update s.portMapping i outputPort
    mappingActive := Function.update s.mappingActive i true
    grantPtr := Function.update s.grantPtr outputPort (portIndex32 n (s.grantPtr outputPort) 1)
    acceptPtr := Function.update s.acceptPtr i (portIndex32 n (s.acceptPtr i) 1) }

def acceptBody32 (i j : Nat) (t : Schedule × Bool) : Schedule × Bool :=
  let outputPort := portIndex32 n (t.1.acceptPtr i) j
  if t.1.outputMatched outputPort = false then
    if t.1.grantMade outputPort = true ∧ t.1.grantTarget outputPort = some i then
      (accept32 n i outputPort t.1, true)
    else t
  else t

def acceptInput32 (i : Nat) (s : Schedule) : Schedule :=
  if s.inputMatched i = false then (forUntil n Prod.snd (acceptBody32 n i) (s, false)).1 else s

def acceptPhase32 (s : Schedule) : Schedule := forRange n (acceptInput32 n) s

/-! ## Rounds -/

def iSLIPRound32 (s : Schedule) : Schedule := acceptPhase32 n (grantPhase32 n voqSize (resetGrants s))

def iSLIPRounds32 (rounds : Nat) (s : Schedule) : Schedule := forRange rounds (fun _ => iSLIPRound32 n voqSize) s

def iSLIPSchedule32 (grantPtr acceptPtr : Nat → Nat) : Schedule :=
  iSLIPRounds32 n voqSize (ISLIP_ROUNDS n) (scheduleReset grantPtr acceptPtr)

/-- A round that takes the outputs and the inputs in the given orders. -/
def roundInOrder32 (outputs inputs : List Nat) (s : Schedule) : Schedule :=
  inputs.foldl (fun t i => acceptInput32 n i t)
    (outputs.foldl (fun t i => grantOutput32 n voqSize i t) (resetGrants s))

/-! ## Calls -/

def schedule32 (p : Pointers) (voqSize : Nat → Nat → Nat) : Schedule :=
  iSLIPSchedule32 n voqSize p.grant p.accept

def scheduleCall32 (p : Pointers) (voqSize : Nat → Nat → Nat) : Pointers × Schedule :=
  (⟨(schedule32 n p voqSize).grantPtr, (schedule32 n p voqSize).acceptPtr⟩, schedule32 n p voqSize)

end

/-! ## Where nothing wraps -/

/-- No pointer of a port wraps on its way round the ports. -/
def NoWrap (n : Nat) (grantPtr acceptPtr : Nat → Nat) : Prop :=
  ∀ x < n, grantPtr x + n ≤ 2 ^ 32 ∧ acceptPtr x + n ≤ 2 ^ 32

instance (n : Nat) (grantPtr acceptPtr : Nat → Nat) : Decidable (NoWrap n grantPtr acceptPtr) :=
  inferInstanceAs (Decidable (∀ x < n, grantPtr x + n ≤ 2 ^ 32 ∧ acceptPtr x + n ≤ 2 ^ 32))

theorem noWrap_of_lt {n : Nat} {grantPtr acceptPtr : Nat → Nat} (hn : n ≤ 2 ^ 31)
    (h : ∀ x < n, grantPtr x < n ∧ acceptPtr x < n) : NoWrap n grantPtr acceptPtr := by
  intro x hx
  have := h x hx
  omega

theorem portIndex32_eq {n ptr j : Nat} (hp : ptr + n ≤ 2 ^ 32) (hj : j < n) :
    portIndex32 n ptr j = (ptr + j) % n := by
  unfold portIndex32
  rw [Nat.mod_eq_of_lt (show ptr + j < 2 ^ 32 by omega)]

theorem portIndex32_next {n ptr : Nat} (hn : 0 < n) (hp : ptr + n ≤ 2 ^ 32) :
    portIndex32 n ptr 1 = (ptr + 1) % n := by
  rcases Nat.lt_or_ge 1 n with h | h
  · exact portIndex32_eq hp h
  · obtain rfl : n = 1 := by omega
    unfold portIndex32
    rw [Nat.mod_one, Nat.mod_one]

section
variable {n : Nat} {voqSize : Nat → Nat → Nat} {s : Schedule} {grantPtr acceptPtr : Nat → Nat} {i j o : Nat}

theorem grantBody_keeps {t : Schedule × Bool} (h : NoWrap n t.1.grantPtr t.1.acceptPtr) :
    NoWrap n (grantBody n voqSize i j t).1.grantPtr (grantBody n voqSize i j t).1.acceptPtr := by
  simp only [grantBody]
  split
  · split <;> exact h
  · exact h

theorem grantOutput_keeps (h : NoWrap n s.grantPtr s.acceptPtr) :
    NoWrap n (grantOutput n voqSize i s).grantPtr (grantOutput n voqSize i s).acceptPtr := by
  unfold grantOutput
  split
  · exact forUntil_keeps (fun t : Schedule × Bool => NoWrap n t.1.grantPtr t.1.acceptPtr) h
      fun _ _ _ ht => grantBody_keeps ht
  · exact h

theorem grantPhase_keeps (h : NoWrap n s.grantPtr s.acceptPtr) :
    NoWrap n (grantPhase n voqSize s).grantPtr (grantPhase n voqSize s).acceptPtr :=
  forRange_keeps (fun t : Schedule => NoWrap n t.grantPtr t.acceptPtr) h fun _ _ _ => grantOutput_keeps

theorem grantBody32_eq (hi : i < n) (hj : j < n) {t : Schedule × Bool}
    (h : NoWrap n t.1.grantPtr t.1.acceptPtr) : grantBody32 n voqSize i j t = grantBody n voqSize i j t := by
  unfold grantBody32 grantBody
  rw [portIndex32_eq (h i hi).1 hj]

theorem grantOutput32_eq (hi : i < n) (h : NoWrap n s.grantPtr s.acceptPtr) :
    grantOutput32 n voqSize i s = grantOutput n voqSize i s := by
  unfold grantOutput32 grantOutput
  rw [forUntil_congr (fun t : Schedule × Bool => NoWrap n t.1.grantPtr t.1.acceptPtr) h
    (fun _ _ _ ht => grantBody_keeps ht) fun _ hj _ ht => grantBody32_eq hi hj ht]

theorem grantPhase32_eq (h : NoWrap n s.grantPtr s.acceptPtr) : grantPhase32 n voqSize s = grantPhase n voqSize s :=
  forRange_congr (fun t : Schedule => NoWrap n t.grantPtr t.acceptPtr) h (fun _ _ _ => grantOutput_keeps)
    fun _ hi _ => grantOutput32_eq hi

theorem accept32_eq (hi : i < n) (ho : o < n) (h : NoWrap n s.grantPtr s.acceptPtr) :
    accept32 n i o s = accept n i o s := by
  have hn : 0 < n := Nat.zero_lt_of_lt hi
  unfold accept32 accept
  rw [portIndex32_next hn (h o ho).1, portIndex32_next hn (h i hi).2]

theorem acceptBody32_eq (hi : i < n) (hj : j < n) {t : Schedule × Bool}
    (h : NoWrap n t.1.grantPtr t.1.acceptPtr) : acceptBody32 n i j t = acceptBody n i j t := by
  have hlt : (t.1.acceptPtr i + j) % n < n := Nat.mod_lt _ (Nat.zero_lt_of_lt hi)
  simp only [acceptBody32, acceptBody]
  rw [portIndex32_eq (h i hi).2 hj, accept32_eq hi hlt h]

variable (hn : n ≤ 2 ^ 31)
include hn

theorem accept_keeps (h : NoWrap n s.grantPtr s.acceptPtr) :
    NoWrap n (accept n i o s).grantPtr (accept n i o s).acceptPtr := by
  intro x hx
  have hmod : ∀ k, k % n + n ≤ 2 ^ 32 := by
    intro k
    have := Nat.mod_lt k (Nat.zero_lt_of_lt hx)
    omega
  simp only [accept, Function.update_apply]
  constructor
  · split
    · exact hmod _
    · exact (h x hx).1
  · split
    · exact hmod _
    · exact (h x hx).2

theorem acceptBody_keeps {t : Schedule × Bool} (h : NoWrap n t.1.grantPtr t.1.acceptPtr) :
    NoWrap n (acceptBody n i j t).1.grantPtr (acceptBody n i j t).1.acceptPtr := by
  simp only [acceptBody]
  split
  · split
    · exact accept_keeps hn h
    · exact h
  · exact h

theorem acceptInput_keeps (h : NoWrap n s.grantPtr s.acceptPtr) :
    NoWrap n (acceptInput n i s).grantPtr (acceptInput n i s).acceptPtr := by
  unfold acceptInput
  split
  · exact forUntil_keeps (fun t : Schedule × Bool => NoWrap n t.1.grantPtr t.1.acceptPtr) h
      fun _ _ _ ht => acceptBody_keeps hn ht
  · exact h

theorem acceptInput32_eq (hi : i < n) (h : NoWrap n s.grantPtr s.acceptPtr) :
    acceptInput32 n i s = acceptInput n i s := by
  unfold acceptInput32 acceptInput
  rw [forUntil_congr (fun t : Schedule × Bool => NoWrap n t.1.grantPtr t.1.acceptPtr) h
    (fun _ _ _ ht => acceptBody_keeps hn ht) fun _ hj _ ht => acceptBody32_eq hi hj ht]

theorem acceptPhase32_eq (h : NoWrap n s.grantPtr s.acceptPtr) : acceptPhase32 n s = acceptPhase n s :=
  forRange_congr (fun t : Schedule => NoWrap n t.grantPtr t.acceptPtr) h (fun _ _ _ => acceptInput_keeps hn)
    fun _ hi _ => acceptInput32_eq hn hi

theorem iSLIPRound_keeps (h : NoWrap n s.grantPtr s.acceptPtr) :
    NoWrap n (iSLIPRound n voqSize s).grantPtr (iSLIPRound n voqSize s).acceptPtr :=
  forRange_keeps (fun t : Schedule => NoWrap n t.grantPtr t.acceptPtr) (grantPhase_keeps (s := resetGrants s) h)
    fun _ _ _ => acceptInput_keeps hn

theorem iSLIPRound32_eq (h : NoWrap n s.grantPtr s.acceptPtr) : iSLIPRound32 n voqSize s = iSLIPRound n voqSize s := by
  unfold iSLIPRound32 iSLIPRound
  rw [grantPhase32_eq (s := resetGrants s) h, acceptPhase32_eq hn (grantPhase_keeps (s := resetGrants s) h)]

theorem roundInOrder32_eq {outputs inputs : List Nat} (hout : ∀ i ∈ outputs, i < n) (hin : ∀ i ∈ inputs, i < n)
    (h : NoWrap n s.grantPtr s.acceptPtr) :
    roundInOrder32 n voqSize outputs inputs s = roundInOrder n voqSize outputs inputs s := by
  obtain ⟨hgrants, hg⟩ := foldl_congr_within (fun t : Schedule => NoWrap n t.grantPtr t.acceptPtr)
    (s := resetGrants s) h (fun i hi t ht => ⟨grantOutput_keeps ht, grantOutput32_eq (hout i hi) ht⟩)
  obtain ⟨haccepts, -⟩ := foldl_congr_within (fun t : Schedule => NoWrap n t.grantPtr t.acceptPtr) hg
    (fun i hi t ht => ⟨acceptInput_keeps hn ht, acceptInput32_eq hn (hin i hi) ht⟩)
  unfold roundInOrder32 roundInOrder
  rw [hgrants, haccepts]

theorem iSLIPSchedule_keeps (h : NoWrap n grantPtr acceptPtr) :
    NoWrap n (iSLIPSchedule n voqSize grantPtr acceptPtr).grantPtr
      (iSLIPSchedule n voqSize grantPtr acceptPtr).acceptPtr :=
  forRange_keeps (fun t : Schedule => NoWrap n t.grantPtr t.acceptPtr) h fun _ _ _ => iSLIPRound_keeps hn

theorem iSLIPSchedule32_eq (h : NoWrap n grantPtr acceptPtr) :
    iSLIPSchedule32 n voqSize grantPtr acceptPtr = iSLIPSchedule n voqSize grantPtr acceptPtr :=
  forRange_congr (fun t : Schedule => NoWrap n t.grantPtr t.acceptPtr) h (fun _ _ _ => iSLIPRound_keeps hn)
    fun _ _ _ => iSLIPRound32_eq hn

theorem scheduleCall32_eq {p : Pointers} (h : NoWrap n p.grant p.accept) :
    scheduleCall32 n p voqSize = scheduleCall n p voqSize := by
  have hs : schedule32 n p voqSize = schedule n p voqSize := iSLIPSchedule32_eq hn h
  unfold scheduleCall32 scheduleCall
  rw [hs]

/-- A run of calls in 32 bits, seen through its matchings, its pointers and every state in between. -/
theorem scheduleCall32_run {p : Pointers} (h : NoWrap n p.grant p.accept) (calls : List (Nat → Nat → Nat)) :
    exec (scheduleCall32 n) p calls = exec (scheduleCall n) p calls ∧
      outs (scheduleCall32 n) p calls = outs (scheduleCall n) p calls ∧
      ∀ P, Always (scheduleCall32 n) P p calls ↔ Always (scheduleCall n) P p calls :=
  run_congr (fun p : Pointers => NoWrap n p.grant p.accept) (fun _ _ => iSLIPSchedule_keeps hn)
    (fun _ _ => scheduleCall32_eq hn) h calls

end

/-! ## Where a pointer wraps -/

section
variable {n : Nat} {voqSize : Nat → Nat → Nat} {s : Schedule} {x : Nat}

/-- A round in which no output comes past an input with a packet for it. -/
theorem iSLIPRound32_idle (h : ∀ i < n, ∀ j < n, voqSize (portIndex32 n (s.grantPtr i) j) i = 0) :
    iSLIPRound32 n voqSize s = resetGrants s := by
  have hgrant : grantPhase32 n voqSize (resetGrants s) = resetGrants s := by
    refine forRange_keeps (fun t => t = resetGrants s) rfl ?_
    rintro i hi _ rfl
    unfold grantOutput32
    split
    · refine congrArg Prod.fst (forUntil_keeps (fun t => t = (resetGrants s, false)) rfl ?_)
      rintro j hj _ rfl
      simp [grantBody32, resetGrants, h i hi j hj]
    · rfl
  unfold iSLIPRound32
  rw [hgrant]
  refine forRange_keeps (fun t => t = resetGrants s) rfl ?_
  rintro i _ _ rfl
  unfold acceptInput32
  split
  · refine congrArg Prod.fst (forUntil_keeps (fun t => t = (resetGrants s, false)) rfl ?_)
    rintro j _ _ rfl
    simp [acceptBody32, resetGrants]
  · rfl

/-- Input `x` has a packet for output 0, and there is no other packet. -/
def lonePacket (x i o : Nat) : Nat := if i = x ∧ o = 0 then 1 else 0

theorem lonePacket_accepted (hx : x < n) (grantPtr acceptPtr : Nat → Nat) :
    acceptOf n (lonePacket x) (scheduleReset grantPtr acceptPtr) x = some 0 := by
  have hn : 0 < n := Nat.zero_lt_of_lt hx
  have hgrant : grantOf n (lonePacket x) (scheduleReset grantPtr acceptPtr) 0 = some x := by
    unfold grantOf
    rw [if_pos ⟨hn, rfl⟩]
    exact firstFrom_only hx (by simp [requests, scheduleReset, lonePacket])
      fun y _ hy => by simpa [requests, scheduleReset, lonePacket, Nat.pos_iff_ne_zero] using hy
  refine firstFrom_only hn (decide_eq_true hgrant) fun o _ ho => ?_
  have hpos := (grantOf_some (of_decide_eq_true ho)).2.2.2.2
  by_contra hne
  rw [lonePacket, if_neg fun h => hne h.2] at hpos
  exact Nat.lt_irrefl 0 hpos

/-- A round of the code misses an input that the pointer of output 0 does not come past. -/
theorem lonePacket_missed (hx : x < n) {grantPtr acceptPtr : Nat → Nat}
    (h : ∀ j < n, portIndex32 n (grantPtr 0) j ≠ x) :
    iSLIPRound32 n (lonePacket x) (scheduleReset grantPtr acceptPtr) ≠
      simultaneousRound n (lonePacket x) (scheduleReset grantPtr acceptPtr) := by
  intro he
  have hactive := (round_accepts (lonePacket_accepted hx grantPtr acceptPtr)).1
  rw [← he, iSLIPRound32_idle] at hactive
  · cases hactive
  · intro i _ j hj
    unfold lonePacket
    rw [if_neg]
    rintro ⟨hxj, rfl⟩
    exact h j hj hxj

end

/-- The last value of a pointer wraps with three ports, and with more than
`2 ^ 31` ports one below their number can wrap. -/
theorem round_wraps :
    iSLIPRound32 3 (lonePacket 2) (scheduleReset (fun _ => 2 ^ 32 - 1) fun _ => 0) ≠
        simultaneousRound 3 (lonePacket 2) (scheduleReset (fun _ => 2 ^ 32 - 1) fun _ => 0) ∧
      iSLIPRound32 (3 * 2 ^ 30) (lonePacket (3 * 2 ^ 30 - 2))
          (scheduleReset (fun _ => 3 * 2 ^ 30 - 1) fun _ => 0) ≠
        simultaneousRound (3 * 2 ^ 30) (lonePacket (3 * 2 ^ 30 - 2))
          (scheduleReset (fun _ => 3 * 2 ^ 30 - 1) fun _ => 0) := by
  constructor
  · exact lonePacket_missed (by decide) (by decide)
  · refine lonePacket_missed (by decide) ?_
    intro j hj
    unfold portIndex32
    omega

/-- From any state whose pointers do not wrap, a round of the nested loops, in
any order of the ports, is the simultaneous round, in which every unmatched
output grants to the first unmatched input with a packet for it, and every
unmatched input accepts the first output that granted to it. -/
theorem round_is_simultaneous (n : Nat) (hn : n ≤ 2 ^ 31) (voqSize : Nat → Nat → Nat) (s : Schedule)
    (hp : NoWrap n s.grantPtr s.acceptPtr) :
    iSLIPRound32 n voqSize s = simultaneousRound n voqSize s ∧
      (∀ outputs inputs, outputs.Perm (List.range n) → inputs.Perm (List.range n) →
        roundInOrder32 n voqSize outputs inputs s = simultaneousRound n voqSize s) ∧
      (∀ o x, grantOf n voqSize s o = some x ↔ o < n ∧ s.outputMatched o = false ∧
        IsFirstFrom n (s.grantPtr o) (fun y => s.inputMatched y = false ∧ voqSize y o > 0) x) ∧
      ∀ x o, acceptOf n voqSize s x = some o ↔ s.inputMatched x = false ∧
        IsFirstFrom n (s.acceptPtr x) (fun y => grantOf n voqSize s y = some x) o := by
  refine ⟨(iSLIPRound32_eq hn hp).trans iSLIPRound_eq, ?_, fun o x => grantOf_iff, fun x o => acceptOf_iff⟩
  intro outputs inputs hout hin
  rw [roundInOrder32_eq hn (fun i hi => List.mem_range.mp (hout.mem_iff.mp hi))
    (fun i hi => List.mem_range.mp (hin.mem_iff.mp hi)) hp, roundInOrder_eq hout hin, iSLIPRound_eq]

/-- Every output of three, its pointer at the last value that does not wrap, grants to input 2. -/
theorem round_is_simultaneous_three :
    roundInOrder32 3 (fun _ _ => 1) [2, 0, 1] [1, 2, 0]
        (scheduleReset (fun _ => 2 ^ 32 - 3) fun _ => 1) =
      simultaneousRound 3 (fun _ _ => 1) (scheduleReset (fun _ => 2 ^ 32 - 3) fun _ => 1) :=
  (round_is_simultaneous 3 (by decide) (fun _ _ => 1) (scheduleReset (fun _ => 2 ^ 32 - 3) fun _ => 1)
    (by decide)).2.1 _ _ (by decide) (by decide)

end SwitchSimulation
