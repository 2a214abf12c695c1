import Mathlib.Data.Nat.Log
import SwitchSimulation.Cyclic

/-!
# The iSLIP scheduler (`cb_ib_voqs_iSLIP.c`)

`iSLIP_schedule` reads the switch through its number of ports `n`, the sizes
of its virtual output queues and the two pointer arrays. The flags that the
source keeps in `char` arrays are booleans; `grantTarget` is `none` where the
fresh memory was never written. Port numbers and counters are natural numbers.
-/

namespace SwitchSimulation

def ISLIP_ROUNDS (n : Nat) : Nat := Nat.clog 2 n

@[ext]
structure Pointers where
  grant : Nat → Nat
  accept : Nat → Nat

def Pointers.zero : Pointers := ⟨fun _ => 0, fun _ => 0⟩

/-- The pointer arrays of the switch, the two result arrays and the scratch arrays. -/
@[ext]
structure Schedule where
  grantPtr : Nat → Nat
  acceptPtr : Nat → Nat
  portMapping : Nat → Nat
  mappingActive : Nat → Bool
  inputMatched : Nat → Bool
  outputMatched : Nat → Bool
  grantTarget : Nat → Option Nat
  grantMade : Nat → Bool

def Matches (s : Schedule) (x o : Nat) : Prop := s.mappingActive x = true ∧ s.portMapping x = o

instance (s : Schedule) (x o : Nat) : Decidable (Matches s x o) :=
  inferInstanceAs (Decidable (s.mappingActive x = true ∧ s.portMapping x = o))

def scheduleReset (grantPtr acceptPtr : Nat → Nat) : Schedule where
  grantPtr := grantPtr
  acceptPtr := acceptPtr
  portMapping _ := 0
  mappingActive _ := false
  inputMatched _ := false
  outputMatched _ := false
  grantTarget _ := none
  grantMade _ := false

section
variable (n : Nat) (voqSize : Nat → Nat → Nat)

/-! ## Grant phase -/

def resetGrants (s : Schedule) : Schedule := { s with grantMade := fun _ => false }

def makeGrant (i inputPort : Nat) (s : Schedule) : Schedule :=
  { s with
    grantTarget := Function.update s.grantTarget i (some inputPort)
    grantMade := Function.update s.grantMade i true }

/-- The inner loop's body. The flag is `grant_input_found`. -/
def grantBody (i j : Nat) (t : Schedule × Bool) : Schedule × Bool :=
  let inputPort := (t.1.grantPtr i + j) % n
  if t.1.inputMatched inputPort = false then
    if voqSize inputPort i > 0 then (makeGrant i inputPort t.1, true) else t
  else t

def grantOutput (i : Nat) (s : Schedule) : Schedule :=
  if s.outputMatched i = false then (forUntil n Prod.snd (grantBody n voqSize i) (s, false)).1 else s

def grantPhase (s : Schedule) : Schedule := forRange n (grantOutput n voqSize) s

/-! ## Accept phase -/

def accept (i outputPort : Nat) (s : Schedule) : Schedule :=
  { s with
    inputMatched := Function.update s.inputMatched i true
    outputMatched := Function.update s.outputMatched outputPort true
    portMapping := Function.update s.portMapping i outputPort
    mappingActive := Function.update s.mappingActive i true
    grantPtr := Function.update s.grantPtr outputPort ((s.grantPtr outputPort + 1) % n)
    acceptPtr := Function.update s.acceptPtr i ((s.acceptPtr i + 1) % n) }

/-- The inner loop's body. The flag is `match_found`. -/
def acceptBody (i j : Nat) (t : Schedule × Bool) : Schedule × Bool :=
  let outputPort := (t.1.acceptPtr i + j) % n
  if t.1.outputMatched outputPort = false then
    if t.1.grantMade outputPort = true ∧ t.1.grantTarget outputPort = some i then
      (accept n i outputPort t.1, true)
    else t
  else t

def acceptInput (i : Nat) (s : Schedule) : Schedule :=
  if s.inputMatched i = false then (forUntil n Prod.snd (acceptBody n i) (s, false)).1 else s

def acceptPhase (s : Schedule) : Schedule := forRange n (acceptInput n) s

/-! ## Rounds -/

def iSLIPRound (s : Schedule) : Schedule := acceptPhase n (grantPhase n voqSize (resetGrants s))

def iSLIPRounds (rounds : Nat) (s : Schedule) : Schedule := forRange rounds (fun _ => iSLIPRound n voqSize) s

def iSLIPSchedule (grantPtr acceptPtr : Nat → Nat) : Schedule :=
  iSLIPRounds n voqSize (ISLIP_ROUNDS n) (scheduleReset grantPtr acceptPtr)

/-! ## Calls -/

def schedule (p : Pointers) (voqSize : Nat → Nat → Nat) : Schedule :=
  iSLIPSchedule n voqSize p.grant p.accept

def scheduleCall (p : Pointers) (voqSize : Nat → Nat → Nat) : Pointers × Schedule :=
  (⟨(schedule n p voqSize).grantPtr, (schedule n p voqSize).acceptPtr⟩, schedule n p voqSize)

end

end SwitchSimulation
