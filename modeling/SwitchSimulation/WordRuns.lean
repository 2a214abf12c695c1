import SwitchSimulation.Growth
import SwitchSimulation.GrowthCost
import SwitchSimulation.HashTableOwnership
import SwitchSimulation.HeapParents
import SwitchSimulation.SimulatorEvents

/-!
# Runs with 32-bit sizes

The laws of the heap, the hash table and the event queue are proved with
natural numbers. While the inserts of a run find fewer than `2 ^ 31` elements
the containers with 32-bit sizes stay in step with them, so they obey the same
laws. The next insert leaves no state to speak of.
-/

namespace SwitchSimulation

/-! ## The heap -/

section
variable {α : Type*} {C : Comparator α}

/-- The caller and the size of the heap allow the call. -/
def HeapServed (h : Heap32 α) (c : HeapCall α) : Prop := c.Allowed h.wide ∧ HeapRoom h c

instance (h : Heap32 α) (c : HeapCall α) : Decidable (HeapServed h c) :=
  inferInstanceAs (Decidable (c.Allowed h.wide ∧ HeapRoom h c))

def HeapInStep (h : Heap32 α) (g : Heap α) : Prop := Roomy h.size h.capacity ∧ h.wide = g

theorem heapCreate32_inStep (fresh : Nat → α) : HeapInStep (heapCreate32 fresh) (heapCreate fresh) :=
  ⟨heapCreate32_roomy fresh, rfl⟩

theorem HeapInStep.step (h : Heap32 α) (g : Heap α) (c : HeapCall α) (hr : HeapInStep h g) (hc : HeapServed h c) :
    HeapInStep (heapStep32 C h c).1 (heapStep C g c).1 := by
  obtain ⟨hroomy, rfl⟩ := hr
  obtain ⟨hroomy', hwide, -⟩ := heapStep32_spec (C := C) hroomy hc.1 hc.2
  exact ⟨hroomy', hwide⟩

theorem served_of_room {h : Heap32 α} {g : Heap α} {calls : List (HeapCall α)} (hr : HeapInStep h g)
    (ha : Meets (heapStep C) HeapCall.Allowed g calls) (hroom : Meets (heapStep32 C) HeapRoom h calls) :
    Meets (heapStep32 C) HeapServed h calls := by
  induction calls generalizing h g with
  | nil => trivial
  | cons c calls ih =>
    have hc : HeapServed h c := ⟨hr.2 ▸ ha.1, hroom.1⟩
    exact ⟨hc, ih (hr.step h g c hc) ha.2 hroom.2⟩

variable (fresh : Nat → α) {calls : List (HeapCall α)}
variable (hm : Meets (heapStep32 C) HeapServed (heapCreate32 fresh) calls)
include hm

theorem wideRun_allowed : Meets (heapStep C) HeapCall.Allowed (heapCreate fresh) calls := by
  refine (meets_sim_within_iff HeapInStep HeapInStep.step ?_ (heapCreate32_inStep fresh) hm).mp (meets_true _ _)
  rintro h _ c ⟨-, rfl⟩ hc
  exact iff_of_true trivial hc.1

theorem wideRun_total {M : Type*} [AddCommMonoid M] (gain : Heap α → HeapCall α → M) :
    total (heapStep32 C) (fun h c => gain h.wide c) (heapCreate32 fresh) calls =
      total (heapStep C) gain (heapCreate fresh) calls := by
  refine total_sim HeapInStep HeapInStep.step ?_ (heapCreate32_inStep fresh) hm
  rintro h _ c ⟨-, rfl⟩ _
  rfl

theorem heap32_returnsLeast_iff :
    Always (heapStep32 C) (fun h => ReturnsLeast C h.wide) (heapCreate32 fresh) calls ↔
      Meets (heapStep32 C) (fun h c => LeastNearRoot C h.wide c) (heapCreate32 fresh) calls := by
  have halways : Always (heapStep32 C) (fun h => ReturnsLeast C h.wide) (heapCreate32 fresh) calls ↔
      Always (heapStep C) (ReturnsLeast C) (heapCreate fresh) calls := by
    refine always_sim_iff HeapInStep HeapInStep.step ?_ (heapCreate32_inStep fresh) hm
    rintro h _ ⟨-, rfl⟩
    exact Iff.rfl
  have hmeets : Meets (heapStep32 C) (fun h c => LeastNearRoot C h.wide c) (heapCreate32 fresh) calls ↔
      Meets (heapStep C) (LeastNearRoot C) (heapCreate fresh) calls := by
    refine meets_sim_within_iff HeapInStep HeapInStep.step ?_ (heapCreate32_inStep fresh) hm
    rintro h _ c ⟨-, rfl⟩ _
    exact Iff.rfl
  rw [halways, hmeets]
  exact heapRun_returnsLeast_iff fresh (wideRun_allowed fresh hm)

/-- Nothing that goes into the 32-bit heap is lost, and its `size` counts what it holds. -/
theorem heap32_conserves :
    let h := exec (heapStep32 C) (heapCreate32 fresh) calls
    total (heapStep32 C) (fun h c => insertedBy h.wide c) (heapCreate32 fresh) calls =
        total (heapStep32 C) (fun h c => poppedBy C h.wide c) (heapCreate32 fresh) calls + heapContents h.wide ∧
      h.size.toNat = (heapContents h.wide : Multiset α).card := by
  intro h
  obtain ⟨hwide, -⟩ := heap32_refines C fresh hm
  rw [wideRun_total fresh hm, wideRun_total fresh hm, hwide]
  refine ⟨heapRun_conserves fresh (wideRun_allowed fresh hm), ?_⟩
  rw [← hwide]
  exact (card_heapContents h.wide).symm

theorem heap32_grows :
    total (heapStep32 C) (fun h c => reallocated h.wide c) (heapCreate32 fresh) calls + heapDefaultCapacity =
      (exec (heapStep32 C) (heapCreate32 fresh) calls).capacity.toNat := by
  obtain ⟨hwide, -⟩ := heap32_refines C fresh hm
  rw [wideRun_total fresh hm, heapRun_grows fresh calls, ← hwide]
  rfl

omit hm

theorem inserts_served {xs : List α} (hfew : xs.length ≤ 2 ^ 31) :
    Meets (heapStep32 C) HeapServed (heapCreate32 fresh) (xs.map .insert) := by
  have hallowed : Meets (heapStep32 C) (fun h c => c.Allowed h.wide) (heapCreate32 fresh) (xs.map .insert) := by
    refine Meets.imp (C := fun _ c => ∃ x, c = .insert x) (fun _ => True) ?_ trivial
      (meets_inputs.mpr (List.forall_mem_map.mpr fun x _ => ⟨x, rfl⟩))
    rintro h _ - ⟨x, rfl⟩
    exact ⟨trivial, trivial⟩
  have hzero : (heapCreate32 fresh).size.toNat = 0 := rfl
  have hinside : Meets (heapStep32 C) StoresInside (heapCreate32 fresh) (xs.map .insert) := by
    rw [inserts_inside_iff (heapCreate32_roomy fresh), hzero]
    omega
  exact hallowed.and ((heap_growth_iff C fresh hallowed).mp hinside)

/-- An insert into the 32-bit heap keeps the order along the links that it climbs,
and `2 ^ 31` inserts make a heap with a least element at the root. -/
theorem heap32_keeps_parents (C : Comparator α) :
    (∀ (h : Heap32 α) (x : α), Roomy h.size h.capacity → HeapRoom h (.insert x) → ParentOrdered C h.wide →
      ParentOrdered C (heapInsert32 C h x).wide) ∧
    ∀ (fresh : Nat → α) (xs : List α), xs.length ≤ 2 ^ 31 →
      ParentOrdered C (exec (heapStep32 C) (heapCreate32 fresh) (xs.map .insert)).wide ∧
        RootLeast C (exec (heapStep32 C) (heapCreate32 fresh) (xs.map .insert)).wide := by
  constructor
  · intro h x hr hroom ho
    rw [heapInsert32_wide hr hroom]
    exact ho.insert x
  · intro fresh xs hfew
    obtain ⟨hwide, -⟩ := heap32_refines C fresh (inserts_served fresh hfew)
    have ho := inserts_parentOrdered (heapCreate_parentOrdered (C := C) fresh) xs
    rw [hwide]
    exact ⟨ho, ho.rootLeast⟩

end

/-! ## The hash table -/

section
variable {K V : Type*}

def HashTableCall.request : HashTableCall K V → HashTableRequest K V
  | .insert key value => .insert key value
  | .remove key => .remove key

variable [DecidableEq K] [DecidableEq V] {O : KeyOps K}

theorem served_calls : ∀ (calls : List (HashTableCall K V)) (t : HashTable32 K V),
    Meets (hashTableStep32 O) (fun t r => ∃ t' out, hashTableStep32 O t r = (t', .ok out) ∧
      r.Serves O t.wide t'.wide out) t (calls.map HashTableCall.request) →
    calls.foldlM (hashTableCall O) t.wide =
      some (exec (hashTableStep32 O) t (calls.map HashTableCall.request)).wide
  | [], _, _ => rfl
  | c :: calls, t, hm => by
    obtain ⟨⟨t', out, hstep, hserves⟩, hrest⟩ := hm
    rw [hstep] at hrest
    have hcall : hashTableCall O t.wide c = some t'.wide := by
      cases c with
      | insert key value => exact hserves.1
      | remove key => exact congrArg some hserves.1.symm
    rw [List.foldlM_cons, hcall, List.map_cons, exec_cons, hstep]
    exact served_calls calls t' hrest

section
variable {calls : List (HashTableCall K V)}
variable (hroom : Meets (hashTableStep32 O) (TableRoom O) hashTableCreate32 (calls.map HashTableCall.request))
include hroom

/-- While no new key comes to `2 ^ 31` entries, the 32-bit table is the wide one. -/
theorem table32_refines : hashTableRun O calls =
    some (exec (hashTableStep32 O) hashTableCreate32 (calls.map HashTableCall.request)).wide :=
  served_calls calls hashTableCreate32 ((hashTable32_serves_iff O _).mp hroom)

/-- Each object passed to the 32-bit table is freed or held, and not both; and freeing the table frees each once. -/
theorem table32_owned_once (hp : Meets ownedStep PassesOwn (ownedCreate : OwnedTable O V) calls) :
    let s : OwnedTable O V := exec ownedStep ownedCreate calls
    let t := (exec (hashTableStep32 O) hashTableCreate32 (calls.map HashTableCall.request)).wide
    Custody s.keys t.freedKeys ((hashTableElems t).map HashTableEntry.key) ∧
      Custody s.vals t.freedVals ((hashTableElems t).map HashTableEntry.val) ∧
      (∀ key, (hashTableFree t).freedKeys.count key = if key ∈ s.keys then 1 else 0) ∧
      ∀ val, (hashTableFree t).freedVals.count val = if val ∈ s.vals then 1 else 0 := by
  intro s t
  have hsame : t = s.table.table :=
    Option.some.inj ((table32_refines hroom).symm.trans (ownedRun_calls calls ownedCreate))
  have hsingle : SingleOwner s := (ownedRun_single hp).last
  obtain ⟨hk, hv⟩ := hsingle.free
  rw [hsame]
  exact ⟨hsingle.keys, hsingle.vals, hk.count_freed, hv.count_freed⟩

theorem table32_grows :
    total lawfulStep reinserted (LawfulTable.create : LawfulTable O V) calls + hashTableDefaultCapacity =
      (exec (hashTableStep32 O) hashTableCreate32 (calls.map HashTableCall.request)).capacity.toNat := by
  have hsame := Option.some.inj ((table32_refines hroom).symm.trans (lawfulRun_calls calls LawfulTable.create))
  rw [lawfulRun_grows, ← hsame]
  rfl

end

end

/-! ## The event queue -/

section
variable {A T F : Type*}

/-- What the calls do to the queue of `s`, and to the multisets of events. -/
structure Drives (τ : TimeType T) (s : Simulator A T F) (calls : List (HeapCall (Event A T))) (s' : Simulator A T F)
    (inserted popped : Multiset (Event A T)) : Prop where
  queue : exec (heapStep (compareEvent τ)) s.eventQueue calls = s'.eventQueue
  allowed : Meets (heapStep (compareEvent τ)) HeapCall.Allowed s.eventQueue calls
  inserted : total (heapStep (compareEvent τ)) insertedBy s.eventQueue calls = inserted
  popped : total (heapStep (compareEvent τ)) (poppedBy (compareEvent τ)) s.eventQueue calls = popped

variable {τ : TimeType T}

theorem Drives.run {ι ω : Type*} {step : Simulator A T F → ι → Simulator A T F × ω}
    {calls : Simulator A T F → ι → List (HeapCall (Event A T))}
    {inserted popped : Simulator A T F → ι → Multiset (Event A T)}
    (h : ∀ s i, Drives τ s (calls s i) (step s i).1 (inserted s i) (popped s i)) (s : Simulator A T F)
    (is : List ι) :
    Drives τ s (madeCalls step calls s is) (exec step s is) (total step inserted s is) (total step popped s is) :=
  have hs : ∀ s i, exec (heapStep (compareEvent τ)) s.eventQueue (calls s i) = (step s i).1.eventQueue :=
    fun s i => (h s i).queue
  ⟨exec_madeCalls Simulator.eventQueue hs s is,
    meets_madeCalls Simulator.eventQueue hs (fun s i => (h s i).allowed) s is,
    total_madeCalls Simulator.eventQueue hs (fun s i => (h s i).inserted) s is,
    total_madeCalls Simulator.eventQueue hs (fun s i => (h s i).popped) s is⟩

theorem Drives.dequeue {s s' : Simulator A T F} {calls : List (HeapCall (Event A T))}
    {inserted : Multiset (Event A T)} (hc : simulatorCond s = true)
    (h : Drives τ (simulatorDequeue τ s) calls s' inserted 0) :
    Drives τ s (.popMin :: calls) s' inserted {heapMin s.eventQueue} := by
  refine ⟨h.queue, ⟨size_pos_of_cond hc, h.allowed⟩, ?_, ?_⟩
  · rw [total, insertedBy, zero_add]
    exact h.inserted
  · rw [total]
    exact (congrArg _ h.popped).trans (add_zero _)

variable (τ) [DecidableEq F]

def actionCalls (s : Simulator A T F) : Action A T F → List (HeapCall (Event A T))
  | .invokeEvent evtId arg futureTime =>
    [.insert ⟨evtId, arg, τ.addTime s.currentTime futureTime, s.currentTime, futureTime⟩]
  | _ => []

def inputCalls (s : Simulator A T F) : SimulatorInput A T F → List (HeapCall (Event A T))
  | .outside action => actionCalls τ s action
  | .round script =>
    if simulatorCond s = true then
      .popMin :: if callbackRuns τ s script then
        madeCalls (actionStep τ) (actionCalls τ) (simulatorDequeue τ s) script else []
    else []

/-- The calls of the heap that a run of the simulator makes. -/
def queueCalls (s : Simulator A T F) (inputs : List (SimulatorInput A T F)) : List (HeapCall (Event A T)) :=
  madeCalls (simulatorStep τ) (inputCalls τ) s inputs

variable {τ}

theorem actionCalls_drives (s : Simulator A T F) (action : Action A T F) :
    Drives τ s (actionCalls τ s action) (simulatorAction τ s action) (invokedBy τ s action) 0 := by
  cases action with
  | registerEvent evtId callback freeArg key val => exact ⟨rfl, trivial, rfl, rfl⟩
  | invokeEvent evtId arg futureTime => exact ⟨rfl, ⟨trivial, trivial⟩, add_zero _, rfl⟩
  | setShouldTerminate => exact ⟨rfl, trivial, rfl, rfl⟩

theorem scriptCalls_drives (s : Simulator A T F) (script : List (Action A T F)) :
    Drives τ s (madeCalls (actionStep τ) (actionCalls τ) s script) (script.foldl (simulatorAction τ) s)
      (total (actionStep τ) (invokedBy τ) s script) 0 := by
  have h : Drives τ s (madeCalls (actionStep τ) (actionCalls τ) s script) (exec (actionStep τ) s script)
      (total (actionStep τ) (invokedBy τ) s script) (total (actionStep τ) (fun _ _ => 0) s script) :=
    Drives.run actionCalls_drives s script
  have hzero : total (actionStep τ) (fun _ _ => (0 : Multiset (Event A T))) s script = 0 :=
    total_eq_zero (fun _ => True) (fun _ _ _ => ⟨trivial, rfl⟩) trivial script
  rwa [hzero, exec_eq_foldl] at h

theorem inputCalls_drives (s : Simulator A T F) (input : SimulatorInput A T F) :
    Drives τ s (inputCalls τ s input) (simulatorStep τ s input).1 (invokedIn τ s input) (dequeuedIn τ s input) := by
  cases input with
  | outside action => exact actionCalls_drives s action
  | round script =>
    by_cases hc : simulatorCond s = true
    · rw [inputCalls, if_pos hc, dequeuedIn_of_cond hc]
      by_cases hr : callbackRuns τ s script
      · rw [if_pos hr, callbackRuns_step hr, invokedIn_runs hr]
        exact (scriptCalls_drives _ script).dequeue hc
      · have hnone : (simulatorStep τ s (.round script)).1 = simulatorDequeue τ s := by
          rw [simulatorStep_of_cond hc]
          exact (simulatorRound_cases s script).elim (fun h => absurd ⟨hc, h.1⟩ hr) And.right
        rw [if_neg hr, hnone, invokedIn_skips hr]
        exact Drives.dequeue hc ⟨rfl, trivial, rfl, rfl⟩
    · rw [inputCalls, if_neg hc, simulatorStep_of_not hc, dequeuedIn_of_not hc, invokedIn_skips fun h => hc h.1]
      exact ⟨rfl, trivial, rfl, rfl⟩

theorem queueCalls_drives (s : Simulator A T F) (inputs : List (SimulatorInput A T F)) :
    Drives τ s (queueCalls τ s inputs) (exec (simulatorStep τ) s inputs) (invoked τ s inputs)
      (dequeued τ s inputs) :=
  Drives.run inputCalls_drives s inputs

/-- A 32-bit heap that takes the calls of the event queue, and never an event on top of `2 ^ 31`, is the event
queue; so the events invoked are those that its pops returned and those that it holds. -/
theorem queue32_conserves (startTime : T) (fresh : Nat → Event A T) (inputs : List (SimulatorInput A T F))
    (hroom : Meets (heapStep32 (compareEvent τ)) HeapRoom (heapCreate32 fresh)
      (queueCalls τ (simulatorInit startTime fresh) inputs)) :
    let s0 : Simulator A T F := simulatorInit startTime fresh
    let h := exec (heapStep32 (compareEvent τ)) (heapCreate32 fresh) (queueCalls τ s0 inputs)
    h.wide = (exec (simulatorStep τ) s0 inputs).eventQueue ∧
      total (heapStep32 (compareEvent τ)) (fun h c => poppedBy (compareEvent τ) h.wide c) (heapCreate32 fresh)
        (queueCalls τ s0 inputs) = dequeued τ s0 inputs ∧
      invoked τ s0 inputs = dequeued τ s0 inputs + heapContents h.wide := by
  intro s0 h
  have hd : Drives τ s0 (queueCalls τ s0 inputs) _ _ _ := queueCalls_drives s0 inputs
  have hserved := served_of_room (heapCreate32_inStep fresh) hd.allowed hroom
  obtain ⟨hwide, -⟩ := heap32_refines _ fresh hserved
  refine ⟨hwide.trans hd.queue, (wideRun_total fresh hserved _).trans hd.popped, ?_⟩
  rw [← hd.inserted, ← hd.popped, show h.wide = _ from hwide]
  exact heapRun_conserves fresh hd.allowed

end

end SwitchSimulation
