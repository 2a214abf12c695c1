import Mathlib.Data.List.Nodup
import SwitchSimulation.Loop
import SwitchSimulation.Memory
import SwitchSimulation.Queue

/-!
# The queues of a switch in memory (`cb_ib_voqs_iSLIP.c`)

The model of the switch has a queue for each pair of ports, as the scheduler
and the tick index them. In memory `cb_ib_voqs_iSLIP_create` makes one queue
for each input and stores its address in `voqs`, so that `voqs[i][j]` is the
word at place `j` of a `struct queue`. A word has 8 bytes; the members `head`
and `tail` share one, and so do `size` and `capacity`. The other blocks that
are allocated are not modelled, since nothing here reads them.
-/

namespace SwitchSimulation

inductive Word
  | addr (block : Nat)
  | uints (low high : Nat)
  | freePacket
  | other (bits : Nat)
  deriving DecidableEq

/-- The members of `struct queue`. -/
def queueWords (elems : Nat) (q : Queue Word) : List Word :=
  [.addr elems, .uints q.head q.tail, .uints q.size q.capacity, .freePacket]

/-- The block is a `struct queue`, and it and the block of its elements hold `q`. -/
def QueueAt (m : Memory Word) (block : Nat) (q : Queue Word) : Prop :=
  ∃ elems, m.blocks block = queueWords elems q ∧ (m.blocks elems).map some = (List.range q.capacity).map q.elems

/-- `queue_create(&free_packet)`. -/
def queueCreateIn (fresh : Nat → Nat → Word) (m : Memory Word) : Memory Word × Nat :=
  let (m, queue) := m.malloc fresh 4
  let m := m.store queue 1 (.uints 0 0)
  let m := m.store queue 2 (.uints 0 queueDefaultCapacity)
  let m := m.store queue 3 .freePacket
  let (m, elems) := m.malloc fresh queueDefaultCapacity
  (m.store queue 0 (.addr elems), queue)

def createRow (fresh : Nat → Nat → Word) (voqs i : Nat) (m : Memory Word) : Memory Word :=
  (queueCreateIn fresh m).1.store voqs i (.addr (queueCreateIn fresh m).2)

/-- The `voqs` of `cb_ib_voqs_iSLIP_create`, with their address. -/
def createVoqs (fresh : Nat → Nat → Word) (m : Memory Word) (n : Nat) : Memory Word × Nat :=
  (forRange n (createRow fresh (m.malloc fresh n).2) (m.malloc fresh n).1, (m.malloc fresh n).2)

/-- `voqs[i][j]`. There is no word behind the end of a block. -/
def voqAt (m : Memory Word) (voqs i j : Nat) : Option Word :=
  match m.load voqs i with
  | some (.addr row) => m.load row j
  | _ => none

/-- The arguments of `queue_free` in `cb_ib_voqs_iSLIP_free`. -/
def freeVoqs (m : Memory Word) (voqs n : Nat) : List Word := (List.range n).filterMap (m.load voqs)

/-- Each pair of ports has a new queue of its own, which is freed once. -/
def SeparateQueues (m : Memory Word) (voqs n : Nat) : Prop :=
  ∃ queue : Nat → Nat → Nat,
    (∀ i < n, ∀ j < n, voqAt m voqs i j = some (.addr (queue i j)) ∧
      (∃ words, QueueAt m (queue i j) (queueCreate words)) ∧ (freeVoqs m voqs n).count (.addr (queue i j)) = 1) ∧
    ∀ i < n, ∀ j < n, ∀ i' < n, ∀ j' < n, queue i j = queue i' j' → i = i' ∧ j = j'

section
variable {fresh : Nat → Nat → Word} {m : Memory Word} {n : Nat}

/-! ## Creating one queue -/

theorem queueCreateIn_snd : (queueCreateIn fresh m).2 = m.next := rfl

theorem queueCreateIn_next : (queueCreateIn fresh m).1.next = m.next + 2 := rfl

def queueIn (fresh : Nat → Nat → Word) (elems : Nat) : Queue Word := queueCreate fun k => some (fresh elems k)

theorem queueCreateIn_queue :
    (queueCreateIn fresh m).1.blocks m.next = queueWords (m.next + 1) (queueIn fresh (m.next + 1)) := by
  have hne : m.next ≠ m.next + 1 := by omega
  simp only [queueCreateIn, Memory.malloc_snd, Memory.malloc_next, Memory.store_next, Memory.store_same]
  rw [Memory.malloc_old hne, Memory.store_same, Memory.store_same, Memory.store_same, Memory.malloc_new rfl]
  rfl

theorem queueCreateIn_elems : (queueCreateIn fresh m).1.blocks (m.next + 1) =
    (List.range queueDefaultCapacity).map (fresh (m.next + 1)) := by
  have hne : m.next + 1 ≠ m.next := by omega
  simp only [queueCreateIn, Memory.malloc_snd, Memory.store_other hne]
  rw [Memory.malloc_new]
  rfl

theorem queueCreateIn_old {b : Nat} (hb : b < m.next) : (queueCreateIn fresh m).1.blocks b = m.blocks b := by
  have hne : b ≠ m.next := by omega
  have hne' : b ≠ m.next + 1 := by omega
  simp only [queueCreateIn, Memory.malloc_snd, Memory.store_other hne]
  rw [Memory.malloc_old hne', Memory.store_other hne, Memory.store_other hne, Memory.store_other hne,
    Memory.malloc_old hne]

/-! ## Creating the queues of a switch -/

def rowQueue (voqs i : Nat) : Nat := voqs + 1 + 2 * i

structure RowsMade (fresh : Nat → Nat → Word) (n voqs k : Nat) (m : Memory Word) : Prop where
  next : m.next = rowQueue voqs k
  length : (m.blocks voqs).length = n
  row : ∀ i < k, m.load voqs i = some (.addr (rowQueue voqs i))
  queue : ∀ i < k,
    m.blocks (rowQueue voqs i) = queueWords (rowQueue voqs i + 1) (queueIn fresh (rowQueue voqs i + 1))
  elems : ∀ i < k,
    m.blocks (rowQueue voqs i + 1) = (List.range queueDefaultCapacity).map (fresh (rowQueue voqs i + 1))

theorem createRow_made {voqs k : Nat} (hk : k < n) (h : RowsMade fresh n voqs k m) :
    RowsMade fresh n voqs (k + 1) (createRow fresh voqs k m) := by
  have hnext := h.next
  have hold : voqs < m.next := by rw [hnext, rowQueue]; omega
  have hother : ∀ b, voqs < b → (createRow fresh voqs k m).blocks b = (queueCreateIn fresh m).1.blocks b :=
    fun b hb => Memory.store_other (by omega) k _
  have hbefore : ∀ i < k, voqs < rowQueue voqs i ∧ rowQueue voqs i + 1 < m.next := by
    intro i hi
    rw [hnext, rowQueue, rowQueue]
    omega
  constructor
  · rw [createRow, Memory.store_next, queueCreateIn_next, hnext, rowQueue, rowQueue]
    omega
  · rw [createRow, Memory.store_same, List.length_set, queueCreateIn_old hold, h.length]
  · intro i hi
    by_cases hik : k = i
    · subst hik
      rw [createRow, queueCreateIn_snd, ← hnext]
      apply Memory.load_store_same
      rw [queueCreateIn_old hold, h.length]
      exact hk
    · rw [createRow, Memory.load_store_ne hik, Memory.load, queueCreateIn_old hold]
      exact h.row i (by omega)
  · intro i hi
    by_cases hik : k = i
    · subst hik
      rw [← hnext, hother _ hold, queueCreateIn_queue]
    · obtain ⟨hlow, hhigh⟩ := hbefore i (by omega)
      rw [hother _ hlow, queueCreateIn_old (by omega)]
      exact h.queue i (by omega)
  · intro i hi
    by_cases hik : k = i
    · subst hik
      rw [← hnext, hother _ (by omega), queueCreateIn_elems]
    · obtain ⟨hlow, hhigh⟩ := hbefore i (by omega)
      rw [hother _ (by omega), queueCreateIn_old hhigh]
      exact h.elems i (by omega)

theorem createVoqs_made (fresh : Nat → Nat → Word) (m : Memory Word) (n : Nat) :
    RowsMade fresh n m.next n (createVoqs fresh m n).1 := by
  apply forRange_inv (RowsMade fresh n m.next)
  · refine ⟨rfl, ?_, fun i hi => absurd hi (Nat.not_lt_zero i), fun i hi => absurd hi (Nat.not_lt_zero i),
      fun i hi => absurd hi (Nat.not_lt_zero i)⟩
    rw [Memory.malloc_new rfl, List.length_map, List.length_range]
  · intro k hk t ht
    exact createRow_made hk ht

/-! ## What the pairs address -/

variable {voqs i j : Nat}

theorem RowsMade.voqAt (h : RowsMade fresh n voqs n m) (hi : i < n) (j : Nat) :
    voqAt m voqs i j = (queueWords (rowQueue voqs i + 1) (queueIn fresh (rowQueue voqs i + 1)))[j]? := by
  unfold SwitchSimulation.voqAt
  rw [h.row i hi]
  exact congrArg (·[j]?) (h.queue i hi)

/-- The only address among the words of a queue is that of its elements. -/
theorem RowsMade.addr (h : RowsMade fresh n voqs n m) (hi : i < n) {queue : Nat}
    (hv : SwitchSimulation.voqAt m voqs i j = some (.addr queue)) : queue = rowQueue voqs i + 1 := by
  rw [h.voqAt hi] at hv
  match j with
  | 0 => simpa [queueWords, eq_comm] using hv
  | 1 | 2 | 3 => simp [queueWords] at hv
  | j + 4 => simp [queueWords] at hv

theorem RowsMade.no_queue (h : RowsMade fresh n voqs n m) (hi : i < n) {queue : Nat}
    (hv : SwitchSimulation.voqAt m voqs i j = some (.addr queue)) (q : Queue Word) : ¬ QueueAt m queue q := by
  obtain rfl := h.addr hi hv
  intro ⟨elems, he, _⟩
  have hl := congrArg List.length ((h.elems i hi).symm.trans he)
  simp [queueWords, queueDefaultCapacity] at hl

theorem RowsMade.not_separate (h : RowsMade fresh n voqs n m) (hn : 0 < n) : ¬ SeparateQueues m voqs n := by
  intro ⟨queue, hq, _⟩
  obtain ⟨hv, ⟨words, he⟩, _⟩ := hq 0 hn 0 hn
  exact h.no_queue hn hv _ he

theorem RowsMade.freeVoqs (h : RowsMade fresh n voqs n m) :
    freeVoqs m voqs n = (List.range n).map fun x => Word.addr (rowQueue voqs x) := by
  unfold SwitchSimulation.freeVoqs
  rw [← List.filterMap_eq_map]
  apply List.filterMap_congr
  intro x hx
  exact h.row x (List.mem_range.mp hx)

theorem rowQueue_inj {x y : Nat} (h : rowQueue voqs x = rowQueue voqs y) : x = y := by
  unfold rowQueue at h
  omega

/-- The queues that are made are new and different, and each is freed once. -/
theorem RowsMade.rows (h : RowsMade fresh n voqs n m) (hi : i < n) :
    QueueAt m (rowQueue voqs i) (queueIn fresh (rowQueue voqs i + 1)) ∧
      (SwitchSimulation.freeVoqs m voqs n).count (.addr (rowQueue voqs i)) = 1 ∧
      ∀ x, rowQueue voqs i = rowQueue voqs x → i = x := by
  refine ⟨⟨_, h.queue i hi, ?_⟩, ?_, fun _ => rowQueue_inj⟩
  · rw [h.elems i hi, List.map_map]
    rfl
  · have hinj : Function.Injective fun x => Word.addr (rowQueue voqs x) :=
      fun _ _ he => rowQueue_inj (Word.addr.inj he)
    rw [h.freeVoqs]
    exact List.count_eq_one_of_mem (List.nodup_range.map hinj) (List.mem_map_of_mem (List.mem_range.mpr hi))

end

/-- The pairs of ports have queues of their own just when there are no ports. -/
theorem voqs_separate_iff (fresh : Nat → Nat → Word) (m : Memory Word) (n : Nat) :
    SeparateQueues (createVoqs fresh m n).1 (createVoqs fresh m n).2 n ↔ n = 0 := by
  constructor
  · intro h
    by_contra hn
    exact (createVoqs_made fresh m n).not_separate (Nat.pos_of_ne_zero hn) h
  · rintro rfl
    exact ⟨fun _ _ => 0, fun i hi => absurd hi (Nat.not_lt_zero i), fun i hi => absurd hi (Nat.not_lt_zero i)⟩

theorem voqs_not_separate :
    ¬ SeparateQueues (createVoqs (fun _ _ => .other 0) ⟨fun _ => [], 0⟩ 2).1
      (createVoqs (fun _ _ => .other 0) ⟨fun _ => [], 0⟩ 2).2 2 :=
  (createVoqs_made (fun _ _ => .other 0) ⟨fun _ => [], 0⟩ 2).not_separate (by decide)

end SwitchSimulation
