import SwitchSimulation.HeapOrder

/-!
# Does an insert keep the heap order?

The loop of `heap_insert` climbs from slot `i` to slot `i / 2`, and in the
tree of `heap_pop_min` the parent of slot `i` is `(i - 1) / 2`. The two agree
on odd slots only. So at every even slot on its way the new element, and the
elements that it moves down, have to be in order with slots that the loop does
not look at.
-/

namespace SwitchSimulation

section
variable {α : Type*} (C : Comparator α) (h : Heap α) (x : α)

/-! ## The way of the new element -/

/-- At slot `i` the element goes on to `i / 2`. -/
def Passes (i : Nat) : Prop := i ≠ 0 ∧ ¬ C.le (h.elems (parentIndex i)) x

instance (i : Nat) : Decidable (Passes C h x i) := inferInstanceAs (Decidable (_ ∧ _))

def Reaches (i : Nat) : Prop :=
  ∃ k < h.size + 1, parentIndex^[k] h.size = i ∧ ∀ j < k, Passes C h x (parentIndex^[j] h.size)

instance (i : Nat) : Decidable (Reaches C h x i) :=
  inferInstanceAs (Decidable (∃ k < h.size + 1, _ ∧ ∀ j < k, Passes C h x (parentIndex^[j] h.size)))

variable {C h x}

theorem parentIndex_iterate (k : Nat) (i : Nat) :
    parentIndex^[k + 1] i = parentIndex (parentIndex^[k] i) := Function.iterate_succ_apply' ..

theorem climb_le {k : Nat} (hp : ∀ j < k, Passes C h x (parentIndex^[j] h.size)) :
    parentIndex^[k] h.size + k ≤ h.size := by
  induction k with
  | zero => exact Nat.le_refl _
  | succ k ih =>
    have := ih fun j hj => hp j (by omega)
    have := parentIndex_lt (hp k (by omega)).1
    rw [parentIndex_iterate]
    omega

theorem climb_lt {k : Nat} (hp : ∀ j < k, Passes C h x (parentIndex^[j] h.size)) {j : Nat} (hj : j < k) :
    parentIndex^[k] h.size ≤ parentIndex (parentIndex^[j] h.size) := by
  induction k with
  | zero => exact absurd hj (Nat.not_lt_zero j)
  | succ k ih =>
    rw [parentIndex_iterate]
    rcases Nat.lt_succ_iff_lt_or_eq.mp hj with hlt | rfl
    · have := ih (fun i hi => hp i (by omega)) hlt
      have := parentIndex_lt (hp k (by omega)).1
      omega
    · exact Nat.le_refl _

theorem Reaches.last : Reaches C h x h.size := ⟨0, Nat.succ_pos _, rfl, fun j hj => absurd hj (Nat.not_lt_zero j)⟩

theorem Reaches.le {i : Nat} (hr : Reaches C h x i) : i ≤ h.size := by
  obtain ⟨k, -, rfl, hp⟩ := hr
  have := climb_le hp
  omega

theorem Reaches.next {i : Nat} (hr : Reaches C h x i) (hi : Passes C h x i) : Reaches C h x (parentIndex i) := by
  obtain ⟨k, -, rfl, hp⟩ := hr
  have hp' : ∀ j < k + 1, Passes C h x (parentIndex^[j] h.size) := by
    intro j hj
    rcases Nat.lt_succ_iff_lt_or_eq.mp hj with hlt | rfl
    · exact hp j hlt
    · exact hi
  have := climb_le hp'
  exact ⟨k + 1, by omega, parentIndex_iterate k _, hp'⟩

theorem Reaches.from {i : Nat} (hr : Reaches C h x i) (hi : i ≠ h.size) :
    ∃ j, Reaches C h x j ∧ Passes C h x j ∧ parentIndex j = i := by
  obtain ⟨k, hk, rfl, hp⟩ := hr
  cases k with
  | zero => exact absurd rfl hi
  | succ k =>
    exact ⟨_, ⟨k, by omega, rfl, fun j hj => hp j (by omega)⟩, hp k (by omega), (parentIndex_iterate k _).symm⟩

theorem Reaches.chain {i j : Nat} (hi : Reaches C h x i) (hj : Reaches C h x j) (hlt : i < j) :
    Passes C h x j ∧ i ≤ parentIndex j := by
  obtain ⟨k, -, rfl, hpk⟩ := hi
  obtain ⟨l, -, rfl, hpl⟩ := hj
  have hlk : l < k := by
    apply Nat.lt_of_not_le
    intro hkl
    rcases Nat.lt_or_eq_of_le hkl with hlt' | rfl
    · have := climb_lt hpl hlt'
      have := parentIndex_lt (hpl k hlt').1
      omega
    · omega
  exact ⟨hpk l hlk, climb_lt hpk hlk⟩

theorem Reaches.passes_below {i j : Nat} (hi : Reaches C h x i) (hstop : ¬ Passes C h x i)
    (hj : Reaches C h x j) (hne : j ≠ i) : i < j ∧ Passes C h x j := by
  rcases Nat.lt_or_gt_of_ne hne with hlt | hlt
  · exact absurd (hj.chain hi hlt).1 hstop
  · exact ⟨hlt, (hi.chain hj hlt).1⟩

/-! ## The array after the loop -/

/-- Every slot that the loop has left holds what its parent held. -/
structure ClimbedTo (C : Comparator α) (h : Heap α) (x : α) (s : Heap α × Nat) : Prop where
  reaches : Reaches C h x s.2
  at_index : s.1.elems s.2 = x
  passed : ∀ j, Reaches C h x j → s.2 < j → s.1.elems j = h.elems (parentIndex j)
  other : ∀ j, j ≠ s.2 → ¬ (Reaches C h x j ∧ s.2 < j) → s.1.elems j = h.elems j

theorem ClimbedTo.parent {s : Heap α × Nat} (hs : ClimbedTo C h x s) (h0 : s.2 ≠ 0) :
    s.1.elems (parentIndex s.2) = h.elems (parentIndex s.2) := by
  have hlt := parentIndex_lt h0
  exact hs.other _ (by omega) fun hr => by omega

theorem ClimbedTo.passes_iff {s : Heap α × Nat} (hs : ClimbedTo C h x s) :
    bubbleCond C s = true ↔ Passes C h x s.2 := by
  rw [bubbleCond_iff, hs.at_index]
  unfold Passes
  constructor
  · intro ⟨h0, hn⟩; exact ⟨h0, by rwa [← hs.parent h0]⟩
  · intro ⟨h0, hn⟩; exact ⟨h0, by rwa [hs.parent h0]⟩

theorem ClimbedTo.step {s : Heap α × Nat} (hs : ClimbedTo C h x s) (hc : bubbleCond C s = true) :
    ClimbedTo C h x (bubbleBody s) := by
  have hp := hs.passes_iff.mp hc
  have hlt := parentIndex_lt hp.1
  have hparent := hs.parent hp.1
  obtain ⟨t, i⟩ := s
  refine ⟨hs.reaches.next hp, ?_, ?_, ?_⟩
  · simp only [bubbleBody, swapElem_elems, swapSlots_right]
    exact hs.at_index
  · intro j hj hpj
    simp only [bubbleBody, swapElem_elems] at hpj ⊢
    by_cases hji : j = i
    · rw [hji, swapSlots_left, hparent]
    · have hij : i < j := by
        apply Nat.lt_of_le_of_ne _ (Ne.symm hji)
        apply Nat.le_of_not_lt
        intro hji'
        exact absurd hpj (Nat.not_lt_of_le (hj.chain hs.reaches hji').2)
      rw [swapSlots_other _ hji (by omega)]
      exact hs.passed j hj hij
  · intro j hj hn
    simp only [bubbleBody, swapElem_elems] at hj hn ⊢
    have hji : j ≠ i := fun he => hn ⟨he ▸ hs.reaches, he ▸ hlt⟩
    rw [swapSlots_other _ hji hj]
    exact hs.other j hji fun hrj => hn ⟨hrj.1, Nat.lt_trans hlt hrj.2⟩

theorem heapAppend_climbed (h : Heap α) (x : α) :
    ClimbedTo C h x (heapAppend (heapGrow h) x, (heapAppend (heapGrow h) x).size - 1) := by
  rw [heapAppend_size, Nat.add_sub_cancel]
  refine ⟨Reaches.last, heapAppend_last h x, fun j hj hlt => ?_, fun j hj _ => heapAppend_old h x hj⟩
  exact absurd hj.le (Nat.not_le_of_lt hlt)

theorem heapInsert_climbed (h : Heap α) (x : α) :
    ∃ i, ClimbedTo C h x (heapInsert C h x, i) ∧ ¬ Passes C h x i := by
  let h' := heapAppend (heapGrow h) x
  have hinv : ClimbedTo C h x (bubbleUp C h' (h'.size - 1)) :=
    whileLoop_inv (ClimbedTo C h x) (fun s hs hc => hs.step hc) _ (heapAppend_climbed h x)
  refine ⟨_, hinv, fun hp => ?_⟩
  have hexit := bubbleUp_exit (C := C) h' (h'.size - 1)
  rw [hinv.passes_iff.mpr hp] at hexit
  cases hexit

theorem heapInsert_passed {j : Nat} (hr : Reaches C h x j) (hp : Passes C h x j) :
    (heapInsert C h x).elems j = h.elems (parentIndex j) := by
  obtain ⟨i, hs, hstop⟩ := heapInsert_climbed (C := C) h x
  have hji : j ≠ i := fun he => hstop (he ▸ hp)
  exact hs.passed j hr (hs.reaches.passes_below hstop hr hji).1

theorem heapInsert_stopped {j : Nat} (hr : Reaches C h x j) (hp : ¬ Passes C h x j) :
    (heapInsert C h x).elems j = x := by
  obtain ⟨i, hs, hstop⟩ := heapInsert_climbed (C := C) h x
  by_cases hji : j = i
  · rw [hji]; exact hs.at_index
  · exact absurd (hs.reaches.passes_below hstop hr hji).2 hp

theorem heapInsert_other {j : Nat} (hr : ¬ Reaches C h x j) : (heapInsert C h x).elems j = h.elems j := by
  obtain ⟨i, hs, hstop⟩ := heapInsert_climbed (C := C) h x
  exact hs.other j (fun he => hr (he ▸ hs.reaches)) fun hn => hr hn.1

/-! ## The order after the loop -/

/-- The parent of slot `c` in the tree in which a pop walks down. -/
def treeParent (c : Nat) : Nat := (c - 1) / 2

variable (C h x) in
/-- What slot `q` needs: where `x` stops it is not smaller than the tree parent
of `q`; where it goes on, the element that comes down to `q` is not smaller
than the tree parent, unless that one comes down too, and not greater than
what the children of `q` then hold. -/
def ClimbsInOrderAt (q : Nat) : Prop :=
  if Passes C h x q then
    (Reaches C h x (treeParent q) ∨ C.le (h.elems (treeParent q)) (h.elems (parentIndex q))) ∧
      ∀ c < h.size + 1, c ≠ 0 → treeParent c = q →
        C.le (h.elems (parentIndex q)) (if Reaches C h x c then h.elems q else h.elems c)
  else C.le (h.elems (treeParent q)) x

instance (q : Nat) : Decidable (ClimbsInOrderAt C h x q) := inferInstanceAs (Decidable (@ite _ _ _ _ _))

variable (C h x) in
def ClimbsInOrder : Prop :=
  ∀ q < h.size + 1, q ≠ 0 → q % 2 = 0 → Reaches C h x q → ClimbsInOrderAt C h x q

instance : Decidable (ClimbsInOrder C h x) :=
  inferInstanceAs (Decidable (∀ q < h.size + 1, q ≠ 0 → q % 2 = 0 → Reaches C h x q → ClimbsInOrderAt C h x q))

theorem heapOrdered_iff {h : Heap α} : HeapOrdered C h ↔
    ∀ c < h.size, c ≠ 0 → C.le (h.elems (treeParent c)) (h.elems c) := by
  constructor
  · intro ho c hc h0
    have hp : treeParent c < h.size := by unfold treeParent; omega
    have hchild : c = leftChildIndex (treeParent c) ∨ c = rightChildIndex (treeParent c) := by
      unfold leftChildIndex rightChildIndex treeParent; omega
    obtain ⟨hl, hr⟩ := ho _ hp
    cases hchild with
    | inl he => rw [← he] at hl; exact hl hc
    | inr he => rw [← he] at hr; exact hr hc
  · intro ho i _
    have hl : treeParent (leftChildIndex i) = i := by unfold treeParent leftChildIndex; omega
    have hr : treeParent (rightChildIndex i) = i := by unfold treeParent rightChildIndex; omega
    refine ⟨fun hc => ?_, fun hc => ?_⟩
    · have := ho _ hc (by unfold leftChildIndex; omega)
      rwa [hl] at this
    · have := ho _ hc (by unfold rightChildIndex; omega)
      rwa [hr] at this

theorem treeParent_lt {c : Nat} (h0 : c ≠ 0) : treeParent c < c := by unfold treeParent; omega

theorem treeParent_odd {c : Nat} (hc : c % 2 = 1) : treeParent c = parentIndex c := by
  unfold treeParent parentIndex; omega

theorem treeParent_even {c : Nat} (h0 : c ≠ 0) (hc : c % 2 = 0) : parentIndex c = treeParent c + 1 := by
  unfold treeParent parentIndex; omega

theorem not_reaches_parent {c : Nat} (hc : Reaches C h x c) (hstop : ¬ Passes C h x c) (h0 : c ≠ 0) :
    ¬ Reaches C h x (treeParent c) := fun hp => hstop (hp.chain hc (treeParent_lt h0)).1

/-- An insert makes no old slot on its way greater, if where the way goes on
the element that comes down is not greater than the one that was there. -/
theorem heapInsert_le_of {p : Nat} (hr : Reaches C h x p) (hlast : p ≠ h.size)
    (hdown : Passes C h x p → C.le (h.elems (parentIndex p)) (h.elems p)) :
    C.le ((heapInsert C h x).elems p) (h.elems p) := by
  by_cases hp : Passes C h x p
  · rw [heapInsert_passed hr hp]
    exact hdown hp
  · obtain ⟨d, -, hd, he⟩ := hr.from hlast
    rw [heapInsert_stopped hr hp, ← he]
    exact Comparator.le_of_not_le hd.2

section
variable (ho : HeapOrdered C h)
include ho

theorem heapInsert_le {p : Nat} (hr : Reaches C h x p) (hlast : p ≠ h.size)
    (hodd : Passes C h x p → p % 2 = 1) : C.le ((heapInsert C h x).elems p) (h.elems p) := by
  have hlt := Nat.lt_of_le_of_ne hr.le hlast
  apply heapInsert_le_of hr hlast
  intro hp
  rw [← treeParent_odd (hodd hp)]
  exact heapOrdered_iff.mp ho p hlt hp.1

theorem edge_passed {c : Nat} (hr : Reaches C h x c) (hp : Passes C h x c) (heven : c % 2 = 0) :
    C.le ((heapInsert C h x).elems (treeParent c)) ((heapInsert C h x).elems c) ↔
      Reaches C h x (treeParent c) ∨ C.le (h.elems (treeParent c)) (h.elems (parentIndex c)) := by
  rw [heapInsert_passed hr hp]
  by_cases hrp : Reaches C h x (treeParent c)
  · refine iff_of_true ?_ (Or.inl hrp)
    by_cases hpp : Passes C h x (treeParent c)
    · -- the way meets both siblings only at slots 1 and 2
      have hsibling := treeParent_even hp.1 heven
      have hle := (hrp.chain (hr.next hp) (by omega)).2
      have hpos := hpp.1
      have hcle := hr.le
      have hone : treeParent c = 1 := by unfold parentIndex at hle hsibling; omega
      rw [heapInsert_passed hrp hpp, hsibling, hone]
      exact heapOrdered_iff.mp ho 2 (by unfold treeParent at hone; omega) (by decide)
    · rw [heapInsert_stopped hrp hpp]
      exact Comparator.le_of_not_le hp.2
  · rw [heapInsert_other hrp, or_iff_right hrp]

theorem edge_other {c : Nat} (hc : c < h.size + 1) (h0 : c ≠ 0) (hodd : Reaches C h x c → c % 2 = 1)
    (hpodd : Reaches C h x (treeParent c) → Passes C h x (treeParent c) → treeParent c % 2 = 1) :
    C.le ((heapInsert C h x).elems (treeParent c)) ((heapInsert C h x).elems c) := by
  have hpc := treeParent_lt h0
  by_cases hr : Reaches C h x c
  · have hparent := treeParent_odd (hodd hr)
    by_cases hp : Passes C h x c
    · have hrp : Reaches C h x (treeParent c) := hparent ▸ hr.next hp
      rw [heapInsert_passed hr hp, ← hparent]
      exact heapInsert_le ho hrp (by omega) (hpodd hrp)
    · have hstop : C.le (h.elems (parentIndex c)) x := Classical.byContradiction fun hn => hp ⟨h0, hn⟩
      rw [heapInsert_stopped hr hp, heapInsert_other (not_reaches_parent hr hp h0), hparent]
      exact hstop
  · have hlast : c ≠ h.size := fun he => hr (he ▸ Reaches.last)
    have hedge := heapOrdered_iff.mp ho c (by omega) h0
    rw [heapInsert_other hr]
    by_cases hrp : Reaches C h x (treeParent c)
    · exact Comparator.le_trans (heapInsert_le ho hrp (by omega) (hpodd hrp)) hedge
    · rw [heapInsert_other hrp]
      exact hedge

end

theorem edge_stopped {c : Nat} (hr : Reaches C h x c) (hp : ¬ Passes C h x c) (h0 : c ≠ 0) :
    C.le ((heapInsert C h x).elems (treeParent c)) ((heapInsert C h x).elems c) ↔
      C.le (h.elems (treeParent c)) x := by
  rw [heapInsert_stopped hr hp, heapInsert_other (not_reaches_parent hr hp h0)]

theorem edge_child {c q : Nat} (hr : Reaches C h x q) (hp : Passes C h x q) (heven : q % 2 = 0) (h0 : c ≠ 0)
    (hcq : treeParent c = q) :
    C.le ((heapInsert C h x).elems (treeParent c)) ((heapInsert C h x).elems c) ↔
      C.le (h.elems (parentIndex q)) (if Reaches C h x c then h.elems q else h.elems c) := by
  have hlt := treeParent_lt h0
  rw [hcq, heapInsert_passed hr hp]
  by_cases hrc : Reaches C h x c
  · rw [if_pos hrc]
    have hpass := (hr.chain hrc (by omega)).1
    have hq := hp.1
    have hodd : c % 2 = 1 := by
      -- otherwise the way would meet slot `q + 1` before slot `q`
      apply Classical.byContradiction
      intro hn
      have hsibling := treeParent_even h0 (by omega)
      have hle := (hr.chain (hrc.next hpass) (by omega)).2
      unfold parentIndex at hle hsibling
      omega
    rw [heapInsert_passed hrc hpass, ← treeParent_odd hodd, hcq]
  · rw [if_neg hrc, heapInsert_other hrc]

/-- An insert into an ordered heap leaves an ordered heap just when the
elements that it moves are in order with the slots it does not look at. -/
theorem insert_keeps_order_iff (C : Comparator α) (h : Heap α) (x : α) (ho : HeapOrdered C h) :
    HeapOrdered C (heapInsert C h x) ↔ ClimbsInOrder C h x := by
  rw [heapOrdered_iff, heapInsert_size]
  constructor
  · intro hall q hq h0 heven hr
    unfold ClimbsInOrderAt
    by_cases hp : Passes C h x q
    · rw [if_pos hp]
      refine ⟨(edge_passed ho hr hp heven).mp (hall q hq h0), fun c hc hc0 hcq => ?_⟩
      exact (edge_child hr hp heven hc0 hcq).mp (hall c hc hc0)
    · rw [if_neg hp]
      exact (edge_stopped hr hp h0).mp (hall q hq h0)
  · intro hin c hc h0
    by_cases hr : Reaches C h x c ∧ c % 2 = 0
    · have hat := hin c hc h0 hr.2 hr.1
      unfold ClimbsInOrderAt at hat
      by_cases hp : Passes C h x c
      · rw [if_pos hp] at hat
        exact (edge_passed ho hr.1 hp hr.2).mpr hat.1
      · rw [if_neg hp] at hat
        exact (edge_stopped hr.1 hp h0).mpr hat
    · by_cases hrp : (Reaches C h x (treeParent c) ∧ Passes C h x (treeParent c)) ∧ treeParent c % 2 = 0
      · obtain ⟨⟨hrp, hpp⟩, heven⟩ := hrp
        have hat := hin _ (Nat.lt_succ_of_le hrp.le) hpp.1 heven hrp
        unfold ClimbsInOrderAt at hat
        rw [if_pos hpp] at hat
        exact (edge_child hrp hpp heven h0 rfl).mpr (hat.2 c hc h0 rfl)
      · apply edge_other ho hc h0
        · intro hrc
          have : ¬ c % 2 = 0 := fun he => hr ⟨hrc, he⟩
          omega
        · intro hrc hpp
          have : ¬ treeParent c % 2 = 0 := fun he => hrp ⟨⟨hrc, hpp⟩, he⟩
          omega

theorem insert_keeps_order_six :
    HeapOrdered (.ofKey id) (heapInsert (.ofKey id) (heapOf [4, 5, 6, 7, 8, 9]) 3) :=
  (insert_keeps_order_iff (.ofKey id) (heapOf [4, 5, 6, 7, 8, 9]) 3 (by decide)).mpr (by decide)

theorem insert_breaks_order : HeapOrdered (.ofKey id) (heapOf [0, 1, 5, 2, 6, 7]) ∧
    ¬ HeapOrdered (.ofKey id) (heapInsert (.ofKey id) (heapOf [0, 1, 5, 2, 6, 7]) 3) := by
  exact ⟨by decide, by decide⟩

end

end SwitchSimulation
