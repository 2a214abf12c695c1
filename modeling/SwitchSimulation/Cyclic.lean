import SwitchSimulation.Loop

/-!
# Cyclic search and round-robin pointers

`firstFrom n p q` is the first of `p, p + 1, …` modulo `n` that satisfies
`q`: the choice a round-robin arbiter with pointer `p` makes. `ahead` measures
how far an index lies ahead of the pointer; the choice is the nearest one,
and advancing the pointer by one brings every other index one step nearer.
-/

namespace SwitchSimulation

/-- How many steps ahead of the pointer `p` the index `x` lies. -/
def ahead (n p x : Nat) : Nat := (x + n - p % n) % n

theorem ahead_lt {n p x : Nat} (hx : x < n) : ahead n p x < n := Nat.mod_lt _ (by omega)

theorem add_ahead {n p x : Nat} (hx : x < n) : (p + ahead n p x) % n = x := by
  have hp : p % n < n := Nat.mod_lt _ (by omega)
  have h : (p + (x + n - p % n)) % n = x := by
    have e : p + (x + n - p % n) = x + n * (p / n + 1) := by
      have := Nat.div_add_mod p n
      rw [Nat.mul_add]; omega
    rw [e, Nat.add_mul_mod_self_left, Nat.mod_eq_of_lt hx]
  unfold ahead
  rw [Nat.add_mod_mod, h]

theorem ahead_add {n p j : Nat} (hj : j < n) : ahead n p ((p + j) % n) = j := by
  have hp : p % n < n := Nat.mod_lt _ (by omega)
  unfold ahead
  rw [Nat.add_mod p j n, Nat.mod_eq_of_lt hj]
  rcases Nat.lt_or_ge (p % n + j) n with h | h
  · rw [Nat.mod_eq_of_lt h, show p % n + j + n - p % n = j + n by omega, Nat.add_mod_right,
      Nat.mod_eq_of_lt hj]
  · rw [Nat.mod_eq_sub_mod h, Nat.mod_eq_of_lt (show p % n + j - n < n by omega),
      show p % n + j - n + n - p % n = j by omega, Nat.mod_eq_of_lt hj]

theorem slot_inj {c h i k : Nat} (hi : i < c) (hk : k < c) (h' : (h + i) % c = (h + k) % c) : i = k := by
  rw [← ahead_add (p := h) hi, ← ahead_add (p := h) hk, h']

theorem ahead_inj {n p x y : Nat} (hx : x < n) (hy : y < n) (h : ahead n p x = ahead n p y) : x = y := by
  rw [← add_ahead (p := p) hx, ← add_ahead (p := p) hy, h]

@[simp] theorem ahead_self {n p : Nat} (hp : p < n) : ahead n p p = 0 := by
  unfold ahead
  rw [Nat.mod_eq_of_lt hp, show p + n - p = n by omega, Nat.mod_self]

theorem ahead_eq_zero {n p x : Nat} (hp : p < n) (hx : x < n) : ahead n p x = 0 ↔ x = p := by
  constructor
  · intro h; exact ahead_inj (p := p) hx hp (by rw [h, ahead_self hp])
  · rintro rfl; exact ahead_self hp

theorem ahead_advance {n p x : Nat} (hp : p < n) (hx : x < n) (hne : x ≠ p) :
    ahead n ((p + 1) % n) x + 1 = ahead n p x := by
  have h0 : ahead n p x ≠ 0 := fun h => hne ((ahead_eq_zero hp hx).mp h)
  have hl : ahead n p x < n := ahead_lt hx
  have hx' : ((p + 1) % n + (ahead n p x - 1)) % n = x := by
    rw [Nat.mod_add_mod, show p + 1 + (ahead n p x - 1) = p + ahead n p x by omega, add_ahead hx]
  have := ahead_add (n := n) (p := (p + 1) % n) (j := ahead n p x - 1) (by omega)
  rw [hx'] at this
  omega

/-! ## The arbiter's choice -/

def firstFrom (n p : Nat) (q : Nat → Bool) : Option Nat :=
  ((List.range n).find? fun j => q ((p + j) % n)).map fun j => (p + j) % n

section
variable {n p x : Nat} {q : Nat → Bool}

theorem firstFrom_some (h : firstFrom n p q = some x) : x < n ∧ q x = true := by
  unfold firstFrom at h
  obtain ⟨j, hj, rfl⟩ := Option.map_eq_some_iff.mp h
  have hn : j < n := List.mem_range.mp (List.mem_of_find?_eq_some hj)
  exact ⟨Nat.mod_lt _ (by omega), by simpa using List.find?_some hj⟩

theorem firstFrom_none (h : firstFrom n p q = none) {y : Nat} (hy : y < n) : q y = false := by
  unfold firstFrom at h
  rw [Option.map_eq_none_iff, List.find?_eq_none] at h
  have := h (ahead n p y) (List.mem_range.mpr (ahead_lt hy))
  rw [add_ahead hy] at this
  simpa using this

theorem firstFrom_le (h : firstFrom n p q = some x) {y : Nat} (hy : y < n) (hq : q y = true) :
    ahead n p x ≤ ahead n p y := by
  unfold firstFrom at h
  obtain ⟨j, hj, rfl⟩ := Option.map_eq_some_iff.mp h
  obtain ⟨_, i, hi, hij, hbefore⟩ := List.find?_eq_some_iff_getElem.mp hj
  have hin : i < n := by simpa using hi
  obtain rfl : i = j := by simpa using hij
  rw [ahead_add hin]
  apply Nat.le_of_not_lt
  intro hlt
  have := hbefore (ahead n p y) hlt
  simp [add_ahead hy, hq] at this

theorem firstFrom_eq (hx : x < n) (hq : q x = true)
    (hmin : ∀ y < n, q y = true → ahead n p x ≤ ahead n p y) : firstFrom n p q = some x := by
  cases h : firstFrom n p q with
  | none => rw [firstFrom_none h hx] at hq; cases hq
  | some y =>
    obtain ⟨hy, hqy⟩ := firstFrom_some h
    rw [ahead_inj hy hx (Nat.le_antisymm (firstFrom_le h hx hq) (hmin y hy hqy))]

theorem firstFrom_self (hp : p < n) (hq : q p = true) : firstFrom n p q = some p :=
  firstFrom_eq hp hq fun y _ _ => by rw [ahead_self hp]; exact Nat.zero_le _

theorem firstFrom_only (hx : x < n) (hq : q x = true) (huniq : ∀ y < n, q y = true → y = x) :
    firstFrom n p q = some x :=
  firstFrom_eq hx hq fun y hy hqy => Nat.le_of_eq (by rw [huniq y hy hqy])

theorem firstFrom_isSome (hx : x < n) (hq : q x = true) : ∃ y, firstFrom n p q = some y := by
  cases h : firstFrom n p q with
  | none => rw [firstFrom_none h hx] at hq; cases hq
  | some y => exact ⟨y, rfl⟩

theorem firstFrom_eq_none (h : ∀ y < n, q y = false) : firstFrom n p q = none := by
  cases hf : firstFrom n p q with
  | none => rfl
  | some y => obtain ⟨hy, hq⟩ := firstFrom_some hf; rw [h y hy] at hq; cases hq

theorem firstFrom_congr {q' : Nat → Bool} (h : ∀ y < n, q y = q' y) :
    firstFrom n p q = firstFrom n p q' := by
  cases hf : firstFrom n p q' with
  | none => exact firstFrom_eq_none fun y hy => by rw [h y hy]; exact firstFrom_none hf hy
  | some x =>
    obtain ⟨hx, hq⟩ := firstFrom_some hf
    exact firstFrom_eq hx (by rw [h x hx]; exact hq) fun y hy hqy =>
      firstFrom_le hf hy (by rw [← h y hy]; exact hqy)

end

/-! ## Turning the indices -/

/-- The index `a` places further on. -/
def turn (n a x : Nat) : Nat := (x + a) % n

section
variable {n a p x y : Nat}

theorem turn_lt (hx : x < n) : turn n a x < n := Nat.mod_lt _ (by omega)

theorem turn_inj (hx : x < n) (hy : y < n) (h : turn n a x = turn n a y) : x = y := by
  unfold turn at h
  rw [Nat.add_comm x, Nat.add_comm y] at h
  exact slot_inj hx hy h

theorem turn_ahead (hx : x < n) : turn n a (ahead n a x) = x := by
  unfold turn
  rw [Nat.add_comm, add_ahead hx]

theorem ahead_turn (hx : x < n) : ahead n a (turn n a x) = x := by
  unfold turn
  rw [Nat.add_comm, ahead_add hx]

theorem turn_zero (hx : x < n) : turn n 0 x = x := Nat.mod_eq_of_lt hx

theorem turn_succ : (turn n a x + 1) % n = turn n a ((x + 1) % n) := by
  unfold turn
  rw [Nat.mod_add_mod, Nat.mod_add_mod, Nat.add_right_comm]

/-- An arbiter whose pointer and requests are turned makes the turned choice. -/
theorem firstFrom_turn {q r : Nat → Bool} {p' : Nat} (hp : p' % n = turn n a p)
    (h : ∀ y < n, r (turn n a y) = q y) : firstFrom n p' r = (firstFrom n p q).map (turn n a) := by
  have hslot : ∀ j, (p' + j) % n = turn n a ((p + j) % n) := by
    intro j
    rw [← Nat.mod_add_mod, hp]
    unfold turn
    rw [Nat.mod_add_mod, Nat.mod_add_mod, Nat.add_right_comm]
  cases hf : firstFrom n p q with
  | none =>
    refine firstFrom_eq_none fun y hy => ?_
    rw [← turn_ahead (a := a) hy, h _ (ahead_lt hy), firstFrom_none hf (ahead_lt hy)]
  | some x =>
    obtain ⟨hx, hq⟩ := firstFrom_some hf
    refine firstFrom_eq (turn_lt hx) (by rw [h x hx]; exact hq) fun y hy hr => ?_
    rw [← turn_ahead (a := a) hy] at hr ⊢
    rw [h _ (ahead_lt hy)] at hr
    have hahead : ∀ z < n, ahead n p' (turn n a z) = ahead n p z := by
      intro z hz
      have hz' := hslot (ahead n p z)
      rw [add_ahead hz] at hz'
      rw [← hz', ahead_add (ahead_lt hz)]
    rw [hahead x hx, hahead _ (ahead_lt hy)]
    exact firstFrom_le hf (ahead_lt hy) hr

end

section
variable {n p x : Nat} {q : Nat → Bool}

def IsFirstFrom (n p : Nat) (P : Nat → Prop) (x : Nat) : Prop :=
  P x ∧ ∃ k < n, (p + k) % n = x ∧ ∀ k' < k, ¬ P ((p + k') % n)

theorem firstFrom_iff {P : Nat → Prop} (hP : ∀ y < n, q y = true ↔ P y) :
    firstFrom n p q = some x ↔ IsFirstFrom n p P x := by
  constructor
  · intro h
    obtain ⟨hx, hq⟩ := firstFrom_some h
    refine ⟨(hP x hx).mp hq, ahead n p x, ahead_lt hx, add_ahead hx, ?_⟩
    intro k hk hPk
    have hkn : k < n := Nat.lt_trans hk (ahead_lt hx)
    have hlt : (p + k) % n < n := Nat.mod_lt _ (by omega)
    have := firstFrom_le h hlt ((hP _ hlt).mpr hPk)
    rw [ahead_add hkn] at this
    omega
  · rintro ⟨hx, k, hk, rfl, hbefore⟩
    have hlt : (p + k) % n < n := Nat.mod_lt _ (by omega)
    apply firstFrom_eq hlt ((hP _ hlt).mpr hx)
    intro y hy hq
    rw [ahead_add hk]
    apply Nat.le_of_not_lt
    intro hlt
    apply hbefore (ahead n p y) hlt
    rw [add_ahead hy]
    exact (hP y hy).mp hq

theorem forUntil_firstFrom {σ : Type*} {hit : Nat → σ} {body : Nat → σ × Bool → σ × Bool} {s : σ}
    (hbody : ∀ j, body j (s, false) = if q ((p + j) % n) then (hit ((p + j) % n), true) else (s, false)) :
    (forUntil n Prod.snd body (s, false)).1 = (firstFrom n p q).elim s hit := by
  rw [forUntil_search (fun j => q ((p + j) % n)) rfl]
  · unfold firstFrom
    cases hf : (List.range n).find? fun j => q ((p + j) % n) with
    | none => rfl
    | some j =>
      have hq : q ((p + j) % n) = true := by simpa using List.find?_some hf
      simp [hbody, hq]
  · intro j _ hq; rw [hbody, hq]; rfl
  · intro j _ hq; rw [hbody, hq]; rfl

end

end SwitchSimulation
