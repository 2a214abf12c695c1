import Mathlib.Data.Set.Card
import SwitchSimulation.HashTableWord
import SwitchSimulation.Machine

/-!
# The representation of the hash table, and its resize

`size` counts the entries and the distinct keys in every table that calls can
build. So a resize finds exactly `capacity` entries to copy, and the nested
inserts only append: the recursion has depth one. At `2 ^ 31` entries the `int`
that `hash_table_size` returns is negative, and the resize has no new array.
-/

namespace SwitchSimulation

section
variable {K V : Type*}

def KeyOps.setoid (O : KeyOps K) : Setoid K :=
  ⟨fun a b => O.compare a b = .EQ, O.eq_refl, fun h => O.eq_symm _ _ h, fun h h' => O.eq_trans _ _ _ h h'⟩

def heldKeys (O : KeyOps K) (t : HashTable K V) : Set (Quotient O.setoid) :=
  {k | k ∈ (hashTableElems t).map fun e => Quotient.mk O.setoid e.key}

variable {O : KeyOps K}

/-! ## The size -/

theorem Distinct.nodup_keys {l : List (HashTableEntry K V)} (h : Distinct O l) :
    (l.map fun e => Quotient.mk O.setoid e.key).Nodup :=
  List.pairwise_map.mpr (h.imp fun hne he => hne (Quotient.exact he))

theorem TableInv.size_eq_keys {t : HashTable K V} (h : TableInv O t) : t.size = (heldKeys O t).ncard := by
  classical
  rw [heldKeys, ← List.coe_toFinset, Set.ncard_coe_finset, List.toFinset_card_of_nodup h.distinct.nodup_keys,
    List.length_map, h.size_eq]

theorem TableInv.size_eq_chains {t : HashTable K V} (h : TableInv O t) :
    t.size = ∑ i ∈ Finset.range t.capacity, (t.entries i).length := by
  rw [h.size_eq, hashTableElems, length_gather]

/-! ## The table after a run -/

theorem size32_eq_iff {t : HashTable32 K V} : hashTableSize32 t = t.size.toNat ↔ t.size.toNat < 2 ^ 31 := by
  have hlt := t.size.isLt
  unfold hashTableSize32
  rw [BitVec.toInt_eq_toNat_cond]
  split <;> omega

section
variable [DecidableEq K] [DecidableEq V]

theorem reachable32_inv (O : KeyOps K) (requests : List (HashTableRequest K V)) :
    TableInv O (exec (hashTableStep32 O) hashTableCreate32 requests).wide :=
  exec_inv (fun t : HashTable32 K V => TableInv O t.wide) (fun _ r h => hashTableStep32_inv h r)
    hashTableCreate32_inv requests

/-- New keys go into the table one by one, up to `2 ^ 31` of them. -/
theorem new_inserts_run : ∀ (l : List (HashTableEntry K V)) (t : HashTable32 K V), TableInv O t.wide →
    Distinct O (l ++ hashTableElems t.wide) → t.size.toNat + l.length ≤ 2 ^ 31 →
    let t' := exec (hashTableStep32 O) t (l.map fun e => .insert e.key e.val)
    TableInv O t'.wide ∧ (hashTableElems t'.wide).Perm (l ++ hashTableElems t.wide)
  | [], _, hinv, _, _ => ⟨hinv, .refl _⟩
  | e :: l, t, hinv, hd, hfew => by
    rw [List.length_cons] at hfew
    obtain ⟨t', hstep, hi, helems, hsize⟩ := insert32_new hinv e.val hd.head_new (by omega)
    obtain ⟨hi', helems'⟩ := new_inserts_run l t' hi (hd.move helems) (by omega)
    rw [List.map_cons, exec_cons, hstep]
    exact ⟨hi', helems'.trans ((helems.append_left l).trans List.perm_middle)⟩

/-- Every table that calls can build places its entries by their hash, holds no
key twice, and counts entries and keys exactly; and `hash_table_size` returns
that number just when it is an `int`. -/
theorem hash_table_invariant (O : KeyOps K) (requests : List (HashTableRequest K V)) :
    let t := exec (hashTableStep32 O) hashTableCreate32 requests
    let count := ∑ i ∈ Finset.range t.capacity.toNat, (t.entries i).length
    (∀ i, ∀ e ∈ t.entries i, O.hash e.key % t.capacity.toNat = i) ∧ Distinct O (hashTableElems32 t) ∧
      t.size.toNat = count ∧ count = (heldKeys O t.wide).ncard ∧ count ≤ t.capacity.toNat ∧
      (∃ k, t.capacity.toNat = 32 * 2 ^ k) ∧ (hashTableSize32 t = count ↔ count < 2 ^ 31) := by
  intro t count
  have hinv : TableInv O t.wide := reachable32_inv O requests
  have hcount : t.size.toNat = count := hinv.size_eq_chains
  refine ⟨hinv.placed, hinv.distinct, hcount, ?_, ?_, hinv.capacity_eq, ?_⟩
  · rw [← hcount]
    exact hinv.size_eq_keys
  · rw [← hcount]
    exact hinv.size_le
  · rw [← hcount]
    exact size32_eq_iff

end

/-! ## The table of `2 ^ 31` entries -/

/-- The table that has taken the keys below `n`. -/
def rangeTable (n : Nat) : HashTable32 Nat Nat :=
  exec (hashTableStep32 (.ofKey id id)) hashTableCreate32 ((List.range n).map fun k => .insert k k)

theorem rangeTable_spec {n : Nat} (hn : n ≤ 2 ^ 31) : TableInv (.ofKey id id) (rangeTable n).wide ∧
    (hashTableElems (rangeTable n).wide).Perm ((List.range n).map fun k => ⟨k, k⟩) := by
  let l : List (HashTableEntry Nat Nat) := (List.range n).map fun k => ⟨k, k⟩
  have hnil : hashTableElems (hashTableCreate32 : HashTable32 Nat Nat).wide = [] := gather_nil _
  have hd : Distinct (.ofKey id id) (l ++ hashTableElems (hashTableCreate32 : HashTable32 Nat Nat).wide) := by
    rw [hnil, List.append_nil]
    refine List.pairwise_map.mpr (List.nodup_range.imp fun hne he => hne ?_)
    exact Comparator.ofKey_eq_iff.mp he
  have hzero : (hashTableCreate32 : HashTable32 Nat Nat).size.toNat = 0 := rfl
  have hrun := new_inserts_run l hashTableCreate32 hashTableCreate32_inv hd
    (by rw [List.length_map, List.length_range, hzero, Nat.zero_add]; exact hn)
  rw [List.map_map, hnil, List.append_nil] at hrun
  exact hrun

theorem rangeTable_size {n : Nat} (hn : n ≤ 2 ^ 31) : (rangeTable n).size.toNat = n := by
  obtain ⟨hinv, helems⟩ := rangeTable_spec hn
  have hlen : (rangeTable n).size.toNat = _ := hinv.size_eq
  rw [hlen, helems.length_eq, List.length_map, List.length_range]

theorem rangeTable_count {n : Nat} (hn : n ≤ 2 ^ 31) :
    ∑ i ∈ Finset.range (rangeTable n).capacity.toNat, ((rangeTable n).entries i).length = n := by
  have hchains : (rangeTable n).size.toNat = _ := (rangeTable_spec hn).1.size_eq_chains
  exact hchains.symm.trans (rangeTable_size hn)

theorem rangeTable_size32 {n : Nat} (hn : n ≤ 2 ^ 31) :
    hashTableSize32 (rangeTable n) = if n < 2 ^ 31 then (n : Int) else n - 2 ^ 32 := by
  unfold hashTableSize32
  rw [BitVec.toInt_eq_toNat_cond, rangeTable_size hn]
  split <;> split <;> omega

/-- A table that holds `2 ^ 31` keys says that it holds `-2 ^ 31`. -/
theorem size_negative :
    ∑ i ∈ Finset.range (rangeTable (2 ^ 31)).capacity.toNat, ((rangeTable (2 ^ 31)).entries i).length = 2 ^ 31 ∧
      hashTableSize32 (rangeTable (2 ^ 31)) = -2 ^ 31 :=
  ⟨rangeTable_count (Nat.le_refl _), rangeTable_size32 (Nat.le_refl _)⟩

/-! ## The resize -/

section
variable [DecidableEq K] [DecidableEq V]

/-- How the nested call for `e` finds the table: the key is new and there is
room, so that the call appends whatever depth is left to it. -/
def Appends (O : KeyOps K) (t : HashTable32 K V) (e : HashTableEntry K V) : Prop :=
  hashTableLookup32 O t e.key = .ok none ∧ ¬ t.size + 1 > t.capacity ∧
    ∀ depth, hashTableInsertAux32 O (depth + 1) t e.key e.val = hashTableAppend32 O t e.key e.val

structure LosslessResize (O : KeyOps K) (t : HashTable32 K V) (key : K) (value : V) : Prop where
  scratch : (hashTableElems32 t).length = t.capacity.toNat
  nested : ∀ copied e rest, hashTableElems32 t = copied ++ e :: rest →
    ∃ t', (∀ depth, copied.foldlM (fun t' e => hashTableInsertAux32 O (depth + 1) t' e.key e.val)
      (hashTableDouble32 t) = .ok t') ∧ Appends O t' e
  result : ∃ t', hashTableInsert32 O t key value = .ok t' ∧
    (hashTableElems32 t').Perm (⟨key, value⟩ :: hashTableElems32 t) ∧ t'.size.toNat = t.size.toNat + 1 ∧
    t'.capacity.toNat = 2 * t.capacity.toNat

section
variable {t : HashTable32 K V} (hinv : TableInv O t.wide)
include hinv

theorem nested_appends (hlt : t.capacity.toNat < 2 ^ 31) {copied rest : List (HashTableEntry K V)}
    {e : HashTableEntry K V} (hl : hashTableElems32 t = copied ++ e :: rest) :
    ∃ t', (∀ depth, copied.foldlM (fun t' e => hashTableInsertAux32 O (depth + 1) t' e.key e.val)
      (hashTableDouble32 t) = .ok t') ∧ Appends O t' e := by
  obtain ⟨t', hi, hr⟩ := reinsert32_part hinv hlt hl
  obtain ⟨w, hw, -, helems, hcap, -⟩ := reinsert_part hinv hl
  obtain rfl : w = t'.wide := Option.some.inj ((hw 0).symm.trans (hr 0).2)
  have hd : Distinct O (copied ++ e :: rest) := hl ▸ hinv.distinct
  have hnew : ∀ a ∈ hashTableElems t'.wide, O.compare e.key a.key ≠ .EQ := by
    intro a ha
    exact KeyOps.ne_symm ((List.pairwise_append.mp hd).2.2 a (helems.mem_iff.mp ha) e (List.mem_cons_self ..))
  have hroom : t'.wide.size + 1 ≤ t'.wide.capacity := by
    have hlen : t.wide.size = (hashTableElems32 t).length := hinv.size_eq
    have hle := hinv.size_le
    rw [hl, List.length_append, List.length_cons] at hlen
    rw [hi.size_eq, helems.length_eq, hcap]
    omega
  refine ⟨t', fun depth => (hr depth).1, ?_, mt (full32_iff hi).mp (by omega), ?_⟩
  · rw [lookup32_eq hi, (lookup_none_iff hi).mpr hnew]
  · exact fun depth => insertAux32_new hi hnew e.val depth hroom

theorem TableInv.lossless_iff {key : K} (hnew : hashTableLookup32 O t key = .ok none) (hfull : t.size + 1 > t.capacity)
    (value : V) : LosslessResize O t key value ↔ t.size.toNat < 2 ^ 31 := by
  have hnew' : ∀ e ∈ hashTableElems t.wide, O.compare key e.key ≠ .EQ := by
    rw [lookup32_eq hinv] at hnew
    exact (lookup_none_iff hinv).mp (Except.ok.inj hnew)
  constructor
  · intro h
    by_contra hge
    obtain ⟨t', ht, -⟩ := h.result
    rw [insert32_faults hinv value hnew' hge] at ht
    cases ht
  · intro hlt
    have hcap : t.size.toNat = t.capacity.toNat := (hinv.roomy.full_iff (by decide)).mp hfull
    have hlen : t.size.toNat = (hashTableElems32 t).length := hinv.size_eq
    obtain ⟨w, hw, t', ht, rfl⟩ := insert32_agrees hinv value (Or.inr hlt)
    obtain ⟨w, hw', hi, helems, hcap', -⟩ := insert_new_spec hinv hnew' value
    obtain rfl : w = t'.wide := Option.some.inj ((hw' 0).symm.trans hw)
    refine ⟨by omega, fun copied e rest hl => nested_appends hinv (by omega) hl, t', ht, helems, ?_, ?_⟩
    · have hlen' : t'.size.toNat = _ := hi.size_eq
      rw [hlen', helems.length_eq, List.length_cons, hlen]
      rfl
    · have hdouble : t'.capacity.toNat = _ := hcap'
      rw [hdouble, if_pos ((full32_iff hinv).mp hfull)]
      rfl

end

/-- In every table that calls can build, an insert that resizes loses nothing
just when the table has fewer than `2 ^ 31` entries. -/
theorem resize_lossless_iff (O : KeyOps K) (requests : List (HashTableRequest K V)) (key : K) (value : V) :
    let t := exec (hashTableStep32 O) hashTableCreate32 requests
    hashTableLookup32 O t key = .ok none → t.size + 1 > t.capacity →
      (LosslessResize O t key value ↔ t.size.toNat < 2 ^ 31) := by
  intro t hnew hfull
  exact (reachable32_inv O requests).lossless_iff hnew hfull value

end

/-- The 33rd key, which falls into the same chain as all others. -/
theorem resize_lossless_chain :
    let t := exec (hashTableStep32 (.ofKey id id)) hashTableCreate32
      ((List.range 32).map fun k => HashTableRequest.insert (32 * k) k)
    LosslessResize (.ofKey id id) t 1024 7 ↔ t.size.toNat < 2 ^ 31 :=
  resize_lossless_iff (.ofKey id id) ((List.range 32).map fun k => HashTableRequest.insert (32 * k) k) 1024 7
    (by decide +kernel) (by decide +kernel)

theorem rangeTable_new {n : Nat} (hn : n ≤ 2 ^ 31) :
    hashTableLookup32 (.ofKey id id) (rangeTable n) n = .ok none := by
  obtain ⟨hinv, helems⟩ := rangeTable_spec hn
  rw [lookup32_eq hinv, (lookup_none_iff hinv).mpr]
  intro e he hs
  obtain ⟨k, hk, rfl⟩ := List.mem_map.mp (helems.mem_iff.mp he)
  have heq : n = k := Comparator.ofKey_eq_iff.mp hs
  exact Nat.lt_irrefl _ (heq ▸ List.mem_range.mp hk)

theorem rangeTable_full {n : Nat} (hn : n ≤ 2 ^ 31) (hge : 2 ^ 31 ≤ n) :
    (rangeTable n).size + 1 > (rangeTable n).capacity := by
  have hinv := (rangeTable_spec hn).1
  obtain ⟨hs, hc⟩ := hinv.roomy.at_half (by decide) (by rw [rangeTable_size hn]; exact Nat.not_lt.mpr hge)
  exact (hinv.roomy.full_iff (by decide)).mpr (hs.trans hc.symm)

theorem rangeTable_loses {n : Nat} (hn : n ≤ 2 ^ 31) (hge : 2 ^ 31 ≤ n) :
    ¬ LosslessResize (.ofKey id id) (rangeTable n) n 0 := by
  rw [(rangeTable_spec hn).1.lossless_iff (rangeTable_new hn) (rangeTable_full hn hge), rangeTable_size hn]
  exact Nat.not_lt.mpr hge

/-- The new key for which a table of `2 ^ 31` entries has to resize. -/
theorem resize_fails :
    hashTableLookup32 (.ofKey id id) (rangeTable (2 ^ 31)) (2 ^ 31) = .ok none ∧
      (rangeTable (2 ^ 31)).size + 1 > (rangeTable (2 ^ 31)).capacity ∧
      ¬ LosslessResize (.ofKey id id) (rangeTable (2 ^ 31)) (2 ^ 31) 0 :=
  ⟨rangeTable_new (Nat.le_refl _), rangeTable_full (Nat.le_refl _) (Nat.le_refl _),
    rangeTable_loses (Nat.le_refl _) (Nat.le_refl _)⟩

end

end SwitchSimulation
