import Mathlib.Data.List.Perm.Basic
import Mathlib.Data.List.Nodup

/-!
# Objects in the custody of a container

`Custody inserted freed held`: every object that was put into a container is
either freed or still held by it, and it is there once. The rules say what
putting in, replacing and taking out an object does.
-/

namespace SwitchSimulation

section
variable {α : Type*}

structure Custody (inserted freed held : List α) : Prop where
  once : (freed ++ held).Nodup
  all : ∀ x, x ∈ freed ++ held ↔ x ∈ inserted

variable {inserted freed freed' held held' rest : List α} {x y : α}

theorem Custody.empty : Custody ([] : List α) [] [] := ⟨.nil, fun _ => Iff.rfl⟩

/-! ## Freed and held objects -/

theorem Custody.mem_of_held (h : Custody inserted freed held) (hx : x ∈ held) : x ∈ inserted :=
  (h.all x).mp (List.mem_append_right _ hx)

theorem Custody.rearrange (h : Custody inserted freed held) (hp : (freed ++ held).Perm (freed' ++ held')) :
    Custody inserted freed' held' :=
  ⟨hp.nodup h.once, fun x => hp.mem_iff.symm.trans (h.all x)⟩

theorem Custody.perm (h : Custody inserted freed held) (hp : held.Perm held') : Custody inserted freed held' :=
  h.rearrange (hp.append_left freed)

theorem Custody.count_freed [DecidableEq α] (h : Custody inserted freed []) (x : α) :
    freed.count x = if x ∈ inserted then 1 else 0 := by
  have hnd := h.once
  have hall := h.all x
  rw [List.append_nil] at hnd hall
  rw [hnd.count]
  exact if_congr hall rfl rfl

/-! ## Putting in and taking out -/

/-- Objects that are numbered as they come. -/
theorem Custody.range_succ {b : Nat} {freed held : List Nat} (h : Custody (b :: List.range b) freed held) :
    Custody (List.range (b + 1)) freed held where
  once := h.once
  all z := by rw [h.all z, List.range_succ, List.mem_append, List.mem_singleton, List.mem_cons, or_comm]

theorem Custody.add (h : Custody inserted freed held) (hx : x ∉ inserted) :
    Custody (x :: inserted) freed (x :: held) where
  once := List.perm_middle.symm.nodup (List.nodup_cons.mpr ⟨fun hm => hx ((h.all x).mp hm), h.once⟩)
  all z := by rw [List.perm_middle.mem_iff, List.mem_cons, List.mem_cons, h.all z]

theorem Custody.again (h : Custody inserted freed held) (hx : x ∈ held) : Custody (x :: inserted) freed held where
  once := h.once
  all z := by
    rw [h.all z, List.mem_cons]
    constructor
    · intro hz; exact Or.inr hz
    · intro hz
      cases hz with
      | inl he => rw [he]; exact h.mem_of_held hx
      | inr hz => exact hz

theorem Custody.free (h : Custody inserted freed (y :: rest)) : Custody inserted (freed ++ [y]) rest :=
  h.rearrange (by rw [List.append_assoc]; exact .refl _)

theorem Custody.free_all (h : Custody inserted freed held) : Custody inserted (freed ++ held) [] :=
  h.rearrange (by rw [List.append_nil])

/-- An object takes the place of `y`, which is freed unless the two are the same. -/
theorem Custody.replace [DecidableEq α] (h : Custody inserted freed (y :: rest)) (hx : x ∉ inserted ∨ y = x) :
    Custody (x :: inserted) (freed ++ if y ≠ x then [y] else []) (x :: rest) := by
  by_cases he : y = x
  · subst he
    rw [if_neg fun hn => hn rfl, List.append_nil]
    exact h.again (List.mem_cons_self ..)
  · rw [if_pos he]
    exact h.free.add (hx.resolve_right he)

end

end SwitchSimulation
