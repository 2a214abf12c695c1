import Mathlib.Logic.Function.Iterate
import SwitchSimulation.Cyclic

/-!
# Windows of a ring buffer

`window f c h k` lists the `k` slots of a ring of `c` slots that start at
slot `h`. Moving the start drops the first entry; writing the slot just
behind the window and extending it appends an entry. A loop that walks round
the ring runs its body once for each slot of a window.
-/

namespace SwitchSimulation

section
variable {α : Type*}

def window (f : Nat → α) (c h k : Nat) : List α := (List.range k).map fun i => f ((h + i) % c)

@[simp] theorem length_window (f : Nat → α) (c h k : Nat) : (window f c h k).length = k := by
  simp [window]

theorem window_succ (f : Nat → α) (c h k : Nat) :
    window f c h (k + 1) = window f c h k ++ [f ((h + k) % c)] := by
  simp [window, List.range_succ]

theorem window_cons (f : Nat → α) {c h : Nat} (hh : h < c) (k : Nat) :
    window f c h (k + 1) = f h :: window f c ((h + 1) % c) k := by
  unfold window
  rw [List.range_succ_eq_map, List.map_cons, List.map_map, Nat.add_zero, Nat.mod_eq_of_lt hh]
  congr 1
  apply List.map_congr_left
  intro i _
  simp only [Function.comp, Nat.mod_add_mod]
  rw [show h + 1 + i = h + (i + 1) by omega]

theorem window_update_outside (f : Nat → α) (c h k j : Nat) (x : α) (hj : ∀ i < k, (h + i) % c ≠ j) :
    window (Function.update f j x) c h k = window f c h k := by
  unfold window
  apply List.map_congr_left
  intro i hi
  rw [Function.update_of_ne (hj i (List.mem_range.mp hi))]

theorem window_push (f : Nat → α) {c k : Nat} (h : Nat) (x : α) (hk : k < c) :
    window (Function.update f ((h + k) % c) x) c h (k + 1) = window f c h k ++ [x] := by
  rw [window_succ, window_update_outside, Function.update_self]
  intro i hi he
  have := slot_inj (h := h) (by omega) hk he
  omega

/-! ## Walking round the ring -/

theorem whileLoop_walk {σ : Type*} {body : σ → σ} (pos : σ → Nat) {c last : Nat} (hl : last < c)
    (hb : ∀ s, pos (body s) = (pos s + 1) % c) :
    ∀ (fuel : Nat) {s : σ}, pos s < c → ahead c (pos s) last ≤ fuel →
      whileLoop (fun s => pos s != last) body fuel s = body^[ahead c (pos s) last] s
  | 0, s, _, hf => by
    rw [Nat.le_zero.mp hf]
    rfl
  | fuel + 1, s, hs, hf => by
    by_cases he : last = pos s
    · rw [whileLoop_of_not (by simp [he]), he, ahead_self hs]
      rfl
    · have hd := ahead_advance hs hl he
      rw [← hb] at hd
      rw [whileLoop_of_cond (by simp [Ne.symm he]), ← hd, Function.iterate_succ_apply]
      refine whileLoop_walk pos hl hb fuel ?_ (by omega)
      rw [hb]
      exact Nat.mod_lt _ (by omega)

end

end SwitchSimulation
