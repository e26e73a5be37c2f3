import Mathlib.Logic.Function.Basic

/-!
# Tables with back links

Each container `n` lists its occupants in the first `size n` slots, and each occupant records its container and its
slot. `Valid` says that the two directions agree.
-/

namespace Aranym.Lib

open Function

structure Slots (N V : Type) where
  slot : N → Nat → V
  size : N → Nat
  loc : V → Option (N × Nat)

namespace Slots

variable {N V : Type} {T : Slots N V} {v w : V} {n d s : N} {i : Nat}

def Valid (T : Slots N V) : Prop := ∀ v n i, T.loc v = some (n, i) ↔ i < T.size n ∧ T.slot n i = v

def container (T : Slots N V) (v : V) : Option N := (T.loc v).map Prod.fst

theorem container_eq_some : T.container v = some n ↔ ∃ i, T.loc v = some (n, i) := by simp [container]

theorem Valid.size_pos (h : T.Valid) (hv : T.container v = some n) : 0 < T.size n := by
  obtain ⟨i, hi⟩ := container_eq_some.mp hv
  exact Nat.zero_lt_of_lt ((h v n i).mp hi).1

theorem Valid.eq_of_size_one (h : T.Valid) (hn : T.size n = 1) (hv : T.container v = some n)
    (hw : T.container w = some n) : v = w := by
  obtain ⟨i, hi⟩ := container_eq_some.mp hv
  obtain ⟨j, hj⟩ := container_eq_some.mp hw
  obtain ⟨hi', hvi⟩ := (h v n i).mp hi
  obtain ⟨hj', hwj⟩ := (h w n j).mp hj
  rw [hn, Nat.lt_one_iff] at hi' hj'
  rw [← hvi, ← hwj, hi', hj']

theorem Valid.container_slot (h : T.Valid) (hi : i < T.size n) : T.container (T.slot n i) = some n :=
  container_eq_some.mpr ⟨i, (h _ n i).mpr ⟨hi, rfl⟩⟩

variable [DecidableEq N] [DecidableEq V]

/-! ## Removing an occupant -/

def remove (T : Slots N V) (v : V) (n : N) (i : Nat) : Slots N V where
  slot := update T.slot n (update (T.slot n) i (T.slot n (T.size n - 1)))
  size := update T.size n (T.size n - 1)
  loc := update (update T.loc (T.slot n (T.size n - 1)) (some (n, i))) v none

theorem Valid.remove (h : T.Valid) (hv : T.loc v = some (n, i)) : (T.remove v n i).Valid := by
  obtain ⟨hi, hslot⟩ := (h v n i).mp hv
  have hlast := (h _ n (T.size n - 1)).mpr ⟨by omega, rfl⟩
  intro w m j
  have hw := h w m j
  have hother := h w n (T.size n - 1)
  have hv' := h v m j
  simp only [Slots.remove, update_apply]
  grind

/-! ## Adding an occupant -/

def push (T : Slots N V) (v : V) (n : N) : Slots N V where
  slot := update T.slot n (update (T.slot n) (T.size n) v)
  size := update T.size n (T.size n + 1)
  loc := update T.loc v (some (n, T.size n))

theorem Valid.push (h : T.Valid) (hv : T.loc v = none) : (T.push v n).Valid := by
  intro w m j
  have hw := h w m j
  have hv' := h v m j
  simp only [Slots.push, update_apply]
  grind

/-! ## Moving all occupants -/

omit [DecidableEq V]

def moveAll (T : Slots N V) (d s : N) : Slots N V where
  slot := fun n i => if n = d ∧ i < T.size s then T.slot s i else T.slot n i
  size := update (update T.size d (T.size s)) s 0
  loc := fun v => (T.loc v).map fun p => if p.1 = s then (d, p.2) else p

theorem Valid.moveAll (h : T.Valid) (hne : s ≠ d) (hd : T.size d = 0) : (T.moveAll d s).Valid := by
  intro w m j
  have hw := h w m j
  have hs := h w s j
  simp only [Slots.moveAll, update_apply, Option.map_eq_some_iff, Prod.exists]
  constructor
  · rintro ⟨n, k, hloc, heq⟩; have hk := (h w n k).mp hloc; grind
  · intro hj
    by_cases hm : m = d
    · refine ⟨s, j, ?_, ?_⟩ <;> grind
    · refine ⟨m, j, ?_, ?_⟩ <;> grind

end Slots

end Aranym.Lib
