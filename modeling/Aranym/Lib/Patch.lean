import Mathlib.Data.BitVec

/-!
# Code that is emitted and patched

Machine code is written forward as strings of bytes; a long in it, stored least significant byte
first, may be patched later.
-/

namespace Aranym.Lib

open BitVec

abbrev CodeMem := Nat → BitVec 8

namespace CodeMem

def put (m : CodeMem) (a : Nat) (bs : List (BitVec 8)) : CodeMem := fun x =>
  if a ≤ x then bs[x - a]?.getD (m x) else m x

def leBytes (v : BitVec 32) : List (BitVec 8) :=
  [v.extractLsb' 0 8, v.extractLsb' 8 8, v.extractLsb' 16 8, v.extractLsb' 24 8]

def long (m : CodeMem) (a : Nat) : BitVec 32 := m (a + 3) ++ m (a + 2) ++ m (a + 1) ++ m a

variable {m : CodeMem} {a x : Nat} {v : BitVec 32}

theorem long_put_self : (m.put a (leBytes v)).long a = v := by
  have hjoin : v.extractLsb' 24 8 ++ v.extractLsb' 16 8 ++ v.extractLsb' 8 8 ++ v.extractLsb' 0 8 = v := by
    rw [extractLsb'_append_extractLsb'_eq_extractLsb' (show 24 = 16 + 8 from rfl),
      extractLsb'_append_extractLsb'_eq_extractLsb' (show 16 = 8 + 8 from rfl),
      extractLsb'_append_extractLsb'_eq_extractLsb' (show 8 = 0 + 8 from rfl)]
    exact extractLsb'_eq_self
  simpa [long, put, leBytes] using hjoin

def Apart (a x : Nat) : Prop := a + 4 ≤ x ∨ x + 4 ≤ a

theorem long_put_of_apart (h : Apart a x) : (m.put a (leBytes v)).long x = m.long x := by
  have hput : ∀ y, y < a ∨ a + 4 ≤ y → m.put a (leBytes v) y = m y := by
    intro y hy
    unfold put
    split
    · rw [List.getElem?_eq_none (by simp only [leBytes, List.length_cons, List.length_nil]; omega)]; rfl
    · rfl
  unfold Apart at h
  rw [long, hput _ (by omega), hput _ (by omega), hput _ (by omega), hput _ (by omega), long]

end CodeMem

end Aranym.Lib
