import Mathlib.Data.BitVec

/-!
# Circular buffers

A buffer of `2 ^ w` cells, of which `n` from the cell `r` on, around the end, are in use. As long as a cell is
free, what is written behind them is appended and what is read is taken from the front.
-/

namespace Aranym.Lib.Ring

open BitVec List Function

variable {w : Nat} {α : Type} {buf : BitVec w → α} {r : BitVec w} {n k : Nat} {v : α}

def contents (buf : BitVec w → α) (r : BitVec w) : Nat → List α
  | 0 => []
  | n + 1 => buf r :: contents buf (r + 1) n

@[simp] theorem length_contents (buf : BitVec w → α) (r : BitVec w) (n : Nat) : (contents buf r n).length = n := by
  induction n generalizing r with
  | zero => rfl
  | succ n ih => rw [contents, length_cons, ih]

theorem add_ofNat_succ (r : BitVec w) (n : Nat) : r + BitVec.ofNat w (n + 1) = r + 1 + BitVec.ofNat w n := by
  rw [BitVec.add_assoc, Nat.add_comm n 1, ofNat_add]
  rfl

theorem contents_add (buf : BitVec w → α) (r : BitVec w) (n k : Nat) :
    contents buf r (n + k) = contents buf r n ++ contents buf (r + BitVec.ofNat w n) k := by
  induction n generalizing r with
  | zero => simp [contents]
  | succ n ih => rw [Nat.add_right_comm, contents, contents, ih, add_ofNat_succ, List.cons_append]

theorem contents_drop (h : k ≤ n) : contents buf (r + BitVec.ofNat w k) (n - k) = (contents buf r n).drop k := by
  obtain ⟨m, rfl⟩ := Nat.exists_eq_add_of_le h
  rw [contents_add, Nat.add_sub_cancel_left, drop_left' (length_contents buf r k)]

theorem contents_update (h : n + k < 2 ^ w) :
    contents (update buf (r + BitVec.ofNat w (n + k)) v) r n = contents buf r n := by
  induction n generalizing r k with
  | zero => rfl
  | succ n ih =>
    have hne : r ≠ r + BitVec.ofNat w (n + 1 + k) := by
      intro heq
      have hzero : BitVec.ofNat w (n + 1 + k) = 0 := by simpa using heq.symm
      have hmod := congrArg BitVec.toNat hzero
      rw [toNat_ofNat, Nat.mod_eq_of_lt h, ofNat_eq_ofNat, toNat_ofNat,
        Nat.zero_mod] at hmod
      omega
    rw [contents, contents, Function.update_of_ne hne, Nat.add_right_comm, add_ofNat_succ, ih (by omega)]

theorem contents_write (h : n < 2 ^ w) :
    contents (update buf (r + BitVec.ofNat w n) v) r (n + 1) = contents buf r n ++ [v] := by
  have hkept : contents (update buf (r + BitVec.ofNat w n) v) r n = contents buf r n :=
    contents_update (k := 0) h
  rw [contents_add, hkept, contents, contents, Function.update_self]

end Aranym.Lib.Ring
