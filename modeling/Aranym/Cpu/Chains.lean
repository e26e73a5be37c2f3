import Aranym.Cpu.Lemmas.Sized
import Aranym.Cpu.Families
import Aranym.Lib.Chain

/-!
# Operands of several elements

`ADDX`, `SUBX`, `NEGX` and the decimal instructions work on long operands element by element, from the
least significant one up, with the carry in `X` and with a `Z` that is only ever cleared.
-/

namespace Aranym.Cpu

open Aranym.Lib Aranym.Mmu

abbrev Elem (size : Sz) := BitVec (bitSize size)

/-- An instruction on the elements `(src, dst)`: they are fetched with their sign, and the result is
stored with the size. -/
def onElems (size : Sz) (op : BitVec 32 → BitVec 32 → FlagOp (BitVec 32)) (f : Flags) (e : Elem size × Elem size) :
    Flags × Elem size :=
  let r := op (e.1.signExtend 32) (e.2.signExtend 32) f
  (r.1, part size r.2)

/-- One element passes through an instruction, as a step of a chain. -/
def onElem (size : Sz) (op : BitVec 32 → FlagOp (BitVec 32)) (f : Flags) (e : Elem size) : Flags × Elem size :=
  let r := op (e.signExtend 32) f
  (r.1, part size r.2)

/-- The flags a chain starts from: no borrow or carry, and zero so far. -/
def Flags.forChain (f : Flags) : Flags := { f with x := false, z := true }

/-- What a chain of binary instructions leaves: the digits of the result, and the condition codes of one
operation on the whole numbers. Without an element there was no instruction to set `C`, `V` and `N`. -/
structure LongResult {size : Sz} (k : Nat) (out : Flags × List (Elem size)) (result : BitVec (bitSize size * k))
    (carry overflow : Bool) : Prop where
  length : out.2.length = k
  value : number k out.2 = result
  x : out.1.x = carry
  z : out.1.z = (result == 0#_)
  c : 0 < k → out.1.c = carry
  v : 0 < k → out.1.v = overflow
  n : 0 < k → out.1.n = result.msb

/-! ## Decimal operands -/

/-- Both nibbles are decimal digits. -/
def Packed (e : BitVec 8) : Prop := e.toNat / 16 ≤ 9 ∧ e.toNat % 16 ≤ 9

instance (e : BitVec 8) : Decidable (Packed e) := inferInstanceAs (Decidable (_ ∧ _))

abbrev PackedByte := { e : BitVec 8 // Packed e }

def decimal (e : BitVec 8) : Nat := e.toNat / 16 * 10 + e.toNat % 16

/-- The number that packed bytes spell, lowest byte first. -/
def decimals (es : List (BitVec 8)) : Nat := Nat.ofDigits 100 (es.map decimal)

def onBytes (op : BitVec 32 → BitVec 32 → FlagOp (BitVec 32)) (f : Flags) (e : BitVec 8 × BitVec 8) :
    Flags × BitVec 8 := onElems .byte op f e

def onByte (op : BitVec 32 → FlagOp (BitVec 32)) (f : Flags) (e : BitVec 8) : Flags × BitVec 8 := onElem .byte op f e

/-- A chain gives the packed digits of `result`, with `carry` left in `X`. -/
structure DecimalResult (k : Nat) (out : Flags × List (BitVec 8)) (result : Nat) (carry : Bool) : Prop where
  length : out.2.length = k
  packed : ∀ r ∈ out.2, Packed r
  value : decimals out.2 = result
  x : out.1.x = carry
  z : out.1.z = (result == 0)
  c : 0 < k → out.1.c = carry

end Aranym.Cpu
