import Mathlib.Logic.Function.Basic

/-!
# Register numbers

Literals of the types that number registers.
-/

namespace Aranym.Lib

instance neZero_eight : @NeZero Nat Zero.ofOfNat0 8 := Nat.instNeZeroSucc

instance neZero_sixteen : @NeZero Nat Zero.ofOfNat0 16 := Nat.instNeZeroSucc

instance neZero_thirtyTwo : @NeZero Nat Zero.ofOfNat0 32 := Nat.instNeZeroSucc

end Aranym.Lib
