import Mathlib.Data.BitVec

/-!
# UTF-8

The characters below U+10000 as sequences of one to three bytes.
-/

namespace Aranym.Lib

def Scalar (c : BitVec 16) : Prop := c < 0xd800 ∨ 0xdfff < c

def utf8 (c : BitVec 16) : List (BitVec 8) :=
  if c < 0x80 then [c.setWidth 8]
  else if c < 0x800 then [0xc0#8 ||| (c >>> 6).setWidth 8, 0x80#8 ||| c.setWidth 8 &&& 0x3f]
  else [0xe0#8 ||| (c >>> 12).setWidth 8, 0x80#8 ||| (c >>> 6).setWidth 8 &&& 0x3f,
    0x80#8 ||| c.setWidth 8 &&& 0x3f]

def encode (cs : List (BitVec 16)) : List (BitVec 8) := cs.flatMap utf8

end Aranym.Lib
