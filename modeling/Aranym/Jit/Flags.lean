import Aranym.Cpu.Defs
import Aranym.Lib.Liveness

/-!
# Dead flags in `compile_block`

The backward pass over a block that computes `liveflags`, the choice of the variant without flags,
and the executions of a block that the compiled code may follow.
-/

namespace Aranym.Jit

open Aranym.Lib Aranym.Cpu

/-! ## Flag masks -/

def flagBit : Flag → Nat
  | .x => 4
  | .n => 3
  | .z => 2
  | .v => 1
  | .c => 0

def FLAG_Z : BitVec 8 := 0x04

def FLAG_CZNV : BitVec 8 := 0x0f

def FLAG_ALL : BitVec 8 := 0x1f

def flagSet (m : BitVec 8) : Set Flag := { f | m.getLsbD (flagBit f) = true }

/-! ## The liveness pass -/

structure OpProperties where
  useFlags : BitVec 8
  setFlags : BitVec 8
  isAddx : Bool
deriving DecidableEq

def liveBefore (prop : OpProperties) (next : BitVec 8) : BitVec 8 :=
  let live := (next &&& ~~~prop.setFlags) ||| prop.useFlags
  if prop.isAddx ∧ next &&& FLAG_Z = 0 then live &&& ~~~FLAG_Z else live

/-- `liveflags` at the start of a rest of the block: the pass goes backwards, so the value depends
on that rest only. -/
def liveflags : List OpProperties → BitVec 8
  | [] => FLAG_ALL
  | prop :: rest => liveBefore prop (liveflags rest)

def noFlags (prop : OpProperties) (next : BitVec 8) : Bool := next &&& prop.setFlags == 0

/-! ## Executions -/

variable {κ : Type}

/-- An entry of a block: its flag properties and what its full variant does to the registers and the
memory, taken together as `κ`, and to the condition codes. -/
structure Entry (κ : Type) extends Instr κ Flags where
  prop : OpProperties

abbrev AgreeOn (m : BitVec 8) (f g : Flags) : Prop := Instr.Agree Flags.get (flagSet m) f g

/-- The declared masks describe the instruction: what it does depends on the flags in `use_flags`
only, and it changes none outside `set_flags`. An instruction marked `is_addx` uses `Z` for its new
`Z` only. -/
structure Entry.MasksCorrect (e : Entry κ) : Prop where
  core_use : ∀ c f g, AgreeOn e.prop.useFlags f g → e.core c f = e.core c g
  flags_use : ∀ c f g, AgreeOn e.prop.useFlags f g →
    AgreeOn e.prop.setFlags (e.comp c f) (e.comp c g)
  flags_unset : ∀ c f, ∀ i ∉ flagSet e.prop.setFlags, (e.comp c f).get i = f.get i
  addx : e.prop.isAddx = true → ∀ c f g, AgreeOn (e.prop.useFlags &&& ~~~FLAG_Z) f g →
    e.core c f = e.core c g ∧ AgreeOn (e.prop.setFlags &&& ~~~FLAG_Z) (e.comp c f) (e.comp c g)

/-- The block with every flag computed. -/
def fullRun (block : List (Entry κ)) (s : κ × Flags) : List κ × (κ × Flags) :=
  Instr.fullRun Entry.toInstr block s

/-- The flags that the variant chosen for an entry leaves. The variant without flags may leave
anything in the flags the instruction sets. -/
def VariantFlags (e : Entry κ) (next : BitVec 8) (c : κ) (f f' : Flags) : Prop :=
  if noFlags e.prop next then ∀ i ∉ flagSet e.prop.setFlags, f'.get i = f.get i
  else f' = e.comp c f

/-- `dont_care_flags`: with none of them live, the flags other than `X` are given up. -/
def DontCare (next : BitVec 8) (f f' : Flags) : Prop := if next &&& FLAG_CZNV = 0 then f'.x = f.x else f' = f

/-- A run of the block with only the live flags; the others hold any value. -/
inductive CompiledRun : List (Entry κ) → κ × Flags → List κ → κ × Flags → Prop
  | nil (s : κ × Flags) : CompiledRun [] s [] s
  | cons {e : Entry κ} {rest : List (Entry κ)} {c : κ} {f f₁ f₂ : Flags} {cs : List κ}
      {t : κ × Flags} (hvariant : VariantFlags e (liveflags (rest.map Entry.prop)) c f f₁)
      (hcare : DontCare (liveflags (rest.map Entry.prop)) f₁ f₂)
      (hrest : CompiledRun rest (e.core c f, f₂) cs t) :
      CompiledRun (e :: rest) (c, f) (e.core c f :: cs) t

end Aranym.Jit
