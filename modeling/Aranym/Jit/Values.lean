import Aranym.Jit.Midfunc

/-!
# The values of the virtual registers

A direct interpretation of the middle layer, and the relation between its register file and the place
where the allocator keeps each register. A register that was never written, or was forgotten, has
unknown bits.
-/

namespace Aranym.Jit

open Function

variable {H : Host}

/-- A 32-bit value of which only the bits in `known` are known. -/
structure Word where
  value : BitVec 32
  known : BitVec 32

namespace Word

def unknown : Word := ⟨0, 0⟩

def ofValue (x : BitVec 32) : Word := ⟨x, 0xffffffff⟩

def part (size : Nat) (x y : Word) : Word := ⟨Jit.part size x.value y.value, Jit.part size x.known y.known⟩

def add (x : Word) (i : BitVec 32) : Word := if x.known = 0xffffffff then ofValue (x.value + i) else unknown

/-- The register holds the known bits of the value. -/
def Agree (w : Word) (x : BitVec 32) : Prop := ∀ i, w.known.getLsbD i = true → x.getLsbD i = w.value.getLsbD i

end Word

abbrev VFile := VReg → Word

def General (r : VReg) : Prop := r.val < 16 ∨ 20 ≤ r.val

instance decidableGeneral (r : VReg) : Decidable (General r) := inferInstanceAs (Decidable (_ ∨ _))

abbrev GReg := { r : VReg // General r }

/-- The middle-level operations of `compemu_midfunc_x86.cpp`. -/
inductive MidOp
  | movLRr (d s : GReg)
  | movLRi (d : GReg) (i : BitVec 32)
  | movWRr (d s : GReg)
  | movBRr (d s : GReg)
  | addLRi (needflags : Bool) (d : GReg) (i : BitVec 32)
  | subLRi (needflags : Bool) (d : GReg) (i : BitVec 32)
  | leaLBrr (d s : GReg) (offset : BitVec 32)
  | forgetAbout (r : GReg)

def MidOp.compile (op : MidOp) : Alloc H Unit :=
  match op with
  | movLRr d s => Jit.movLRr d.1 s.1
  | movLRi d i => Jit.movLRi d.1 i
  | movWRr d s => Jit.movWRr d.1 s.1
  | movBRr d s => Jit.movBRr d.1 s.1
  | addLRi needflags d i => Jit.addLRi needflags d.1 i
  | subLRi needflags d i => Jit.subLRi needflags d.1 i
  | leaLBrr d s offset => Jit.leaLBrr d.1 s.1 offset
  | forgetAbout r => Jit.forgetAbout r.1

def MidOp.interp (op : MidOp) (v : VFile) : VFile :=
  match op with
  | movLRr d s => update v d.1 (v s.1)
  | movLRi d i => update v d.1 (.ofValue i)
  | movWRr d s => update v d.1 (.part 2 (v s.1) (v d.1))
  | movBRr d s => update v d.1 (.part 1 (v s.1) (v d.1))
  | addLRi _ d i => update v d.1 ((v d.1).add i)
  | subLRi _ d i => update v d.1 ((v d.1).add (-i))
  | leaLBrr d s offset => update v d.1 ((v s.1).add offset)
  | forgetAbout r => update v r.1 .unknown

def MidOp.offsetReg (op : MidOp) : Option VReg :=
  match op with
  | addLRi false d i | subLRi false d i => if i = 0 then none else some d.1
  | leaLBrr d s offset => if d = s ∧ offset ≠ 0 then some d.1 else none
  | _ => none

/-- An offset is not added to a register of which a native one holds a part only. -/
def MidOp.Safe (op : MidOp) (l : Live H) : Prop :=
  ∀ r ∈ op.offsetReg, l.isinreg r = true → (l.state r).validsize = 4

/-! ## Blocks -/

def compileAll : List MidOp → Alloc H Unit
  | [] => pure ()
  | op :: ops => do
    op.compile
    compileAll ops

/-- The block as an interpreter would run it. -/
def interpAll : List MidOp → VFile → VFile
  | [], v => v
  | op :: ops, v => interpAll ops (op.interp v)

/-- No operation adds an offset to a register of which only a part is loaded. -/
def SafeRun : List MidOp → Live H → Prop
  | [], _ => True
  | op :: ops, l => op.Safe l ∧ ∀ l', op.compile l = .ok () l' → SafeRun ops l'

/-- The values at the start of a block; only the guest's registers are known. -/
def initFile (m : Machine H) : VFile := fun r => if r.val < 16 then .ofValue (m.mem r) else .unknown

/-- Compile the block, flush, and run the native code. -/
def runBlock (H : Host) (compPcP : BitVec 32) (ops : List MidOp) (m : Machine H) : Option (Machine H) :=
  match (do compileAll ops; flush : Alloc H Unit) (initComp H compPcP) with
  | .ok _ l => exec l.target m
  | .error _ _ => none

/-! ## Where a value is -/

/-- The register with this status has the value `w` in the machine `m`. Of a register in a native
one, the part in memory must do as well once its dirty part has been stored. -/
def RepAt (st : RegStatus H) (m : Machine H) (r : VReg) (w : Word) : Prop :=
  match st.status with
  | .undef => w.known = 0
  | .inmem => w.Agree (m.mem r + st.val)
  | .isconst => w.Agree st.val
  | .clean | .dirty => ∀ n, st.realreg = some n →
    w.Agree (part st.validsize (m.nat n) (m.mem r) + st.val)
      ∧ w.Agree (part st.dirtysize (m.nat n) (m.mem r) + st.val)
      ∧ (st.val ≠ 0 → st.validsize = 4)
      ∧ (st.dirtysize = 1 → H.canByte n) ∧ (st.dirtysize = 2 → H.canWord n)
      ∧ (st.status = .clean → st.dirtysize = 0)

/-- The machine represents the register file. Of `FLAGX` only a byte is ever loaded. -/
structure Rep (l : Live H) (m : Machine H) (v : VFile) : Prop where
  at_reg : ∀ r, RepAt (l.state r) m r (v r)
  flagX : (v flagX).known = 0

end Aranym.Jit
