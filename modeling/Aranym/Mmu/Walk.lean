import Aranym.Mmu.Translate

/-!
# The words of a table search

`mmu_lookup_pagetable` level by level: the words it fetches, and the page descriptor it comes to.
-/

namespace Aranym.Mmu

open Aranym.Lib

variable {δ : Type}

/-- The physical address behind `phys_get_long` and `phys_put_long`. -/
def physAddr (addr : BitVec 32) : BitVec 32 := if addr < 0xff000000 then addr else addr &&& 0x00ffffff

def MmuRegs.rootAddr (r : MmuRegs) (addr : BitVec 32) (super : Bool) : BitVec 32 :=
  ((if super then r.srp else r.urp) &&& mmuRootPtrAddrMask) ||| ((addr >>> 23) &&& 0x1fc)

def ptrAddr (rootDesc addr : BitVec 32) : BitVec 32 :=
  (rootDesc &&& mmuRootPtrAddrMask) ||| ((addr >>> 16) &&& 0x1fc)

def MmuRegs.pageAddr (r : MmuRegs) (ptrDesc addr : BitVec 32) : BitVec 32 :=
  if r.mmuPagesize8k then (ptrDesc &&& mmuPtrPageAddrMask8) ||| ((addr >>> 11) &&& 0x7c)
  else (ptrDesc &&& mmuPtrPageAddrMask4) ||| ((addr >>> 10) &&& 0xfc)

section

variable (cfg : Config) (hw : Hardware δ)

variable (m : Machine δ) (addr : BitVec 32) (super : Bool)

def fetchTableDesc (descAddr : BitVec 32) : MmuM δ (Option (BitVec 32)) := do
  let desc ← physGetLong cfg hw descAddr
  if desc &&& 2 = 0 then pure none else do
  markUsed cfg hw descAddr desc
  pure (some desc)

/-! ## Words -/

def Machine.pageWords (pageAddr : BitVec 32) : List (BitVec 32) :=
  match physGetLong cfg hw pageAddr m with
  | .ok desc _ => if desc &&& 3 = 2 then [pageAddr, desc &&& mmuPageIndirectMask] else [pageAddr]
  | .error _ _ => [pageAddr]

def Machine.ptrWords (rootDesc : BitVec 32) : List (BitVec 32) :=
  ptrAddr rootDesc addr ::
    match fetchTableDesc cfg hw (ptrAddr rootDesc addr) m with
    | .ok (some ptrDesc) m' => m'.pageWords cfg hw (m.regs.pageAddr ptrDesc addr)
    | _ => []

def Machine.walkWords : List (BitVec 32) :=
  m.regs.rootAddr addr super ::
    match fetchTableDesc cfg hw (m.regs.rootAddr addr super) m with
    | .ok (some rootDesc) m' => m'.ptrWords cfg hw addr rootDesc
    | _ => []

/-- The page descriptor that a walk reaches, and the bits of those above it. -/
structure Found (δ : Type) where
  addr : BitVec 32
  desc : BitVec 32
  above : BitVec 32
  machine : Machine δ

/-- The walk down to the page descriptor. -/
def Machine.walkFound : Option (Found δ) :=
  match fetchTableDesc cfg hw (m.regs.rootAddr addr super) m with
  | .ok (some rootDesc) m₁ =>
    match fetchTableDesc cfg hw (ptrAddr rootDesc addr) m₁ with
    | .ok (some ptrDesc) m₂ =>
      match fetchPageDesc cfg hw (m.regs.pageAddr ptrDesc addr) m₂ with
      | .ok page m₃ => some ⟨page.1, page.2, rootDesc ||| ptrDesc, m₃⟩
      | .error _ _ => none
    | _ => none
  | _ => none

/-- The search may mark the word `w` as modified: it holds the descriptor of a resident page that the
write is permitted to. -/
def Machine.walkModifies (write : Bool) (w : BitVec 32) : Bool :=
  match m.walkFound cfg hw addr super with
  | some f => write && f.desc &&& 1 != 0 && (f.desc ||| f.above) &&& mmuDesWp == 0 && physAddr f.addr == w
  | none => false

/-- The bits that the search may set in the word `w`. -/
def Machine.walkMask (write : Bool) (w : BitVec 32) : BitVec 32 :=
  if (m.walkWords cfg hw addr super).any (physAddr · == w) then
    mmuDesUsed ||| (if m.walkModifies cfg hw addr super write w then mmuDesModified else 0)
  else 0

def Machine.Stores : Prop :=
  isHwAddr (physAddr addr) = false ∧ testRamBoundary cfg (physAddr addr) 4 m.regs.s true = true

structure Found.Inherits (f : Found δ) : Prop where
  resident : f.desc &&& 1 ≠ 0
  unprotected : f.desc &&& mmuDesWp = 0
  unused : f.desc &&& mmuDesUsed = 0
  above : f.above &&& mmuDesWp ≠ 0
  stores : f.machine.Stores cfg f.addr

end

end Aranym.Mmu
