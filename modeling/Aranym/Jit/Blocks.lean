import Aranym.Lib.Links
import Aranym.Lib.Memory
import Aranym.Lib.Patch
import Aranym.Lib.Program

/-!
# The translation cache

A `blockinfo` describes the translation of the code at one address. It is in the list of active or of dormant blocks,
in the list of its cache line, and it keeps a list of the jumps that lead to it from other blocks.

Source: `compemu.h`, `compemu_support.cpp`, `compemu_midfunc_x86.cpp`.
-/

namespace Aranym.Jit.Blocks

open Aranym.Lib Function

/-- The index of a `blockinfo` in the pool. -/
abbrev BlockPtr := Nat

abbrev DepPtr := BlockPtr × Bool

abbrev CodePtr := Nat

/-- A host address of 68k code. All host addresses that the compiler handles fit in 32 bits. -/
abbrev PcPtr := BitVec 32

abbrev Bytes := List (BitVec 8)

def tagMask : BitVec 32 := 0xffff
def tagSize : Nat := 0x10000
def maxChecksumLen : Int := 2048
def longest68kInst : BitVec 32 := 16
def maxHoldBi : Nat := 3

def cacheline (x : PcPtr) : Nat := (x &&& tagMask).toNat

/-- `block_t.status`, the `BI_` constants. -/
inductive Status
  | invalid | active | needRecomp | needCheck | checking | compiling | finalizing
  deriving DecidableEq

/-- `checksum_info`, a piece of guest code under a checksum. -/
structure ChecksumInfo where
  startP : BitVec 32
  length : BitVec 32
  deriving DecidableEq

structure Dependency where
  jmpOff : Option CodePtr
  target : Option BlockPtr
  deriving DecidableEq

structure Blockinfo where
  count : Int
  directHandlerToUse : CodePtr
  handlerToUse : CodePtr
  handler : CodePtr
  directHandler : CodePtr
  directPen : CodePtr
  directPcc : CodePtr
  pcP : PcPtr
  c1 : BitVec 32
  c2 : BitVec 32
  csi : List ChecksumInfo
  optlevel : Nat
  status : Status
  deriving DecidableEq

inductive ListHead
  | active | dormant
  deriving DecidableEq

/-- The links of blocks and dependencies are kept apart from their other fields: `lists` has `next`
and `prev_p`, `lines` has `next_same_cl` and `prev_same_cl_p` with the heads in `cache_tags`, `deps`
has the links of the dependencies with the heads `deplist`. -/
structure State where
  bi : BlockPtr → Blockinfo
  dep : DepPtr → Dependency
  lists : Links ListHead BlockPtr
  lines : Links Nat BlockPtr
  deps : Links BlockPtr DepPtr
  /-- `cache_tags[i].handler`. -/
  handler : Nat → CodePtr
  holdBi : Nat → Option BlockPtr
  /-- The free chunks of the allocator. -/
  mChunks : List BlockPtr
  poolEnd : BlockPtr
  target : CodePtr
  currentCompileP : CodePtr
  code : CodeMem
  ram : Memory 32
  cacheEnabled : Bool

structure Config where
  compiledCode : CodePtr
  maxCompileStart : CodePtr
  popallExecuteNormal : CodePtr
  popallCheckChecksum : CodePtr
  poolSize : Nat
  poolSize_pos : 0 < poolSize
  isInRom : BitVec 32 → Bool
  isConstJump : BitVec 16 → Bool
  followConstJumps : Bool

/-- Where the C code has no defined result. -/
inductive Fault
  /-- A cell of `cache_tags` used as the other member of the union, a cell past its end, or a null
  pointer. -/
  | wild
  /-- A loop or a recursion that does not end. -/
  | endless
  | noBlockinfo | noJmpdep | notHead | notExpired | noChecksum
  deriving DecidableEq

abbrev M := EStateM Fault State

variable (K : Config)

variable (addr : PcPtr) (i : Nat) (m : Memory 32) (b : BlockPtr)

/-! ## The tags -/

/-- The lines are even, so the even cells hold handlers and the odd ones blocks. -/
def TagBi : Prop := i % 2 = 1 ∧ i < tagSize

def TagHandler : Prop := i % 2 = 0 ∧ i < tagSize

instance decidableTagBi (i : Nat) : Decidable (TagBi i) := inferInstanceAs (Decidable (_ ∧ _))

instance decidableTagHandler (i : Nat) : Decidable (TagHandler i) := inferInstanceAs (Decidable (_ ∧ _))

def tagBi : M (Option BlockPtr) := do
  let s ← get
  if TagBi i then return s.lines.head i else throw .wild

def setTagHandler (h : CodePtr) : M Unit :=
  if TagHandler i then modify fun s => { s with handler := update s.handler i h }
  else throw .wild

def setBi (f : Blockinfo → Blockinfo) : M Unit :=
  modify fun s => { s with bi := update s.bi b (f (s.bi b)) }

def setDep (d : DepPtr) (f : Dependency → Dependency) : M Unit :=
  modify fun s => { s with dep := update s.dep d (f (s.dep d)) }

def getBlockinfo (cl : Nat) : M (Option BlockPtr) := tagBi (cl + 1)

def getBlockinfoAddr : M (Option BlockPtr) := do
  let first ← getBlockinfo (cacheline addr)
  let s ← get
  match s.lines.walk s.poolEnd first with
  | none => throw .endless
  | some l => return l.find? fun b => (s.bi b).pcP = addr

/-! ## The lists -/

def removeFromClList : M Unit := do
  let s ← get
  let cl := cacheline (s.bi b).pcP
  modify fun s => { s with lines := s.lines.unlink b }
  let first ← tagBi (cl + 1)
  let s ← get
  setTagHandler cl (first.elim K.popallExecuteNormal fun b' => (s.bi b').handlerToUse)

def removeFromList : M Unit := modify fun s => { s with lists := s.lists.unlink b }

def addToClList : M Unit := do
  let s ← get
  let cl := cacheline (s.bi b).pcP
  let _ ← tagBi (cl + 1)
  modify fun s => { s with lines := s.lines.push (cl + 1) b }
  setTagHandler cl (s.bi b).handlerToUse

def raiseInClList : M Unit := do
  removeFromClList K b
  addToClList b

def addToActive : M Unit := modify fun s => { s with lists := s.lists.push .active b }

def addToDormant : M Unit := modify fun s => { s with lists := s.lists.push .dormant b }

def removeDep (d : DepPtr) : M Unit := modify fun s =>
  let L := s.deps.unlink d
  { s with deps :=
    { L with prev := update L.prev d none, next := update L.next d none } }

def removeDeps : M Unit := do
  removeDep (b, false)
  removeDep (b, true)

/-! ## Jumps between blocks -/

def displacement (jmpaddr a : CodePtr) : BitVec 32 := BitVec.ofNat 32 a - BitVec.ofNat 32 (jmpaddr + 4)

def writeJmpTarget (code : CodeMem) (jmpaddr a : CodePtr) : CodeMem :=
  code.put jmpaddr (CodeMem.leBytes (displacement jmpaddr a))

def adjustJmpdep (dep : DepPtr → Dependency) (a : CodePtr) (code : CodeMem) (d : DepPtr) : CodeMem :=
  match (dep d).jmpOff with
  | some jmpOff => writeJmpTarget code jmpOff a
  | none => code

def setDhtu (dh : CodePtr) : M Unit := do
  let s ← get
  doIf (dh ≠ (s.bi b).directHandlerToUse) (
    match s.deps.walk (2 * s.poolEnd) (s.deps.head b) with
    | none => throw .endless
    | some l => do
        modify fun s => { s with code := l.foldl (adjustJmpdep s.dep dh) s.code }
        setBi b fun bi => { bi with directHandlerToUse := dh })

def optcount : Nat → Int
  | 0 => 10
  | 6 | 7 | 8 | 9 => -1
  | _ => 0

def invalidateBlock : M Unit := do
  setBi b fun bi => { bi with
    optlevel := 0, count := optcount 0 - 1, handler := 0,
    handlerToUse := K.popallExecuteNormal, directHandler := 0 }
  let s ← get
  setDhtu b (s.bi b).directPen
  setBi b fun bi => { bi with status := .invalid }
  setDep (b, false) fun _ => ⟨none, none⟩
  setDep (b, true) fun _ => ⟨none, none⟩
  removeDeps b

def createJmpdep (i : Bool) (jmpaddr : CodePtr) (target : PcPtr) : M Unit := do
  match ← getBlockinfoAddr target with
  | none => throw .noJmpdep
  | some tbi =>
    setDep (b, i) fun _ => ⟨some jmpaddr, some tbi⟩
    modify fun s => { s with deps := s.deps.push tbi (b, i) }

def blockNeedRecompile : M Unit := do
  let s ← get
  let cl := cacheline (s.bi b).pcP
  setDhtu b (s.bi b).directPen
  setBi b fun bi => { bi with
    directHandler := bi.directPen, handlerToUse := K.popallExecuteNormal,
    handler := K.popallExecuteNormal }
  let first ← tagBi (cl + 1)
  doIf (first = some b) (setTagHandler cl K.popallExecuteNormal)
  setBi b fun bi => { bi with status := .needRecomp }

def firstHold (s : State) : Option (Nat × BlockPtr) :=
  (List.range maxHoldBi).findSome? fun i => (s.holdBi i).map (i, ·)

def getBlockinfoAddrNew : M BlockPtr := do
  match ← getBlockinfoAddr addr with
  | some b => return b
  | none =>
    let s ← get
    match firstHold s with
    | none => throw .noBlockinfo
    | some (i, b) =>
      modify fun s => { s with holdBi := update s.holdBi i none }
      setBi b fun bi => { bi with pcP := addr }
      invalidateBlock K b
      addToActive b
      addToClList b
      return b

def getHandler : M CodePtr := do
  let b ← getBlockinfoAddrNew K addr
  let s ← get
  return (s.bi b).directHandlerToUse

/-! ## Allocation -/

/-- `LazyBlockAllocator::acquire`: a new pool is linked chunk by chunk, so its last chunk is first. -/
def acquire : M BlockPtr := do
  let s ← get
  match s.mChunks with
  | b :: rest =>
    set { s with mChunks := rest }
    return b
  | [] =>
    set { s with
      mChunks := ((List.range (K.poolSize - 1)).map (s.poolEnd + ·)).reverse,
      poolEnd := s.poolEnd + K.poolSize }
    return s.poolEnd + (K.poolSize - 1)

def emit (bs : Bytes) : M Unit := modify fun s =>
  { s with code := s.code.put s.target bs, target := s.target + bs.length }

def emitJmpTarget (a : CodePtr) : M Unit := do
  let s ← get
  emit (CodeMem.leBytes (displacement s.target a))

/-- The native code that `prepare_block` emits, with what aligns it. -/
structure Stub where
  alignPen : Bytes
  pen : Bytes
  alignPcc : Bytes
  pcc : Bytes

def prepareBlock (n : Stub) : M Unit := do
  modify fun s => { s with target := s.currentCompileP }
  emit n.alignPen
  let s ← get
  setBi b fun bi => { bi with directPen := s.target }
  emit n.pen
  emit n.alignPcc
  let s ← get
  setBi b fun bi => { bi with directPcc := s.target }
  emit n.pcc
  modify fun s => { s with
    currentCompileP := s.target
    deps := { s.deps with
      head := update s.deps.head b none
      prev := update (update s.deps.prev (b, false) none) (b, true) none
      next := update (update s.deps.next (b, false) none) (b, true) none } }
  setBi b fun bi => { bi with status := .invalid }

def allocBlockinfo : M BlockPtr := do
  let b ← acquire K
  setBi b fun bi => { bi with csi := [] }
  return b

/-- The loop of `alloc_blockinfos` from `i` on; it returns at the first block still on hold. -/
def allocFrom (stub : Nat → Stub) (i : Nat) : Nat → M Unit
  | 0 => pure ()
  | n + 1 => do
      let s ← get
      doIf (s.holdBi i = none) (do
        let b ← allocBlockinfo K
        modify fun s => { s with holdBi := update s.holdBi i (some b) }
        prepareBlock b (stub i)
        allocFrom stub (i + 1) n)

def allocBlockinfos (stub : Nat → Stub) : M Unit := allocFrom K stub 0 maxHoldBi

def freeBlockinfo : M Unit := do
  setBi b fun bi => { bi with csi := [] }
  modify fun s => { s with mChunks := b :: s.mChunks }

/-! ## Checksums -/

def hostLong (a : BitVec 32) : BitVec 32 := m (a + 3) ++ m (a + 2) ++ m (a + 1) ++ m a

def ChecksumInfo.len (c : ChecksumInfo) : Int := (c.length + (c.startP &&& 3)).toInt

/-- `calc_checksum` sums this piece; a longer one it skips. -/
def ChecksumInfo.Summed (c : ChecksumInfo) : Prop := 0 ≤ c.len ∧ c.len ≤ maxChecksumLen

instance decidableSummed (c : ChecksumInfo) : Decidable c.Summed := inferInstanceAs (Decidable (_ ∧ _))

def sumLongs (m : Memory 32) : Nat → BitVec 32 → BitVec 32 × BitVec 32 → BitVec 32 × BitVec 32
  | 0, _, k => k
  | n + 1, pos, k => sumLongs m n (pos + 4) (k.1 + hostLong m pos, k.2 ^^^ hostLong m pos)

def sumSegment (k : BitVec 32 × BitVec 32) (c : ChecksumInfo) : BitVec 32 × BitVec 32 :=
  if c.Summed then sumLongs m ((c.len.toNat + 3) / 4) (c.startP &&& ~~~3) k else k

def calcChecksum (csi : List ChecksumInfo) : BitVec 32 × BitVec 32 := csi.foldl (sumSegment m) (0, 0)

def checksumMatches : M Bool := do
  let s ← get
  let bi := s.bi b
  if bi.c1 ≠ 0 ∨ bi.c2 ≠ 0 then
    match bi.csi with
    | [] => throw .noChecksum
    | _ :: _ => return (calcChecksum s.ram bi.csi = (bi.c1, bi.c2))
  else return ((1, 1) = (bi.c1, bi.c2))

/-- `called_check_checksum`, where `check` is `block_check_checksum`. -/
def calledCheckChecksum (check : BlockPtr → M Bool) (b : BlockPtr) : List Bool → M Bool
  | [] => return true
  | i :: is => do
      let s ← get
      match (s.dep (b, i)).jmpOff with
      | none => calledCheckChecksum check b is
      | some _ =>
        match (s.dep (b, i)).target with
        | none => throw .wild
        | some tbi => do
            let isgood ← check tbi
            if isgood then calledCheckChecksum check b is else return false

def blockCheckChecksum : Nat → BlockPtr → M Bool
  | 0, _ => throw .endless
  | fuel + 1, b => do
      let s ← get
      if (s.bi b).status ≠ .needCheck then return true
      else (do
        let same ← checksumMatches b
        let isgood ← (if same then (do
            setBi b fun bi => { bi with handlerToUse := bi.handler }
            let s ← get
            setDhtu b (s.bi b).directHandler
            setBi b fun bi => { bi with status := .checking }
            calledCheckChecksum (blockCheckChecksum fuel) b [false, true])
          else pure false)
        if isgood then (do
          removeFromList b
          addToActive b
          raiseInClList K b
          setBi b fun bi => { bi with status := .active }
          return true)
        else (do
          invalidateBlock K b
          raiseInClList K b
          return false))

/-- Each call in the recursion takes one block out of the state in which it needs a check. -/
def checkBlock : M Bool := do
  let s ← get
  blockCheckChecksum K (s.poolEnd + 1) b

/-! ## Flushes -/

def resetLists : M Unit := modify fun s =>
  { s with holdBi := fun _ => none, lists := { s.lists with head := fun _ => none } }

def flushList (l : List BlockPtr) : M Unit :=
  l.forM fun b => do
    let s ← get
    let cl := cacheline (s.bi b).pcP
    setTagHandler cl K.popallExecuteNormal
    let _ ← tagBi (cl + 1)
    modify fun s => { s with lines := { s.lines with head := update s.lines.head (cl + 1) none } }
    freeBlockinfo b

def flushIcacheHard : M Unit := do
  let s ← get
  match s.lists.walk s.poolEnd (s.lists.head .active), s.lists.walk s.poolEnd (s.lists.head .dormant) with
  | some active, some dormant => do
      flushList K active
      flushList K dormant
      resetLists
      modify fun s => { s with currentCompileP := K.compiledCode }
  | _, _ => throw .endless

def lazyBlock : M Unit := do
  let s ← get
  let cl := cacheline (s.bi b).pcP
  let first ← tagBi (cl + 1)
  if (s.bi b).status = .invalid ∨ (s.bi b).status = .needRecomp then (do
    doIf (first = some b) (setTagHandler cl K.popallExecuteNormal)
    setBi b fun bi => { bi with handlerToUse := K.popallExecuteNormal }
    setDhtu b (s.bi b).directPen
    setBi b fun bi => { bi with status := .invalid })
  else (do
    doIf (first = some b) (setTagHandler cl K.popallCheckChecksum)
    setBi b fun bi => { bi with handlerToUse := K.popallCheckChecksum }
    setDhtu b (s.bi b).directPcc
    setBi b fun bi => { bi with status := .needCheck })

def flushIcacheLazy : M Unit := do
  let s ← get
  match s.lists.walk s.poolEnd (s.lists.head .active) with
  | none => throw .endless
  | some l =>
    match l.getLast? with
    | none => return
    | some last => do
        l.forM (lazyBlock K)
        modify fun s => { s with lists := s.lists.splice .active .dormant last }

end Aranym.Jit.Blocks
