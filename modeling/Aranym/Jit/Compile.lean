import Aranym.Jit.Blocks

/-!
# Compiling a block

`compile_block` makes the translation of a trace of executed instructions. What the instructions translate to is not
looked at here: the native code comes in pieces, and how the block is left comes with it.

Source: `compemu_support.cpp`.
-/

namespace Aranym.Jit.Blocks

open Aranym.Lib

variable (K : Config)

variable (pc : PcPtr) (b : BlockPtr) (ram : Memory 32)

/-- Where `PC_P` is after the last instruction of a block that registered no branch. -/
inductive PcState
  | inReg | isConst (v : PcPtr) | inMem
  deriving DecidableEq

structure Exit where
  nextPcP : PcPtr
  takenPcP : PcPtr
  wasComp : Bool
  pc : PcState

/-- The native code of a jump to another block: what `match_states` emits, the test of `spcflags`, and
the way out if a flag is set. -/
structure Jump where
  states : Bytes
  test : Bytes
  out : Bytes

structure Native where
  stub : Nat → Stub
  align : Bytes
  body : Bytes
  jcc : Bytes
  predicted : Jump
  alignJump : Bytes
  other : Jump
  indirect : Bytes
  alignHandler : Bytes
  handler : Bytes

structure Trace where
  first : PcPtr
  later : List PcPtr
  exit : Exit
  native : Native

variable (t : Trace) (ram : Memory 32)

def Trace.locations : List PcPtr := t.first :: t.later

/-! ## The segments of a trace -/

/-- The loop of `compile_block` over the locations from the last to the first. -/
def addSegment (loc : PcPtr) (acc : List ChecksumInfo × PcPtr × PcPtr) : List ChecksumInfo × PcPtr × PcPtr :=
  let (csi, minPcp, maxPcp) := acc
  if K.followConstJumps ∧ K.isConstJump (ram.getWord loc) then
    (⟨minPcp, maxPcp - minPcp + longest68kInst⟩ :: csi, loc, loc)
  else (csi, loc, maxPcp)

def segments (locs : List PcPtr) (last : PcPtr) : List ChecksumInfo :=
  let (csi, minPcp, maxPcp) := locs.foldr (addSegment K ram) ([], last, last)
  ⟨minPcp, maxPcp - minPcp + longest68kInst⟩ :: csi

def Trace.segments : List ChecksumInfo := Blocks.segments K ram t.locations (t.locations.getLastD t.first)

def Trace.inRom : Bool := t.locations.all K.isInRom

/-! ## Compiling -/

/-- `while (!optcount[optlev]) optlev++` above the level `l`. -/
def nextOptlev (l : Nat) : Option Nat := ((List.range 10).drop (l + 1)).find? fun l => optcount l ≠ 0

def promote : M Unit := do
  let s ← get
  doIf ((s.bi b).count = -1) (
    match nextOptlev (s.bi b).optlevel with
    | none => throw .wild
    | some l => setBi b fun bi => { bi with count := optcount l - 1, optlevel := l })

/-- With no states to match, `match_states` only flushes the registers. -/
def matchStates (states : Bytes) : M Unit := do
  let s ← get
  doIf ((s.bi b).status = .needCheck) (do
    let _ ← checkBlock K b)
  emit states

def chainTo (i : Bool) (addr : PcPtr) (j : Jump) : M Unit := do
  let tbi ← getBlockinfoAddrNew K addr
  matchStates K tbi j.states
  emit j.test
  let s ← get
  let h ← getHandler K addr
  emitJmpTarget h
  emit j.out
  createJmpdep b i s.target addr

/-- The end of the translation: to one of two blocks, to one, or through `cache_tags`. -/
def leaveBlock : M Unit := do
  let e := t.exit
  let n := t.native
  doIf (e.nextPcP ≠ 0 ∧ e.takenPcP ≠ 0 ∧ e.wasComp = true ∧ e.takenPcP = t.first) (do
    let _ ← getBlockinfoAddrNew K e.nextPcP
    let _ ← getBlockinfoAddrNew K e.takenPcP)
  if e.nextPcP ≠ 0 then (do
    -- a backward branch is predicted as taken
    let backward := e.takenPcP < e.nextPcP
    emit n.jcc
    let s ← get
    modify fun s => { s with target := s.target + 4 }
    chainTo K b false (if backward then e.takenPcP else e.nextPcP) n.predicted
    emit n.alignJump
    modify fun s' => { s' with code := writeJmpTarget s'.code s.target s'.target }
    chainTo K b true (if backward then e.nextPcP else e.takenPcP) n.other)
  else
    match e.wasComp, e.pc with
    | true, .isConst v => chainTo K b false v n.predicted
    | _, _ => emit n.indirect

def translate : M Unit := do
  emit t.native.align
  let s ← get
  setBi b fun bi => { bi with directHandler := s.target }
  setDhtu b s.target
  setBi b fun bi => { bi with status := .compiling }
  emit t.native.body
  let s ← get
  doIf ((s.bi b).optlevel ≠ 0) (leaveBlock K b t)

def enlist : M Unit := do
  removeFromList b
  if t.inRom K then (do
    setBi b fun bi => { bi with csi := [] }
    addToDormant b)
  else (do
    let s ← get
    let sums := calcChecksum s.ram (s.bi b).csi
    setBi b fun bi => { bi with c1 := sums.1, c2 := sums.2 }
    addToActive b)

def finish (n : Native) : M Unit := do
  emit n.alignHandler
  let s ← get
  setBi b fun bi => { bi with handler := s.target, handlerToUse := s.target, status := .finalizing }
  emit n.handler
  modify fun s => { s with currentCompileP := s.target }
  raiseInClList K b
  let s ← get
  doIf (s.currentCompileP ≥ K.maxCompileStart) (flushIcacheHard K)
  setBi b fun bi => { bi with status := .active }

def compileBlock : M Unit := do
  let s ← get
  doIf (s.cacheEnabled = true) (do
    doIf (s.currentCompileP ≥ K.maxCompileStart) (flushIcacheHard K)
    allocBlockinfos K t.native.stub
    let b ← getBlockinfoAddrNew K t.first
    let first ← getBlockinfo (cacheline t.first)
    let s ← get
    doIf ((s.bi b).status ≠ .invalid) (do
      doIf (first ≠ some b) (throw .notHead)
      doIf ((s.bi b).count ≠ -1 ∧ (s.bi b).status ≠ .needRecomp) (throw .notExpired))
    promote b
    removeDeps b
    let s ← get
    setBi b fun bi => { bi with pcP := t.first, csi := t.segments K s.ram }
    translate K b t
    enlist K b t
    finish K b t.native)

/-! ## Runs -/

def checkForCacheMiss : M Unit := do
  match ← getBlockinfoAddr pc with
  | none => pure ()
  | some b => do
      let first ← getBlockinfo (cacheline pc)
      doIf (first ≠ some b) (raiseInClList K b)

def checkChecksum : M Unit := do
  match ← getBlockinfoAddr pc with
  | none => pure ()
  | some b => do
      let first ← getBlockinfo (cacheline pc)
      if first ≠ some b then raiseInClList K b
      else (do let _ ← checkBlock K b)

def onBlock (f : BlockPtr → M Unit) : M Unit := do
  match ← getBlockinfoAddr pc with
  | none => pure ()
  | some b => f b

def countdown : M Unit := do
  let s ← get
  doIf ((s.bi b).optlevel = 0) (setBi b fun bi => { bi with count := bi.count - 1 })

def setCacheState (enabled : Bool) : M Unit := do
  let s ← get
  doIf (enabled ≠ s.cacheEnabled) (flushIcacheHard K)
  modify fun s => { s with cacheEnabled := enabled }

/-- What reaches the cache: lookups, compilation, checks, flushes and stores of the program. -/
inductive Op
  | lookup (stub : Nat → Stub) (pc : PcPtr)
  | compile (t : Trace)
  /-- `recompile_block` up to `execute_normal`. -/
  | raise (pc : PcPtr)
  | miss (pc : PcPtr)
  | check (pc : PcPtr)
  | countdown (pc : PcPtr)
  | needRecompile (pc : PcPtr)
  | lazyFlush
  | hardFlush
  | setCacheState (enabled : Bool)
  /-- The 68k program writes a byte. -/
  | store (a : BitVec 32) (v : BitVec 8)

def Op.run : Op → M Unit
  | .lookup stub pc => do
      allocBlockinfos K stub
      let _ ← getBlockinfoAddrNew K pc
  | .compile t => compileBlock K t
  | .raise pc => onBlock pc (raiseInClList K)
  | .miss pc => checkForCacheMiss K pc
  | .check pc => checkChecksum K pc
  | .countdown pc => onBlock pc Blocks.countdown
  | .needRecompile pc => onBlock pc (blockNeedRecompile K)
  | .lazyFlush => flushIcacheLazy K
  | .hardFlush => flushIcacheHard K
  | .setCacheState enabled => Blocks.setCacheState K enabled
  | .store a v => modify fun s => { s with ram := s.ram.putByte a v }

def runOps (ops : List Op) : M Unit := ops.forM (Op.run K)

/-- The state after `build_comp`, with arbitrary memory. -/
def initial (bi : BlockPtr → Blockinfo) (dep : DepPtr → Dependency) (code : CodeMem) (ram : Memory 32) :
    State where
  bi := bi
  dep := dep
  lists := ⟨fun _ => none, fun _ => none, fun _ => none⟩
  lines := ⟨fun _ => none, fun _ => none, fun _ => none⟩
  deps := ⟨fun _ => none, fun _ => none, fun _ => none⟩
  handler := fun _ => K.popallExecuteNormal
  holdBi := fun _ => none
  mChunks := []
  poolEnd := 0
  target := K.compiledCode
  currentCompileP := K.compiledCode
  code := code
  ram := ram
  cacheEnabled := false

end Aranym.Jit.Blocks
