import Aranym.Lib.Program
import Mathlib.Data.Fintype.Basic
import Mathlib.Data.Finset.Card

/-!
# The register allocator of the compiler

The middle layer works on 32 virtual registers. `live` records where each of them is: in its memory
cell, known as a constant, or in a native register, which several of them may share.

Source: `compemu.h`, `compemu_support.cpp`.
-/

namespace Aranym.Jit

open Aranym.Lib Function

abbrev VReg := Fin 32

def pcP : VReg := 16
def flagX : VReg := 17
def flagTmp : VReg := 18
def nextHandler : VReg := 19

/-- The native registers: which of them can do byte and word operations, which are always in use, and
which one takes the flags (any one if `none`). -/
structure Host where
  nRegs : Nat
  canByte : Fin nRegs → Bool
  canWord : Fin nRegs → Bool
  alwaysUsed : Fin nRegs → Bool
  flagNreg1 : Option (Fin nRegs)
  flagNreg1_free : ∀ n ∈ flagNreg1, alwaysUsed n = false
  four_le : 4 ≤ (Finset.univ.filter fun n => canByte n ∧ canWord n ∧ alwaysUsed n = false).card

def x8664 : Host where
  nRegs := 16
  canByte := fun n => n.val ≠ 4
  canWord := fun n => n.val ≠ 4
  alwaysUsed := fun n => n.val = 4
  flagNreg1 := some 0
  flagNreg1_free := by decide
  four_le := by decide

inductive Status
  | inmem | clean | dirty | undef | isconst
  deriving DecidableEq

inductive NeedFlush
  | scratch | tomem | handler
  deriving DecidableEq

inductive FlagPlace
  | nada | trash | valid
  deriving DecidableEq

/-- Where the allocator aborts or leaves its arrays. -/
inductive Abort
  /-- `evict` of the last register in a locked native register. -/
  | locked
  /-- `alloc_reg_hinted` finds no native register. -/
  | noReg
  | notFreed | willclobber | shared | notLocked | notExclusive | validsize | offset
  | badSize | constHandler | flagsTrash | flagsShared | rmwSize
  /-- An index of -1. -/
  | outOfBounds
  deriving DecidableEq

variable {H : Host}

/-- The native instructions that the allocator emits. A memory operand is the cell of a virtual
register. -/
inductive Raw (H : Host)
  | movLMr (r : VReg) (s : Fin H.nRegs)
  | movWMr (r : VReg) (s : Fin H.nRegs)
  | movBMr (r : VReg) (s : Fin H.nRegs)
  | movLMi (r : VReg) (v : BitVec 32)
  | addLMi (r : VReg) (v : BitVec 32)
  | movLRm (d : Fin H.nRegs) (r : VReg)
  | loadFlagx (d : Fin H.nRegs)
  | movLRi (d : Fin H.nRegs) (v : BitVec 32)
  | movWRi (d : Fin H.nRegs) (v : BitVec 16)
  | movBRi (d : Fin H.nRegs) (v : BitVec 8)
  | movLRr (d s : Fin H.nRegs)
  | movWRr (d s : Fin H.nRegs)
  | movBRr (d s : Fin H.nRegs)
  | leaLBrr (d s : Fin H.nRegs) (offset : BitVec 32)
  | leaLRrIndexed (d s index : Fin H.nRegs)
  | bswap32 (r : Fin H.nRegs)
  | zeroExtend16Rr (d s : Fin H.nRegs)
  | addLRi (d : Fin H.nRegs) (v : BitVec 32)
  | subLRi (d : Fin H.nRegs) (v : BitVec 32)
  | flagsToReg (r : Fin H.nRegs)

structure RegStatus (H : Host) where
  val : BitVec 32
  status : Status
  realreg : Option (Fin H.nRegs)
  realind : Nat
  needflush : NeedFlush
  validsize : Nat
  dirtysize : Nat

structure NStatus where
  touched : Nat
  holds : Nat → VReg
  nholds : Nat
  locked : Nat

/-- `bigstate`: where each virtual register lives. -/
structure Live (H : Host) where
  state : VReg → RegStatus H
  nat : Fin H.nRegs → NStatus
  flagsOnStack : FlagPlace
  flagsInFlags : FlagPlace
  flagsAreImportant : Bool
  touchcnt : Nat
  m68kPcOffset : BitVec 32
  target : List (Raw H)

namespace Live

def isinreg (l : Live H) (r : VReg) : Bool := (l.state r).status = .clean || (l.state r).status = .dirty

def isconst (l : Live H) (r : VReg) : Bool := (l.state r).status = .isconst

def setState (r : VReg) (f : RegStatus H → RegStatus H) (l : Live H) : Live H :=
  { l with state := update l.state r (f (l.state r)) }

def setNat (n : Fin H.nRegs) (f : NStatus → NStatus) (l : Live H) : Live H :=
  { l with nat := update l.nat n (f (l.nat n)) }

def touch (n : Fin H.nRegs) (l : Live H) : Live H :=
  { l.setNat n fun x => { x with touched := l.touchcnt } with touchcnt := l.touchcnt + 1 }

end Live

variable (r : VReg) (size : Nat) (spec : Option (Fin H.nRegs)) (rr bestreg n : Fin H.nRegs)

abbrev Alloc (H : Host) := EStateM Abort (Live H)

def emit (op : Raw H) : Alloc H Unit := modify fun l => { l with target := l.target ++ [op] }

def setState (f : RegStatus H → RegStatus H) : Alloc H Unit := modify (Live.setState r f)

def setNat (f : NStatus → NStatus) : Alloc H Unit := modify (Live.setNat n f)

def touch : Alloc H Unit := modify (Live.touch n)

def realreg : Alloc H (Fin H.nRegs) := do
  let l ← get
  match (l.state r).realreg with
  | some n => pure n
  | none => throw .outOfBounds

/-! ## Back to memory -/

def adjustNreg (r : Fin H.nRegs) (val : BitVec 32) : Alloc H Unit := doIf (val ≠ 0) (emit (.leaLBrr r r val))

def storePart (size : Nat) : Alloc H Unit :=
  match size with
  | 1 => emit (.movBMr r rr)
  | 2 => emit (.movWMr r rr)
  | 4 => emit (.movLMr r rr)
  | _ => throw .badSize

/-- The lazy offset of `r` goes to its native register if nobody else uses that. -/
def tomemOffset : Alloc H Unit := do
  let l ← get
  let rr ← realreg r
  doIf ((l.state r).val ≠ 0 ∧ (l.nat rr).nholds = 1 ∧ (l.nat rr).locked = 0) (do
    adjustNreg rr (l.state r).val
    setState r fun st => { st with val := 0, dirtysize := 4, status := .dirty })

def tomem : Alloc H Unit := do
  let l ← get
  doIf (l.isinreg r) (tomemOffset r)
  let l ← get
  doIf ((l.state r).status = .dirty) (do
    let rr ← realreg r
    storePart r rr (l.state r).dirtysize
    setState r fun st => { st with status := .clean, dirtysize := 0 })

def writebackConst : Alloc H Unit := do
  let l ← get
  doIf (l.isconst r) (do
    doIf ((l.state r).needflush = .handler) (throw .constHandler)
    emit (.movLMi r (l.state r).val)
    setState r fun st => { st with val := 0, status := .inmem })

def unhold : Alloc H Unit := do
  setNat rr fun n => { n with nholds := n.nholds - 1 }
  let l ← get
  doIf ((l.nat rr).nholds ≠ (l.state r).realind) (do
    let topreg := (l.nat rr).holds (l.nat rr).nholds
    let thisind := (l.state r).realind
    setNat rr fun n => { n with holds := update n.holds thisind topreg }
    setState topreg fun st => { st with realind := thisind })
  setState r fun st => { st with realreg := none, status := .inmem }

def evict : Alloc H Unit := do
  let l ← get
  doIf (l.isinreg r) (do
    tomem r
    let rr ← realreg r
    let l ← get
    doIf ((l.nat rr).locked ≠ 0 ∧ (l.nat rr).nholds = 1) (throw .locked)
    unhold r rr)

def freeLoop (n : Fin H.nRegs) : Nat → Alloc H Unit
  | 0 => pure ()
  | i + 1 => do
    let l ← get
    evict ((l.nat n).holds i)
    freeLoop n i

def freeNreg : Alloc H Unit := do
  let l ← get
  freeLoop n (l.nat n).nholds
  let l ← get
  doIf ((l.nat n).nholds ≠ 0) (throw .notFreed)

def isclean : Alloc H Unit := do
  let l ← get
  doIf (l.isinreg r)
    (setState r fun st => { st with validsize := 4, dirtysize := 0, val := 0, status := .clean })

def disassociate : Alloc H Unit := do
  isclean r
  evict r

def setConst (val : BitVec 32) : Alloc H Unit := do
  disassociate r
  setState r fun st => { st with val := val, status := .isconst }

/-! ## Allocation -/

def sizeOk (i : Fin H.nRegs) : Bool := (size = 1 && H.canByte i) || (size = 2 && H.canWord i) || size = 4

def badness (l : Live H) (hint : Option (Fin H.nRegs)) (i : Fin H.nRegs) : Int :=
  (if (l.nat i).nholds = 0 then 0 else (l.nat i).touched) - (if hint = some i then 200000000 else 0)

/-- The loop of `alloc_reg_hinted`: the register with the least `badness`, a free one or the hinted one
at once. -/
def findReg (l : Live H) (size : Nat) (hint : Option (Fin H.nRegs)) :
    List (Fin H.nRegs) → Option (Fin H.nRegs) → Int → Option (Fin H.nRegs)
  | [], bestreg, _ => bestreg
  | i :: is, bestreg, when =>
    if (l.nat i).locked = 0 ∧ badness l hint i < when ∧ sizeOk size i then
      if ((l.nat i).nholds = 0 ∧ hint = none) ∨ hint = some i then some i
      else findReg l size hint is (some i) (badness l hint i)
    else findReg l size hint is bestreg when

/-- `log_isreg` loads the register too. -/
def doLoadReg (r : VReg) : Alloc H Unit := if r = flagX then emit (.loadFlagx n) else emit (.movLRm n r)

/-- A register that is valid in 16 bits is read at 32 bits: the upper half comes from memory, with
`bestreg` as the temporary. -/
def mergeUpper : Alloc H Unit := do
  emit (.movLRm bestreg r)
  emit (.bswap32 bestreg)
  emit (.zeroExtend16Rr rr rr)
  emit (.zeroExtend16Rr bestreg bestreg)
  emit (.bswap32 bestreg)
  emit (.leaLRrIndexed rr rr bestreg)
  setState r fun st => { st with validsize := 4 }
  touch rr

def allocPartial (willclobber : Bool) (bestreg : Fin H.nRegs) : Alloc H (Option (Fin H.nRegs)) := do
  let l ← get
  let rr ← realreg r
  if willclobber ∨ size ≤ (l.state r).validsize then throw .willclobber
  else if (l.nat rr).nholds ≠ 1 then throw .shared
  else if size = 4 ∧ (l.state r).validsize = 2 then (do
    mergeUpper r rr bestreg
    pure (some rr))
  else (do
    evict r
    pure none)

def allocRead : Alloc H Unit := do
  let l ← get
  (match (l.state r).status with
    | .undef => setState r fun st => { st with val := 0, dirtysize := 0, status := .clean }
    | .isconst => (do
      emit (.movLRi bestreg (l.state r).val)
      setState r fun st => { st with val := 0, dirtysize := 4, status := .dirty })
    | _ => (do
      doLoadReg bestreg r
      setState r fun st => { st with dirtysize := 0, status := .clean }))
  setState r fun st => { st with validsize := 4 }

def allocClobber : Alloc H Unit := do
  let l ← get
  if l.isconst r = false ∨ size = 4 then
    setState r fun st => { st with validsize := size, dirtysize := size, val := 0, status := .dirty }
  else (do
    emit (.movLRi bestreg (l.state r).val)
    setState r fun st => { st with val := 0, validsize := 4, dirtysize := 4, status := .dirty })

def hold : Alloc H Unit := do
  let l ← get
  setState r fun st => { st with realreg := some n, realind := (l.nat n).nholds }
  setNat n fun x => { x with holds := update x.holds x.nholds r, nholds := x.nholds + 1 }

def allocRegHinted (willclobber : Bool) (hint : Option (Fin H.nRegs)) : Alloc H (Fin H.nRegs) := do
  let l ← get
  match findReg l size hint (List.finRange H.nRegs) none 2000000000 with
  | none => throw .noReg
  | some bestreg => (do
    doIf (0 < (l.nat bestreg).nholds) (freeNreg bestreg)
    let l ← get
    let rr ← (if l.isinreg r then allocPartial r size willclobber bestreg else pure none)
    match rr with
    | some rr => pure rr
    | none => (do
      (if willclobber then allocClobber r size bestreg else allocRead r bestreg)
      touch bestreg
      hold r bestreg
      pure bestreg))

def unlock2 : Alloc H Unit := do
  let l ← get
  doIf ((l.nat n).locked = 0) (throw .notLocked)
  setNat n fun x => { x with locked := x.locked - 1 }

def setlock : Alloc H Unit := setNat n fun x => { x with locked := x.locked + 1 }

/-- The loop of `mov_nregs`, with `c` entries to come from index `i` on. -/
def moveHolds (d s : Fin H.nRegs) : Nat → Nat → Alloc H Unit
  | 0, _ => pure ()
  | c + 1, i => do
    let l ← get
    let vs := (l.nat s).holds i
    setState vs fun st => { st with realreg := some d, realind := i }
    setNat d fun n => { n with holds := update n.holds i vs }
    moveHolds d s c (i + 1)

def movNregs (d s : Fin H.nRegs) : Alloc H Unit := do
  let l ← get
  doIf (s ≠ d) (do
    doIf (0 < (l.nat d).nholds) (freeNreg d)
    emit (.movLRr d s)
    let l ← get
    moveHolds d s (l.nat s).nholds 0
    setNat d fun n => { n with nholds := (l.nat s).nholds }
    setNat s fun n => { n with nholds := 0 })

/-! ## Exclusive use -/

def othersDirty (l : Live H) (r : VReg) (rr : Fin H.nRegs) : Bool :=
  (List.range (l.nat rr).nholds).any fun i =>
    let vr := (l.nat rr).holds i
    vr ≠ r && ((l.state vr).status = .dirty || (l.state vr).val ≠ 0)

def evictOthers (r : VReg) (rr : Fin H.nRegs) : Nat → Nat → Alloc H Unit
  | 0, _ => pure ()
  | c + 1, i => do
    let l ← get
    doIf (i < (l.nat rr).nholds) (
      if (l.nat rr).holds i ≠ r then (do
        evict ((l.nat rr).holds i)
        evictOthers r rr c i)
      else evictOthers r rr c (i + 1))

def splitReg : Alloc H Unit := do
  let l ← get
  let oldstate := l.state r
  setlock rr
  disassociate r
  let nr ← allocRegHinted r (if oldstate.status = .dirty then oldstate.dirtysize else 4) true spec
  let l ← get
  let nind := (l.state r).realind
  setState r fun _ => { oldstate with realreg := some nr, realind := nind }
  doIf (size < oldstate.validsize) (
    if oldstate.val ≠ 0 then (do
      emit (.leaLBrr nr rr oldstate.val)
      setState r fun st => { st with val := 0, dirtysize := 4, status := .dirty })
    else emit (.movLRr nr rr))
  unlock2 rr

def makeExclusive : Alloc H Unit := do
  let l ← get
  doIf (l.isinreg r) (do
    let rr ← realreg r
    doIf ((l.nat rr).nholds ≠ 1) (
      if othersDirty l r rr = false ∧ size < (l.state r).validsize ∧ (l.nat rr).locked = 0 then (do
        evictOthers r rr (l.nat rr).nholds 0
        let l ← get
        doIf ((l.nat rr).nholds ≠ 1) (throw .notExclusive))
      else splitReg r size spec rr))

def addOffset (off : BitVec 32) : Alloc H Unit := setState r fun st => { st with val := st.val + off }

def removeOffset : Alloc H Unit := do
  let l ← get
  doIf (l.isconst r = false ∧ (l.state r).val ≠ 0) (do
    doIf (l.isinreg r ∧ (l.state r).validsize < 4) (evict r)
    let l ← get
    doIf (l.isinreg r = false) (do
      let _ ← allocRegHinted r 4 false spec)
    let l ← get
    doIf ((l.state r).validsize ≠ 4) (throw .validsize)
    makeExclusive r 0 none
    let l ← get
    doIf ((l.state r).val ≠ 0) (do
      let rr ← realreg r
      doIf ((l.nat rr).nholds ≠ 1) (throw .offset)
      adjustNreg rr (l.state r).val
      setState r fun st => { st with dirtysize := 4, val := 0, status := .dirty }))

/-! ## Registers for an operation -/

def serves : Alloc H Bool :=
  match size with
  | 1 => pure (H.canByte n || spec.isSome)
  | 2 => pure (H.canWord n || spec.isSome)
  | 4 => pure true
  | _ => throw .badSize

def settle (answer : Fin H.nRegs) : Alloc H (Fin H.nRegs) :=
  match spec with
  | some n => (do
    doIf (n ≠ answer) (movNregs n answer)
    pure n)
  | none => pure answer

def lockTouch : Alloc H Unit := do
  setlock n
  touch n

def readInPlace : Alloc H (Option (Fin H.nRegs)) := do
  let n ← realreg r
  let ok ← serves size spec n
  if ok then pure (some n)
  else (do
    evict r
    pure none)

/-- The common part of `readreg_general` and `rmw_general`. -/
def acquire : Alloc H (Fin H.nRegs) := do
  let l ← get
  let answer ← (if l.isinreg r ∧ size ≤ (l.state r).validsize then readInPlace r size spec
    else pure none)
  let answer ← (match answer with
    | some n => pure n
    | none => allocRegHinted r (if spec.isSome then 4 else size) false spec)
  settle spec answer

def readregGeneral (canOffset : Bool) : Alloc H (Fin H.nRegs) := do
  doIf (canOffset = false) (removeOffset r spec)
  let answer ← acquire r size spec
  lockTouch answer
  pure answer

def readreg : Alloc H (Fin H.nRegs) := readregGeneral r size none false

def readregOffset : Alloc H (Fin H.nRegs) := readregGeneral r size none true

def writeInPlace : Alloc H (Option (Fin H.nRegs)) := do
  let n ← realreg r
  let l ← get
  doIf ((l.nat n).nholds ≠ 1) (throw .shared)
  let ok ← serves size spec n
  if ok then (do
    setState r fun st =>
      { st with dirtysize := max size st.dirtysize, validsize := max size st.validsize }
    pure (some n))
  else (do
    evict r
    pure none)

def writeregGeneral : Alloc H (Fin H.nRegs) := do
  doIf (size < 4) (removeOffset r spec)
  makeExclusive r size spec
  let l ← get
  let answer ← (if l.isinreg r then writeInPlace r size spec else pure none)
  let answer ← (match answer with
    | some n => pure n
    | none => allocRegHinted r size true spec)
  let answer ← settle spec answer
  setState r fun st => { st with validsize := if st.status = .undef then 4 else st.validsize }
  setState r fun st =>
    { st with dirtysize := max size st.dirtysize, validsize := max size st.validsize }
  lockTouch answer
  let l ← get
  (if size = 4 then setState r fun st => { st with val := 0 }
    else doIf ((l.state r).val ≠ 0) (throw .offset))
  setState r fun st => { st with status := .dirty }
  pure answer

def writereg : Alloc H (Fin H.nRegs) := writeregGeneral r size none

def rmwGeneral (wsize rsize : Nat) (spec : Option (Fin H.nRegs)) : Alloc H (Fin H.nRegs) := do
  removeOffset r spec
  makeExclusive r 0 spec
  doIf (wsize < rsize) (throw .rmwSize)
  let l ← get
  doIf (l.isinreg r ∧ rsize ≤ (l.state r).validsize) (do
    let n ← realreg r
    doIf ((l.nat n).nholds ≠ 1) (throw .shared))
  let answer ← acquire r rsize spec
  setState r fun st =>
    { st with dirtysize := max wsize st.dirtysize, validsize := max wsize st.validsize,
              status := .dirty }
  lockTouch answer
  let l ← get
  doIf ((l.state r).val ≠ 0) (throw .offset)
  pure answer

def rmw (wsize rsize : Nat) : Alloc H (Fin H.nRegs) := rmwGeneral r wsize rsize none

end Aranym.Jit
