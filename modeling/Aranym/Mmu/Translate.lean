import Aranym.Mmu.Defs

/-!
# Address translation

Transparent translation registers, RAM boundary check, table search and the two fill functions of
`cpummu.cpp`.
-/

namespace Aranym.Mmu

open Aranym.Lib

variable {δ : Type}

variable (l : AtcLine) (cfg : Config) (addr : BitVec 32)

/-! ## Transparent translation -/

inductive TtrMatch where
  | noMatch
  | noWrite
  | okMatch
deriving DecidableEq

def mmuTtrLogicalBase : BitVec 32 := 0xff000000
def mmuTtrLogicalMask : BitVec 32 := 0x00ff0000
def mmuTtrBitEnabled : BitVec 32 := 0x8000
def mmuTtrBitSfieldEnabled : BitVec 32 := 0x4000
def mmuTtrBitSfieldSuper : BitVec 32 := 0x2000
def mmuTtrBitWriteProtect : BitVec 32 := 0x4

def mmuDoMatchTtr (ttr addr : BitVec 32) (super : Bool) : TtrMatch :=
  if ttr &&& mmuTtrBitEnabled ≠ 0 then
    let msb := (((addr ^^^ ttr) &&& mmuTtrLogicalBase) >>> 24).setWidth 8
    let mask := ((ttr &&& mmuTtrLogicalMask) >>> 16).setWidth 8
    if msb &&& ~~~mask = 0 then
      if ttr &&& mmuTtrBitSfieldEnabled = 0 ∧
          decide (ttr &&& mmuTtrBitSfieldSuper = 0) ≠ !super then
        .noMatch
      else if ttr &&& mmuTtrBitWriteProtect ≠ 0 then .noWrite
      else .okMatch
    else .noMatch
  else .noMatch

def mmuMatchTtr (r : MmuRegs) (addr : BitVec 32) (super data : Bool) : TtrMatch :=
  let ttr0 := if data then r.dtt0 else r.itt0
  let ttr1 := if data then r.dtt1 else r.itt1
  match mmuDoMatchTtr ttr0 addr super with
  | .noMatch => mmuDoMatchTtr ttr1 addr super
  | res => res

/-! ## Physical memory -/

def stramEnd : Nat := 0xe00000
def fastRamBegin : Nat := 0x1000000
def aranymVramSize : BitVec 32 := 0x100000

def testRamBoundary (size : Nat) (super write : Bool) : Bool :=
  let video := decide (cfg.videoRamBase ≤ addr) &&
    decide (addr ≤ cfg.videoRamBase + aranymVramSize - BitVec.ofNat 32 size)
  if addr.toNat ≤ fastRamBegin + cfg.fastRamSize - size then
    if cfg.protect2k && !super && decide (addr.toNat < 0x800) then false
    -- the first two longwords of ST-RAM and what lies between ST-RAM and FastRAM are not writable
    else if !write || decide (addr.toNat ≥ fastRamBegin) ||
        (decide (addr.toNat ≥ 8) && decide (addr.toNat ≤ stramEnd - size)) then true
    else video
  else video

def checkRamBoundary (size : Nat) (write : Bool) : MmuM δ Unit := do
  let m ← get
  if testRamBoundary cfg addr size m.regs.s write then
    pure ()
  else
    modify fun m => { m with fault := { m.fault with
      mmuFaultAddr := addr
      mmuSsw := (BitVec.ofNat 16 (size &&& 3)) <<< 5 ||| (if write then 0 else 0x100) } }
    throw ⟨2⟩

def isHwAddr : Bool := addr &&& 0xfff00000 == 0x00f00000

def isHwMirror : Bool := addr &&& 0xfff00000 == 0xfff00000

def physGetLong (hw : Hardware δ) (addr : BitVec 32) : MmuM δ (BitVec 32) := do
  let addr := if addr < 0xff000000 then addr else addr &&& 0x00ffffff
  if isHwAddr addr then
    liftDev addr (hw.get .long addr)
  else
    checkRamBoundary cfg addr 4 false
    let m ← get
    pure (m.ram.getLong addr)

def physPutLong (hw : Hardware δ) (addr v : BitVec 32) : MmuM δ Unit := do
  let addr := if addr < 0xff000000 then addr else addr &&& 0x00ffffff
  if isHwAddr addr then
    liftDev addr (hw.put .long addr v)
  else
    checkRamBoundary cfg addr 4 true
    modify fun m => { m with ram := m.ram.putLong addr v }

/-! ## Table search -/

def mmuDesWp : BitVec 32 := 4
def mmuDesUsed : BitVec 32 := 8
def mmuDesModified : BitVec 32 := 16
def mmuRootPtrAddrMask : BitVec 32 := 0xfffffe00
def mmuPtrPageAddrMask8 : BitVec 32 := 0xffffff80
def mmuPtrPageAddrMask4 : BitVec 32 := 0xffffff00
def mmuPageIndirectMask : BitVec 32 := 0xfffffffc
def mmuMmusrG : BitVec 32 := 0x400
def mmuMmusrS : BitVec 32 := 0x80
def mmuMmusrM : BitVec 32 := 0x10
def mmuMmusrW : BitVec 32 := 0x4

def markUsed (hw : Hardware δ) (descAddr desc : BitVec 32) : MmuM δ Unit :=
  if desc &&& mmuDesUsed = 0 then physPutLong cfg hw descAddr (desc ||| mmuDesUsed) else pure ()

/-- Fetch a page descriptor, through one indirect descriptor if there is one: its address and value. -/
def fetchPageDesc (hw : Hardware δ) (pageAddr : BitVec 32) : MmuM δ (BitVec 32 × BitVec 32) := do
  let desc ← physGetLong cfg hw pageAddr
  if desc &&& 3 = 2 then
    let desc' ← physGetLong cfg hw (desc &&& mmuPageIndirectMask)
    pure (desc &&& mmuPageIndirectMask, desc')
  else
    pure (pageAddr, desc)

def updatePageDesc (hw : Hardware δ) (write : Bool) (descAddr desc : BitVec 32) : MmuM δ (BitVec 32) :=
  if write && desc &&& mmuDesWp == 0 then
    if desc &&& (mmuDesUsed ||| mmuDesModified) ≠ (mmuDesUsed ||| mmuDesModified) then do
      physPutLong cfg hw descAddr (desc ||| (mmuDesUsed ||| mmuDesModified))
      pure (desc ||| (mmuDesUsed ||| mmuDesModified))
    else pure desc
  -- a read, or a write the page protection will refuse: only the used bit
  else if desc &&& mmuDesUsed = 0 then do
    physPutLong cfg hw descAddr (desc ||| mmuDesUsed)
    pure (desc ||| mmuDesUsed)
  else pure desc

def mmuLookupPagetable (hw : Hardware δ) (addr : BitVec 32) (super write : Bool) : MmuM δ (BitVec 32) := do
  let m ← get
  let root := if super then m.regs.srp else m.regs.urp
  let rootAddr := (root &&& mmuRootPtrAddrMask) ||| ((addr >>> 23) &&& 0x1fc)
  let rootDesc ← physGetLong cfg hw rootAddr
  if rootDesc &&& 2 = 0 then pure 0 else do
  markUsed cfg hw rootAddr rootDesc
  let ptrAddr := (rootDesc &&& mmuRootPtrAddrMask) ||| ((addr >>> 16) &&& 0x1fc)
  let ptrDesc ← physGetLong cfg hw ptrAddr
  if ptrDesc &&& 2 = 0 then pure 0 else do
  markUsed cfg hw ptrAddr ptrDesc
  let wp := rootDesc ||| ptrDesc
  let pageAddr :=
    if m.regs.mmuPagesize8k then (ptrDesc &&& mmuPtrPageAddrMask8) ||| ((addr >>> 11) &&& 0x7c)
    else (ptrDesc &&& mmuPtrPageAddrMask4) ||| ((addr >>> 10) &&& 0xfc)
  let page ← fetchPageDesc cfg hw pageAddr
  if page.2 &&& 1 = 0 then pure page.2 else
  updatePageDesc cfg hw write page.1 (page.2 ||| (wp &&& mmuDesWp))

/-! ## Filling the ATC -/

/-- The line a matching transparent translation register gives, for an access of kind `data` with
match `res`; `other` is the match for the other kind, which may use the line only if it agrees. -/
def AtcLine.ofTtr (data : Bool) (res other : TtrMatch) : AtcLine :=
  { l with
    tt := true
    validData := data || other == res
    validInst := !data || other == res
    global := true
    modified := true
    writeProtect := res == .noWrite
    phys := 0 }

def AtcLine.ofDisabled : AtcLine :=
  { l with
    tt := false
    validData := true
    validInst := true
    global := true
    modified := true
    writeProtect := false
    phys := 0 }

def AtcLine.ofDesc (super pagesize8k : Bool) (addr desc : BitVec 32) : AtcLine :=
  if desc &&& 1 = 0 ∨ (!super ∧ desc &&& mmuMmusrS ≠ 0) then
    { l with tt := false, validData := false, validInst := false, global := false }
  else
    let mask : BitVec 32 := if pagesize8k then 0x1fff else 0xfff
    { l with
      tt := false
      validData := true
      validInst := true
      phys := (desc &&& ~~~mask) - (addr &&& ~~~mask)
      global := desc &&& mmuMmusrG != 0
      modified := desc &&& mmuMmusrM != 0
      writeProtect := desc &&& mmuMmusrW != 0 }

def mmuFillAtcL2 (hw : Hardware δ) (addr : BitVec 32) (super data write : Bool)
    (l : AtcLine) : MmuM δ (BitVec 32 × AtcLine) := do
  let m ← get
  let l := { l with tag := atcTag addr, hw := false, busFault := false }
  let res := mmuMatchTtr m.regs addr super data
  if res ≠ .noMatch then
    pure (0, l.ofTtr data res (mmuMatchTtr m.regs addr super !data))
  else if !m.regs.mmuEnabled then
    pure (0, l.ofDisabled)
  else do
    -- a bus error during the table search counts as a non-resident page
    let desc ← tryCatch (mmuLookupPagetable cfg hw addr super write) fun _ => pure 0
    pure (desc, l.ofDesc super m.regs.mmuPagesize8k addr desc)

inductive LineCheck where
  | fail
  | restart
  | pass
deriving DecidableEq

def AtcLine.check (data write : Bool) : LineCheck :=
  if !l.valid data then .fail
  else if write then
    if l.writeProtect then .fail
    else if !l.modified then .restart
    else .pass
  else .pass

/-- The label `restart` of `mmu_fill_atc_l1`: refill the L2 line and check it again. The bound on
the number of rounds is never met: see `filledLine_check`. -/
def restart (cfg : Config) (hw : Hardware δ) (addr : BitVec 32) (super data write : Bool) : Nat → MmuM δ Bool
  | 0 => pure false
  | n + 1 => do
    let m ← get
    let r ← mmuFillAtcL2 cfg hw addr super data write (m.atcL2 super (atcL2Index addr))
    modify fun m => m.setL2 super (atcL2Index addr) r.2
    match r.2.check data write with
    | .fail => pure false
    | .pass => pure true
    | .restart => restart cfg hw addr super data write n

/-- `mmu_fill_atc_l1` up to the copy of the line: whether the L2 line grants the access. -/
def mmuFillLookup (hw : Hardware δ) (addr : BitVec 32) (super data write : Bool) : MmuM δ Bool := do
  let m ← get
  let l := m.atcL2 super (atcL2Index addr)
  if l.tag ≠ atcTag addr then
    restart cfg hw addr super data write 2
  else
    match l.check data write with
    | .fail => pure false
    | .pass => pure true
    | .restart => restart cfg hw addr super data write 2

/-- The classification of the L2 line `l` copied into an L1 slot: `none` for plain memory, which
the slot then serves directly, or the line as it is before its tag is complemented. -/
def AtcLine.special (super write : Bool) (l : AtcLine) : Option AtcLine :=
  let physAddr := addr + l.phys
  if isHwAddr physAddr then
    some { l with hw := true }
  else if isHwMirror physAddr then
    some { l with hw := true, phys := l.phys - 0xff000000 }
  else if !testRamBoundary cfg physAddr 1 super write then
    some { l with busFault := true }
  else none

def AtcLine.complement : AtcLine := { l with tag := ~~~l.tag }

/-- `mmu_fill_atc_l1`: fill the L1 slot `cl`; `false` if the slow path has to act. -/
def mmuFillAtcL1 (hw : Hardware δ) (addr : BitVec 32) (super data write : Bool)
    (cl : L1Slot) : MmuM δ Bool := do
  let granted ← mmuFillLookup cfg hw addr super data write
  let m ← get
  if granted then
    let l := m.atcL2 super (atcL2Index addr)
    match l.special cfg addr super write with
    | none =>
      modify fun m => m.setL1 cl l
      pure true
    | some l1 =>
      modify fun m => m.setL1 cl l1.complement
      pure false
  else
    -- `*l1 = *l` was not reached: the slot still holds whatever line it held before
    modify fun m => m.setL1 cl (m.l1 cl).complement
    pure false

end Aranym.Mmu
