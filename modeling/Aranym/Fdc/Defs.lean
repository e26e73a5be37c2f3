import Aranym.Lib.Run

/-!
# The floppy disk controller

`fdc_exec_command` with one drive. What the host makes of the image file is a parameter: a transfer of a sector at an
offset of the file succeeds or not, and a floppy that is inserted again has some geometry.

Source: `src/src/acsifdc.cpp`.
-/

namespace Aranym.Fdc

variable (update : Bool)

structure Geometry where
  sides : Int
  tracks : Int
  spt : Int
  secsize : Int

/-- The registers of the floppy controller and its DMA, with the geometry of the disk. -/
structure State extends Geometry where
  head : Int
  inserted : Bool
  floppyChanged : Bool
  dmaAddr : BitVec 32
  dmaScr : Int
  dmaSr : Int
  track : Int
  sector : Int
  data : Int
  status : BitVec 8
  /-- The direction of the last step, a static variable of the function. -/
  dir : Int

variable (s : State)

/-- The answers of the host: which sectors can be read and written, and the floppy put in. -/
structure Host where
  read : Int → Bool
  write : Int → Bool
  floppy : Option Geometry
  bootNetbsd : Bool

namespace State

def rnf : BitVec 8 := 0x10

def insertFloppy (host : Host) (s : State) : State :=
  match host.floppy with
  | none => { s with inserted := false }
  | some g => { s with toGeometry := g, inserted := true, floppyChanged := true }

/-! ## Moves of the head -/

def seek : State :=
  let head := s.head + (s.data - s.track)
  { s with track := s.data, head := if head < 0 ∨ s.tracks ≤ head then 0 else head }

/-- The low bits of the commands are the same: `FDC_UBIT` is the update of the track register. -/
def step : State := { s with track := if update then s.track + s.dir else s.track, head := s.head + s.dir }

def stepIn : State :=
  { s with
    track := if update then s.track + 1 else s.track
    head := if s.head < s.tracks then s.head + 1 else s.head
    dir := 1 }

def stepOut : State :=
  { s with
    track := if update then s.track - 1 else s.track
    head := if 0 < s.head then s.head - 1 else s.head
    dir := -1 }

def move (command : BitVec 16) (s : State) : State :=
  let update := command.getLsbD 4
  if command &&& 0xf0 = 0x00 then { s with head := 0, track := 0 }
  else if command &&& 0xf0 = 0x10 then s.seek
  else if command &&& 0xe0 = 0x20 then s.step update
  else if command &&& 0xe0 = 0x40 then s.stepIn update
  else s.stepOut update

/-- The commands below `0x80`. The motor is always on. -/
def typeOne (command : BitVec 16) (s : State) : State :=
  let s := s.move command
  let status := s.status ||| (if s.head = 0 then 0x04 else 0)
  let status := status ||| (if s.head ≠ s.track ∧ command.getLsbD 2 then rnf else 0)
  { s with status := status ||| 0x20 }

/-! ## Sectors -/

/-- The offsets of the sectors that `read_file` and `write_file` try to transfer, and whether they succeed. -/
def transferSectors (ok : Int → Bool) (secsize : Int) : Nat → Int → List Int × Bool
  | 0, _ => ([], true)
  | count + 1, offset =>
    if ok offset then
      let (rest, done) := transferSectors ok secsize count (offset + secsize)
      (offset :: rest, done)
    else ([offset], false)

def transferFile (ok : Int → Bool) (offset : Int) (s : State) : List Int × Bool :=
  if s.inserted = false ∨ offset < 0 then ([], false)
  else transferSectors ok s.secsize s.dmaScr.toNat offset

def transfer (ok : Int → Bool) (offset : Int) (recordNotFound : Bool) (s : State) : State × List Int :=
  let (sectors, done) := s.transferFile ok offset
  if done then
    ({ s with
      dmaAddr := s.dmaAddr + BitVec.ofInt 32 (s.dmaScr * s.secsize), dmaScr := 0, dmaSr := 1
      status := s.status ||| if recordNotFound then rnf else 0 }, sectors)
  else ({ s with dmaSr := 1, status := s.status ||| rnf }, sectors)

def offsetOf (side n : Int) : Int := s.secsize * (s.spt * s.sides * s.head + s.spt * side + (n - 1))

def tooMany : Bool := s.spt - s.sector + 1 < s.dmaScr ∧ 1 < s.spt

def readWrite (host : Host) (command : BitVec 16) (side : Int) (s : State) : State × List Int :=
  let offset := s.offsetOf side s.sector
  let recordNotFound := s.tooMany
  let s := if recordNotFound then { s with dmaScr := s.spt - s.sector + 1 } else s
  let s := if command &&& 0xd0 = 0x80 then { s with dmaScr := 1 } else s
  if command &&& 0xe0 = 0x80 then
    let s := if offset = 0 ∧ s.dmaScr = 1 then s.insertFloppy host else s
    s.transfer host.read offset recordNotFound
  else if command &&& 0xc0 = 0x80 then s.transfer host.write offset recordNotFound
  else if command &&& 0xc0 = 0xc0 then ({ s with status := s.status ||| rnf }, [])
  else (s, [])

def typeTwo (host : Host) (command : BitVec 16) (side : Int) (s : State) : State × List Int :=
  let (s, sectors) := s.readWrite host command side
  ({ s with status := s.status ||| if s.head ≠ s.track then rnf else 0 }, sectors)

/-- Port A of the sound chip selects the drive. -/
def selected (porta : BitVec 8) : Bool := ~~~porta &&& 6 = 2 ∨ ~~~porta &&& 6 = 6

def side (porta : BitVec 8) : Int := (~~~porta &&& 1).toNat

/-- `fdc_exec_command`, with the sectors it moves. -/
def execCommand (host : Host) (porta : BitVec 8) (command : BitVec 16) (s : State) : State × List Int :=
  let s := { s with status := 0 }
  let (s, sectors) :=
    if command < 0x80 then
      if selected porta then (s.typeOne command, []) else ({ s with status := rnf }, [])
    else if command &&& 0xf0 = 0xd0 then (s, [])
    else if selected porta then s.typeTwo host command (side porta)
    else ({ s with status := rnf }, [])
  ({ s with status := s.status ||| if host.bootNetbsd then 0 else 0x80 }, sectors)

end State

end Aranym.Fdc
