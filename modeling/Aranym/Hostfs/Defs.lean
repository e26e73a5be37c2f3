import Aranym.Hostfs.Names
import Aranym.Lib.Program

/-!
# The cookies of the host file system

A file cookie refers to a node of a tree that grows by lookups. The nodes count the cookies that the guest holds on
them and the nodes below them.

Source: `hostfs.cpp`, `hostfs.h`.
-/

namespace Aranym.Hostfs

variable (path : Path) (fs : Nat)

/-- A mounted drive. `xfs_native_init` makes the root with slashes only. -/
structure ExtDrive where
  hostRoot : Path
  halfSensitive : Bool
  ne_nil : hostRoot ≠ []
  no_backslash : backslash ∉ hostRoot

structure XfsFsFile where
  parent : Option Nat
  refCount : BitVec 32
  childCount : BitVec 32
  name : Name
  deriving DecidableEq

structure State where
  live : Finset Nat
  file : Nat → XfsFsFile
  paths : List Path

variable (s : State) (fs : Nat) (f : XfsFsFile) (drv : ExtDrive)

/-- Undefined behaviour of the file system's code. -/
inductive Fault where
  /-- A deleted node is used. -/
  | deleted (fs : Nat)
  /-- A path does not fit into its buffer. -/
  | overflow
  /-- A name fills its buffer and has no NUL. -/
  | unterminated
  /-- The chain of parents does not end. -/
  | endless
  deriving DecidableEq

abbrev HostM := EStateM Fault State

def maxPathNameLen : Nat := 2048

/-! ## Nodes -/

def load : HostM XfsFsFile := do
  let s ← get
  if fs ∈ s.live then pure (s.file fs) else throw (.deleted fs)

def State.store : State := { s with file := Function.update s.file fs f }

def store : HostM Unit := modify fun s => s.store fs f

def State.new : State := { s.store fs f with live := insert fs s.live }

def new : HostM Unit := modify fun s => s.new fs f

def State.delete : State := { s with live := s.live.erase fs }

def delete : HostM Unit := do
  let _ ← load fs
  modify fun s => s.delete fs

def call (paths : List Path) : HostM Unit := modify fun s => { s with paths := s.paths ++ paths }

/-! ## Paths -/

def copyPath : HostM Path := if path.length < maxPathNameLen then pure path else throw .overflow

def hostName (name : Nat → BitVec 8) : Option Name :=
  let buffer := (Natfeat.atari2HostUtf8Copy Natfeat.maptab name maxPathNameLen).dst
  if buffer.contains 0 then some (cstr buffer) else none

def guestName (name : Nat → BitVec 8) : HostM Name :=
  match hostName name with
  | some fname => pure fname
  | none => throw .unterminated

def stripSeparator : Path :=
  if path.getLast? = some backslash ∨ path.getLast? = some slash then path.dropLast else path

def separated : Path := if path = [] then [] else stripSeparator path ++ [slash]

def append (host : Host) (path : Path) (name : Name) : HostM Path := do
  let dir ← copyPath (separated path)
  let _ ← copyPath (dir ++ name)
  let found := getHostFileName drv.halfSensitive host dir name
  call found.2
  copyPath (dir ++ found.1)

def appendName (host : Host) : Option Name → Option Path → HostM (Option Path)
  | _, none => pure none
  | none, some path | some [], some path => pure (some path)
  | some (c :: name), some path => do return some (← append drv host path (c :: name))

def cookie2Pathname (drv : ExtDrive) (host : Host) : Nat → Option Nat → Option Name → HostM (Option Path)
  | _, none, none => pure none
  | _, none, some name => do return some (← copyPath name)
  | 0, some _, _ => throw .endless
  | fuel + 1, some fs, name => do
      let f ← load fs
      let path ← cookie2Pathname drv host fuel f.parent (some f.name)
      appendName drv host name path

/-- The path of a name below a node. It is never NULL, and a chain of parents visits each node once at most. -/
def pathname (host : Host) (fs : Nat) (name : Name) : HostM Path := do
  let s ← get
  return (← cookie2Pathname drv host s.live.card (some fs) (some name)).getD []

/-! ## Calls -/

abbrev Cookie := Option Nat

def freefs : Nat → Nat → HostM Unit
  | 0, _ => throw .endless
  | fuel + 1, fs => do
      let f ← load fs
      if f.refCount = 0 ∧ f.childCount = 0 then do
        match f.parent with
        | none => pure ()
        | some parent => do
            let g ← load parent
            store parent { g with childCount := g.childCount - 1 }
            freefs fuel parent
        delete fs
      else pure ()

def newChild (addr dir : Nat) (name : Name) : HostM Cookie := do
  let f ← load dir
  store dir { f with childCount := f.childCount + 1 }
  new addr ⟨some dir, 1, 0, name⟩
  return some addr

def again : HostM Cookie := do
  let f ← load fs
  store fs { f with refCount := f.refCount + 1 }
  return some fs

def ask (host : Host) (answer : Path → Bool) (dir : Nat) (fname : Name) : HostM Bool := do
  let path ← pathname drv host dir fname
  call [path]
  return answer path

def xfsLookup (host : Host) (lstat : Path → Bool) (addr dir : Nat) (name : Nat → BitVec 8) :
    HostM Cookie := do
  let fname ← guestName name
  if fname = [] ∨ fname = [dot] then again dir
  else if fname = [dot, dot] then do
    let f ← load dir
    match f.parent with
    | none => pure none
    | some parent => again parent
  else do
    let found ← ask drv host lstat dir fname
    if found then newChild addr dir fname else pure none

def xfsCreat (host : Host) (opens : Path → Bool) (addr dir : Nat) (name : Nat → BitVec 8) : HostM Cookie := do
  let fname ← guestName name
  let opened ← ask drv host opens dir fname
  if opened then newChild addr dir fname else pure none

/-- The next entry of a directory. The root has none for itself and for what is above it. -/
def nextEntry (rest : List Dirent) : Option Dirent :=
  rest.find? fun entry => !(f.parent.isNone && (entry.name == [dot] || entry.name == [dot, dot]))

/-- `rest` is what the open directory still lists. -/
def xfsReaddir (host : Host) (rest : List Dirent) (flags len : BitVec 16) (addr dir : Nat) :
    HostM Cookie := do
  let f ← load dir
  match nextEntry f rest with
  | none => pure none
  | some entry =>
    if flags = 0 then
      if len.toNat < entry.name.length + 4 then pure none
      else do
        let _ ← pathname drv host dir entry.name
        newChild addr dir entry.name
    else if len.toNat < (transformFileName entry.name).length then pure none
    else newChild addr dir entry.name

/-- `strdup` tells whether there is memory for the name. -/
def xfsDupcookie (strdup : Bool) (addr old : Nat) : HostM Cookie := do
  let f ← load old
  match f.parent with
  | none => do
      new addr ⟨none, 1, 0, drv.hostRoot⟩
      return some addr
  | some parent => if strdup then newChild addr parent f.name else pure none

def xfsRelease : HostM Bool := do
  let f ← load fs
  if f.refCount = 0 then return false
  store fs { f with refCount := f.refCount - 1 }
  let s ← get
  freefs s.live.card fs
  return true

def xfsMkdir (host : Host) (dir : Nat) (name : Nat → BitVec 8) : HostM Cookie := do
  let fname ← guestName name
  let _ ← ask drv host (fun _ => true) dir fname
  return none

def xfsRmdir (host : Host) (dir : Nat) (name : Nat → BitVec 8) : HostM Cookie := xfsMkdir drv host dir name

/-! ## Guests -/

inductive Call where
  | lookup (host : Host) (lstat : Path → Bool) (name : Nat → BitVec 8)
  | creat (host : Host) (opens : Path → Bool) (name : Nat → BitVec 8)
  | readdir (host : Host) (rest : List Dirent) (flags len : BitVec 16)
  | dupcookie (strdup : Bool)
  | release
  | mkdir (host : Host) (name : Nat → BitVec 8)
  | rmdir (host : Host) (name : Nat → BitVec 8)

/-- A call for a cookie, which gets `addr` if it makes a node. -/
structure Op where
  cookie : Nat
  addr : Nat
  call : Call

/-- The file system with the cookies the kernel holds. -/
structure Guest where
  state : State
  held : List Nat

variable (g : Guest)

def exec (held : List Nat) (op : Op) : HostM (List Nat) :=
  let take (call : HostM Cookie) : HostM (List Nat) := do return (← call).toList ++ held
  match op.call with
  | .lookup host lstat name => take (xfsLookup drv host lstat op.addr op.cookie name)
  | .creat host opens name => take (xfsCreat drv host opens op.addr op.cookie name)
  | .readdir host rest flags len => take (xfsReaddir drv host rest flags len op.addr op.cookie)
  | .dupcookie strdup => take (xfsDupcookie drv strdup op.addr op.cookie)
  | .mkdir host name => take (xfsMkdir drv host op.cookie name)
  | .rmdir host name => take (xfsRmdir drv host op.cookie name)
  | .release => do return if ← xfsRelease op.cookie then held.erase op.cookie else held

def step (op : Op) : Except Fault Guest :=
  match exec drv g.held op g.state with
  | .ok held s => .ok ⟨s, held⟩
  | .error e _ => .error e

def run (ops : List Op) : Except Fault Guest := ops.foldlM (step drv) g

/-- The drive as `xfs_root` leaves it. -/
def xfsRoot (addr : Nat) : Guest := ⟨⟨{addr}, fun _ => ⟨none, 1, 0, drv.hostRoot⟩, []⟩, [addr]⟩

/-- A guest uses a cookie that it holds, and a new node gets an address that is free. -/
def Op.Valid (op : Op) : Prop := op.cookie ∈ g.held ∧ op.addr ∉ g.state.live

instance decidableOpValid (g : Guest) (op : Op) : Decidable (op.Valid g) :=
  inferInstanceAs (Decidable (op.cookie ∈ g.held ∧ op.addr ∉ g.state.live))

end Aranym.Hostfs
