import Aranym.Natfeat.Strings

/-!
# Short names of host files

The 8+3 name under which a guest sees a host file, and the way back from it. Names are bytes without a NUL.

Source: `hostfs.cpp` (`transformFileName`, `getHostFileName`), the C library's functions of the C locale.
-/

namespace Aranym.Hostfs

variable (c : BitVec 8) (dest : List (BitVec 8))

/-- A file name, without its NUL. -/
abbrev Name := List (BitVec 8)

variable (source : Name)

abbrev blank : BitVec 8 := 0x20
abbrev star : BitVec 8 := 0x2a
abbrev dot : BitVec 8 := 0x2e
abbrev slash : BitVec 8 := 0x2f
abbrev question : BitVec 8 := 0x3f
abbrev backslash : BitVec 8 := 0x5c
abbrev underscore : BitVec 8 := 0x5f
abbrev tilde : BitVec 8 := 0x7e

/-! ## The C library -/

def toupper : BitVec 8 := if 0x61 ≤ c ∧ c ≤ 0x7a then c - 0x20 else c

def tolower : BitVec 8 := if 0x41 ≤ c ∧ c ≤ 0x5a then c + 0x20 else c

def strcasecmp (a b : Name) : Bool := a.map tolower == b.map tolower

def strrchr (c : BitVec 8) : Name → Option Nat
  | [] => none
  | b :: s =>
    match strrchr c s with
    | some i => some (i + 1)
    | none => if b = c then some 0 else none

/-- What is written to the buffer: the rest of the `n` bytes is filled with NULs. -/
def strncpy (n : Nat) : List (BitVec 8) := source.take n ++ List.replicate (n - source.length) 0

def memcpy (i : Nat) (bytes : List (BitVec 8)) : List (BitVec 8) :=
  dest.take i ++ bytes ++ dest.drop (i + bytes.length)

def cstr (buffer : List (BitVec 8)) : Name := buffer.takeWhile (· != 0)

/-! ## Shortening -/

def hashValue : BitVec 32 := source.foldl (fun h c => h + ((h <<< 3) + c.signExtend 32)) 0

def hexDigit (d : BitVec 32) : BitVec 8 := if d < 10 then 0x30 + d.setWidth 8 else 0x57 + d.setWidth 8

/-- The last two of the eight hexadecimal digits, behind a tilde in place of the third last one. -/
def hashStr : Name := [tilde, hexDigit (hashValue source >>> 4 &&& 0xf), hexDigit (hashValue source &&& 0xf)]

def extend (nameLen : Nat) (ext : List (BitVec 8)) : List (BitVec 8) :=
  (memcpy (dest.set nameLen dot) (nameLen + 1) ext).set (nameLen + ext.length + 1) 0

/-- The buffer and the new `nameLen` for a name that is not of the 8+3 form. The dot is behind the name then. -/
def shorten (dotAt : Option Nat) (nameLen extLen : Nat) (dest : List (BitVec 8)) : List (BitVec 8) × Nat :=
  if extLen = 0 then
    if nameLen ≥ 12 then (extend dest 8 (hashStr source), 8)
    else
      match dotAt with
      -- Three bytes are copied, of which the last may stand behind the NUL of the name and is not seen then.
      | none => (extend dest 8 ((source.drop 8 ++ [0, 0]).take 3), 8)
      | some _ => (extend dest (min 8 nameLen) (hashStr source), min 8 nameLen)
  else
    let n := min 5 nameLen
    (extend (memcpy dest n (hashStr source ++ [0])) (n + 3) ((source.drop (nameLen + 1)).take (min 3 extLen)), n + 3)

def under : BitVec 8 := if c = blank ∨ c = dot then underscore else c

def replaceDots : List (BitVec 8) := (cstr dest).map under ++ dest.drop (cstr dest).length

/-- `transformFileName`: a host name in 8+3 form. -/
def transformFileName : Name :=
  if source = [dot] ∨ source = [dot, dot] then source
  else
    -- A leading dot is ignored.
    let dotAt := (strrchr dot source).filter (· ≠ 0)
    let nameLen := dotAt.getD source.length
    let extLen := if nameLen = source.length then 0 else source.length - nameLen - 1
    let dest := strncpy source 12 ++ [0]
    if nameLen > 8 ∨ extLen > 3 ∨ (nameLen ≤ 8 ∧ extLen = 0 ∧ dotAt.isSome) then
      let (dest, nameLen) := shorten source dotAt nameLen extLen dest
      (cstr ((replaceDots dest).set nameLen dot)).map toupper
    else if dotAt.isSome then (cstr ((replaceDots dest).set nameLen dot)).map toupper
    else (cstr (replaceDots dest)).map toupper

/-! ## The host -/

abbrev Path := List (BitVec 8)

/-- An entry of a host directory; the host gives no empty name, no NUL and no slash. -/
structure Dirent where
  name : Name
  ne_nil : name ≠ []
  no_nul : (0 : BitVec 8) ∉ name
  no_slash : slash ∉ name

/-- What the host answers to `stat` and `opendir`. -/
structure Host where
  stat : Path → Bool
  opendir : Path → Option (List Dirent)

def isHostFile (halfSensitive : Bool) (name : Name) (entry : Dirent) : Bool :=
  (halfSensitive && strcasecmp name entry.name) || transformFileName entry.name == name

/-- The name without a match: if it is in upper case, a file is created in lower case. -/
def nonexisting (halfSensitive : Bool) (name : Name) : Name :=
  if halfSensitive ∧ name.map toupper = name then name.map tolower else name

/-- The host name for `name` in the directory of the path, which ends in a separator, and the paths that are
handed to the host on the way. -/
def getHostFileName (halfSensitive : Bool) (host : Host) (pathName : Path) (name : Name) : Name × List Path :=
  if star ∈ name ∨ question ∈ name then (name, [])
  else if host.stat (pathName ++ name) then (name, [pathName ++ name])
  else
    (match host.opendir pathName with
      | none => name
      | some entries =>
        match entries.find? (isHostFile halfSensitive name) with
        | some entry => entry.name
        | none => nonexisting halfSensitive name,
      [pathName ++ name, pathName])

end Aranym.Hostfs
