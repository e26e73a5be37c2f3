import Aranym.Lib.Lines
import Mathlib.Data.List.DropRight

/-!
# Configuration files

How one section of the configuration file is saved: the file is read line by line, the lines up to the section
are copied, the section is rewritten, and the rest is copied. A text is what C strings hold, so it has no NUL.

Source: `cfgopts.cpp`, `cfgopts.h`, `tools.cpp`.
-/

namespace Aranym.Config

open Aranym.Lib Nat

/-! ## Strings -/

def isBlank (c : Char) : Bool := c = ' ' || c = '\t'

def trim (buffer : Text) : Text :=
  let i := (buffer.takeWhile isBlank).length
  let buffer := if 0 < i ∧ i < buffer.length then buffer.drop i else buffer
  buffer.rdropWhile isBlank

def strcasecmp (s t : Text) : Bool := s.map Char.toLower = t.map Char.toLower

def strtok (delim s : Text) : Option Text :=
  match s.dropWhile (· ∈ delim) with
  | [] => none
  | c :: s => some ((c :: s).takeWhile (· ∉ delim))

def safeStrncpy (src : Text) (size : Nat) : Text := src.take (size - 1)

/-! ## Files -/

/-- What one call of `fgets` gives: the characters, the rest of the file, and whether the end of the file was
met. -/
structure Read where
  line : Text
  rest : Text
  eof : Bool

def fgets : Nat → Text → Read
  | 0, s => ⟨[], s, false⟩
  | _ + 1, [] => ⟨[], [], true⟩
  | n + 1, c :: s =>
    if c = '\n' then ⟨[c], s, false⟩
    else { fgets n s with line := c :: (fgets n s).line }

theorem length_fgets (n : Nat) (s : Text) : (fgets n s).rest.length ≤ s.length := by
  induction n generalizing s with
  | zero => exact Nat.le_refl _
  | succ n ih =>
    cases s with
    | nil => exact Nat.le_refl _
    | cons c s =>
      rw [fgets]
      split
      · exact le_succ _
      · exact le_succ_of_le (ih s)

/-- The size of the buffer `line`, without the place of the NUL. -/
def lineMax : Nat := 32767

/-- The lines that successive calls of `fgets` give, and whether the end of the file was met on each. After them
`fgets` returns NULL. -/
def reads : Text → List (Text × Bool)
  | [] => []
  | c :: s => ((fgets lineMax (c :: s)).line, (fgets lineMax (c :: s)).eof) ::
      reads (fgets lineMax (c :: s)).rest
  termination_by s => s.length
  decreasing_by
    have hle := length_fgets 32766 s
    rw [lineMax, fgets]
    split
    · exact lt_succ_self _
    · exact lt_succ_of_le hle

def fcopy (source : Text) : Text :=
  if source.length < 1024 then source
  else source.take 1024 ++ fcopy (source.drop 1024)
  termination_by source.length
  decreasing_by
    rw [List.length_drop]; omega

/-! ## Tags -/

/-- What a tag points to. A number that `printf` writes with `%g` is given by its text, and the function of a
`Function_Tag` by what it writes. -/
inductive Value
  | bool (b : Bool)
  | decimal (v : Int)
  | octal (v : Nat)
  | hex (v : Nat)
  | real (text : Text)
  | char (c : Char)
  | path (p : Text)
  | string (s : Text)
  | function (out : Text)
  | error
  deriving DecidableEq

/-- One entry of a `Config_Tag` table: the key, the value and the `stat` byte. -/
structure ConfigTag where
  code : Text
  value : Value
  stat : Bool
  deriving DecidableEq

/-- The folders that the short forms of a path stand for. -/
structure Folders where
  config : Text
  data : Text
  home : Text

variable (f : Folders)

def maxPath : Nat := 1024

def compressPath (path : Text) (bufSize : Nat) : Text :=
  if path = [] then []
  else
    let starts (folder : Text) : Bool :=
      safeStrncpy folder bufSize ≠ [] ∧ (safeStrncpy folder bufSize).isPrefixOf path
    if starts f.config then safeStrncpy (path.drop (safeStrncpy f.config bufSize).length) bufSize
    else if starts f.data then
      '*' :: safeStrncpy (path.drop ((safeStrncpy f.data bufSize).length - 1)) (bufSize - 1)
    else if starts f.home then
      '~' :: safeStrncpy (path.drop ((safeStrncpy f.home bufSize).length - 1)) (bufSize - 1)
    else safeStrncpy path bufSize

def valueText : Value → Text
  | .bool b => (if b then "Yes" else "No").toList ++ ['\n']
  | .decimal v => (toString v).toList ++ ['\n']
  | .octal v => Nat.toDigits 8 v ++ ['\n']
  | .hex v => Nat.toDigits 16 v ++ ['\n']
  | .real text => text ++ ['\n']
  | .char c => [c, '\n']
  | .path p => compressPath f p maxPath ++ ['\n']
  | .string s => s ++ ['\n']
  | .function out => out
  | .error => []

def tokenText (t : ConfigTag) : Text :=
  (if t.code ≠ ['*'] then t.code ++ " = ".toList else []) ++ valueText f t.value

/-! ## Saving a section -/

structure Save where
  out : Text
  tags : List ConfigTag
  count : Nat

namespace Save

def print (s : Save) (text : Text) : Save := { s with out := s.out ++ text }

def writeTokens (p : ConfigTag → Bool) (s : Save) : Save where
  out := s.out ++ (s.tags.filter p).flatMap (tokenText f)
  tags := s.tags.map fun t => if p t then { t with stat := true } else t
  count := s.count + (s.tags.filter fun t => p t && t.value ≠ .error).length

end Save

/-- Copies the lines up to that which starts with the header, and gives the reads after it, if it was found. -/
def findSection (header : Text) (s : Save) : List (Text × Bool) → Save × Option (List (Text × Bool))
  | [] => (s, none)
  | (l, eof) :: rest =>
    if eof then (s, none)
    else
      let s := s.print (trim l)
      if header.isPrefixOf (trim l) then (s, some rest) else findSection header s rest

/-- Goes through the section: comments are copied, and a line that starts with the name of a tag is written anew.
Gives the line that ended the section, unless the end of the file did, and the reads after it. -/
def updateSection (f : Folders) (s : Save) : List (Text × Bool) → Save × Option Text × List (Text × Bool)
  | [] => (s, none, [])
  | (l, eof) :: rest =>
    let line := trim l
    if line.head? = some '#' ∨ line.head? = some ';' then updateSection f (s.print line) rest
    else if line.head? = some '[' ∨ eof then (s, if eof then none else some line, rest)
    else
      match (strtok ['=', '\n', '\r'] line).map trim with
      | none => updateSection f s rest
      | some tok => updateSection f (s.writeTokens f fun t => strcasecmp tok t.code) rest

def copyRest (s : Save) : List (Text × Bool) → Save
  | [] => s
  | (l, eof) :: rest => if eof then s else copyRest (s.print (trim l)) rest

def newSection (s : Save) : Save := s.writeTokens f fun _ => true

def saveSection (s : Save) (rest : List (Text × Bool)) : Save :=
  let r := updateSection f s rest
  let s := r.1.writeTokens f fun t => !t.stat
  match r.2.1 with
  | some line => copyRest (s.print ('\n' :: line)) r.2.2
  | none => copyRest s r.2.2

def saveFile (file : Option Text) (header : Option Text) (tags : List ConfigTag) : Save :=
  let s : Save := ⟨[], tags.map fun t => { t with stat := false }, 0⟩
  match file, header with
  | none, none => newSection f s
  | none, some h => newSection f (s.print (h ++ ['\n']))
  | some file, none => saveSection f s (reads file)
  | some file, some h =>
    match findSection h s (reads file) with
    | (s, some rest) => saveSection f s rest
    | (s, none) => newSection f (s.print ('\n' :: h ++ ['\n']))

/-- Whether the temporary file, and at the end the configuration file, could be opened for writing. -/
structure Env where
  tempOpens : Bool
  configOpens : Bool

def updateConfig (env : Env) (f : Folders) (file : Option Text) (header : Option Text)
    (tags : List ConfigTag) : Int × Option Text :=
  if !env.tempOpens then (-1, file)
  else
    let s := saveFile f file header tags
    if !env.configOpens then (-1, file) else (s.count, some (fcopy s.out))

end Aranym.Config
