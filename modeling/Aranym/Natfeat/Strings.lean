import Aranym.Natfeat.Maptab

/-!
# Copying strings between the host and the guest

The copies of file names. A name in host memory is UTF-8, in guest memory it has one byte for a character.

Source: `natfeats.cpp`, the branch for systems other than Darwin.
-/

namespace Aranym.Natfeat

/-- A copy under way: the offset of the next source byte, the room left, what has been written, and the
offsets that have been read. -/
structure Copy where
  src : Nat
  count : Nat
  dst : List (BitVec 8)
  reads : List Nat
  deriving DecidableEq

namespace Copy

def start (count : Nat) : Copy := ⟨0, count, [], []⟩

def finish (s : Copy) : Copy := if s.count > 0 then { s with dst := s.dst ++ [0] } else s

end Copy

/-! ## To the host -/

/-- The bytes for a character. With two bytes of room only, two are written for any character. -/
def hostBytes (ch : BitVec 16) (count : Nat) : List (BitVec 8) :=
  if ch < 0x80 then [ch.setWidth 8]
  else if ch < 0x800 ∨ count < 3 then
    [((ch >>> 6) &&& 0x3f ||| 0xc0).setWidth 8, (ch &&& 0x3f ||| 0x80).setWidth 8]
  else
    [((ch >>> 12) &&& 0x0f ||| 0xe0).setWidth 8, ((ch >>> 6) &&& 0x3f ||| 0x80).setWidth 8,
      (ch &&& 0x3f ||| 0x80).setWidth 8]

theorem length_hostBytes_pos (ch : BitVec 16) (count : Nat) : 0 < (hostBytes ch count).length := by
  unfold hostBytes
  split
  · simp
  · split <;> simp

def atari2HostLoop (T : Charset) (src : Nat → BitVec 8) (s : Copy) : Copy :=
  if s.count > 1 then
    let ch := src s.src
    let reads := s.reads ++ [s.src]
    if ch = 0 then { s with src := s.src + 1, reads := reads }
    else
      let bytes := hostBytes (T.toUtf16 ch) s.count
      atari2HostLoop T src ⟨s.src + 1, s.count - bytes.length, s.dst ++ bytes, reads⟩
  else s
  termination_by s.count
  decreasing_by
    have hpos := length_hostBytes_pos (T.toUtf16 (src s.src)) s.count
    simp only [gt_iff_lt] at *; omega

def atari2HostUtf8Copy (T : Charset) (src : Nat → BitVec 8) (count : Nat) : Copy :=
  (atari2HostLoop T src (.start count)).finish

/-! ## To the guest -/

/-- How many bytes are taken for a character that starts with `ch`. -/
def seqLen (ch : BitVec 8) (count : Nat) : Nat :=
  if ch < 0x80 then 1 else if ch &&& 0xe0 = 0xc0 ∨ count < 3 then 2 else 3

def code2 (b₀ b₁ : BitVec 8) : BitVec 16 := (b₀.setWidth 16 &&& 0x1f) <<< 6 ||| b₁.setWidth 16 &&& 0x3f

def code3 (b₀ b₁ b₂ : BitVec 8) : BitVec 16 :=
  ((b₀.setWidth 16 &&& 0x0f) <<< 6 ||| b₁.setWidth 16 &&& 0x3f) <<< 6 ||| b₂.setWidth 16 &&& 0x3f

def charAt (src : Nat → BitVec 8) (i bytes : Nat) : BitVec 16 :=
  if bytes = 1 then (src i).setWidth 16
  else if bytes = 2 then code2 (src i) (src (i + 1))
  else code3 (src i) (src (i + 1)) (src (i + 2))

def atariBytes (c : BitVec 16) (raw : List (BitVec 8)) : List (BitVec 8) :=
  if c ≥ 0x100 then raw else [c.setWidth 8]

def raw (src : Nat → BitVec 8) (i bytes : Nat) : List (BitVec 8) :=
  (List.range bytes).map fun k => src (i + k)

theorem length_atariBytes_pos (c : BitVec 16) (src : Nat → BitVec 8) (i : Nat) (b : BitVec 8)
    (count : Nat) : 0 < (atariBytes c (raw src i (seqLen b count))).length := by
  unfold atariBytes
  split
  · unfold raw seqLen
    split
    · simp
    · split <;> simp
  · simp

def host2AtariLoop (T : Charset) (src : Nat → BitVec 8) (s : Copy) : Copy :=
  if s.count > 1 then
    let ch := src s.src
    let reads := s.reads ++ [s.src]
    if ch = 0 then { s with reads := reads }
    else
      let bytes := seqLen ch s.count
      let out := atariBytes (T.toAtari (charAt src s.src bytes)) (raw src s.src bytes)
      host2AtariLoop T src ⟨s.src + bytes, s.count - out.length, s.dst ++ out,
        reads ++ (List.range bytes).map (s.src + ·)⟩
  else s
  termination_by s.count
  decreasing_by
    have hpos := length_atariBytes_pos (T.toAtari (charAt src s.src (seqLen (src s.src) s.count))) src
      s.src (src s.src) s.count
    simp only [gt_iff_lt] at *; omega

def host2AtariUtf8Copy (T : Charset) (src : Nat → BitVec 8) (count : Nat) : Copy :=
  (host2AtariLoop T src (.start count)).finish

end Aranym.Natfeat
