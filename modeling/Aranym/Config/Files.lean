import Aranym.Config.Defs
import Mathlib.Algebra.GroupWithZero.Nat

/-!
# Paths and copies of files

Source: `ConfigOptions::ConfigOptions`, `expand_path`, `compress_path` and `fcopy` of `cfgopts.cpp`.
-/

namespace Aranym.Config

open Aranym.Lib List

/-! ## Folders -/

def isSlash (c : Char) : Bool := c = '/' || c = '\\'

def withSlash (folder : Text) : Text :=
  let folder := safeStrncpy folder 512
  if folder.getLast?.any (!isSlash ·) then folder ++ ['/'] else folder

/-- The folder of the configuration file, with its last separator. -/
def configFolder (file : Text) : Text :=
  let folder := safeStrncpy file 512
  if '/' ∈ folder then folder.rdropWhile (· ≠ '/')
  else if '\\' ∈ folder then folder.rdropWhile (· ≠ '\\')
  else []

def Folders.prepare (cfgfile home data : Text) : Folders := ⟨configFolder cfgfile, withSlash data, withSlash home⟩

/-- `~` or `*` and a separator. -/
def marked (mark : Char) (path : Text) : Bool := path.head? = some mark && path[1]?.any isSlash

/-- The rest of a path after its folder. When it does not fit, an error is reported and the folder is left. -/
def appendTo (folder rest : Text) (bufSize : Nat) : Text :=
  let dest := safeStrncpy folder bufSize
  if bufSize ≥ dest.length + rest.length then dest ++ rest else dest

def expandPath (f : Folders) (path : Text) (bufSize : Nat) : Text :=
  if path = [] then []
  else if marked '~' path then appendTo f.home (path.drop 2) bufSize
  else if marked '*' path then appendTo f.data (path.drop 2) bufSize
  else if !path.head?.any isSlash && path[1]? ≠ some ':' then appendTo f.config path bufSize
  else safeStrncpy path bufSize

theorem withSlash_eq (folder : Text) : withSlash folder = [] ∨ ∃ d c, withSlash folder = d ++ [c] ∧ isSlash c = true := by
  unfold withSlash
  rcases eq_nil_or_concat (safeStrncpy folder 512) with h | ⟨d, c, h⟩
  · rw [h]; exact .inl rfl
  · by_cases hc : isSlash c
    · exact .inr ⟨d, c, by simp [h, hc], hc⟩
    · exact .inr ⟨d ++ [c], '/', by simp [h, hc], rfl⟩

variable {f : Folders} {p r folder : Text} {n : Nat}

theorem starts_iff (hp : p.length + 2 ≤ n) :
    (safeStrncpy folder n ≠ [] ∧ (safeStrncpy folder n).isPrefixOf p) ↔
      (folder ≠ [] ∧ ∃ r, p = folder ++ r) ∧ safeStrncpy folder n = folder := by
  have hlen : folder.length ≤ p.length → safeStrncpy folder n = folder := fun h => take_of_length_le (by omega)
  rw [ isPrefixOf_iff_prefix]
  constructor
  · rintro ⟨hne, hpre⟩
    have hle := hpre.length_le
    rw [safeStrncpy, length_take] at hle
    rw [hlen (by omega)] at hne hpre ⊢
    exact ⟨⟨hne, hpre.imp fun _ h => h.symm⟩, rfl⟩
  · rintro ⟨⟨hne, r, rfl⟩, heq⟩
    rw [heq]
    exact ⟨hne, prefix_append ..⟩

def Lands (folder rest p : Text) (bufSize : Nat) : Prop :=
  folder ++ rest = p ∨ folder = p ∧ bufSize < p.length + rest.length

/-- What is left of a path below the folder of the configuration file is taken for a path below that folder, or for
one below another folder that is the same path. -/
def Folders.Resolves (f : Folders) (r p : Text) (bufSize : Nat) : Prop :=
  r ≠ [] ∧ if marked '~' r then Lands f.home (r.drop 2) p bufSize
    else if marked '*' r then Lands f.data (r.drop 2) p bufSize
    else r.head?.any isSlash = false ∧ r[1]? ≠ some ':'

theorem appendTo_eq_iff (hp : p.length + 2 ≤ n) : appendTo folder r n = p ↔ Lands folder r p n := by
  have hlong : n - 1 < folder.length → ∀ t : Text, safeStrncpy folder n ++ t ≠ p ∧ folder ++ t ≠ p := by
    intro h t
    constructor
    all_goals
      intro heq
      have := congrArg length heq
      simp only [length_append, safeStrncpy, length_take] at this; omega
  unfold appendTo Lands
  rcases Nat.lt_or_ge (n - 1) folder.length with h | h
  · have hnil := hlong h []
    rw [append_nil, append_nil] at hnil
    dsimp only
    split <;> simp [hlong h r, hnil]
  · rw [safeStrncpy, take_of_length_le h]
    dsimp only
    split_ifs with hroom
    · refine ⟨.inl, fun h => h.resolve_right ?_⟩
      rintro ⟨rfl, hlt⟩; omega
    · refine ⟨fun h => .inr ⟨h, by rw [← h]; omega⟩, fun h => h.elim (fun h => ?_) And.left⟩
      have := congrArg length h
      rw [length_append] at this; omega

theorem expandPath_config (hp : p.length + 2 ≤ n) (hne : f.config ≠ []) (h : p = f.config ++ r) :
    expandPath f r n = p ↔ f.Resolves r p n := by
  have hlen := congrArg length h
  have hpos := length_pos_iff.mpr hne
  rw [length_append] at hlen
  unfold expandPath Folders.Resolves
  by_cases h₀ : r = []
  · have hp₀ : [] ≠ p := fun heq => by rw [← heq, length_nil] at hlen; omega
    simp [h₀, hp₀]
  rw [if_neg h₀]
  split_ifs with h₁ h₂ h₃
  · rw [appendTo_eq_iff hp]; exact (and_iff_right h₀).symm
  · rw [appendTo_eq_iff hp]; exact (and_iff_right h₀).symm
  · exact iff_of_true ((appendTo_eq_iff hp).mpr (.inl h.symm)) ⟨h₀, by simpa using h₃⟩
  · refine iff_of_false (fun heq => ?_) fun hr => h₃ (by simp [hr.2.1, hr.2.2])
    have := congrArg length heq
    rw [safeStrncpy, length_take] at this; omega

theorem expandPath_marked (mark : Char) (hp : p.length + 2 ≤ n) (hne : folder ≠ []) (h : p = folder ++ r)
    (hs : folder = [] ∨ ∃ d c, folder = d ++ [c] ∧ isSlash c = true) :
    marked mark (mark :: safeStrncpy (p.drop (folder.length - 1)) (n - 1)) = true ∧
      (mark :: safeStrncpy (p.drop (folder.length - 1)) (n - 1)).drop 2 = r := by
  obtain ⟨d, c, rfl, hc⟩ := hs.resolve_left hne
  have hdrop : p.drop ((d ++ [c]).length - 1) = c :: r := by simp [h]
  have hlen := congrArg length h
  simp only [length_append, length_singleton] at hlen
  have htake : safeStrncpy (c :: r) (n - 1) = c :: r := take_of_length_le (by rw [length_cons]; omega)
  rw [hdrop, htake]
  exact ⟨by simp [marked, hc], rfl⟩

/-- A path comes back from `compress_path` and `expand_path` unless it lies below the folder of the configuration
file and the rest of it is not read as a name in that folder. -/
theorem expand_compress_iff (cfgfile home data : Text) {p : Text} (hslash : p.head? = some '/') {n : Nat}
    (hp : p.length + 2 ≤ n) :
    expandPath (.prepare cfgfile home data) (compressPath (.prepare cfgfile home data) p n) n = p ↔
      ∀ r, p = configFolder cfgfile ++ r → configFolder cfgfile ≠ [] →
        (Folders.prepare cfgfile home data).Resolves r p n := by
  generalize hf : Folders.prepare cfgfile home data = f
  have hconfig : configFolder cfgfile = f.config := by rw [← hf]; rfl
  have hdata : f.data = [] ∨ ∃ d c, f.data = d ++ [c] ∧ isSlash c = true := by rw [← hf]; exact withSlash_eq data
  have hhome : f.home = [] ∨ ∃ d c, f.home = d ++ [c] ∧ isSlash c = true := by rw [← hf]; exact withSlash_eq home
  have hnil : p ≠ [] := by rintro rfl; cases hslash
  rw [hconfig, compressPath, if_neg hnil]
  simp only [decide_eq_true_eq]
  split_ifs with h₁ h₂ h₃
  · rw [starts_iff hp] at h₁
    obtain ⟨⟨hne, r, rfl⟩, heq⟩ := h₁
    rw [length_append] at hp
    rw [heq, drop_left, safeStrncpy, take_of_length_le (by omega), expandPath_config (by rwa [length_append]) hne rfl]
    exact ⟨fun h r' hr' _ => append_cancel_left hr' ▸ h, fun h => h r rfl hne⟩
  all_goals
    refine iff_of_true ?_ fun r hr hne => absurd ((starts_iff hp).mpr ⟨⟨hne, r, hr⟩, take_of_length_le (by
      have := congrArg length hr; rw [length_append] at this; omega)⟩) h₁
  · rw [starts_iff hp] at h₂
    obtain ⟨⟨hne, r, rfl⟩, heq⟩ := h₂
    obtain ⟨hmark, hrest⟩ := expandPath_marked '*' hp hne rfl hdata
    rw [heq]
    simp only [expandPath, hmark, hrest]
    rw [if_neg (by simp), if_neg (by simp [marked]), if_pos trivial]
    exact (appendTo_eq_iff hp).mpr (.inl rfl)
  · rw [starts_iff hp] at h₃
    obtain ⟨⟨hne, r, rfl⟩, heq⟩ := h₃
    obtain ⟨hmark, hrest⟩ := expandPath_marked '~' hp hne rfl hhome
    rw [heq]
    simp only [expandPath, hmark, hrest]
    rw [if_neg (by simp), if_pos trivial]
    exact (appendTo_eq_iff hp).mpr (.inl rfl)
  · have hcopy : safeStrncpy p n = p := take_of_length_le (by omega)
    rw [hcopy, expandPath, if_neg hnil]
    simp [marked, hslash, isSlash, hcopy]

theorem expand_compress_name : expandPath (.prepare "/c/x".toList [] [])
    (compressPath (.prepare "/c/x".toList [] []) "/c/a".toList 1024) 1024 = "/c/a".toList :=
  (expand_compress_iff _ _ _ rfl (by decide)).mpr fun r hr _ => by
    obtain rfl : r = ['a'] := append_cancel_left (hr.symm.trans (show _ = _ ++ ['a'] by decide))
    exact ⟨by simp, by simp [marked, isSlash]⟩

theorem config_folder_lost : expandPath (.prepare "/c/x".toList [] [])
    (compressPath (.prepare "/c/x".toList [] []) "/c/".toList 1024) 1024 ≠ "/c/".toList := by
  decide

/-! ## Copies -/

/-- What `fread` put into the buffer, and how many bytes of it `fwrite` wrote. -/
structure Chunk where
  data : Text
  written : Nat
  le : written ≤ data.length

def Chunk.kept (c : Chunk) : Text := c.data.take c.written

structure Copied where
  totcount : Nat
  outcount : Nat
  dest : Text

def Copied.next (s : Copied) (c : Chunk) : Copied :=
  ⟨s.totcount + c.data.length, s.outcount + c.written, s.dest ++ c.kept⟩

/-- `fcopy` with the chunks before the end of the file is met and the one at which it is, if both files and the
buffer are `opened`. -/
def fcopyChunks (opened : Bool) (chunks : List Chunk) (tail : Chunk) : Int × Text :=
  if !opened then (-1, [])
  else
    let s := (chunks.foldl Copied.next ⟨0, 0, []⟩).next tail
    (if s.outcount < tail.data.length then -1 else s.totcount, s.dest)

def source (chunks : List Chunk) : Text := chunks.flatMap Chunk.data

theorem foldl_next (chunks : List Chunk) (s : Copied) : chunks.foldl Copied.next s =
    ⟨s.totcount + (source chunks).length, s.outcount + (chunks.map Chunk.written).sum,
      s.dest ++ chunks.flatMap Chunk.kept⟩ := by
  induction chunks generalizing s with
  | nil => simp [source]
  | cons c chunks ih => rw [foldl_cons, ih]; simp [Copied.next, source, Nat.add_assoc]

theorem length_kept (c : Chunk) : c.kept.length = c.written := by
  rw [Chunk.kept, length_take]
  exact Nat.min_eq_left c.le

theorem length_flatMap_kept_le (chunks : List Chunk) :
    (chunks.flatMap Chunk.kept).length ≤ (source chunks).length := by
  induction chunks with
  | nil => simp
  | cons c chunks ih =>
    have := c.le
    rw [source, flatMap_cons, flatMap_cons, ← source, length_append, length_append, length_kept]; omega

theorem flatMap_kept_eq_iff (chunks : List Chunk) :
    chunks.flatMap Chunk.kept = source chunks ↔ ∀ c ∈ chunks, c.written = c.data.length := by
  induction chunks with
  | nil => simp [source]
  | cons c chunks ih =>
    rw [source, flatMap_cons, flatMap_cons, ← source, forall_mem_cons]
    constructor
    · intro h
      have hfull : c.written = c.data.length := by
        have hlen := congrArg length h
        have := c.le
        have := length_flatMap_kept_le chunks
        rw [length_append, length_append, length_kept] at hlen; omega
      rw [Chunk.kept, hfull, take_length] at h
      exact ⟨hfull, ih.mp (append_cancel_left h)⟩
    · rintro ⟨hfull, h⟩
      rw [Chunk.kept, hfull, take_length, ih.mpr h]

/-- A short write is hidden when the bytes written make up the last chunk. -/
theorem fcopy_honest_iff (opened : Bool) (chunks : List Chunk) (tail : Chunk) :
    (0 ≤ (fcopyChunks opened chunks tail).1 → (fcopyChunks opened chunks tail).2 = source (chunks ++ [tail]) ∧
      (fcopyChunks opened chunks tail).1 = (source (chunks ++ [tail])).length) ↔
    (opened = true → tail.data.length ≤ ((chunks ++ [tail]).map Chunk.written).sum →
      ∀ c ∈ chunks ++ [tail], c.written = c.data.length) := by
  cases opened with
  | false => simp [fcopyChunks]
  | true =>
    have h := foldl_next (chunks ++ [tail]) ⟨0, 0, []⟩
    rw [foldl_concat] at h
    simp only [fcopyChunks, Bool.not_true, Bool.false_eq_true, if_false, h, Nat.zero_add, nil_append,
      flatMap_kept_eq_iff, forall_const]
    split
    · simp only [Int.reduceNeg, Int.reduceLE, false_imp_iff, true_iff]; omega
    · simp only [Int.natCast_nonneg, and_true, forall_const]
      exact ⟨fun h _ => h, fun h => h (by omega)⟩

theorem short_write_hidden : fcopyChunks true [⟨['a'], 0, by decide⟩] ⟨[], 0, by decide⟩ = (1, []) ∧
    source [⟨['a'], 0, by decide⟩, ⟨[], 0, by decide⟩] = ['a'] := by
  decide

end Aranym.Config
