import Aranym.Config.Defs

/-!
# What is written

The new file as a function of the lines of the old one.
-/

namespace Aranym.Config

open Aranym.Lib List

variable {f : Folders} {s : Save} {l L : Text} {ls sec post : List Text} {file h : Text}
  {R : List (Text × Bool)}

/-! ## Reading -/

theorem fgets_line {n} (hl : '\n' ∉ l) (hn : l.length < n) (rest : Text) :
    fgets n (l ++ '\n' :: rest) = ⟨l ++ ['\n'], rest, false⟩ := by
  induction l generalizing n with
  | nil =>
    cases n with
    | zero => omega
    | succ n => simp [fgets]
  | cons c l ih =>
    rw [mem_cons, not_or] at hl
    rw [length_cons] at hn
    cases n with
    | zero => omega
    | succ n => rw [cons_append, fgets, if_neg (Ne.symm hl.1), ih hl.2 (by omega)]; rfl

theorem fgets_last {n} (hl : '\n' ∉ l) (hn : l.length < n) : fgets n l = ⟨l, [], true⟩ := by
  induction l generalizing n with
  | nil =>
    cases n with
    | zero => omega
    | succ n => rfl
  | cons c l ih =>
    rw [mem_cons, not_or] at hl
    rw [length_cons] at hn
    cases n with
    | zero => omega
    | succ n => rw [fgets, if_neg (Ne.symm hl.1), ih hl.2 (by omega)]

def full (ls : List Text) : List (Text × Bool) := ls.map fun l => (l ++ ['\n'], false)

def partialRead (L : Text) : List (Text × Bool) := if L = [] then [] else [(L, true)]

theorem reads_line (hl : '\n' ∉ l) (hn : l.length < lineMax) (rest : Text) :
    reads (l ++ '\n' :: rest) = (l ++ ['\n'], false) :: reads rest := by
  cases hs : l ++ '\n' :: rest with
  | nil => simp at hs
  | cons c s => rw [reads, ← hs, fgets_line hl hn]

theorem reads_last (hl : '\n' ∉ l) (hn : l.length < lineMax) : reads l = partialRead l := by
  cases l with
  | nil => rw [reads]; rfl
  | cons c l => rw [reads, fgets_last hl hn, reads]; rfl

/-- Every line of the file fits into the buffer of `fgets` with its line break. -/
def LinesFit (file : Text) : Prop := ∀ l ∈ lines file, l.length + 2 ≤ lineMax + 1

theorem reads_eq (hfit : LinesFit file) :
    reads file = full (complete file) ++ partialRead (lastLine file) := by
  have hreads : ∀ ls L, (∀ l ∈ ls, '\n' ∉ l ∧ l.length < lineMax) → '\n' ∉ L → L.length < lineMax →
      reads (unlines ls ++ L) = full ls ++ partialRead L := by
    intro ls L hls hL hlen
    induction ls with
    | nil => exact reads_last hL hlen
    | cons l ls ih =>
      rw [forall_mem_cons] at hls
      rw [unlines_cons, append_assoc, cons_append, reads_line hls.1.1 hls.1.2, ih hls.2]
      rfl
  have hlast : (lastLine file).length < lineMax := by
    by_cases hnil : lastLine file = []
    · rw [hnil]; decide
    · exact Nat.le_of_succ_le_succ (hfit _ (by simp [lines, hnil]))
  have hrest := hreads (complete file) (lastLine file)
    (fun l hl => ⟨not_mem_complete file l hl, Nat.le_of_succ_le_succ (hfit l (by simp [lines, hl]))⟩)
    (not_mem_lastLine file) hlast
  rwa [unlines_complete] at hrest

/-! ## Trimming -/

def tidy (l : Text) : Text := l.dropWhile isBlank

theorem drop_takeWhile (l : Text) : l.drop (l.takeWhile isBlank).length = tidy l := by
  calc l.drop (l.takeWhile isBlank).length
      = (l.takeWhile isBlank ++ l.dropWhile isBlank).drop (l.takeWhile isBlank).length := by
        rw [takeWhile_append_dropWhile]
    _ = tidy l := drop_left

theorem trim_eq (l : Text) : trim l = (tidy l).rdropWhile isBlank := by
  have hsplit : (l.takeWhile isBlank).length + (tidy l).length = l.length := by
    rw [tidy, ← length_append, takeWhile_append_dropWhile]
  simp only [trim]
  split
  · rw [drop_takeWhile]
  · next h =>
    by_cases hnil : tidy l = []
    · rw [hnil, rdropWhile_nil, rdropWhile_eq_nil_iff]; exact dropWhile_eq_nil_iff.mp hnil
    · have hpos := length_pos_iff.mpr hnil
      have hzero : (l.takeWhile isBlank).length = 0 := by omega
      rw [← drop_takeWhile l, hzero, drop_zero]

theorem trim_line (l : Text) : trim (l ++ ['\n']) = tidy l ++ ['\n'] := by
  have hblank : ¬ isBlank '\n' = true := by decide
  have htidy : tidy (l ++ ['\n']) = tidy l ++ ['\n'] := by
    induction l with
    | nil => simp [tidy, hblank]
    | cons c l ih =>
      by_cases hc : isBlank c = true
      · simpa [tidy, hc] using ih
      · simp [tidy, hc]
  rw [trim_eq, htidy, rdropWhile_concat_neg _ _ _ hblank]

theorem tidy_tidy (l : Text) : tidy (tidy l) = tidy l := dropWhile_idempotent _ _

theorem trim_tidy (l : Text) : trim (tidy l) = trim l := by rw [trim_eq, trim_eq, tidy_tidy]

theorem not_mem_tidy (hl : '\n' ∉ l) : '\n' ∉ tidy l := fun h => hl ((dropWhile_sublist _).subset h)

/-! ## Sections -/

def startsWith (h l : Text) : Bool := h.isPrefixOf (tidy l ++ ['\n'])

def opensSection (l : Text) : Bool := (tidy l).head? = some '['

def isComment (l : Text) : Bool := (tidy l).head? = some '#' || (tidy l).head? = some ';'

theorem startsWith_tidy (h l : Text) : startsWith h (tidy l) = startsWith h l := by
  rw [startsWith, startsWith, tidy_tidy]

theorem opensSection_tidy (l : Text) : opensSection (tidy l) = opensSection l := by
  rw [opensSection, opensSection, tidy_tidy]

@[simp] theorem out_print (text : Text) : (s.print text).out = s.out ++ text := rfl

@[simp] theorem print_print (a b : Text) : (s.print a).print b = s.print (a ++ b) := by simp [Save.print]

theorem findSection_before (hls : ∀ l ∈ ls, startsWith h l = false) :
    findSection h s (full ls ++ R) = findSection h (s.print (unlines (ls.map tidy))) R := by
  induction ls generalizing s with
  | nil => simp [full, Save.print]
  | cons l ls ih =>
    rw [forall_mem_cons] at hls
    have hno : h.isPrefixOf (tidy l ++ ['\n']) = false := hls.1
    rw [full, map_cons, cons_append, findSection]
    simp only [Bool.false_eq_true, ↓reduceIte, trim_line, hno]
    rw [← full, ih hls.2, print_print, map_cons, unlines_cons, append_assoc]; rfl

theorem findSection_header (hl : startsWith h l = true) :
    findSection h s ((l ++ ['\n'], false) :: R) = (s.print (tidy l ++ ['\n']), some R) := by
  have hpre : h.isPrefixOf (tidy l ++ ['\n']) = true := hl
  simp [findSection, trim_line, hpre]

theorem copyRest_full : copyRest s (full ls ++ R) = copyRest (s.print (unlines (ls.map tidy))) R := by
  induction ls generalizing s with
  | nil => simp [full, Save.print]
  | cons l ls ih =>
    rw [full, map_cons, cons_append, copyRest]
    simp only [Bool.false_eq_true, ↓reduceIte, trim_line]
    rw [← full, ih, print_print, map_cons, unlines_cons, append_assoc]; rfl

theorem copyRest_partialRead (L : Text) : copyRest s (partialRead L) = s := by
  unfold partialRead
  split
  · rfl
  · simp [copyRest]

/-! ## The section itself -/

theorem out_writeTokens (p : ConfigTag → Bool) :
    (s.writeTokens f p).out = s.out ++ (s.tags.filter p).flatMap (tokenText f) := rfl

theorem head?_tidy_line (l : Text) (c : Char) (hc : c ≠ '\n') :
    (tidy l ++ ['\n']).head? = some c ↔ (tidy l).head? = some c := by
  cases tidy l with
  | nil => simp [Ne.symm hc]
  | cons d l => simp

theorem updateSection_full (hsec : ∀ l ∈ sec, opensSection l = false) :
    ∃ s', updateSection f s (full sec ++ R) = updateSection f s' R ∧ (∃ S, s'.out = s.out ++ S) ∧
      (s.tags = [] → s'.tags = [] ∧ s'.out = s.out ++ unlines ((sec.filter isComment).map tidy)) := by
  induction sec generalizing s with
  | nil => exact ⟨s, rfl, ⟨[], by simp⟩, fun h => ⟨h, by simp⟩⟩
  | cons l sec ih =>
    rw [forall_mem_cons] at hsec
    have hopen : ¬ (tidy l).head? = some '[' := by simpa [opensSection] using hsec.1
    rw [full, map_cons, cons_append, updateSection]
    simp only [trim_line, head?_tidy_line l _ (show '#' ≠ '\n' by decide),
      head?_tidy_line l _ (show ';' ≠ '\n' by decide), head?_tidy_line l _ (show '[' ≠ '\n' by decide),
      hopen, Bool.false_eq_true, or_self, ↓reduceIte]
    rw [← full]
    by_cases hcom : (tidy l).head? = some '#' ∨ (tidy l).head? = some ';'
    · have hl : isComment l = true := by simpa [isComment] using hcom
      rw [if_pos hcom]
      obtain ⟨s', heq, ⟨S, hS⟩, htags⟩ := ih hsec.2 (s := s.print (tidy l ++ ['\n']))
      refine ⟨s', heq, ⟨tidy l ++ ['\n'] ++ S, ?_⟩, fun h => ⟨(htags h).1, ?_⟩⟩
      · rw [hS, out_print, append_assoc]
      · rw [(htags h).2, out_print, filter_cons_of_pos hl, map_cons, unlines_cons]; simp
    · have hl : ¬ isComment l = true := by simpa [isComment] using hcom
      rw [if_neg hcom]
      rw [filter_cons_of_neg hl]
      split
      · exact ih hsec.2
      · next tok _ =>
        obtain ⟨s', heq, ⟨S, hS⟩, htags⟩ :=
          ih hsec.2 (s := s.writeTokens f fun t => strcasecmp tok t.code)
        refine ⟨s', heq, ⟨_, by rw [hS, out_writeTokens, append_assoc]⟩, fun h => ?_⟩
        obtain ⟨hnil, hout⟩ := htags (by simp [Save.writeTokens, h])
        exact ⟨hnil, by rw [hout, out_writeTokens, h]; simp⟩

theorem updateSection_open (hl : opensSection l = true) :
    updateSection f s ((l ++ ['\n'], false) :: R) = (s, some (tidy l ++ ['\n']), R) := by
  have hopen : (tidy l).head? = some '[' := by simpa [opensSection] using hl
  simp [updateSection, trim_line, hopen]

theorem head?_trim (l : Text) : (trim l).head? = (tidy l).head? := by
  rw [trim_eq]
  cases hl : tidy l with
  | nil => simp
  | cons c m =>
    have hc : ¬ isBlank c = true := by
      have hhead := List.head?_dropWhile_not isBlank l
      rw [← tidy, hl] at hhead; simpa using hhead
    obtain ⟨t, ht⟩ := rdropWhile_prefix isBlank (c :: m)
    cases hm : (c :: m).rdropWhile isBlank with
    | nil => exact absurd (rdropWhile_eq_nil_iff.mp hm c mem_cons_self) hc
    | cons d n => rw [hm, cons_append, List.cons.injEq] at ht; simp [ht.1]

theorem updateSection_partialRead (L : Text) :
    ∃ s', updateSection f s (partialRead L) = (s', none, []) ∧ s'.tags = s.tags ∧
      (∃ S, s'.out = s.out ++ S) ∧ (isComment L = false → s' = s) := by
  unfold partialRead
  split
  · exact ⟨s, rfl, rfl, ⟨[], by simp⟩, fun _ => rfl⟩
  · rw [updateSection, head?_trim]
    by_cases hcom : (tidy L).head? = some '#' ∨ (tidy L).head? = some ';'
    · have hL : isComment L = true := by simpa [isComment] using hcom
      refine ⟨s.print (trim L), by simp [hcom, updateSection], rfl, ⟨_, rfl⟩, fun h => ?_⟩
      rw [hL] at h; cases h
    · exact ⟨s, by simp [hcom], rfl, ⟨[], by simp⟩, fun _ => rfl⟩

theorem saveSection_out (hsec : ∀ l ∈ sec, opensSection l = false)
    (hpost : ∀ l ∈ post.head?, opensSection l = true) :
    ∃ S, (saveSection f s (full (sec ++ post) ++ partialRead L)).out =
        s.out ++ S ++ (if post = [] then [] else '\n' :: unlines (post.map tidy)) ∧
      (s.tags = [] → post ≠ [] ∨ isComment L = false → S = unlines ((sec.filter isComment).map tidy)) := by
  obtain ⟨s', heq, ⟨S, hS⟩, htags⟩ :=
    updateSection_full (f := f) (s := s) (R := full post ++ partialRead L) hsec
  have hreads : full (sec ++ post) ++ partialRead L = full sec ++ (full post ++ partialRead L) := by
    rw [full, map_append, append_assoc]; rfl
  rw [saveSection, hreads, heq]
  cases post with
  | nil =>
    obtain ⟨s'', hend, htags', ⟨S', hS'⟩, hsame⟩ := updateSection_partialRead (f := f) (s := s') L
    rw [full, map_nil, nil_append, hend]
    refine ⟨S ++ S' ++ (s''.tags.filter fun t => !t.stat).flatMap (tokenText f), ?_, fun h hL => ?_⟩
    · simp only [copyRest, out_writeTokens, hS', hS, ↓reduceIte, append_assoc, append_nil]
    · obtain ⟨hnil, hout⟩ := htags h
      have hs : s'' = s' := hsame (hL.resolve_left (by simp))
      rw [hs] at hS' ⊢
      rw [hS] at hout
      rw [self_eq_append_right.mp hS', hnil, append_cancel_left hout]; simp
  | cons o post =>
    rw [full, map_cons, cons_append, ← full, updateSection_open (hpost o rfl)]
    dsimp only
    rw [copyRest_full, copyRest_partialRead, print_print, out_print, out_writeTokens, hS]
    refine ⟨S ++ (s'.tags.filter fun t => !t.stat).flatMap (tokenText f), ?_, fun h _ => ?_⟩
    · simp
    · obtain ⟨hnil, hout⟩ := htags h; rw [hS] at hout; rw [hnil, append_cancel_left hout]; simp

end Aranym.Config
