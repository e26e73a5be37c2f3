
/-!
# Lines of a text

A text is a sequence of lines that end with a newline, and what follows the last newline.
-/

namespace Aranym.Lib

open List

abbrev Text := List Char

variable {s t : Text} {ls : List Text}

def complete : Text → List Text
  | [] => []
  | c :: s =>
    if c = '\n' then [] :: complete s
    else match complete s with
      | [] => []
      | l :: ls => (c :: l) :: ls

def lastLine : Text → Text
  | [] => []
  | c :: s =>
    if c = '\n' then lastLine s
    else if complete s = [] then c :: lastLine s else lastLine s

def unlines (ls : List Text) : Text := ls.flatMap (· ++ ['\n'])

def lines (s : Text) : List Text := complete s ++ if lastLine s = [] then [] else [lastLine s]

@[simp] theorem unlines_nil : unlines [] = [] := rfl

@[simp] theorem unlines_cons (l : Text) : unlines (l :: ls) = l ++ '\n' :: unlines ls := by simp [unlines]

theorem unlines_append (ls ls' : List Text) : unlines (ls ++ ls') = unlines ls ++ unlines ls' :=
  flatMap_append

theorem complete_cons_newline (s : Text) : complete ('\n' :: s) = [] :: complete s := by simp [complete]

theorem lastLine_cons_newline (s : Text) : lastLine ('\n' :: s) = lastLine s := by simp [lastLine]

theorem unlines_complete (s : Text) : unlines (complete s) ++ lastLine s = s := by
  induction s with
  | nil => rfl
  | cons c s ih =>
    by_cases hc : c = '\n'
    · subst hc
      rw [complete_cons_newline, lastLine_cons_newline, unlines_cons, nil_append,
        cons_append, ih]
    · cases hs : complete s with
      | nil => rw [hs, unlines_nil, nil_append] at ih; simp [complete, lastLine, hc, hs, ih]
      | cons l ls =>
        rw [hs] at ih
        simp only [complete, lastLine, hc, hs, ↓reduceIte, cons_ne_nil, unlines_cons,
          cons_append] at ih ⊢
        rw [ih]

theorem not_mem_complete (s : Text) : ∀ l ∈ complete s, '\n' ∉ l := by
  induction s with
  | nil => simp [complete]
  | cons c s ih =>
    by_cases hc : c = '\n'
    · subst hc; rw [complete_cons_newline, forall_mem_cons]; exact ⟨not_mem_nil, ih⟩
    · cases hs : complete s with
      | nil => simp [complete, hc, hs]
      | cons l ls =>
        rw [hs, forall_mem_cons] at ih
        simp only [complete, hc, hs, ↓reduceIte, forall_mem_cons]
        exact ⟨by simp [Ne.symm hc, ih.1], ih.2⟩

theorem not_mem_lastLine (s : Text) : '\n' ∉ lastLine s := by
  induction s with
  | nil => simp [lastLine]
  | cons c s ih =>
    by_cases hc : c = '\n'
    · subst hc; rwa [lastLine_cons_newline]
    · simp only [lastLine, hc, ↓reduceIte]
      split
      · simp [Ne.symm hc, ih]
      · exact ih

theorem complete_line {l} (hl : '\n' ∉ l) (s : Text) :
    complete (l ++ '\n' :: s) = l :: complete s ∧ lastLine (l ++ '\n' :: s) = lastLine s := by
  induction l with
  | nil => exact ⟨complete_cons_newline s, lastLine_cons_newline s⟩
  | cons c l ih =>
    rw [mem_cons, not_or] at hl
    obtain ⟨hcomplete, hlast⟩ := ih hl.2
    have hc : ¬ c = '\n' := fun h => hl.1 h.symm
    rw [cons_append]
    simp only [complete, lastLine, hc, hcomplete, hlast, ↓reduceIte, cons_ne_nil, and_self]

theorem complete_unlines (hls : ∀ l ∈ ls, '\n' ∉ l) (s : Text) :
    complete (unlines ls ++ s) = ls ++ complete s ∧ lastLine (unlines ls ++ s) = lastLine s := by
  induction ls with
  | nil => exact ⟨rfl, rfl⟩
  | cons l ls ih =>
    rw [forall_mem_cons] at hls
    obtain ⟨hcomplete, hlast⟩ := ih hls.2
    rw [unlines_cons, append_assoc, cons_append, (complete_line hls.1 _).1,
      (complete_line hls.1 _).2, hcomplete, hlast]
    exact ⟨rfl, rfl⟩

theorem lines_unlines (hls : ∀ l ∈ ls, '\n' ∉ l) (s : Text) : lines (unlines ls ++ s) = ls ++ lines s := by
  rw [lines, (complete_unlines hls s).1, (complete_unlines hls s).2, append_assoc, lines]

theorem lines_newline (s t : Text) : lines (s ++ '\n' :: t) = complete s ++ lastLine s :: lines t := by
  have hs : s ++ '\n' :: t = unlines (complete s) ++ (lastLine s ++ '\n' :: t) := by
    rw [← append_assoc, unlines_complete]
  rw [hs, lines_unlines (not_mem_complete s), lines, (complete_line (not_mem_lastLine s) t).1,
    (complete_line (not_mem_lastLine s) t).2]
  rfl

end Aranym.Lib
