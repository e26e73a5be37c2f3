import Aranym.Config.Lemmas.Save

/-!
# Saving one section keeps the others

The lines outside the saved section are kept, but for a last line without newline: `fgets` meets the end of the
file on it, and then it is not written.
-/

namespace Aranym.Config

open Aranym.Lib List

variable {f : Folders} {file h : Text} {ls ls' : List Text} {header : Option Text} {tags : List ConfigTag}

/-- The lines that are not in the section of the header. A section starts with the line of its header, or for no
header at the beginning, and ends in front of the first line of the next section. -/
def outside (header : Option Text) (ls : List Text) : List Text :=
  match header with
  | none => ls.dropWhile fun l => !opensSection l
  | some h => ls.takeWhile (fun l => !startsWith h l) ++
      ((ls.dropWhile fun l => !startsWith h l).drop 1).dropWhile fun l => !opensSection l

/-- Every line outside the section is kept, in its order, up to blanks. -/
def Preserved (header : Option Text) (old new : Text) : Prop :=
  ((outside header (lines old)).map trim).Sublist ((outside header (lines new)).map trim)

/-- The last line is in the section or has a newline; or the section is missing, and the last line is one of those
that are written in front of the new section. -/
def Kept (header : Option Text) (file : Text) : Prop :=
  outside header (lines file) = outside header (complete file) ∨
    ∃ h, header = some h ∧ (∀ l ∈ lines file, startsWith h l = false) ∧
      trim (lastLine file) ∈ (outside header (lines ('\n' :: h ++ ['\n']))).map trim

/-! ## Lines outside a section -/

/-- `lead` goes up to the beginning of the section, `before` are the lines of it that are outside. -/
inductive Lead : Option Text → List Text → List Text → Prop
  | top : Lead none [] []
  | found {h : Text} {before : List Text} {hdr : Text} (hbefore : ∀ l ∈ before, startsWith h l = false)
      (hhdr : startsWith h hdr = true) : Lead (some h) before (before ++ [hdr])

variable {before lead sec post : List Text}

theorem takeWhile_append_of_all {p} (hls : ∀ l ∈ ls, p l = true) (ls' : List Text) :
    (ls ++ ls').takeWhile p = ls ++ ls'.takeWhile p := by
  induction ls with
  | nil => rfl
  | cons l ls ih =>
    rw [forall_mem_cons] at hls
    rw [cons_append, takeWhile_cons_of_pos hls.1, ih hls.2, cons_append]

theorem dropWhile_append_of_all {p} (hls : ∀ l ∈ ls, p l = true) (ls' : List Text) :
    (ls ++ ls').dropWhile p = ls'.dropWhile p := by
  induction ls with
  | nil => rfl
  | cons l ls ih =>
    rw [forall_mem_cons] at hls
    rw [cons_append, dropWhile_cons_of_pos hls.1, ih hls.2]

theorem outside_missing (hls : ∀ l ∈ ls, startsWith h l = false) (ls' : List Text) :
    outside (some h) (ls ++ ls') = ls ++ outside (some h) ls' := by
  have hnot : ∀ l ∈ ls, (!startsWith h l) = true := fun l hl => by rw [hls l hl]; rfl
  rw [outside, takeWhile_append_of_all hnot, dropWhile_append_of_all hnot, append_assoc, outside]

theorem outside_missing_self (hls : ∀ l ∈ ls, startsWith h l = false) : outside (some h) ls = ls := by
  have hnil := outside_missing hls []
  rwa [append_nil, show outside (some h) [] = [] from rfl, append_nil] at hnil

theorem outside_lead (hlead : Lead header before lead) (ls : List Text) :
    outside header (lead ++ ls) = before ++ ls.dropWhile fun l => !opensSection l := by
  cases hlead with
  | top => rfl
  | found hbefore hhdr => rw [append_assoc, outside_missing hbefore, outside]; simp [hhdr]

theorem dropWhile_post (hsec : ∀ l ∈ sec, opensSection l = false)
    (hpost : ∀ l ∈ post.head?, opensSection l = true) :
    ((sec ++ post).dropWhile fun l => !opensSection l) = post := by
  rw [dropWhile_append_of_all fun l hl => by rw [hsec l hl]; rfl]
  cases post with
  | nil => rfl
  | cons o post => exact dropWhile_cons_of_neg (by rw [hpost o rfl]; decide)

theorem post_sublist_dropWhile (ls : List Text) (hpost : ∀ l ∈ post.head?, opensSection l = true) :
    post.Sublist ((ls ++ post).dropWhile fun l => !opensSection l) := by
  rw [dropWhile_append]
  split
  · rw [← nil_append post, dropWhile_post (by simp) hpost]; exact List.Sublist.refl _
  · exact sublist_append_right _ _

theorem dropWhile_append_sublist (p : Text → Bool) (ls ls' : List Text) :
    (ls.dropWhile p).Sublist ((ls ++ ls').dropWhile p) := by
  rw [dropWhile_append]
  split
  · next hempty => rw [List.isEmpty_iff.mp hempty]; exact nil_sublist _
  · exact sublist_append_left _ _

theorem exists_lead (header : Option Text) (ls : List Text) :
    (∃ h, header = some h ∧ ∀ l ∈ ls, startsWith h l = false) ∨
      ∃ before lead sec post, Lead header before lead ∧ ls = lead ++ (sec ++ post) ∧
        (∀ l ∈ sec, opensSection l = false) ∧ ∀ l ∈ post.head?, opensSection l = true := by
  have hcut : ∀ ls : List Text, ∃ sec post, ls = sec ++ post ∧ (∀ l ∈ sec, opensSection l = false) ∧
      ∀ l ∈ post.head?, opensSection l = true := by
    intro ls
    refine ⟨_, _, (takeWhile_append_dropWhile (p := fun l => !opensSection l)).symm, ?_, ?_⟩
    · intro l hl; simpa using mem_takeWhile_imp hl
    · intro l hl
      have hhead := List.head?_dropWhile_not (fun l => !opensSection l) ls
      rw [hl] at hhead; simpa using hhead
  cases header with
  | none =>
    obtain ⟨sec, post, hls, hsec, hpost⟩ := hcut ls
    exact .inr ⟨[], [], sec, post, .top, hls, hsec, hpost⟩
  | some h =>
    cases hd : ls.dropWhile fun l => !startsWith h l with
    | nil => refine .inl ⟨h, rfl, fun l hl => ?_⟩; simpa using dropWhile_eq_nil_iff.mp hd l hl
    | cons hdr rest =>
      obtain ⟨sec, post, rfl, hsec, hpost⟩ := hcut rest
      have hhead := List.head?_dropWhile_not (fun l => !startsWith h l) ls
      rw [hd] at hhead
      have hhdr : startsWith h hdr = true := by simpa using hhead
      refine .inr ⟨ls.takeWhile (fun l => !startsWith h l), _, sec, post,
        .found (fun l hl => ?_) hhdr, ?_, hsec, hpost⟩
      · simpa using mem_takeWhile_imp hl
      · rw [append_assoc, singleton_append, ← hd, takeWhile_append_dropWhile]

theorem Lead.tidy (hlead : Lead header before lead) : Lead header (before.map tidy) (lead.map tidy) := by
  cases hlead with
  | top => exact .top
  | found hbefore hhdr =>
    rw [map_append, map_singleton]
    refine .found ?_ (by rwa [startsWith_tidy])
    rw [forall_mem_map]
    intro l hl
    rw [startsWith_tidy]; exact hbefore l hl

/-! ## The new file -/

theorem fcopy_eq (s : Text) : fcopy s = s := by
  induction hn : s.length using Nat.strong_induction_on generalizing s with
  | _ n ih =>
    rw [fcopy]
    split
    · rfl
    · rw [ih (s.drop 1024).length (by rw [length_drop]; omega) _ rfl, take_append_drop]

theorem lines_nil : lines [] = [] := rfl

theorem saveFile_missing (hfit : LinesFit file) (hmiss : ∀ l ∈ complete file, startsWith h l = false)
    (tags : List ConfigTag) : ∃ X, (saveFile f (some file) (some h) tags).out =
      unlines ((complete file).map tidy) ++ ('\n' :: h ++ '\n' :: X) ∧ (tags = [] → X = []) := by
  have hend : ∀ s : Save, findSection h s (partialRead (lastLine file)) = (s, none) := by
    intro s
    unfold partialRead
    split
    · rfl
    · simp [findSection]
  simp only [saveFile, reads_eq hfit, findSection_before hmiss, hend, newSection, out_writeTokens,
    out_print]
  refine ⟨((tags.map fun t => { t with stat := false }).filter fun _ => true).flatMap (tokenText f), ?_,
    fun h => by rw [h]; rfl⟩
  simp only [nil_append, append_assoc, cons_append]
  rfl

theorem saveFile_found (hfit : LinesFit file) (hlead : Lead header before lead)
    (hfile : complete file = lead ++ (sec ++ post)) (hsec : ∀ l ∈ sec, opensSection l = false)
    (hpost : ∀ l ∈ post.head?, opensSection l = true) (tags : List ConfigTag) :
    ∃ S, (saveFile f (some file) header tags).out = unlines (lead.map tidy) ++
        (S ++ if post = [] then [] else '\n' :: unlines (post.map tidy)) ∧
      (tags = [] → post ≠ [] ∨ isComment (lastLine file) = false →
        S = unlines ((sec.filter isComment).map tidy)) := by
  have hsave : ∃ s : Save, saveFile f (some file) header tags =
      saveSection f s (full (sec ++ post) ++ partialRead (lastLine file)) ∧
      s.out = unlines (lead.map tidy) ∧ (tags = [] → s.tags = []) := by
    cases hlead with
    | top =>
      refine ⟨⟨[], tags.map fun t => { t with stat := false }, 0⟩, ?_, rfl, fun h => by simp [h]⟩
      rw [saveFile, reads_eq hfit, hfile]; rfl
    | @found h before hdr hbefore hhdr =>
      have hreads : full (before ++ [hdr] ++ (sec ++ post)) ++ partialRead (lastLine file) =
          full before ++ ((hdr ++ ['\n'], false) :: (full (sec ++ post) ++ partialRead (lastLine file))) := by
        simp [full]
      simp only [saveFile, reads_eq hfit, hfile, hreads, findSection_before hbefore,
        findSection_header hhdr]
      refine ⟨_, rfl, ?_, fun h => by simp [Save.print, h]⟩
      simp [Save.print, unlines_append]
  obtain ⟨s, heq, hout, htags⟩ := hsave
  obtain ⟨S, hS, hnil⟩ := saveSection_out (f := f) (s := s) (L := lastLine file) hsec hpost
  exact ⟨S, by rw [heq, hS, hout, append_assoc], fun h => hnil (htags h)⟩

/-! ## What is kept -/

theorem not_mem_tidy_complete (file : Text) : ∀ l ∈ (complete file).map tidy, '\n' ∉ l := by
  rw [forall_mem_map]
  exact fun l hl => not_mem_tidy (not_mem_complete file l hl)

theorem map_trim_eq (ls : List Text) : ls.map trim = (ls.map tidy).map trim := by
  rw [map_map]
  exact map_congr_left fun l _ => (trim_tidy l).symm

theorem outside_missing_out (hfit : LinesFit file) (hmiss : ∀ l ∈ complete file, startsWith h l = false)
    (tags : List ConfigTag) : ∃ X, outside (some h) (lines (saveFile f (some file) (some h) tags).out) =
        (complete file).map tidy ++ outside (some h) (lines ('\n' :: h ++ '\n' :: X)) ∧
      (tags = [] → X = []) := by
  obtain ⟨X, hX, hnil⟩ := saveFile_missing (f := f) hfit hmiss tags
  refine ⟨X, ?_, hnil⟩
  rw [hX, lines_unlines (not_mem_tidy_complete file), outside_missing]
  rw [forall_mem_map]
  intro l hl
  rw [startsWith_tidy]
  exact hmiss l hl

theorem outside_found_out (hfit : LinesFit file) (hlead : Lead header before lead)
    (hfile : complete file = lead ++ (sec ++ post)) (hsec : ∀ l ∈ sec, opensSection l = false)
    (hpost : ∀ l ∈ post.head?, opensSection l = true) (tags : List ConfigTag) : ∃ ls,
      outside header (lines (saveFile f (some file) header tags).out) = before.map tidy ++
        ((ls ++ post.map tidy).dropWhile fun l => !opensSection l) ∧
      (tags = [] → post ≠ [] ∨ isComment (lastLine file) = false → ∀ l ∈ ls, opensSection l = false) := by
  obtain ⟨S, hS, hnil⟩ := saveFile_found (f := f) hfit hlead hfile hsec hpost tags
  have hnl : ∀ l ∈ lead.map tidy, '\n' ∉ l := by
    intro l hl
    refine not_mem_tidy_complete file l ?_
    rw [hfile, map_append]; exact mem_append_left _ hl
  have hnl' : ∀ l ∈ post.map tidy, '\n' ∉ l := by
    intro l hl
    refine not_mem_tidy_complete file l ?_
    rw [hfile, map_append, map_append]
    exact mem_append_right _ (mem_append_right _ hl)
  have hcomments : ∀ l ∈ (sec.filter isComment).map tidy, '\n' ∉ l ∧ opensSection l = false := by
    rw [forall_mem_map]
    intro l hl
    have hl' := (mem_filter.mp hl).1
    refine ⟨not_mem_tidy_complete file _ ?_, by rw [opensSection_tidy, hsec l hl']⟩
    rw [hfile]; exact mem_map_of_mem (mem_append_right _ (mem_append_left _ hl'))
  rw [hS, lines_unlines hnl, outside_lead hlead.tidy]
  by_cases hp : post = []
  · refine ⟨lines S, by simp [hp], fun htags hL => ?_⟩
    rw [hnil htags hL, ← append_nil (unlines _), lines_unlines fun l hl => (hcomments l hl).1, lines_nil,
      append_nil]
    exact fun l hl => (hcomments l hl).2
  · refine ⟨complete S ++ [lastLine S], ?_, fun htags hL => ?_⟩
    · rw [if_neg hp, lines_newline, ← append_nil (unlines _), lines_unlines hnl', lines_nil]; simp
    · obtain ⟨hcomplete, hlast⟩ := complete_unlines (fun l hl => (hcomments l hl).1) []
      rw [append_nil] at hcomplete hlast
      rw [hnil htags hL, hcomplete, hlast]
      intro l hl
      simp only [complete, lastLine, append_nil, mem_append, mem_singleton] at hl
      rcases hl with hl | rfl
      · exact (hcomments l hl).2
      · rfl

theorem outside_complete (hlead : Lead header before lead) (hsec : ∀ l ∈ sec, opensSection l = false)
    (hpost : ∀ l ∈ post.head?, opensSection l = true) : outside header (lead ++ (sec ++ post)) = before ++ post := by
  rw [outside_lead hlead, dropWhile_post hsec hpost]

theorem head?_map_tidy (hpost : ∀ l ∈ post.head?, opensSection l = true) :
    ∀ l ∈ (post.map tidy).head?, opensSection l = true := by
  cases post with
  | nil => simp
  | cons o post =>
    intro l hl
    obtain rfl : tidy o = l := by simpa using hl
    rw [opensSection_tidy]; exact hpost o rfl

theorem complete_kept (hfit : LinesFit file) (tags : List ConfigTag) :
    ((outside header (complete file)).map trim).Sublist
      ((outside header (lines (saveFile f (some file) header tags).out)).map trim) := by
  rcases exists_lead header (complete file) with
    ⟨h, rfl, hmiss⟩ | ⟨before, lead, sec, post, hlead, hfile, hsec, hpost⟩
  · obtain ⟨X, hX, -⟩ := outside_missing_out (f := f) hfit hmiss tags
    rw [hX, outside_missing_self hmiss, map_append, ← map_trim_eq]
    exact sublist_append_left _ _
  · obtain ⟨ls, hls, -⟩ := outside_found_out (f := f) hfit hlead hfile hsec hpost tags
    rw [hls, hfile, outside_complete hlead hsec hpost, map_trim_eq, map_append]
    exact (List.Sublist.append (List.Sublist.refl _)
      (post_sublist_dropWhile ls (head?_map_tidy hpost))).map trim

theorem outside_append (ls ls' : List Text) :
    (outside (some h) ls).Sublist (outside (some h) (ls ++ ls')) := by
  rcases exists_lead (some h) ls with
    ⟨_, heq, hmiss⟩ | ⟨before, lead, sec, post, hlead, hfile, hsec, hpost⟩
  · cases heq; rw [outside_missing_self hmiss, outside_missing hmiss]; exact sublist_append_left _ _
  · rw [hfile, append_assoc, outside_lead hlead, outside_lead hlead]
    exact (List.Sublist.refl _).append (dropWhile_append_sublist _ _ _)

theorem outside_concat (header : Option Text) (ls : List Text) (L : Text) :
    outside header (ls ++ [L]) = outside header ls ∨
      outside header (ls ++ [L]) = outside header ls ++ [L] := by
  rcases exists_lead header ls with
    ⟨h, rfl, hmiss⟩ | ⟨before, lead, sec, post, hlead, rfl, hsec, hpost⟩
  · rw [outside_missing_self hmiss, outside_missing hmiss, outside]
    by_cases hL : startsWith h L = true
    · exact .inl (by simp [hL])
    · exact .inr (by simp [hL])
  · rw [append_assoc, outside_lead hlead, outside_complete hlead hsec hpost,
      dropWhile_append, dropWhile_post hsec hpost]
    split
    · next hempty =>
      rw [List.isEmpty_iff.mp hempty]
      by_cases hL : opensSection L = true
      · exact .inr (by simp [hL])
      · exact .inl (by simp [hL])
    · exact .inr (by rw [append_assoc])

theorem mem_of_concat_sublist {x} (hsub : (ls ++ [x]).Sublist (ls ++ ls')) : x ∈ ls' := by
  obtain ⟨l₁, l₂, heq, h₁, h₂⟩ := sublist_append_iff.mp hsub
  rcases eq_nil_or_concat l₂ with rfl | ⟨l₂, y, rfl⟩
  · have hlen := h₁.length_le
    rw [append_nil] at heq
    rw [← heq, length_append, length_singleton] at hlen; omega
  · rw [concat_eq_append, ← append_assoc] at heq
    obtain ⟨-, hxy⟩ := append_inj' heq rfl
    rw [singleton_inj.mp hxy]; exact h₂.subset (by simp)

theorem lines_eq (file : Text) : lines file = complete file ∨
    lastLine file ≠ [] ∧ lines file = complete file ++ [lastLine file] := by
  by_cases hL : lastLine file = []
  · exact .inl (by simp [lines, hL])
  · exact .inr ⟨hL, by simp [lines, hL]⟩

theorem Kept.preserved (hfit : LinesFit file) (hkept : Kept header file) (tags : List ConfigTag) :
    Preserved header file (saveFile f (some file) header tags).out := by
  rcases hkept with heq | ⟨h, rfl, hmiss, hlast⟩
  · rw [Preserved, heq]; exact complete_kept hfit tags
  · have hmiss' : ∀ l ∈ complete file, startsWith h l = false := fun l hl => hmiss l (by simp [lines, hl])
    obtain ⟨X, hX, -⟩ := outside_missing_out (f := f) hfit hmiss' tags
    rw [Preserved, outside_missing_self hmiss, hX, map_append, ← map_trim_eq]
    have hnew : ∃ ls', lines ('\n' :: h ++ '\n' :: X) = lines ('\n' :: h ++ ['\n']) ++ ls' := by
      refine ⟨lines X, ?_⟩
      rw [lines_newline, lines_newline, lines_nil]; simp
    obtain ⟨ls', hls'⟩ := hnew
    rcases lines_eq file with hlines | ⟨-, hlines⟩
    · rw [hlines]; exact sublist_append_left _ _
    · rw [hlines, map_append, hls']
      refine (List.Sublist.refl _).append (singleton_sublist.mpr ?_)
      exact ((outside_append _ ls').map trim).subset hlast

theorem kept_of_preserved (hfit : LinesFit file)
    (hpres : Preserved header file (saveFile f (some file) header []).out) : Kept header file := by
  rcases lines_eq file with hlines | ⟨-, hlines⟩
  · exact .inl (by rw [hlines])
  rcases outside_concat header (complete file) (lastLine file) with heq | heq
  · exact .inl (by rw [hlines, heq])
  rw [Preserved, hlines, heq] at hpres
  rcases exists_lead header (complete file) with
    ⟨h, rfl, hmiss⟩ | ⟨before, lead, sec, post, hlead, hfile, hsec, hpost⟩
  · refine .inr ⟨h, rfl, ?_, ?_⟩
    · rw [hlines, forall_mem_append, forall_mem_singleton]
      refine ⟨hmiss, Bool.eq_false_iff.mpr fun hL => ?_⟩
      rw [outside_missing hmiss, outside_missing_self hmiss, append_cancel_left_eq] at heq
      simp [outside, hL] at heq
    · obtain ⟨X, hX, hnil⟩ := outside_missing_out (f := f) hfit hmiss []
      rw [hX, hnil rfl, outside_missing_self hmiss, map_append, map_append, ← map_trim_eq] at hpres
      exact mem_of_concat_sublist hpres
  · exfalso
    have hcomment : post ≠ [] ∨ isComment (lastLine file) = false := by
      by_cases hp : post = []
      · -- the last line would start the next section
        refine .inr ?_
        rw [hfile, append_assoc, outside_lead hlead, outside_complete hlead hsec hpost, hp,
          append_nil, dropWhile_append_of_all fun l hl => by rw [hsec l hl]; rfl,
          append_nil, append_cancel_left_eq] at heq
        by_cases hL : opensSection (lastLine file) = true
        · have hopen : (tidy (lastLine file)).head? = some '[' := by simpa [opensSection] using hL
          simp [isComment, hopen]
        · simp [hL] at heq
      · exact .inl hp
    obtain ⟨ls, hls, hnil⟩ := outside_found_out (f := f) hfit hlead hfile hsec hpost []
    have hlen := hpres.length_le
    rw [hls, dropWhile_post (hnil rfl hcomment) (head?_map_tidy hpost), hfile,
      outside_complete hlead hsec hpost] at hlen
    simp only [map_append, length_append, length_map, length_cons,
      length_nil] at hlen
    omega

theorem updateConfig_opened (f : Folders) (file header : Option Text) (tags : List ConfigTag) :
    updateConfig ⟨true, true⟩ f file header tags =
      (((saveFile f file header tags).count : Int), some (saveFile f file header tags).out) := by
  rw [updateConfig]
  simp only [Bool.not_true, Bool.false_eq_true, ↓reduceIte, fcopy_eq]

/-- Saving a section keeps the other lines, whatever the tags, exactly if the last line is kept. -/
theorem preserved_iff (hfit : LinesFit file) :
    (∀ env f tags result new, updateConfig env f (some file) header tags = (result, some new) →
      0 ≤ result → Preserved header file new) ↔ Kept header file := by
  constructor
  · intro h
    exact kept_of_preserved hfit (h ⟨true, true⟩ ⟨[], [], []⟩ [] _ _
      (updateConfig_opened _ _ _ _) (Int.natCast_nonneg _))
  · rintro hkept ⟨temp, config⟩ f tags result new heq hresult
    cases temp with
    | false => obtain ⟨rfl, -⟩ := Prod.mk.inj heq; omega
    | true =>
      cases config with
      | false => obtain ⟨rfl, -⟩ := Prod.mk.inj heq; omega
      | true =>
        rw [updateConfig_opened] at heq
        obtain ⟨-, hnew⟩ := Prod.mk.inj heq
        cases hnew
        exact hkept.preserved hfit tags

theorem preserved_newline : Preserved (some "[A]".toList) "[A]\nx = No\n[B]\ny = 2\n".toList
      (saveFile ⟨[], [], []⟩ (some "[A]\nx = No\n[B]\ny = 2\n".toList) (some "[A]".toList)
        [⟨"x".toList, .bool true, false⟩]).out := by
  have hfit : LinesFit "[A]\nx = No\n[B]\ny = 2\n".toList := by unfold LinesFit; decide
  have hkept : Kept (some "[A]".toList) "[A]\nx = No\n[B]\ny = 2\n".toList := .inl (by decide)
  exact (preserved_iff hfit).mpr hkept ⟨true, true⟩ _ _ _ _ (updateConfig_opened _ _ _ _)
    (Int.natCast_nonneg _)

theorem last_line_lost : let file := "[A]\nx = No\n[B]\ny = 2".toList
    let new := "[A]\nx = Yes\n\n[B]\n".toList
    updateConfig ⟨true, true⟩ ⟨[], [], []⟩ (some file) (some "[A]".toList)
        [⟨"x".toList, .bool true, false⟩] = (1, some new) ∧
      "y = 2".toList ∈ outside (some "[A]".toList) (lines file) ∧
      "y = 2".toList ∉ (lines new).map trim ∧ ¬ Preserved (some "[A]".toList) file new := by
  unfold Preserved
  decide +kernel

end Aranym.Config
