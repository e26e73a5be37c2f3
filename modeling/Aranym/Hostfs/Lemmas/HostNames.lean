import Aranym.Hostfs.Defs
import Aranym.Hostfs.Lemmas.Transform
import Aranym.Lib.Paths

/-!
# Host names and folders

A name that `getHostFileName` puts in place of another leads to the same number of folders below the start, and so
it does without the separator that is cut off when more is put behind it.
-/

namespace Aranym.Hostfs

open Aranym.Lib List

variable {d d' : Nat} {n g : Name} {half : Bool} {host : Host} {dir root path : Path} {entry : Dirent}

abbrev here : Name := [dot]

abbrev up : Name := [dot, dot]

def descends (d : Nat) (n : Name) : Option Nat := descend here up d (parts slash n)

abbrev LevelAt (root path : Path) (d : Nat) : Prop := Level slash here up root path d

/-! ## The end of a name -/

theorem descends_append_slash (d : Nat) (n : Name) : descends d (n ++ [slash]) = descends d n := by
  rw [descends, parts_append, descend_append]
  cases h : descend here up d (parts slash n) with
  | none => rw [descends, h]; rfl
  | some d' => rw [descends, h]; rfl

theorem descends_strip (d : Nat) (h : n.getLast? ≠ some backslash) : descends d (stripSeparator n) = descends d n := by
  rw [stripSeparator]
  split
  · next hlast =>
    obtain ⟨m, rfl⟩ := List.getLast?_eq_some_iff.mp (hlast.resolve_left h)
    rw [dropLast_concat, descends_append_slash]
  · rfl

/-! ## One part -/

theorem descends_part (hslash : slash ∉ n) : descends d n = descendPart here up d n := by
  rw [descends, parts_of_notMem hslash, descend, foldlM_cons]
  cases descendPart here up d n <;> rfl

theorem descendPart_normal (h₀ : n ≠ []) (h₁ : n ≠ here) (h₂ : n ≠ up) : descendPart here up d n = some (d + 1) := by
  unfold descendPart
  rw [if_neg (not_or.mpr ⟨h₀, h₁⟩), if_neg h₂]

theorem head?_short {A E} (h : A ≠ []) : (short A E).head? ≠ some dot := by
  obtain ⟨a, A, rfl⟩ := exists_cons_of_ne_nil h
  unfold short
  split <;> simpa using tidy_ne_dot a

/-! ## Entries in place of names -/

structure Alike (n : Name) (entry : Dirent) : Prop where
  ne_nil : n ≠ []
  no_slash : slash ∉ n
  here_iff : n = here ↔ entry.name = here
  up_iff : n = up ↔ entry.name = up
  backslash : entry.name ∈ [[backslash], [dot, backslash], [dot, dot, backslash]] → n.getLast? = some backslash

theorem eq_of_map_tolower {m} (hm : ∀ c ∈ m, c = dot ∨ c = backslash) (h : n.map tolower = m.map tolower) :
    n = m := by
  have hcase : ∀ b c : BitVec 8, c = dot ∨ c = backslash → tolower b = tolower c → b = c := by
    intro b c hc
    rcases hc with rfl | rfl
    · revert b
      decide
    · revert b
      decide
  induction m generalizing n with
  | nil => exact map_eq_nil_iff.mp h
  | cons c m ih =>
    obtain ⟨b, n, rfl, hb, hn⟩ := map_eq_cons_iff.mp h
    rw [forall_mem_cons] at hm
    rw [hcase b c hm.1 hb, ih hm.2 hn]

theorem alike_of_strcasecmp (h : strcasecmp n entry.name = true) : Alike n entry := by
  rw [strcasecmp, beq_iff_eq] at h
  refine ⟨?_, ?_, ?_, ?_, ?_⟩
  · rintro rfl; exact entry.ne_nil (map_eq_nil_iff.mp h.symm)
  · intro hmem
    have hlower : tolower slash ∈ entry.name.map tolower := h ▸ mem_map_of_mem hmem
    obtain ⟨c, hc, heq⟩ := mem_map.mp hlower
    have hc' : ∀ c : BitVec 8, tolower c = tolower slash → c = slash := by decide
    exact entry.no_slash (hc' c heq ▸ hc)
  · constructor
    · rintro rfl; exact eq_of_map_tolower (by decide) h.symm
    · intro heq; rw [heq] at h; exact eq_of_map_tolower (by decide) h
  · constructor
    · rintro rfl; exact eq_of_map_tolower (by decide) h.symm
    · intro heq; rw [heq] at h; exact eq_of_map_tolower (by decide) h
  · intro hmem
    have hdots : ∀ m ∈ [[backslash], [dot, backslash], [dot, dot, backslash]], (∀ c ∈ m, c = dot ∨ c = backslash) ∧
        m.getLast? = some backslash := by decide
    obtain ⟨hchars, hlast⟩ := hdots entry.name hmem
    rw [eq_of_map_tolower hchars h, hlast]

theorem alike_of_transform (h : transformFileName entry.name = n) : Alike n entry := by
  by_cases h₁ : entry.name = here
  · rw [h₁] at h
    subst h
    exact ⟨by decide, by decide, by simp [h₁]; decide, by simp [h₁]; decide, by rw [h₁]; decide⟩
  by_cases h₂ : entry.name = up
  · rw [h₂] at h
    subst h
    exact ⟨by decide, by decide, by simp [h₂]; decide, by simp [h₂]; decide, by rw [h₂]; decide⟩
  obtain ⟨A, E, hparts, heq⟩ := transformFileName_eq entry.ne_nil entry.no_nul h₁ h₂
  have hhead : n.head? ≠ some dot := h ▸ heq ▸ head?_short hparts.name_ne_nil
  refine ⟨?_, ?_, ?_, ?_, ?_⟩
  · exact h ▸ heq ▸ short_ne_nil hparts.name_ne_nil
  · exact h ▸ heq ▸ hparts.notMem_short (by decide) (by decide) (by decide) entry.no_slash
  · exact ⟨fun hn => absurd (by rw [hn]; rfl) hhead, fun he => absurd he h₁⟩
  · exact ⟨fun hn => absurd (by rw [hn]; rfl) hhead, fun he => absurd he h₂⟩
  · have hdots : ∀ m ∈ [[backslash], [dot, backslash], [dot, dot, backslash]],
        (transformFileName m).getLast? = some backslash := by decide
    exact fun hmem => h ▸ hdots entry.name hmem

theorem alike_of_isHostFile (h : isHostFile half n entry = true) : Alike n entry := by
  rw [isHostFile, Bool.or_eq_true, Bool.and_eq_true, beq_iff_eq] at h
  rcases h with ⟨-, h⟩ | h
  · exact alike_of_strcasecmp h
  · exact alike_of_transform h

theorem Alike.descends (h : Alike n entry) : Hostfs.descends d entry.name = Hostfs.descends d n := by
  rw [descends_part entry.no_slash, descends_part h.no_slash]
  by_cases h₁ : n = here
  · rw [h₁, h.here_iff.mp h₁]
  by_cases h₂ : n = up
  · rw [h₂, h.up_iff.mp h₂]
  rw [descendPart_normal entry.ne_nil (mt h.here_iff.mpr h₁) (mt h.up_iff.mpr h₂), descendPart_normal h.ne_nil h₁ h₂]

theorem Alike.descends_strip (h : Alike n entry) (hlast : n.getLast? ≠ some Hostfs.backslash) :
    Hostfs.descends d (stripSeparator entry.name) = Hostfs.descends d n := by
  by_cases hback : entry.name.getLast? = some Hostfs.backslash
  · obtain ⟨m, hm⟩ := List.getLast?_eq_some_iff.mp hback
    have hnot : entry.name ∉ [[Hostfs.backslash], [dot, Hostfs.backslash], [dot, dot, Hostfs.backslash]] :=
      fun hmem => hlast (h.backslash hmem)
    rw [hm] at hnot
    have hslash : slash ∉ m := fun hmem => entry.no_slash (hm ▸ mem_append_left _ hmem)
    have h₁ : n ≠ here := fun hn => by
      rw [h.here_iff.mp hn] at hback; exact absurd hback (by decide)
    have h₂ : n ≠ up := fun hn => by
      rw [h.up_iff.mp hn] at hback; exact absurd hback (by decide)
    rw [stripSeparator, if_pos (.inl hback), hm, dropLast_concat, descends_part hslash,
      descends_part h.no_slash, descendPart_normal h.ne_nil h₁ h₂]
    refine descendPart_normal ?_ ?_ ?_ <;> (rintro rfl; exact hnot (by decide))
  · rw [Hostfs.descends_strip d hback, h.descends]

/-! ## Lower case -/

theorem map_tolower_iff {m} (hm : ∀ c ∈ m, c = dot ∨ c = backslash) (hself : m.map tolower = m) :
    n.map tolower = m ↔ n = m := ⟨fun h => eq_of_map_tolower hm (h.trans hself.symm), fun h => h ▸ hself⟩

theorem descendPart_tolower (d : Nat) (n : Name) : descendPart here up d (n.map tolower) = descendPart here up d n := by
  unfold descendPart
  simp only [map_eq_nil_iff, map_tolower_iff (m := here) (by decide) (by decide),
    map_tolower_iff (m := up) (by decide) (by decide)]

theorem descends_tolower (d : Nat) (n : Name) : descends d (n.map tolower) = descends d n := by
  have hslash : ∀ c, tolower c = slash ↔ c = slash := by decide
  rw [descends, descends, parts_map hslash, descend, descend, foldlM_map]
  simp only [descendPart_tolower]

theorem getLast?_tolower (n : Name) {c} (hc : ∀ b, tolower b = c ↔ b = c) :
    (n.map tolower).getLast? = some c ↔ n.getLast? = some c := by
  rw [List.getLast?_map]
  cases n.getLast? with
  | none => simp
  | some b => simp [hc]

theorem strip_tolower (n : Name) : stripSeparator (n.map tolower) = (stripSeparator n).map tolower := by
  have hback : ∀ b, tolower b = backslash ↔ b = backslash := by decide
  have hslash : ∀ b, tolower b = slash ↔ b = slash := by decide
  simp only [stripSeparator, getLast?_tolower n hback, getLast?_tolower n hslash]
  split
  · rw [map_dropLast]
  · rfl

/-! ## The name that is found -/

structure LeadsLike (n g : Name) : Prop where
  ne_nil : g ≠ []
  descends : ∀ d, Hostfs.descends d g = Hostfs.descends d n
  strip : n.getLast? ≠ some backslash → ∀ d, Hostfs.descends d (stripSeparator g) = Hostfs.descends d n

theorem leadsLike_self (h : n ≠ []) : LeadsLike n n :=
  ⟨h, fun _ => rfl, fun hlast d => descends_strip d hlast⟩

theorem leadsLike_nonexisting (h : n ≠ []) (half : Bool) : LeadsLike n (nonexisting half n) := by
  unfold nonexisting
  split
  · refine ⟨by simpa using h, fun d => descends_tolower d n, fun hlast d => ?_⟩
    rw [strip_tolower, descends_tolower, descends_strip d hlast]
  · exact leadsLike_self h

theorem Alike.leadsLike (h : Alike n entry) : LeadsLike n entry.name :=
  ⟨entry.ne_nil, fun _ => h.descends, fun hlast _ => h.descends_strip hlast⟩

theorem getHostFileName_leads (half : Bool) (host : Host) (dir : Path) (h : n ≠ []) :
    LeadsLike n (getHostFileName half host dir n).1 := by
  unfold getHostFileName
  split
  · exact leadsLike_self h
  · split
    · exact leadsLike_self h
    · simp only
      split
      · exact leadsLike_self h
      · split
        · next entry hfind => exact (alike_of_isHostFile (List.find?_some hfind)).leadsLike
        · exact leadsLike_nonexisting h half

theorem getHostFileName_paths (half : Bool) (host : Host) (dir : Path) (n : Name) :
    ∀ path ∈ (getHostFileName half host dir n).2, path = dir ++ n ∨ path = dir := by
  unfold getHostFileName
  split
  · simp
  · split
    · simp
    · simp

end Aranym.Hostfs
