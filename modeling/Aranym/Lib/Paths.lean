import Mathlib.Data.List.Basic

/-!
# Paths as texts

A path is a text whose parts are divided by a separator. It is resolved by its text alone: an empty part and the
part for the folder itself are skipped, and the part for the folder above takes away the part before it.
-/

namespace Aranym.Lib

open List

variable {α : Type} [DecidableEq α]

section parts

variable (sep : α)

def parts : List α → List (List α)
  | [] => [[]]
  | c :: s =>
    if c = sep then [] :: parts s
    else
      match parts s with
      | [] => [[c]]
      | q :: qs => (c :: q) :: qs

theorem parts_ne_nil (s : List α) : parts sep s ≠ [] := by
  cases s with
  | nil => exact cons_ne_nil _ _
  | cons c s =>
    rw [parts]
    split
    · exact cons_ne_nil _ _
    · split <;> exact cons_ne_nil _ _

theorem parts_append (a b : List α) : parts sep (a ++ sep :: b) = parts sep a ++ parts sep b := by
  induction a with
  | nil => simp [parts]
  | cons c a ih =>
    rw [cons_append, parts, parts, ih]
    split
    · rfl
    · cases h : parts sep a with
      | nil => exact absurd h (parts_ne_nil sep a)
      | cons q qs => rfl

theorem parts_of_notMem {sep} {s : List α} (h : sep ∉ s) : parts sep s = [s] := by
  induction s with
  | nil => rfl
  | cons c s ih => rw [mem_cons, not_or] at h; rw [parts, if_neg (Ne.symm h.1), ih h.2]

theorem parts_map {sep f} (hf : ∀ c, f c = sep ↔ c = sep) (s : List α) :
    parts sep (s.map f) = (parts sep s).map (List.map f) := by
  induction s with
  | nil => rfl
  | cons c s ih =>
    rw [map_cons, parts, parts, ih]
    simp only [hf]
    split
    · rfl
    · cases parts sep s with
      | nil => rfl
      | cons q qs => rfl

end parts

/-! ## Resolving -/

variable (sep : α) (here up : List α)

/-- The parts passed so far, the last one first. An absolute path has nothing above its start. -/
def push (absolute : Bool) (stack : List (List α)) (part : List α) : List (List α) :=
  if part = [] ∨ part = here then stack
  else if part = up then
    match stack with
    | [] => if absolute then [] else [up]
    | top :: rest => if top = up then up :: top :: rest else rest
  else part :: stack

def isAbsolute (path : List α) : Bool := path.head? == some sep

def resolve (path : List α) : List (List α) := (parts sep path).foldl (push here up (isAbsolute sep path)) []

/-- The path stays below the root, whatever `..` it has. -/
def Below (root path : List α) : Prop :=
  isAbsolute sep path = isAbsolute sep root ∧
    ∃ rest, resolve sep here up path = rest ++ resolve sep here up root ∧ up ∉ rest

def descendPart (d : Nat) (part : List α) : Option Nat :=
  if part = [] ∨ part = here then some d
  else if part = up then
    match d with
    | 0 => none
    | d + 1 => some d
  else some (d + 1)

def descend (d : Nat) (ps : List (List α)) : Option Nat := ps.foldlM (descendPart here up) d

def Level (root path : List α) (d : Nat) : Prop :=
  isAbsolute sep path = isAbsolute sep root ∧
    ∃ rest, resolve sep here up path = rest ++ resolve sep here up root ∧ up ∉ rest ∧ rest.length = d

variable {sep here up} {root path name : List α} {d d' : Nat}

theorem Level.below (h : Level sep here up root path d) : Below sep here up root path := by
  obtain ⟨habs, rest, hrest, hup, -⟩ := h
  exact ⟨habs, rest, hrest, hup⟩

theorem Below.suffix (h : Below sep here up root path) : resolve sep here up root <:+ resolve sep here up path := by
  obtain ⟨-, rest, hrest, -⟩ := h
  exact ⟨rest, hrest.symm⟩

theorem level_root (root : List α) : Level sep here up root root 0 := ⟨rfl, [], rfl, not_mem_nil, rfl⟩

theorem descend_append (d : Nat) (as bs : List (List α)) :
    descend here up d (as ++ bs) = (descend here up d as).bind (descend here up · bs) := foldlM_append

theorem push_eq (absolute : Bool) {r} (stack : List (List α)) {c} (hr : up ∉ r)
    (h : descendPart here up r.length c = some d) :
    ∃ r', push here up absolute (r ++ stack) c = r' ++ stack ∧ up ∉ r' ∧ r'.length = d := by
  unfold descendPart at h
  unfold push
  split at h
  · next hskip => rw [if_pos hskip]; exact ⟨r, rfl, hr, Option.some.inj h⟩
  · next hskip =>
    rw [if_neg hskip]
    split at h
    · next hup =>
      rw [if_pos hup]
      cases r with
      | nil => cases h
      | cons top r =>
        rw [mem_cons, not_or] at hr
        rw [cons_append]
        simp only [if_neg (Ne.symm hr.1)]; exact ⟨r, rfl, hr.2, Option.some.inj h⟩
    · next hup =>
      rw [if_neg hup]
      exact ⟨c :: r, rfl, by rw [mem_cons, not_or]; exact ⟨Ne.symm hup, hr⟩, Option.some.inj h⟩

theorem foldl_push (absolute : Bool) {r} (stack : List (List α)) {cs} (hr : up ∉ r)
    (h : descend here up r.length cs = some d) :
    ∃ r', cs.foldl (push here up absolute) (r ++ stack) = r' ++ stack ∧ up ∉ r' ∧ r'.length = d := by
  induction cs generalizing r with
  | nil => exact ⟨r, rfl, hr, Option.some.inj h⟩
  | cons c cs ih =>
    rw [descend, foldlM_cons] at h
    obtain ⟨d₁, h₁, h₂⟩ := Option.bind_eq_some_iff.mp h
    obtain ⟨r₁, hr₁, hup₁, rfl⟩ := push_eq absolute stack hr h₁
    rw [foldl_cons, hr₁]; exact ih hup₁ h₂

theorem isAbsolute_append (x : List α) (s : List α) : isAbsolute sep (x ++ sep :: s) = isAbsolute sep (x ++ [sep]) := by
  cases x <;> rfl

theorem Level.append {x} (h : Level sep here up root (x ++ [sep]) d)
    (hd : descend here up d (parts sep name) = some d') : Level sep here up root (x ++ sep :: name) d' := by
  obtain ⟨habs, r, hr, hup, rfl⟩ := h
  have hdir : (parts sep x).foldl (push here up (isAbsolute sep (x ++ [sep]))) [] = r ++ resolve sep here up root := by
    rw [← hr, resolve, parts_append, foldl_append]; simp [parts, push]
  obtain ⟨r', hr', hup', hlen⟩ := foldl_push (isAbsolute sep (x ++ [sep])) (resolve sep here up root) hup hd
  refine ⟨by rw [isAbsolute_append, habs], r', ?_, hup', hlen⟩
  rw [resolve, isAbsolute_append, parts_append, foldl_append, hdir, hr']

theorem Level.separator (h : Level sep here up root path d) (hne : path ≠ []) :
    Level sep here up root (path ++ [sep]) d := by
  obtain ⟨c, s, rfl⟩ := exists_cons_of_ne_nil hne
  obtain ⟨habs, r, hr, hup, hlen⟩ := h
  have hsame : isAbsolute sep (c :: s ++ [sep]) = isAbsolute sep (c :: s) := rfl
  refine ⟨hsame.trans habs, r, ?_, hup, hlen⟩
  rw [← hr, resolve, hsame, parts_append, foldl_append, resolve]
  simp [parts, push]

end Aranym.Lib
