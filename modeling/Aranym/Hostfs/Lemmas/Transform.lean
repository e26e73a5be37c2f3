import Aranym.Hostfs.Names
import Mathlib.Data.List.TakeWhile
import Mathlib.Tactic.Linarith

/-!
# The form of short names

A short name is a name part of up to eight and an extension of up to three characters, and a name that has this
form up to letter case is shortened to itself in upper case.
-/

namespace Aranym.Hostfs

open List Option

variable {source m A E X J : Name} {c : BitVec 8} {i n : Nat}

/-! ## Characters -/

def tidy (c : BitVec 8) : BitVec 8 := toupper (under c)

theorem toupper_tolower (c : BitVec 8) : toupper (tolower c) = toupper c := by
  revert c
  decide

theorem toupper_tidy (c : BitVec 8) : toupper (tidy c) = tidy c := by
  revert c
  decide

theorem tidy_eq_toupper (hblank : c ≠ blank) (hdot : c ≠ dot) : tidy c = toupper c := by
  rw [tidy, under, if_neg (not_or.mpr ⟨hblank, hdot⟩)]

theorem tidy_ne_blank (c : BitVec 8) : tidy c ≠ blank := by
  revert c
  decide

theorem tidy_ne_dot (c : BitVec 8) : tidy c ≠ dot := by
  revert c
  decide

theorem under_eq_zero (c : BitVec 8) : under c = 0 ↔ c = 0 := by
  revert c
  decide

theorem toupper_eq_dot (c : BitVec 8) : toupper c = dot ↔ c = dot := by
  revert c
  decide

theorem toupper_eq_zero (c : BitVec 8) : toupper c = 0 ↔ c = 0 := by
  revert c
  decide

def isDigit (c : BitVec 8) : Prop := (0x30 ≤ c ∧ c ≤ 0x39) ∨ (0x61 ≤ c ∧ c ≤ 0x66)

instance decidableIsDigit (c : BitVec 8) : Decidable (isDigit c) :=
  inferInstanceAs (Decidable ((0x30 ≤ c ∧ c ≤ 0x39) ∨ (0x61 ≤ c ∧ c ≤ 0x66)))

theorem isDigit_hexDigit (h : BitVec 32) : isDigit (hexDigit (h &&& 0xf)) := by
  have hle : (h &&& 0xf).toNat ≤ 15 := by rw [BitVec.toNat_and]; exact Nat.and_le_right
  generalize h &&& 0xf = d at hle
  unfold hexDigit
  split
  · next hlt =>
    rw [BitVec.lt_def] at hlt
    refine .inl ?_
    simp only [BitVec.le_def, BitVec.toNat_add, BitVec.toNat_setWidth, BitVec.toNat_ofNat,
      BitVec.ofNat_eq_ofNat] at hlt ⊢
    omega
  · next hge =>
    rw [BitVec.lt_def] at hge
    refine .inr ?_
    simp only [BitVec.le_def, BitVec.toNat_add, BitVec.toNat_setWidth, BitVec.toNat_ofNat,
      BitVec.ofNat_eq_ofNat] at hge ⊢
    omega

theorem mem_hashStr (h : c ∈ hashStr source) : c = tilde ∨ isDigit c := by
  simp only [hashStr, mem_cons, not_mem_nil, or_false] at h
  rcases h with rfl | rfl | rfl
  · exact .inl rfl
  · exact .inr (isDigit_hexDigit _)
  · exact .inr (isDigit_hexDigit _)

theorem length_hashStr (source : Name) : (hashStr source).length = 3 := rfl

/-! ## Buffers -/

theorem cstr_append (h : 0 ∉ X) (J : Name) : cstr (X ++ 0 :: J) = X := by
  rw [cstr, takeWhile_append_of_pos fun c hc => by simpa using ne_of_mem_of_not_mem hc h]
  simp

theorem replaceDots_append (h : 0 ∉ X) (J : Name) : replaceDots (X ++ 0 :: J) = X.map under ++ 0 :: J := by
  rw [replaceDots, cstr_append h, drop_left]

theorem zero_notMem_map_under (h : 0 ∉ X) : 0 ∉ X.map under := by
  rw [List.mem_map]
  rintro ⟨c, hc, heq⟩
  exact h ((under_eq_zero c).mp heq ▸ hc)

theorem map_toupper_under (X : Name) : (X.map under).map toupper = X.map tidy := by
  rw [List.map_map]
  rfl

theorem plain_eq (h : 0 ∉ X) (J : Name) : (cstr (replaceDots (X ++ 0 :: J))).map toupper = X.map tidy := by
  rw [replaceDots_append h, cstr_append (zero_notMem_map_under h), map_toupper_under]

theorem zero_notMem_extended (hA : 0 ∉ A) (hE : 0 ∉ E) : 0 ∉ A ++ dot :: E := by
  rw [mem_append, mem_cons, not_or, not_or]
  exact ⟨hA, by decide, hE⟩

theorem extended_eq (hA : 0 ∉ A) (hE : 0 ∉ E) (J : Name) :
    (cstr ((replaceDots (A ++ dot :: E ++ 0 :: J)).set A.length dot)).map toupper =
      A.map tidy ++ dot :: E.map tidy := by
  have hX : 0 ∉ A ++ dot :: E := zero_notMem_extended hA hE
  have hset : (replaceDots (A ++ dot :: E ++ 0 :: J)).set A.length dot =
      (A.map under ++ dot :: E.map under) ++ 0 :: J := by
    rw [replaceDots_append hX]; simp
  have hzero : 0 ∉ A.map under ++ dot :: E.map under :=
    zero_notMem_extended (zero_notMem_map_under hA) (zero_notMem_map_under hE)
  rw [hset, cstr_append hzero, map_append, map_cons, map_toupper_under, map_toupper_under]
  rfl

theorem extend_eq (dest : Name) (n : Nat) (ext : Name) (h : n + ext.length + 1 < dest.length) :
    ∃ J, extend dest n ext = dest.take n ++ dot :: ext ++ 0 :: J := by
  have hlen : (dest.take n).length = n := length_take_of_le (by omega)
  refine ⟨dest.drop (n + ext.length + 2), ?_⟩
  have hset : dest.set n dot = dest.take n ++ dot :: dest.drop (n + 1) :=
    set_eq_take_append_cons_drop.trans (if_pos (by omega))
  have hcopy : memcpy (dest.set n dot) (n + 1) ext =
      dest.take n ++ dot :: ext ++ dest.drop (n + ext.length + 1) := by
    rw [memcpy, hset]
    have htake : (dest.take n ++ dot :: dest.drop (n + 1)).take (n + 1) = dest.take n ++ [dot] := by
      rw [take_append, hlen]; simp
    have hdrop : (dest.take n ++ dot :: dest.drop (n + 1)).drop (n + 1 + ext.length) =
        dest.drop (n + ext.length + 1) := by
      rw [drop_append, hlen, drop_of_length_le (by omega), nil_append]
      rw [show n + 1 + ext.length - n = ext.length + 1 by omega, drop_succ_cons, drop_drop]
      congr 1
      omega
    rw [htake, hdrop]; simp
  rw [extend, hcopy, set_append_right _ _ (by simp; omega)]
  have hcons : dest.drop (n + ext.length + 1) = dest[n + ext.length + 1] :: dest.drop (n + ext.length + 2) :=
    drop_eq_getElem_cons h
  rw [hcons]
  simp [hlen, Nat.add_assoc]

/-! ## The last dot -/

theorem strrchr_eq_none : strrchr c X = none ↔ c ∉ X := by
  induction X with
  | nil => simp [strrchr]
  | cons b X ih =>
    rw [strrchr, mem_cons, not_or]
    cases h : strrchr c X with
    | none =>
      have hX := ih.mp h
      simp only [ite_eq_right_iff, reduceCtorEq, imp_false]
      exact ⟨fun hb => ⟨Ne.symm hb, hX⟩, fun hb => Ne.symm hb.1⟩
    | some i =>
      simp only [reduceCtorEq, false_iff, not_and, not_not]
      intro _
      by_contra hX
      rw [ih.mpr hX] at h; cases h

theorem strrchr_append (h : c ∉ E) (A : Name) : strrchr c (A ++ c :: E) = some A.length := by
  induction A with
  | nil => simp [strrchr, strrchr_eq_none.mpr h]
  | cons b A ih => simp [strrchr, ih]

theorem exists_of_strrchr (h : strrchr c X = some i) : ∃ A E, X = A ++ c :: E ∧ c ∉ E ∧ A.length = i := by
  induction X generalizing i with
  | nil => cases h
  | cons b X ih =>
    rw [strrchr] at h
    cases hX : strrchr c X with
    | none =>
      rw [hX] at h
      obtain ⟨rfl, hi⟩ := ite_none_right_eq_some.mp h
      exact ⟨[], X, rfl, strrchr_eq_none.mp hX, Option.some.inj hi⟩
    | some j =>
      rw [hX] at h
      obtain ⟨A, E, rfl, hE, hj⟩ := ih hX
      exact ⟨b :: A, E, rfl, hE, by rw [length_cons, hj]; exact Option.some.inj h⟩

theorem dotAt_cases (source : Name) : ((strrchr dot source).filter (· ≠ 0) = none ∧ dot ∉ source.tail) ∨
      ∃ A E, source = A ++ dot :: E ∧ A ≠ [] ∧ dot ∉ E ∧
        (strrchr dot source).filter (· ≠ 0) = some A.length := by
  cases h : strrchr dot source with
  | none => refine .inl ⟨rfl, fun hmem => ?_⟩; exact strrchr_eq_none.mp h (mem_of_mem_tail hmem)
  | some i =>
    obtain ⟨A, E, rfl, hE, rfl⟩ := exists_of_strrchr h
    cases A with
    | nil => exact .inl ⟨rfl, hE⟩
    | cons a A => exact .inr ⟨a :: A, E, rfl, cons_ne_nil a A, hE, rfl⟩

/-! ## The parts of a short name -/

structure Parts (source A E : Name) : Prop where
  name_ne_nil : A ≠ []
  name_le : A.length ≤ 8
  ext_le : E.length ≤ 3
  ext_no_dot : dot ∉ E
  mem : ∀ c ∈ A ++ E, c ∈ source ∨ c ∈ hashStr source

def short (A E : Name) : Name := if E = [] then A.map tidy else A.map tidy ++ dot :: E.map tidy

theorem short_cons (hE : E ≠ []) : short A E = A.map tidy ++ dot :: E.map tidy := if_neg hE

theorem length_buffer (source : Name) : (strncpy source 12 ++ [0]).length = 13 := by
  simp only [strncpy, length_append, length_take, length_replicate, length_singleton]
  omega

theorem take_buffer (h : n ≤ 12) (h' : n ≤ source.length) :
    (strncpy source 12 ++ [0]).take n = source.take n := by
  rw [strncpy, append_assoc, take_append_of_le_length (by simp; omega), take_take, min_eq_left h]

theorem buffer_eq (source : Name) (h : source.length ≤ 12) : ∃ J, strncpy source 12 ++ [0] = source ++ 0 :: J := by
  refine ⟨List.replicate (12 - source.length) 0, ?_⟩
  rw [strncpy, take_of_length_le h, append_assoc, ← replicate_succ', replicate_succ]

theorem Parts.zero_notMem (h : Parts source A E) (hnul : 0 ∉ source) : 0 ∉ A ∧ 0 ∉ E := by
  have hzero : 0 ∉ A ++ E := fun hmem => by
    rcases h.mem 0 hmem with hs | hs
    · exact hnul hs
    · exact absurd (mem_hashStr hs) (by decide)
  rwa [mem_append, not_or] at hzero

theorem extend_zeros (dest : Name) (n : Nat) (E : Name) (k : Nat) (h : n + (E.length + k) + 1 < dest.length) :
    ∃ J, extend dest n (E ++ List.replicate k 0) = dest.take n ++ dot :: E ++ 0 :: J := by
  have hlen : (E ++ List.replicate k (0 : BitVec 8)).length = E.length + k := by
    rw [length_append, length_replicate]
  obtain ⟨J, hJ⟩ := extend_eq dest n (E ++ List.replicate k 0) (by rw [hlen]; exact h)
  refine ⟨List.replicate k 0 ++ J, ?_⟩
  have hzeros : List.replicate k (0 : BitVec 8) ++ 0 :: J = 0 :: (List.replicate k 0 ++ J) := by
    rw [← cons_append, ← replicate_succ, replicate_succ', append_assoc, singleton_append]
  rw [hJ, ← cons_append, append_assoc, append_assoc, hzeros, ← append_assoc]

theorem shorten_none (hlen : 8 < source.length) (hdot : dot ∉ source.tail) :
    ∃ A E J, Parts source A E ∧ E ≠ [] ∧
      shorten source none source.length 0 (strncpy source 12 ++ [0]) = (A ++ dot :: E ++ 0 :: J, A.length) := by
  have hname : (source.take 8).length = 8 := length_take_of_le (by omega)
  have htake : (strncpy source 12 ++ [0]).take 8 = source.take 8 := take_buffer (by decide) (by omega)
  have hne : source.take 8 ≠ [] := ne_nil_of_length_pos (by omega)
  rw [shorten, if_pos rfl]
  split
  · obtain ⟨J, hJ⟩ := extend_eq (strncpy source 12 ++ [0]) 8 (hashStr source)
      (by rw [length_buffer, length_hashStr]; decide)
    refine ⟨source.take 8, hashStr source, J, ⟨hne, hname.le, (length_hashStr source).le, ?_, ?_⟩,
      cons_ne_nil _ _, ?_⟩
    · exact fun hmem => absurd (mem_hashStr hmem) (by decide)
    · intro c hc; exact (mem_append.mp hc).imp_left fun h => mem_of_mem_take h
    · rw [hJ, htake, hname]
  · next hlt =>
    have hext : (source.drop 8 ++ [0, 0]).take 3 = source.drop 8 ++ List.replicate (11 - source.length) 0 := by
      rw [take_append, take_of_length_le (by simp; omega), length_drop,
        show ([0, 0] : Name) = List.replicate 2 0 from rfl, take_replicate]
      congr 2
      omega
    obtain ⟨J, hJ⟩ := extend_zeros (strncpy source 12 ++ [0]) 8 (source.drop 8)
      (11 - source.length) (by rw [length_buffer, length_drop]; omega)
    refine ⟨source.take 8, source.drop 8, J, ⟨hne, hname.le, by rw [length_drop]; omega, ?_, ?_⟩, ?_, ?_⟩
    · intro hmem
      rw [← drop_one] at hdot
      exact hdot (mem_of_mem_drop (i := 7) (by rwa [drop_drop]))
    · intro c hc; rw [take_append_drop] at hc; exact .inl hc
    · exact ne_nil_of_length_pos (by rw [length_drop]; omega)
    · rw [hext, hJ, htake, hname]

theorem shorten_some (hA : A ≠ []) (hE : dot ∉ E) : ∃ B F J, Parts (A ++ dot :: E) B F ∧ F ≠ [] ∧
      shorten (A ++ dot :: E) (some A.length) A.length E.length (strncpy (A ++ dot :: E) 12 ++ [0]) =
        (B ++ dot :: F ++ 0 :: J, B.length) := by
  have hpos : 0 < A.length := length_pos_of_ne_nil hA
  have hname : ∀ k ≤ A.length, (A ++ dot :: E).take k = A.take k := fun k hk =>
    take_append_of_le_length hk
  have htake : ∀ k ≤ A.length, k ≤ 12 → (strncpy (A ++ dot :: E) 12 ++ [0]).take k = A.take k := by
    intro k hk hk'
    rw [take_buffer hk' (by rw [length_append]; omega), hname k hk]
  have hhash : dot ∉ hashStr (A ++ dot :: E) := fun hmem => absurd (mem_hashStr hmem) (by decide)
  rw [shorten]
  split
  · have hshort : ∀ k, 0 < k → k ≤ 8 → k ≤ A.length → ∃ B F J, Parts (A ++ dot :: E) B F ∧ F ≠ [] ∧
        (extend (strncpy (A ++ dot :: E) 12 ++ [0]) k (hashStr (A ++ dot :: E)), k) =
          (B ++ dot :: F ++ 0 :: J, B.length) := by
      intro k hk hk8 hkA
      obtain ⟨J, hJ⟩ := extend_eq (strncpy (A ++ dot :: E) 12 ++ [0]) k (hashStr (A ++ dot :: E))
        (by rw [length_buffer, length_hashStr]; omega)
      have hlen : (A.take k).length = k := length_take_of_le hkA
      refine ⟨A.take k, hashStr (A ++ dot :: E), J, ⟨?_, by omega, (length_hashStr _).le, hhash, ?_⟩,
        cons_ne_nil _ _, ?_⟩
      · exact ne_nil_of_length_pos (by omega)
      · intro c hc
        exact (mem_append.mp hc).imp_left fun h => mem_append_left _ (mem_of_mem_take h)
      · rw [hJ, htake k hkA (by omega), hlen]
    split
    · exact hshort 8 (by decide) le_rfl (by omega)
    · exact hshort (min 8 A.length) (by omega) (by omega) (by omega)
  · next hlen =>
    -- the hash is put behind up to five characters of the name
    have hk : min 5 A.length ≤ A.length := min_le_right _ _
    have hcopy : memcpy (strncpy (A ++ dot :: E) 12 ++ [0]) (min 5 A.length) (hashStr (A ++ dot :: E) ++ [0]) =
        (A.take (min 5 A.length) ++ hashStr (A ++ dot :: E)) ++
          0 :: (strncpy (A ++ dot :: E) 12 ++ [0]).drop (min 5 A.length + 4) := by
      rw [memcpy, htake _ hk (by omega)]; simp [length_hashStr]
    have hB : (A.take (min 5 A.length) ++ hashStr (A ++ dot :: E)).length = min 5 A.length + 3 := by
      rw [length_append, length_take_of_le hk, length_hashStr]
    have hF : ((A ++ dot :: E).drop (A.length + 1)).take (min 3 E.length) = E.take 3 := by
      rw [show A ++ dot :: E = (A ++ [dot]) ++ E by simp, drop_left' (by simp)]
      rcases le_total 3 E.length with h | h
      · rw [min_eq_left h]
      · rw [min_eq_right h, take_length, take_of_length_le h]
    have hlenF : (E.take 3).length ≤ 3 := length_take_le 3 E
    simp only [hcopy, hF]
    obtain ⟨J, hJ⟩ := extend_eq ((A.take (min 5 A.length) ++ hashStr (A ++ dot :: E)) ++
      0 :: (strncpy (A ++ dot :: E) 12 ++ [0]).drop (min 5 A.length + 4)) (min 5 A.length + 3) (E.take 3)
      (by rw [length_append, hB, length_cons, length_drop, length_buffer]; omega)
    refine ⟨A.take (min 5 A.length) ++ hashStr (A ++ dot :: E), E.take 3, J,
      ⟨?_, by omega, hlenF, fun h => hE (mem_of_mem_take h), ?_⟩, ?_, ?_⟩
    · exact ne_nil_of_length_pos (by omega)
    · intro c hc
      rw [mem_append, mem_append] at hc
      rcases hc with (hc | hc) | hc
      · exact .inl (mem_append_left _ (mem_of_mem_take hc))
      · exact .inr hc
      · exact .inl (mem_append_right _ (mem_cons_of_mem _ (mem_of_mem_take hc)))
    · intro hnil
      rcases take_eq_nil_iff.mp hnil with h | rfl
      · cases h
      · exact hlen rfl
    · rw [hJ, take_left' hB, hB]

/-! ## Short names -/

theorem transformFileName_plain (hlen : X.length ≤ 8) (hdot : dot ∉ X.tail) (h : 0 ∉ X) (hX : X ≠ [dot]) :
    transformFileName X = X.map tidy := by
  have hXX : X ≠ [dot, dot] := by rintro rfl; exact hdot (mem_singleton.mpr rfl)
  have hnone : (strrchr dot X).filter (· ≠ 0) = none := by
    rcases dotAt_cases X with ⟨hnone, -⟩ | ⟨A, E, rfl, hA, -, -⟩
    · exact hnone
    · cases A with
      | nil => exact absurd rfl hA
      | cons a A => exact absurd (by simp) hdot
  obtain ⟨J, hJ⟩ := buffer_eq X (hlen.trans (by decide))
  rw [transformFileName, if_neg (not_or.mpr ⟨hX, hXX⟩), hnone]
  simp only [getD_none, ↓reduceIte, isSome_none, Bool.false_eq_true, and_false, or_false]
  rw [if_neg (by omega), hJ, plain_eq h]

theorem transformFileName_ext (hA : A ≠ []) (hlenA : A.length ≤ 8) (hE : E ≠ []) (hlenE : E.length ≤ 3)
    (hdot : dot ∉ E) (h0A : 0 ∉ A) (h0E : 0 ∉ E) :
    transformFileName (A ++ dot :: E) = A.map tidy ++ dot :: E.map tidy := by
  have hsome : (strrchr dot (A ++ dot :: E)).filter (· ≠ 0) = some A.length := by
    rw [strrchr_append hdot, filter_some, if_pos (by simpa using hA)]
  have hlen : (A ++ dot :: E).length = A.length + E.length + 1 := by
    rw [length_append, length_cons]; omega
  have hposE : 0 < E.length := length_pos_of_ne_nil hE
  have hposA : 0 < A.length := length_pos_of_ne_nil hA
  obtain ⟨J, hJ⟩ := buffer_eq (A ++ dot :: E) (by omega)
  have hlong : ¬ (A ++ dot :: E = [dot] ∨ A ++ dot :: E = [dot, dot]) := by
    rintro (h | h)
    · have hl := congrArg List.length h; rw [hlen, length_singleton] at hl; omega
    · have hl := congrArg List.length h; rw [hlen, length_cons, length_singleton] at hl; omega
  rw [transformFileName, if_neg hlong, hsome]
  simp only [getD_some, isSome_some, hlen, and_true]
  rw [if_neg (show ¬ A.length = A.length + E.length + 1 by omega), if_neg (by omega), if_pos trivial, hJ,
    extended_eq h0A h0E]

theorem transformFileName_eq (hne : X ≠ []) (h0 : 0 ∉ X) (h₁ : X ≠ [dot]) (h₂ : X ≠ [dot, dot]) :
    ∃ A E, Parts X A E ∧ transformFileName X = short A E := by
  rcases dotAt_cases X with ⟨hnone, hdot⟩ | ⟨A, E, rfl, hA, hE, hsome⟩
  · rcases le_or_gt X.length 8 with hlen | hlen
    · refine ⟨X, [], ⟨hne, hlen, by simp, not_mem_nil, ?_⟩, transformFileName_plain hlen hdot h0 h₁⟩
      rw [append_nil]; exact fun c hc => .inl hc
    · obtain ⟨A, E, J, hparts, hE, heq⟩ := shorten_none hlen hdot
      obtain ⟨h0A, h0E⟩ := hparts.zero_notMem h0
      refine ⟨A, E, hparts, ?_⟩
      rw [transformFileName, if_neg (not_or.mpr ⟨h₁, h₂⟩), hnone]
      simp only [getD_none, ↓reduceIte]
      rw [if_pos (.inl hlen), heq, extended_eq h0A h0E, short_cons hE]
  · by_cases hlong : A.length > 8 ∨ E.length > 3 ∨ A.length ≤ 8 ∧ E.length = 0
    · obtain ⟨B, F, J, hparts, hF, heq⟩ := shorten_some hA hE
      obtain ⟨h0B, h0F⟩ := hparts.zero_notMem h0
      have hlen : (A ++ dot :: E).length = A.length + E.length + 1 := by
        rw [length_append, length_cons]; omega
      refine ⟨B, F, hparts, ?_⟩
      rw [transformFileName, if_neg (not_or.mpr ⟨h₁, h₂⟩), hsome]
      simp only [getD_some, isSome_some, hlen, and_true]
      rw [if_neg (show ¬ A.length = A.length + E.length + 1 by omega),
        show A.length + E.length + 1 - A.length - 1 = E.length by omega, if_pos hlong, heq, extended_eq h0B h0F,
        short_cons hF]
    · have hEne : E ≠ [] := by rintro rfl; rw [length_nil] at hlong; omega
      rw [mem_append, mem_cons, not_or, not_or] at h0
      refine ⟨A, E, ⟨hA, by omega, by omega, hE, fun c hc => .inl ?_⟩, ?_⟩
      · exact (mem_append.mp hc).elim (mem_append_left _) fun h =>
          mem_append_right _ (mem_cons_of_mem _ h)
      · rw [transformFileName_ext hA (by omega) hEne (by omega) hE h0.1 h0.2.2, short_cons hEne]

theorem dot_notMem_of_upper (h : m.map toupper = A.map tidy) : dot ∉ m := fun hmem => by
  obtain ⟨d, -, hd⟩ := List.mem_map.mp (h ▸ mem_map_of_mem hmem : toupper dot ∈ A.map tidy)
  exact tidy_ne_dot d hd

theorem map_tidy_eq_toupper (h : m.map toupper = A.map tidy) : m.map tidy = m.map toupper := by
  refine map_congr_left fun c hc => tidy_eq_toupper ?_ fun heq => dot_notMem_of_upper h (heq ▸ hc)
  rintro rfl
  obtain ⟨d, -, hd⟩ := List.mem_map.mp (h ▸ mem_map_of_mem hc : toupper blank ∈ A.map tidy)
  exact tidy_ne_blank d hd

theorem zero_notMem_of_upper (h : m.map toupper = A.map tidy) (hA : 0 ∉ A) : 0 ∉ m := fun hmem => by
  obtain ⟨d, hd, hzero⟩ := List.mem_map.mp (h ▸ mem_map_of_mem hmem : toupper 0 ∈ A.map tidy)
  have hd0 : d = 0 := (under_eq_zero d).mp ((toupper_eq_zero _).mp hzero)
  exact hA (hd0 ▸ hd)

theorem transformFileName_upper (h : Parts source A E) (hnul : 0 ∉ source) (hm : m.map toupper = short A E) :
    transformFileName m = short A E := by
  obtain ⟨h0A, h0E⟩ := h.zero_notMem hnul
  by_cases hE : E = []
  · rw [short, if_pos hE] at hm ⊢
    have hlen : m.length = A.length := by simpa using congrArg List.length hm
    have hdot : dot ∉ m := dot_notMem_of_upper hm
    rw [transformFileName_plain (hlen ▸ h.name_le) (fun hmem => hdot (mem_of_mem_tail hmem))
      (zero_notMem_of_upper hm h0A) (fun heq => hdot (heq ▸ mem_singleton.mpr rfl)),
      map_tidy_eq_toupper hm, hm]
  · rw [short_cons hE] at hm ⊢
    obtain ⟨A', r, rfl, hA', hr⟩ := map_eq_append_iff.mp hm
    obtain ⟨c, E', rfl, hc, hE'⟩ := map_eq_cons_iff.mp hr
    rw [toupper_eq_dot] at hc
    subst hc
    have hlenA : A'.length = A.length := by simpa using congrArg List.length hA'
    have hlenE : E'.length = E.length := by simpa using congrArg List.length hE'
    have hposA : 0 < A.length := length_pos_of_ne_nil h.name_ne_nil
    have hposE : 0 < E.length := length_pos_of_ne_nil hE
    rw [transformFileName_ext (ne_nil_of_length_pos (by omega)) (hlenA ▸ h.name_le)
      (ne_nil_of_length_pos (by omega)) (hlenE ▸ h.ext_le) (dot_notMem_of_upper hE')
      (zero_notMem_of_upper hA' h0A) (zero_notMem_of_upper hE' h0E), map_tidy_eq_toupper hA',
      map_tidy_eq_toupper hE', hA', hE']

theorem map_toupper_short (A E : Name) : (short A E).map toupper = short A E := by
  have hA : ∀ X : Name, (X.map tidy).map toupper = X.map tidy := fun X => by
    rw [List.map_map]; exact map_congr_left fun c _ => toupper_tidy c
  unfold short
  split
  · exact hA A
  · rw [map_append, map_cons, hA, hA]; rfl

theorem mem_short (h : c ∈ short A E) : c = dot ∨ ∃ d ∈ A ++ E, tidy d = c := by
  unfold short at h
  split at h
  · obtain ⟨d, hd, rfl⟩ := List.mem_map.mp h; exact .inr ⟨d, mem_append_left _ hd, rfl⟩
  · rw [mem_append, mem_cons] at h
    rcases h with h | h | h
    · obtain ⟨d, hd, rfl⟩ := List.mem_map.mp h; exact .inr ⟨d, mem_append_left _ hd, rfl⟩
    · exact .inl h
    · obtain ⟨d, hd, rfl⟩ := List.mem_map.mp h; exact .inr ⟨d, mem_append_right _ hd, rfl⟩

theorem Parts.notMem_short (h : Parts source A E) (htidy : ∀ d, tidy d = c → d = c) (hdot : c ≠ dot)
    (hhash : ¬ (c = tilde ∨ isDigit c)) (hc : c ∉ source) : c ∉ short A E := by
  intro hmem
  rcases mem_short hmem with heq | ⟨d, hd, heq⟩
  · exact hdot heq
  · obtain rfl := htidy d heq
    rcases h.mem d hd with hs | hs
    · exact hc hs
    · exact hhash (mem_hashStr hs)

theorem short_ne_nil (h : A ≠ []) : short A E ≠ [] := by
  unfold short
  split
  · exact fun hnil => h (map_eq_nil_iff.mp hnil)
  · exact append_ne_nil_of_right_ne_nil _ (cons_ne_nil _ _)

end Aranym.Hostfs
