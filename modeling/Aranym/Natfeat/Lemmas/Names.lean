import Aranym.Natfeat.Lemmas.ToGuest

/-!
# Host names as the guest sees them

A valid name that fits is copied character by character: a convertible character becomes its Atari byte, the others
keep their UTF-8 bytes.
-/

namespace Aranym.Natfeat

open Aranym.Lib List

variable {T : Charset} {src : Nat → BitVec 8} {st : Copy} {cs ds : List (BitVec 16)} {c d : BitVec 16}

def NameChar (c : BitVec 16) : Prop := c ≠ 0 ∧ Scalar c

def Convertible (T : Charset) (c : BitVec 16) : Prop := T.toAtari c < 0x100

def image (T : Charset) (c : BitVec 16) : List (BitVec 8) := atariBytes (T.toAtari c) (utf8 c)

def atariByte (T : Charset) (c : BitVec 16) : BitVec 8 := (T.toAtari c).setWidth 8

/-! ## The copy of a valid name -/

theorem encode_cons (c : BitVec 16) (cs : List (BitVec 16)) : encode (c :: cs) = utf8 c ++ encode cs :=
  flatMap_cons

theorem encode_injective (h : encode cs = encode ds) : cs = ds := by
  induction cs generalizing ds with
  | nil =>
    cases ds with
    | nil => rfl
    | cons d ds =>
      rw [encode_cons] at h; exact absurd (append_eq_nil_iff.mp h.symm).1 (whole_utf8 d).ne_nil
  | cons c cs ih =>
    cases ds with
    | nil => rw [encode_cons] at h; exact absurd (append_eq_nil_iff.mp h).1 (whole_utf8 c).ne_nil
    | cons d ds =>
      rw [encode_cons, encode_cons] at h
      obtain ⟨-, rfl, htail⟩ := (whole_utf8 c).unique (whole_utf8 d) h
      rw [ih htail]

theorem host2AtariLoop_whole {c t ch} (hc : Whole c ch)
    (hs : StringAt src st.src (c ++ t)) (hroom : c.length ≤ st.count) (hcount : st.count > 1) :
    ∃ st' : Copy, host2AtariLoop T src st = host2AtariLoop T src st' ∧ st'.src = st.src + c.length ∧
      st'.dst = st.dst ++ atariBytes (T.toAtari ch) c ∧ st'.count = st.count - width T c ch := by
  obtain ⟨hlen, hch, hraw⟩ := hc.taken hs hroom
  refine ⟨host2AtariNext T src st c.length, ?_, rfl, ?_, ?_⟩
  · cases c with
    | nil => exact absurd rfl hc.ne_nil
    | cons b c => rw [← hlen, hs.1]; exact host2AtariLoop_cons hcount hs
  · rw [dst_host2AtariNext, hch, hraw]
  · rw [length_out, hch, width]

theorem width_le_length (hc : Whole (utf8 c) c) : width T (utf8 c) c ≤ (utf8 c).length := by
  unfold width
  split
  · exact Nat.le_refl _
  · exact length_pos_iff.mpr hc.ne_nil

theorem host2AtariLoop_name (hs : StringAt src st.src (encode cs)) (hfit : (encode cs).length < st.count) :
    (host2AtariLoop T src st).dst = st.dst ++ cs.flatMap (image T) ∧ 0 < (host2AtariLoop T src st).count := by
  induction cs generalizing st with
  | nil =>
    rw [flatMap_nil, append_nil]
    by_cases hcount : st.count > 1
    · rw [host2AtariLoop_end hcount hs]; exact ⟨rfl, Nat.lt_trans Nat.one_pos hcount⟩
    · rw [host2AtariLoop_done hcount]; exact ⟨rfl, hfit⟩
  | cons c cs ih =>
    rw [encode_cons] at hs hfit
    rw [length_append] at hfit
    have hpos := length_pos_iff.mpr (whole_utf8 c).ne_nil
    have hwidth := width_le_length (T := T) (whole_utf8 c)
    obtain ⟨st', hloop, hsrc, hdst, hcount⟩ := host2AtariLoop_whole (T := T) (whole_utf8 c) hs
      (by omega) (by omega)
    obtain ⟨hrest, hroom⟩ := ih (hsrc ▸ hs.append) (by omega)
    rw [hloop]
    refine ⟨hrest.trans ?_, hroom⟩
    rw [hdst, flatMap_cons, append_assoc]; rfl

theorem dst_host2AtariUtf8Copy {count} (hs : StringAt src 0 (encode cs)) (hfit : (encode cs).length < count) :
    (host2AtariUtf8Copy T src count).dst = cs.flatMap (image T) ++ [0] := by
  have hs' : StringAt src (Copy.start count).src (encode cs) := hs
  obtain ⟨hdst, hcount⟩ := host2AtariLoop_name (T := T) hs' hfit
  rw [host2AtariUtf8Copy, Copy.finish, if_pos hcount, hdst]
  rfl

/-! ## Names that can be told apart -/

def Onto (T : Charset) : Prop := ∀ b : BitVec 8, b ≠ 0 → ∃ c, NameChar c ∧ T.toAtari c = b.setWidth 16

/-- Each character is convertible and the only one with its Atari byte, and no run of the Atari bytes is the
UTF-8 form of a character that is not convertible. -/
structure Unambiguous (T : Charset) (cs : List (BitVec 16)) : Prop where
  convertible : ∀ c ∈ cs, Convertible T c
  only : ∀ c ∈ cs, ∀ d, NameChar d → T.toAtari d = T.toAtari c → d = c
  noUtf8 : ∀ d, NameChar d → ¬ Convertible T d → ¬ utf8 d <:+: cs.map (atariByte T)

theorem image_convertible (h : Convertible T c) : image T c = [atariByte T c] := if_neg (BitVec.not_le.mpr h)

theorem image_not_convertible (h : ¬ Convertible T c) : image T c = utf8 c := if_pos (BitVec.not_lt.mp h)

theorem images_convertible (h : ∀ c ∈ cs, Convertible T c) : cs.flatMap (image T) = cs.map (atariByte T) := by
  induction cs with
  | nil => rfl
  | cons c cs ih => rw [forall_mem_cons] at h; rw [flatMap_cons, image_convertible h.1, ih h.2]; rfl

theorem atariByte_injective (hc : Convertible T c) (hd : Convertible T d)
    (h : atariByte T c = atariByte T d) : T.toAtari c = T.toAtari d := by
  have hc' : (T.toAtari c).toNat < 2 ^ 8 := hc
  have hd' : (T.toAtari d).toNat < 2 ^ 8 := hd
  have htoNat := congrArg BitVec.toNat h
  rw [atariByte, atariByte, BitVec.toNat_setWidth, BitVec.toNat_setWidth, Nat.mod_eq_of_lt hc',
    Nat.mod_eq_of_lt hd'] at htoNat
  exact BitVec.eq_of_toNat_eq htoNat

theorem eq_of_bytes_eq (hds : ∀ d ∈ ds, NameChar d ∧ Convertible T d) (hconv : ∀ c ∈ cs, Convertible T c)
    (honly : ∀ c ∈ cs, ∀ d, NameChar d → T.toAtari d = T.toAtari c → d = c)
    (h : ds.map (atariByte T) = cs.map (atariByte T)) : ds = cs := by
  induction cs generalizing ds with
  | nil => exact map_eq_nil_iff.mp h
  | cons c cs ih =>
    cases ds with
    | nil => cases h
    | cons d ds =>
      rw [forall_mem_cons] at hds hconv honly
      rw [map_cons, map_cons, List.cons.injEq] at h
      obtain rfl := honly.1 d hds.1.1 (atariByte_injective hds.1.2 hconv.1 h.1)
      rw [ih hds.2 hconv.2 honly.2 h.2]

theorem Unambiguous.eq_of_images (h : Unambiguous T cs) (hds : ∀ d ∈ ds, NameChar d)
    (heq : ds.flatMap (image T) = cs.flatMap (image T)) : ds = cs := by
  rw [images_convertible h.convertible] at heq
  have hconv : ∀ d ∈ ds, Convertible T d := by
    intro d hd
    by_contra hnot
    refine h.noUtf8 d (hds d hd) hnot ?_
    obtain ⟨l, r, rfl⟩ := append_of_mem hd
    rw [flatMap_append, flatMap_cons, image_not_convertible hnot] at heq
    exact ⟨_, _, by rw [append_assoc, heq]⟩
  rw [images_convertible hconv] at heq
  exact eq_of_bytes_eq (fun d hd => ⟨hds d hd, hconv d hd⟩) h.convertible h.only heq

theorem not_mem_utf8 (h : c ≠ 0) : (0 : BitVec 8) ∉ utf8 c := by
  rw [← hostBytes_eq c (Nat.le_refl 3), mem_hostBytes]
  exact h

theorem exists_images (hT : Onto T) {bs} (hbs : (0 : BitVec 8) ∉ bs) :
    ∃ ds : List (BitVec 16), (∀ d ∈ ds, NameChar d ∧ Convertible T d) ∧ ds.flatMap (image T) = bs := by
  induction bs with
  | nil => exact ⟨[], by simp⟩
  | cons b bs ih =>
    rw [mem_cons, not_or] at hbs
    obtain ⟨ds, hds, heq⟩ := ih hbs.2
    obtain ⟨d, hd, hb⟩ := hT b (Ne.symm hbs.1)
    have hconv : Convertible T d := by
      rw [Convertible, hb, BitVec.lt_def, BitVec.toNat_setWidth]
      exact Nat.lt_of_le_of_lt (Nat.mod_le _ _) b.isLt
    refine ⟨d :: ds, forall_mem_cons.mpr ⟨⟨hd, hconv⟩, hds⟩, ?_⟩
    rw [flatMap_cons, heq, image_convertible hconv, atariByte, hb]; simp

theorem unambiguous_of_images (hT : Onto T) (hcs : ∀ c ∈ cs, NameChar c)
    (h : ∀ ds, (∀ d ∈ ds, NameChar d) → ds.flatMap (image T) = cs.flatMap (image T) → ds = cs) :
    Unambiguous T cs := by
  -- a part of the name cannot be replaced by other characters with the same images
  have hpart : ∀ l es fs r, cs = l ++ es ++ r → (∀ d ∈ fs, NameChar d) →
      fs.flatMap (image T) = es.flatMap (image T) → fs = es := by
    intro l es fs r hsplit hfs heq
    have hall : ∀ d ∈ l ++ fs ++ r, NameChar d := by
      intro d hd
      rw [append_assoc, mem_append, mem_append] at hd
      rcases hd with hd | hd | hd
      · exact hcs d (by simp [hsplit, hd])
      · exact hfs d hd
      · exact hcs d (by simp [hsplit, hd])
    have hsame := h (l ++ fs ++ r) hall (by simp [hsplit, heq])
    rw [hsplit] at hsame; exact append_cancel_left (append_cancel_right hsame)
  have hconv : ∀ c ∈ cs, Convertible T c := by
    intro c hc
    by_contra hnot
    obtain ⟨l, r, hsplit⟩ := append_of_mem hc
    obtain ⟨fs, hfs, heq⟩ := exists_images hT (not_mem_utf8 (hcs c hc).1)
    have hsame := hpart l [c] fs r (by simp [hsplit]) (fun d hd => (hfs d hd).1)
      (by simp [heq, image_not_convertible hnot])
    exact hnot (hfs c (by simp [hsame])).2
  refine ⟨hconv, fun c hc d hd heq => ?_, fun d hd hnot hin => ?_⟩
  · obtain ⟨l, r, hsplit⟩ := append_of_mem hc
    have hdconv : Convertible T d := by rw [Convertible, heq]; exact hconv c hc
    have hsame := hpart l [c] [d] r (by simp [hsplit]) (by simpa using hd)
      (by simp [image_convertible hdconv, image_convertible (hconv c hc), atariByte, heq])
    simpa using hsame
  · obtain ⟨l, r, hlr⟩ := hin
    obtain ⟨les, rs, hsplit, hles, -⟩ := map_eq_append_iff.mp hlr.symm
    obtain ⟨ls, es, rfl, -, hes⟩ := map_eq_append_iff.mp hles
    have hesconv : ∀ c ∈ es, Convertible T c := fun c hc => hconv c (by simp [hsplit, hc])
    have hsame := hpart ls es [d] rs hsplit (by simpa using hd)
      (by simp [image_not_convertible hnot, images_convertible hesconv, hes])
    exact hnot (hesconv d (by simp [← hsame]))

end Aranym.Natfeat
