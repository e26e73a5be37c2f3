import Aranym.Natfeat.Theorems

/-!
# Atari names on their way to the host and back

The copy to the guest takes a character for one of two bytes when only two bytes of room are left.
-/

namespace Aranym.Natfeat

open Aranym.Lib List

variable {T : Charset} {src : Nat → BitVec 8} {s : List (BitVec 8)} {st : Copy} {b : BitVec 8} {count : Nat}

/-- Every character but NUL comes back from UTF-16. -/
def Inverse (T : Charset) : Prop :=
  ∀ b : BitVec 8, b ≠ 0 → T.toUtf16 b ≠ 0 ∧ T.toAtari (T.toUtf16 b) = b.setWidth 16

/-- The last character has at most two bytes, or its upper bits happen to stand for the same byte. -/
def Returns (T : Charset) (s : List (BitVec 8)) : Prop :=
  ∀ b ∈ s.getLast?, T.toUtf16 b < 0x800 ∨ T.toAtari (T.toUtf16 b >>> 6) = b.setWidth 16

/-! ## To the host -/

theorem hostBytes_of_room {ch} (h : (utf8 ch).length < count) : hostBytes ch count = utf8 ch := by
  by_cases hroom : 3 ≤ count
  · exact hostBytes_eq ch hroom
  · unfold utf8 at h ⊢
    split_ifs at h ⊢ with hone htwo
    · exact if_pos hone
    · simp only [length_cons, length_nil] at h; omega
    · simp only [length_cons, length_nil] at h; omega

theorem atari2HostLoop_name (hs : StringAt src st.src s)
    (hfit : (encode (s.map T.toUtf16)).length < st.count) :
    (atari2HostLoop T src st).dst = st.dst ++ encode (s.map T.toUtf16) ∧
      0 < (atari2HostLoop T src st).count := by
  induction s generalizing st with
  | nil =>
    rw [map_nil, encode, flatMap_nil, append_nil]
    by_cases hcount : st.count > 1
    · rw [atari2HostLoop_end hcount hs]; exact ⟨rfl, Nat.lt_trans Nat.one_pos hcount⟩
    · rw [atari2HostLoop_done hcount]; exact ⟨rfl, hfit⟩
  | cons b s ih =>
    rw [map_cons, encode_cons] at hfit ⊢
    rw [length_append] at hfit
    have hpos := length_pos_iff.mpr (whole_utf8 (T.toUtf16 b)).ne_nil
    have hbytes : hostBytes (T.toUtf16 b) st.count = utf8 (T.toUtf16 b) := hostBytes_of_room (by omega)
    have hnext : (encode (s.map T.toUtf16)).length < (atari2HostNext T st b).count := by
      simp only [atari2HostNext, hbytes]; omega
    obtain ⟨hdst, hcount⟩ := ih hs.2.2 hnext
    rw [atari2HostLoop_cons (by omega) hs]
    refine ⟨hdst.trans ?_, hcount⟩
    simp only [atari2HostNext, hbytes, append_assoc]

theorem dst_atari2HostUtf8Copy (hs : StringAt src 0 s) (hfit : (encode (s.map T.toUtf16)).length < count) :
    (atari2HostUtf8Copy T src count).dst = encode (s.map T.toUtf16) ++ [0] := by
  obtain ⟨hdst, hcount⟩ := @atari2HostLoop_name T src s (.start count) hs hfit
  rw [atari2HostUtf8Copy, Copy.finish, if_pos hcount, hdst]
  rfl

/-! ## Back to the guest -/

theorem code2_utf8 (ch : BitVec 16) :
    code2 (0xe0#8 ||| (ch >>> 12).setWidth 8) (0x80#8 ||| (ch >>> 6).setWidth 8 &&& 0x3f) = ch >>> 6 := by
  refine BitVec.eq_of_getLsbD_eq fun i hi => ?_
  interval_cases i <;> simp [code2]

theorem setWidth_eq_iff {x : BitVec 16} (h : ¬ x ≥ 0x100) : x.setWidth 8 = b ↔ x = b.setWidth 16 := by
  rw [← BitVec.toNat_inj, ← BitVec.toNat_inj, BitVec.toNat_setWidth, BitVec.toNat_setWidth]
  have hx : x.toNat < 0x100 := BitVec.not_le.mp h
  omega

theorem host2AtariLoop_two {b₁} (hcount : st.count = 2) (hs : StringAt src st.src (b :: b₁ :: s))
    (hb : ¬ b < 0x80) (c : BitVec 8) : (host2AtariLoop T src st).finish.dst = st.dst ++ [c, 0] ↔
      T.toAtari (code2 b b₁) = c.setWidth 16 := by
  have hlen : seqLen b st.count = 2 := by rw [seqLen, if_neg hb, if_pos (.inr (by omega))]
  have hch : charAt src st.src 2 = code2 b b₁ := by rw [← hs.1, ← hs.2.2.1]; rfl
  have hraw : raw src st.src 2 = [b, b₁] := by rw [raw_two, hs.1, hs.2.2.1]
  have hnext := length_out T src st 2
  rw [host2AtariLoop_cons (by omega) hs, hlen]
  rw [hch, hcount] at hnext
  rw [host2AtariLoop_done (by split at hnext <;> omega), Copy.finish, hnext]
  split
  · next h =>
    have hdst : (host2AtariNext T src st 2).dst = st.dst ++ [b, b₁] := by
      rw [dst_host2AtariNext, hch, hraw, atariBytes, if_pos h]
    refine iff_of_false ?_ fun heq => ?_
    · simp only [Nat.sub_self, gt_iff_lt, Nat.lt_irrefl, ↓reduceIte, hdst, append_right_inj]
      intro heq
      cases heq
      exact hs.2.2.2.1 rfl
    · rw [heq, ge_iff_le, BitVec.le_def, BitVec.toNat_setWidth] at h
      have h' : 0x100 ≤ c.toNat % 2 ^ 16 := h
      omega
  · next h =>
    have hdst : (host2AtariNext T src st 2).dst = st.dst ++ [(T.toAtari (code2 b b₁)).setWidth 8] := by
      rw [dst_host2AtariNext, hch, hraw, atariBytes, if_neg h]
    simp only [Nat.reduceSub, gt_iff_lt, Nat.one_pos, ↓reduceIte, hdst, append_assoc, append_right_inj]
    simp [setWidth_eq_iff h]

theorem length_utf8_le {ch} (h : ch < 0x800) : (utf8 ch).length ≤ 2 := by
  unfold utf8
  split_ifs <;> simp

theorem Inverse.step {t} (hT : Inverse T) (hb : b ≠ 0) (hs : StringAt src st.src (utf8 (T.toUtf16 b) ++ t))
    (hroom : (utf8 (T.toUtf16 b)).length ≤ st.count) (hcount : st.count > 1) :
    ∃ st' : Copy, host2AtariLoop T src st = host2AtariLoop T src st' ∧ StringAt src st'.src t ∧
      st'.dst = st.dst ++ [b] ∧ st'.count = st.count - 1 := by
  obtain ⟨st', hloop, hsrc, hdst, hcount'⟩ := host2AtariLoop_whole (T := T) (whole_utf8 _) hs hroom hcount
  have hsmall : ¬ b.setWidth 16 ≥ 0x100 := by
    rw [ge_iff_le, BitVec.not_le, BitVec.lt_def, BitVec.toNat_setWidth]
    exact Nat.lt_of_le_of_lt (Nat.mod_le _ _) b.isLt
  rw [(hT b hb).2, atariBytes, if_neg hsmall, (setWidth_eq_iff hsmall).mpr rfl] at hdst
  rw [width, (hT b hb).2, if_neg hsmall] at hcount'
  exact ⟨st', hloop, hsrc ▸ hs.append, hdst, hcount'⟩

theorem returns_singleton : Returns T [b] ↔
    T.toUtf16 b < 0x800 ∨ T.toAtari (T.toUtf16 b >>> 6) = b.setWidth 16 := by
  simp [Returns]

theorem returns_cons (h : s ≠ [] ∨ T.toUtf16 b < 0x800) : Returns T (b :: s) ↔ Returns T s := by
  cases s with
  | nil =>
    rw [returns_singleton]
    exact iff_of_true (.inl (h.resolve_left fun h => h rfl)) (by simp [Returns])
  | cons c s => rw [Returns, getLast?_cons_cons]; rfl

theorem host2AtariLoop_returns (hT : Inverse T) (hne : (0 : BitVec 8) ∉ s)
    (hs : StringAt src st.src (encode (s.map T.toUtf16))) (hcount : st.count = s.length + 1) :
    (host2AtariLoop T src st).finish.dst = st.dst ++ s ++ [0] ↔ Returns T s := by
  induction s generalizing st with
  | nil =>
    rw [length_nil] at hcount
    rw [host2AtariLoop_done (by omega), Copy.finish, if_pos (by omega)]
    simp [Returns]
  | cons b s ih =>
    rw [mem_cons, not_or] at hne
    rw [map_cons, encode_cons] at hs
    rw [length_cons] at hcount
    by_cases hroom : s ≠ [] ∨ T.toUtf16 b < 0x800
    · have hfits : (utf8 (T.toUtf16 b)).length ≤ st.count := by
        rcases hroom with hmore | hshort
        · have hpos := length_pos_iff.mpr hmore; have hle := (whole_utf8 (T.toUtf16 b)).length_le; omega
        · have hle := length_utf8_le hshort; omega
      obtain ⟨st', hloop, hs', hdst, hcount'⟩ := hT.step (Ne.symm hne.1) hs hfits (by omega)
      have hrest := ih hne.2 hs' (by omega)
      rw [hdst, append_assoc st.dst, singleton_append] at hrest
      rw [hloop, hrest, returns_cons hroom]
    · -- the last character, and three bytes of it where two are looked at
      rw [not_or, not_not] at hroom
      obtain ⟨rfl, hlong⟩ := hroom
      have hlead : ¬ T.toUtf16 b < 0x80 := fun h => hlong (BitVec.lt_trans h (by decide))
      rw [utf8, if_neg hlead, if_neg hlong] at hs
      rw [append_assoc, singleton_append, host2AtariLoop_two hcount hs (not_lt_of_getLsbD (by simp)), code2_utf8,
        returns_singleton, or_iff_right hlong]

/-! ## Both ways -/

theorem cString_nul (s : List (BitVec 8)) : cString (s ++ [0]) = cString s := by
  funext i
  rcases Nat.lt_or_ge i s.length with h | h
  · simp [cString, getElem?_append_left h]
  · simp only [cString, getD_eq_getElem?_getD, getElem?_append_right h, getElem?_eq_none h]
    cases i - s.length <;> rfl

/-- A name comes back from a host name exactly if its last character is read in full. -/
theorem name_returns_iff (T : Charset) (hT : Inverse T) (hs : StringAt src 0 s)
    (hcount : (encode (s.map T.toUtf16)).length < count) :
    (host2AtariUtf8Copy T (cString (atari2HostUtf8Copy T src count).dst) (s.length + 1)).dst = s ++ [0] ↔
      Returns T s := by
  have hne := hs.not_mem
  have hnul : (0 : BitVec 8) ∉ encode (s.map T.toUtf16) := by
    rw [encode, mem_flatMap]
    rintro ⟨ch, hch, hmem⟩
    obtain ⟨b, hb, rfl⟩ := mem_map.mp hch
    rw [← hostBytes_eq _ (Nat.le_refl 3), mem_hostBytes] at hmem
    exact (hT b fun h => hne (h ▸ hb)).1 hmem
  have hhost : StringAt (cString (encode (s.map T.toUtf16) ++ [0])) 0 (encode (s.map T.toUtf16)) := by
    rw [cString_nul]; exact stringAt_cString hnul
  rw [dst_atari2HostUtf8Copy hs hcount]
  exact @host2AtariLoop_returns T _ s (.start (s.length + 1)) hT hne hhost rfl

theorem inverse_maptab : Inverse maptab := by
  intro b hb
  obtain ⟨hne, -, hback⟩ := maptab_back hb
  exact ⟨hne, hback⟩

theorem name_returns_two : (host2AtariUtf8Copy maptab (cString (atari2HostUtf8Copy maptab (cString [0x80]) 3).dst)
    2).dst = [0x80, 0] :=
  (name_returns_iff maptab inverse_maptab (stringAt_cString (by decide)) (by decide)).mpr fun b hb => by
    cases hb; exact .inl (by decide)

/-- `√` has three, and it comes back as two of them without a NUL. -/
theorem root_not_returned : (host2AtariUtf8Copy maptab (cString (atari2HostUtf8Copy maptab (cString [0xfb]) 4).dst)
    2).dst = [0xe2, 0x88] := by
  decide +kernel

end Aranym.Natfeat
