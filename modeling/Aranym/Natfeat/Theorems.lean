import Aranym.Natfeat.Lemmas.Names

/-!
# Names between the host and the guest

When the copies of names keep to their buffers, and when the guest can tell a name from all others.
-/

namespace Aranym.Natfeat

open Aranym.Lib BitVec List

variable {src : Nat → BitVec 8} {s : List (BitVec 8)} {count : Nat} {cs : List (BitVec 16)}

/-! ## Buffers -/

/-- The copy to the host leaves out its NUL exactly if a character takes the whole rest of the buffer. The
copy to the guest does so too, and it reads on behind the string exactly if the NUL cuts off a character and
there is room left. -/
theorem copies_respect_iff (T : Charset) (hs : StringAt src 0 s) (hcount : 1 ≤ count) :
    (Respects s.length count (atari2HostUtf8Copy T src count) ↔ ¬ AtariFills T.toUtf16 count s) ∧
      (Respects s.length count (host2AtariUtf8Copy T src count) ↔
        ¬ HostCut T count s ∧ ¬ HostFills T count s) := by
  have hs' : StringAt src (Copy.start count).src s := hs
  have hlen : (Copy.start count).src + s.length = s.length := Nat.zero_add _
  have hreads : ∀ i ∈ (Copy.start count).reads, i ≤ s.length := by simp [Copy.start]
  have hdst : 0 ∉ (Copy.start count).dst := not_mem_nil
  have hroom : (Copy.start count).dst.length + (Copy.start count).count = count := Nat.zero_add _
  constructor
  · obtain ⟨hin, hbuf⟩ := atari2HostLoop_inside (T := T) hs' hlen hreads
    have hended := ended_atari2HostLoop (T := T) hs' hcount hdst
    refine ⟨fun h => hended.mp h.ended, fun h => ⟨?_, ?_, hended.mpr h⟩⟩
    · rwa [atari2HostUtf8Copy, reads_finish]
    · exact Nat.le_trans (length_finish_le _) (by omega)
  · have hin := inString_host2AtariLoop (T := T) hs' hlen hreads
    have hbuf := (host2AtariLoop_grows T src (.start count)).1
    have hended := ended_host2AtariLoop (T := T) hs' hcount hdst
    constructor
    · intro h
      have hcut := hin.mp (reads_finish (host2AtariLoop T src _) ▸ h.inString)
      exact ⟨hcut, (hended hcut).mp h.ended⟩
    · rintro ⟨hcut, hfills⟩
      refine ⟨?_, ?_, (hended hcut).mpr hfills⟩
      · rw [host2AtariUtf8Copy, reads_finish]; exact hin.mpr hcut
      · exact Nat.le_trans (length_finish_le _) (by omega)

theorem copies_respect_ascii : Respects 1 2 (atari2HostUtf8Copy maptab (cString [0x41]) 2) ∧
      Respects 1 2 (host2AtariUtf8Copy maptab (cString [0x41]) 2) := by
  have hs : StringAt (cString [0x41]) 0 [0x41] := stringAt_cString (by decide)
  obtain ⟨hhost, hguest⟩ := copies_respect_iff maptab hs (show 1 ≤ 2 by decide)
  refine ⟨hhost.mpr ?_, hguest.mpr ⟨fun h => ?_, ?_⟩⟩
  · rw [atariFills_cons]
    rintro ((⟨-, h⟩ | ⟨h, -⟩) | ⟨h, -⟩)
    · exact h (by decide)
    · cases h
    · omega
  · exact absurd h.three_le (by decide)
  · rw [hostFills_two]; rintro ⟨b₁, t, h, -⟩; cases h

/-- Ç for the host and Ā for the guest in buffers of two bytes leave no NUL, and a first byte alone makes the
copy read behind the string. -/
theorem copies_not_respect : ¬ Respects 1 2 (atari2HostUtf8Copy maptab (cString [0x80]) 2) ∧
      ¬ Respects 2 2 (host2AtariUtf8Copy maptab (cString [0xc4, 0x80]) 2) ∧
      ¬ Respects 1 16 (host2AtariUtf8Copy maptab (cString [0xc3]) 16) := by
  refine ⟨fun h => ?_, fun h => ?_, fun h => ?_⟩
  · exact absurd h.ended (by decide +kernel)
  · exact absurd h.ended (by decide +kernel)
  · exact absurd (h.inString 2 (by decide +kernel)) (by decide)

/-! ## Names -/

theorem maptab_back {b} (hb : b ≠ 0) : maptab.toUtf16 b ≠ 0 ∧ maptab.toUtf16 b < 0xd800 ∧
    maptab.toAtari (maptab.toUtf16 b) = b.setWidth 16 := by
  have hall : ∀ n < 256, n ≠ 0 → maptab.toUtf16 (BitVec.ofNat 8 n) ≠ 0 ∧
      maptab.toUtf16 (BitVec.ofNat 8 n) < 0xd800 ∧
      maptab.toAtari (maptab.toUtf16 (BitVec.ofNat 8 n)) = (BitVec.ofNat 8 n).setWidth 16 := by
    decide +kernel
  have hb' := hall b.toNat b.isLt fun h => hb (eq_of_toNat_eq h)
  rwa [ofNat_toNat, setWidth_eq] at hb'

theorem onto_maptab : Onto maptab := by
  intro b hb
  obtain ⟨hne, hlt, hback⟩ := maptab_back hb
  exact ⟨_, ⟨hne, .inl hlt⟩, hback⟩

/-- The guest never sees another valid name for this one exactly if it is unambiguous. -/
theorem names_distinct_iff (hcs : ∀ c ∈ cs, NameChar c) :
    (∀ ds, (∀ d ∈ ds, NameChar d) → encode ds ≠ encode cs → ∀ src src' count,
      StringAt src 0 (encode cs) → (encode cs).length < count →
      StringAt src' 0 (encode ds) → (encode ds).length < count →
      (host2AtariUtf8Copy maptab src' count).dst ≠ (host2AtariUtf8Copy maptab src count).dst) ↔
    Unambiguous maptab cs := by
  have hmem : ∀ ds, (∀ d ∈ ds, NameChar d) → (0 : BitVec 8) ∉ encode ds := by
    intro ds hds hzero
    obtain ⟨d, hd, hin⟩ := mem_flatMap.mp hzero; exact not_mem_utf8 (hds d hd).1 hin
  constructor
  · intro h
    refine unambiguous_of_images onto_maptab hcs fun ds hds heq => ?_
    by_contra hne
    have hs := stringAt_cString (hmem cs hcs)
    have hs' := stringAt_cString (hmem ds hds)
    refine h ds hds (fun henc => hne (encode_injective henc)) _ _
      ((encode cs).length + (encode ds).length + 1) hs (by omega) hs' (by omega) ?_
    rw [dst_host2AtariUtf8Copy hs (by omega), dst_host2AtariUtf8Copy hs' (by omega), heq]
  · intro h ds hds hne src src' count hs hfit hs' hfit' heq
    rw [dst_host2AtariUtf8Copy hs hfit, dst_host2AtariUtf8Copy hs' hfit'] at heq
    exact hne (congrArg encode (h.eq_of_images hds (append_cancel_right heq)))

/-- A character of plain text whose Atari byte no other character has. -/
def Plain (c : BitVec 16) : Prop := 0x21 ≤ c.toNat ∧ c.toNat < 0x7f ∧ c.toNat ≠ 0x2d

theorem eq_of_toAtari_plain {c d} (hc : Plain c) (h : maptab.toAtari d = c) : d = c := by
  -- the runs that do not keep their characters lie outside plain text, but for the soft hyphen
  have hruns : ∀ r ∈ utf16ToAtari, r.2.2 + r.2.1 ≤ 0x10000 ∧ (r.1 = r.2.2 ∨ r.2.2 + r.2.1 ≤ 0x21 ∨
      0x7f ≤ r.2.2 ∨ r.2.2 = 0x2d ∧ r.2.1 = 1) := by
    decide +kernel
  obtain ⟨hlow, hhigh, hhyphen⟩ := hc
  have htoNat := congrArg BitVec.toNat h
  simp only [maptab] at htoNat
  split at htoNat
  · next r hr =>
    obtain ⟨hbound, hrun⟩ := hruns r (List.mem_of_find?_eq_some hr)
    have hin := List.find?_some hr
    rw [Bool.and_eq_true, decide_eq_true_eq, decide_eq_true_eq] at hin
    rw [toNat_ofNat, Nat.mod_eq_of_lt (by omega)] at htoNat
    exact eq_of_toNat_eq (by omega)
  · exact absurd (htoNat ▸ hhigh) (by decide)

theorem toAtari_plain {c} (hc : Plain c) : maptab.toAtari c = c := by
  have hall : ∀ n < 0x7f, maptab.toAtari (BitVec.ofNat 16 n) = BitVec.ofNat 16 n := by decide
  have hspec := hall c.toNat hc.2.1
  rwa [ofNat_toNat, setWidth_eq] at hspec

theorem Plain.lt {c} (h : Plain c) : c < 0x80 := Nat.lt_trans h.2.1 (by decide)

theorem convertible_plain {c} (h : Plain c) : Convertible maptab c := by
  rw [Convertible, toAtari_plain h]
  exact BitVec.lt_trans h.lt (by decide)

theorem unambiguous_plain (hcs : ∀ c ∈ cs, Plain c) : Unambiguous maptab cs := by
  refine ⟨fun c hc => convertible_plain (hcs c hc), fun c hc d _ h => ?_, fun d _ hnot hin => ?_⟩
  · rw [toAtari_plain (hcs c hc)] at h; exact eq_of_toAtari_plain (hcs c hc) h
  · -- the first byte of the character would be ASCII
    have hbyte : ∀ b ∈ utf8 d, ∃ c, Plain c ∧ b = c.setWidth 8 := by
      intro b hb
      obtain ⟨c, hc, rfl⟩ := mem_map.mp (hin.subset hb)
      exact ⟨c, hcs c hc, by rw [atariByte, toAtari_plain (hcs c hc)]⟩
    have hlt : ∀ c, Plain c → c.setWidth 8 < 0x80#8 := fun c hc => by
      rw [lt_def, toNat_setWidth]
      exact Nat.lt_of_le_of_lt (Nat.mod_le _ _) (Nat.lt_trans hc.2.1 (by decide))
    have hd := whole_utf8 d
    generalize utf8 d = u at hbyte hd
    cases hd with
    | one =>
      obtain ⟨c, hc, rfl⟩ := hbyte _ (mem_singleton_self _)
      have hback : (c.setWidth 8).setWidth 16 = c := by
        refine eq_of_toNat_eq ?_
        have hsmall := hc.2.1
        rw [toNat_setWidth, toNat_setWidth]; omega
      rw [hback] at hnot; exact hnot (convertible_plain hc)
    | two h => obtain ⟨c, hc, rfl⟩ := hbyte _ mem_cons_self; exact h.not_lt (hlt c hc)
    | three h => obtain ⟨c, hc, rfl⟩ := hbyte _ mem_cons_self; exact h.1 (hlt c hc)

theorem letter_distinct :
    Unambiguous maptab [0x41] ∧ (host2AtariUtf8Copy maptab (cString (encode [0x20ac])) 64).dst ≠
      (host2AtariUtf8Copy maptab (cString (encode [0x41])) 64).dst := by
  have hplain : Unambiguous maptab [0x41] := by
    refine unambiguous_plain (forall_mem_singleton.mpr ?_)
    exact ⟨by decide, by decide, by decide⟩
  have hname : ∀ c ∈ [(0x41 : BitVec 16)], NameChar c :=
    forall_mem_singleton.mpr ⟨by decide, .inl (by decide)⟩
  have heuro : ∀ c ∈ [(0x20ac : BitVec 16)], NameChar c :=
    forall_mem_singleton.mpr ⟨by decide, .inl (by decide)⟩
  have hs : StringAt (cString (encode [0x41])) 0 (encode [0x41]) := stringAt_cString (by decide)
  have hs' : StringAt (cString (encode [0x20ac])) 0 (encode [0x20ac]) :=
    stringAt_cString (by decide)
  exact ⟨hplain, (names_distinct_iff hname).mpr hplain [0x20ac] heuro (by decide) _ _ 64 hs
    (by decide) hs' (by decide)⟩

/-- The euro sign and Þ have one Atari byte, and Ā is seen for the two characters whose Atari bytes are those of
its UTF-8 form. -/
theorem names_confused : (host2AtariUtf8Copy maptab (cString (encode [0x20ac])) 64).dst =
        (host2AtariUtf8Copy maptab (cString (encode [0xde])) 64).dst ∧ encode [0x20ac] ≠ encode [0xde] ∧
      (host2AtariUtf8Copy maptab (cString (encode [0x100])) 64).dst =
        (host2AtariUtf8Copy maptab (cString (encode [0x5d2, 0xc7])) 64).dst ∧
      encode [0x100] ≠ encode [0x5d2, 0xc7] := by decide +kernel

end Aranym.Natfeat
