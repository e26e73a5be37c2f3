import Aranym.Lib.Utf8
import Aranym.Natfeat.Strings
import Mathlib.Tactic.IntervalCases

/-!
# Strings and their copies

What a copy reads, how much it writes, and when it leaves a NUL.
-/

namespace Aranym.Natfeat

open Aranym.Lib List

variable {T : Charset} {src : Nat → BitVec 8} {s t : List (BitVec 8)} {st : Copy}

/-! ## Strings in memory -/

/-- The NUL-terminated string at an offset. -/
def StringAt (src : Nat → BitVec 8) : Nat → List (BitVec 8) → Prop
  | i, [] => src i = 0
  | i, b :: s => src i = b ∧ b ≠ 0 ∧ StringAt src (i + 1) s

theorem StringAt.append {i} (h : StringAt src i (s ++ t)) : StringAt src (i + s.length) t := by
  induction s generalizing i with
  | nil => exact h
  | cons b s ih => have htail := ih h.2.2; rwa [length_cons, Nat.add_comm s.length, ← Nat.add_assoc]

theorem StringAt.not_mem {i} (h : StringAt src i s) : (0 : BitVec 8) ∉ s := by
  induction s generalizing i with
  | nil => exact not_mem_nil
  | cons b s ih => rw [mem_cons, not_or]; exact ⟨Ne.symm h.2.1, ih h.2.2⟩

def cString (s : List (BitVec 8)) (i : Nat) : BitVec 8 := s.getD i 0

theorem stringAt_cString (h : (0 : BitVec 8) ∉ s) : StringAt (cString s) 0 s := by
  have hfrom : ∀ (s t : List (BitVec 8)), (0 : BitVec 8) ∉ t → StringAt (cString (s ++ t)) s.length t := by
    intro s t
    induction t generalizing s with
    | nil => simp [StringAt, cString]
    | cons b t ih =>
      intro hb
      rw [mem_cons, not_or] at hb
      obtain ⟨hb, ht⟩ := hb
      have htail := ih (s ++ [b]) ht
      refine ⟨by simp [cString], Ne.symm hb, ?_⟩
      simpa using htail
  exact hfrom [] s h

/-! ## What every copy does -/

/-- The source bytes read are those of the string and its NUL, and the buffer has room for what was
written, a NUL among it. -/
structure Respects (len count : Nat) (r : Copy) : Prop where
  inString : ∀ i ∈ r.reads, i ≤ len
  inBuffer : r.dst.length ≤ count
  ended : 0 ∈ r.dst

theorem length_finish_le (s : Copy) : s.finish.dst.length ≤ s.dst.length + s.count := by
  unfold Copy.finish
  split
  · rw [length_append, length_singleton]; omega
  · exact Nat.le_add_right _ _

theorem reads_finish (s : Copy) : s.finish.reads = s.reads := by
  unfold Copy.finish
  split <;> rfl

theorem mem_finish (h : 0 < st.count ∨ 0 ∈ st.dst) : 0 ∈ st.finish.dst := by
  unfold Copy.finish
  split
  · simp
  · next hcount => exact h.resolve_left hcount

theorem finish_of_full (h : st.count = 0) : st.finish = st := by simp [Copy.finish, h]

/-! ## To the host -/

theorem length_hostBytes_le (ch : BitVec 16) {count} (h : 1 < count) :
    (hostBytes ch count).length ≤ count := by
  unfold hostBytes
  split
  · exact Nat.le_of_lt h
  · split
    · exact h
    · simp only [length_cons, length_nil]; omega

theorem hostBytes_eq (ch : BitVec 16) {count} (h : 3 ≤ count) : hostBytes ch count = utf8 ch := by
  have hroom : ¬ count < 3 := by omega
  have hlow : ∀ x : BitVec 16, (x &&& 0x3f ||| 0x80).setWidth 8 = 0x80#8 ||| x.setWidth 8 &&& 0x3f := by
    intro x
    refine BitVec.eq_of_getLsbD_eq fun i hi => ?_
    interval_cases i <;> simp
  have htwo : ((ch >>> 6) &&& 0x3f ||| 0xc0).setWidth 8 = 0xc0#8 ||| (ch >>> 6).setWidth 8 := by
    refine BitVec.eq_of_getLsbD_eq fun i hi => ?_
    interval_cases i <;> simp
  have hthree : ((ch >>> 12) &&& 0x0f ||| 0xe0).setWidth 8 = 0xe0#8 ||| (ch >>> 12).setWidth 8 := by
    refine BitVec.eq_of_getLsbD_eq fun i hi => ?_
    interval_cases i <;> simp
  rw [hostBytes, utf8, hlow ch, hlow (ch >>> 6), htwo, hthree]
  simp only [hroom, or_false]

theorem setWidth_or_ne (x m : BitVec 16) (hm : m.getLsbD 7 = true) : (x ||| m).setWidth 8 ≠ (0 : BitVec 8) := by
  intro h
  have hbit := congrArg (fun y : BitVec 8 => y.getLsbD 7) h
  simp only [BitVec.getLsbD_setWidth, BitVec.getLsbD_or, hm, Bool.or_true] at hbit
  exact absurd hbit (by decide)

theorem mem_hostBytes (ch : BitVec 16) (count : Nat) : 0 ∈ hostBytes ch count ↔ ch = 0 := by
  unfold hostBytes
  split
  · next hch =>
    rw [mem_singleton]
    rw [BitVec.lt_def] at hch
    have hsmall : ch.toNat < 2 ^ 7 := hch
    constructor
    · intro h
      have htoNat := congrArg BitVec.toNat h
      rw [BitVec.toNat_setWidth, Nat.mod_eq_of_lt (by omega)] at htoNat
      exact BitVec.eq_of_toNat_eq htoNat.symm
    · rintro rfl; rfl
  · next hch =>
    have hne : ch ≠ 0 := by rintro rfl; exact hch (by decide)
    have hc0 := fun x : BitVec 16 => (setWidth_or_ne x 0xc0 (by decide)).symm
    have he0 := fun x : BitVec 16 => (setWidth_or_ne x 0xe0 (by decide)).symm
    have h80 := fun x : BitVec 16 => (setWidth_or_ne x 0x80 (by decide)).symm
    split
    · simp only [mem_cons, not_mem_nil, hc0, h80, hne, or_self]
    · simp only [mem_cons, not_mem_nil, he0, h80, hne, or_self]

theorem atari2HostLoop_done (h : ¬ st.count > 1) : atari2HostLoop T src st = st := by
  rw [atari2HostLoop, if_neg h]

theorem atari2HostLoop_end (h : st.count > 1) (hs : StringAt src st.src []) :
    atari2HostLoop T src st = { st with src := st.src + 1, reads := st.reads ++ [st.src] } := by
  rw [atari2HostLoop, if_pos h]
  exact if_pos hs

def atari2HostNext (T : Charset) (st : Copy) (b : BitVec 8) : Copy :=
  ⟨st.src + 1, st.count - (hostBytes (T.toUtf16 b) st.count).length,
    st.dst ++ hostBytes (T.toUtf16 b) st.count, st.reads ++ [st.src]⟩

theorem atari2HostLoop_cons {b} (h : st.count > 1) (hs : StringAt src st.src (b :: s)) :
    atari2HostLoop T src st = atari2HostLoop T src (atari2HostNext T st b) := by
  obtain ⟨rfl, hb, -⟩ := hs
  rw [atari2HostLoop, if_pos h]
  exact if_neg hb

theorem count_atari2HostNext (st : Copy) (b : BitVec 8) (h : st.count > 1) :
    (atari2HostNext T st b).count < st.count := by
  have hpos := length_hostBytes_pos (T.toUtf16 b) st.count
  simp only [atari2HostNext]
  omega

theorem atari2HostLoop_inside {len} (hs : StringAt src st.src s) (hlen : st.src + s.length = len)
    (hreads : ∀ i ∈ st.reads, i ≤ len) : (∀ i ∈ (atari2HostLoop T src st).reads, i ≤ len) ∧
      (atari2HostLoop T src st).dst.length + (atari2HostLoop T src st).count = st.dst.length + st.count := by
  induction s generalizing st with
  | nil =>
    by_cases h : st.count > 1
    · rw [atari2HostLoop_end h hs]
      refine ⟨fun i hi => ?_, rfl⟩
      rcases mem_append.mp hi with hi | hi
      · exact hreads i hi
      · rw [mem_singleton.mp hi, ← hlen]; exact Nat.le_add_right _ _
    · rw [atari2HostLoop_done h]; exact ⟨hreads, rfl⟩
  | cons b s ih =>
    by_cases h : st.count > 1
    · rw [atari2HostLoop_cons h hs]
      have hle := length_hostBytes_le (T.toUtf16 b) h
      rw [length_cons] at hlen
      have hlen' : (atari2HostNext T st b).src + s.length = len := by simp only [atari2HostNext]; omega
      have hreads' : ∀ i ∈ (atari2HostNext T st b).reads, i ≤ len := by
        intro i hi
        rcases mem_append.mp hi with hi | hi
        · exact hreads i hi
        · have heq := mem_singleton.mp hi; omega
      obtain ⟨hin, hcount⟩ := ih hs.2.2 hlen' hreads'
      refine ⟨hin, hcount.trans ?_⟩
      simp only [atari2HostNext, length_append]; omega
    · rw [atari2HostLoop_done h]; exact ⟨hreads, rfl⟩

/-- The copy to the host uses up the buffer: two bytes are written where there is room for two, or three
where there is room for three. Before that no NUL is written. -/
inductive AtariFills (toUtf16 : BitVec 8 → BitVec 16) : Nat → List (BitVec 8) → Prop
  | two (b : BitVec 8) (s : List (BitVec 8)) (h : ¬ toUtf16 b < 0x80) : AtariFills toUtf16 2 (b :: s)
  | three (b : BitVec 8) (s : List (BitVec 8)) (h : ¬ toUtf16 b < 0x800) : AtariFills toUtf16 3 (b :: s)
  | after (room : Nat) (b : BitVec 8) (s : List (BitVec 8)) (hroom : 3 ≤ room) (h : toUtf16 b ≠ 0)
      (hs : AtariFills toUtf16 (room - (utf8 (toUtf16 b)).length) s) : AtariFills toUtf16 room (b :: s)

theorem not_atariFills_nil {room} : ¬ AtariFills T.toUtf16 room [] := by
  intro h
  cases h

theorem atariFills_cons {room b} : AtariFills T.toUtf16 room (b :: s) ↔
    (room = 2 ∧ ¬ T.toUtf16 b < 0x80 ∨ room = 3 ∧ ¬ T.toUtf16 b < 0x800) ∨ 3 ≤ room ∧
      T.toUtf16 b ≠ 0 ∧ AtariFills T.toUtf16 (room - (utf8 (T.toUtf16 b)).length) s := by
  constructor
  · intro h
    cases h with
    | two _ _ h => exact .inl (.inl ⟨rfl, h⟩)
    | three _ _ h => exact .inl (.inr ⟨rfl, h⟩)
    | after _ _ _ hroom h hs => exact .inr ⟨hroom, h, hs⟩
  · rintro ((⟨rfl, h⟩ | ⟨rfl, h⟩) | ⟨hroom, h, hs⟩)
    · exact .two b s h
    · exact .three b s h
    · exact .after room b s hroom h hs

theorem AtariFills.two_le {room} (h : AtariFills T.toUtf16 room s) : 2 ≤ room := by
  cases h with
  | two => exact Nat.le_refl 2
  | three => omega
  | after _ _ _ hroom => omega

theorem atari2HostLoop_mem (h : 0 ∈ st.dst) : 0 ∈ (atari2HostLoop T src st).dst := by
  induction hn : st.count using Nat.strong_induction_on generalizing st with
  | _ n ih =>
    rw [atari2HostLoop]
    split
    · dsimp only
      split
      · exact h
      · next hcount _ =>
        refine ih _ ?_ ?_ rfl
        · rw [← hn]; exact count_atari2HostNext (T := T) st (src st.src) hcount
        · exact mem_append_left _ h
    · exact h

theorem length_hostBytes_eq_iff (ch : BitVec 16) {count} (h : 1 < count) :
    (hostBytes ch count).length = count ↔ count = 2 ∧ ¬ ch < 0x80 ∨ count = 3 ∧ ¬ ch < 0x800 := by
  have hlt : ch < 0x80 → ch < 0x800 := fun h => BitVec.lt_trans h (by decide)
  unfold hostBytes
  split
  · next hch =>
    simp only [length_singleton, hch, hlt hch, not_true_eq_false, and_false, or_self, iff_false]
    omega
  · next hch =>
    split
    · next hch' =>
      simp only [length_cons, length_nil, hch, not_false_eq_true, and_true]
      constructor
      · exact fun h => .inl h.symm
      · rintro (h | ⟨h, hge⟩)
        · exact h.symm
        · exact absurd (hch'.resolve_right (by omega)) hge
    · next hch' =>
      rw [not_or] at hch'
      simp only [length_cons, length_nil, hch'.1, not_false_eq_true, and_true]; omega

theorem ended_atari2HostLoop (hs : StringAt src st.src s) (hcount : 0 < st.count) (hdst : 0 ∉ st.dst) :
    0 ∈ (atari2HostLoop T src st).finish.dst ↔ ¬ AtariFills T.toUtf16 st.count s := by
  induction s generalizing st with
  | nil =>
    refine iff_of_true (mem_finish (.inl ?_)) not_atariFills_nil
    by_cases h : st.count > 1
    · rwa [atari2HostLoop_end h hs]
    · rwa [atari2HostLoop_done h]
  | cons b s ih =>
    by_cases h : st.count > 1
    · rw [atari2HostLoop_cons h hs]
      have hfull := length_hostBytes_eq_iff (T.toUtf16 b) h
      have hle := length_hostBytes_le (T.toUtf16 b) h
      have hnext : (atari2HostNext T st b).count =
        st.count - (hostBytes (T.toUtf16 b) st.count).length := rfl
      by_cases hzero : T.toUtf16 b = 0
      · -- a NUL is written here, whatever follows
        have hmem : 0 ∈ (atari2HostNext T st b).dst :=
          mem_append_right _ ((mem_hostBytes _ _).mpr hzero)
        refine iff_of_true (mem_finish (.inr (atari2HostLoop_mem hmem))) ?_
        rw [atariFills_cons, hzero]; simp
      · have hmem : 0 ∉ (atari2HostNext T st b).dst := by
          rw [atari2HostNext, mem_append, mem_hostBytes, not_or]; exact ⟨hdst, hzero⟩
        by_cases hzero' : (atari2HostNext T st b).count = 0
        · rw [atari2HostLoop_done (by omega), finish_of_full hzero']
          refine iff_of_false hmem (not_not.mpr (atariFills_cons.mpr (.inl ?_)))
          exact hfull.mp (by omega)
        · rw [ih hs.2.2 (Nat.pos_of_ne_zero hzero') hmem, not_iff_not, atariFills_cons,
            or_iff_right (mt hfull.mpr (by omega))]
          constructor
          · intro hf
            have hroom : 3 ≤ st.count := by
              have htwo := hf.two_le
              have hpos := length_hostBytes_pos (T.toUtf16 b) st.count; omega
            rw [hnext, hostBytes_eq _ hroom] at hf; exact ⟨hroom, hzero, hf⟩
          · rintro ⟨hroom, -, hf⟩; rwa [hnext, hostBytes_eq _ hroom]
    · refine iff_of_true (mem_finish (.inl ?_)) fun hf => h hf.two_le; rwa [atari2HostLoop_done h]

end Aranym.Natfeat
