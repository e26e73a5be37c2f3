import Aranym.Natfeat.Lemmas.Strings

/-!
# Copies to the guest

The copy takes the string character by character, by what the first byte of each says, and with two bytes of room only
it takes two bytes for any character but ASCII.
-/

namespace Aranym.Natfeat

open Aranym.Lib List Nat

variable {T : Charset} {src : Nat → BitVec 8} {s t c : List (BitVec 8)} {st : Copy} {room i bytes len : Nat}
  {b b₁ b₂ : BitVec 8} {ch x : BitVec 16}

/-! ## Characters -/

def Lead2 (b : BitVec 8) : Prop := b &&& 0xe0 = 0xc0

def Lead3 (b : BitVec 8) : Prop := ¬ b < 0x80 ∧ b &&& 0xe0 ≠ 0xc0

inductive Whole : List (BitVec 8) → BitVec 16 → Prop
  | one {b : BitVec 8} (h : b < 0x80) : Whole [b] (b.setWidth 16)
  | two {b b₁ : BitVec 8} (h : Lead2 b) : Whole [b, b₁] (code2 b b₁)
  | three {b b₁ b₂ : BitVec 8} (h : Lead3 b) : Whole [b, b₁, b₂] (code3 b b₁ b₂)

def width (T : Charset) (c : List (BitVec 8)) (ch : BitVec 16) : Nat :=
  if T.toAtari ch ≥ 0x100 then c.length else 1

theorem not_lt_of_getLsbD (h : b.getLsbD 7 = true) : ¬ b < 0x80 := by
  intro hlt
  have hbit : b.getLsbD 7 = false := testBit_lt_two_pow hlt
  rw [h] at hbit
  cases hbit

theorem Lead2.not_lt (h : Lead2 b) : ¬ b < 0x80 := by
  have h7 := congrArg (fun x : BitVec 8 => x.getLsbD 7) h
  rw [BitVec.getLsbD_and] at h7
  exact not_lt_of_getLsbD (Bool.and_eq_true_iff.mp h7).1

theorem Whole.ne_nil (h : Whole c ch) : c ≠ [] := by cases h <;> simp

theorem Whole.length_le (h : Whole c ch) : c.length ≤ 3 := by cases h <;> simp

theorem seqLen_lead2 (h : Lead2 b) : seqLen b room = 2 := by rw [seqLen, if_neg h.not_lt, if_pos (.inl h)]

theorem seqLen_lead3 (h : Lead3 b) (hroom : 3 ≤ room) : seqLen b room = 3 := by
  rw [seqLen, if_neg h.1, if_neg]
  rintro (h' | h')
  · exact h.2 h'
  · omega

theorem Whole.seqLen_eq (h : Whole (b :: c) ch) : seqLen b 3 = c.length + 1 := by
  cases h with
  | one h => exact if_pos h
  | two h => exact seqLen_lead2 h
  | three h => exact seqLen_lead3 h le_rfl

theorem Whole.head (h : Whole c ch) (heq : b :: s = c ++ t) : ∃ c', c = b :: c' ∧ s = c' ++ t := by
  obtain ⟨b', c', rfl⟩ := exists_cons_of_ne_nil h.ne_nil
  obtain ⟨rfl, rfl⟩ := cons.inj heq; exact ⟨c', rfl, rfl⟩

theorem Whole.unique {c' ch'} (h : Whole c ch) (h' : Whole c' ch')
    (heq : c ++ s = c' ++ t) : c = c' ∧ ch = ch' ∧ s = t := by
  obtain ⟨b, c, rfl⟩ := exists_cons_of_ne_nil h.ne_nil
  obtain ⟨c', rfl, htail⟩ := h'.head heq
  have hlen : c.length = c'.length := succ.inj (h.seqLen_eq.symm.trans h'.seqLen_eq)
  obtain ⟨rfl, rfl⟩ := append_inj htail hlen
  exact ⟨rfl, by cases h <;> cases h' <;> rfl, rfl⟩

theorem Whole.not_cut (hc : Whole c ch) (hs : s.length + 1 < seqLen b 3) : b :: s ≠ c ++ t := by
  intro heq
  obtain ⟨c', rfl, rfl⟩ := hc.head heq
  rw [hc.seqLen_eq, length_append] at hs; omega

/-! ## One step -/

def host2AtariNext (T : Charset) (src : Nat → BitVec 8) (st : Copy) (bytes : Nat) : Copy :=
  let out := atariBytes (T.toAtari (charAt src st.src bytes)) (raw src st.src bytes)
  ⟨st.src + bytes, st.count - out.length, st.dst ++ out,
    st.reads ++ [st.src] ++ (List.range bytes).map (st.src + ·)⟩

theorem host2AtariLoop_done (h : ¬ st.count > 1) : host2AtariLoop T src st = st := by
  rw [host2AtariLoop, if_neg h]

theorem host2AtariLoop_end (h : st.count > 1) (hs : StringAt src st.src []) :
    host2AtariLoop T src st = { st with reads := st.reads ++ [st.src] } := by
  rw [host2AtariLoop, if_pos h]
  exact if_pos hs

theorem host2AtariLoop_cons (h : st.count > 1) (hs : StringAt src st.src (b :: s)) : host2AtariLoop T src st =
      host2AtariLoop T src (host2AtariNext T src st (seqLen b st.count)) := by
  obtain ⟨rfl, hb, -⟩ := hs
  rw [host2AtariLoop, if_pos h]
  exact if_neg hb

theorem seqLen_le (b : BitVec 8) (h : 1 < room) : seqLen b room ≤ room := by
  unfold seqLen
  split
  · exact Nat.le_of_lt h
  · split <;> omega

theorem length_raw (i n : Nat) : (raw src i n).length = n := by simp [raw]

theorem length_out_le (h : 1 < room) (x : BitVec 16) (src : Nat → BitVec 8) (i : Nat) (b : BitVec 8) :
    (atariBytes x (raw src i (seqLen b room))).length ≤ room := by
  unfold atariBytes
  split
  · rw [length_raw]; exact seqLen_le b h
  · exact Nat.le_of_lt h

theorem count_host2AtariNext (T : Charset) (src : Nat → BitVec 8) (b : BitVec 8) (h : st.count > 1) :
    (host2AtariNext T src st (seqLen b st.count)).count < st.count := by
  have hpos := length_atariBytes_pos (T.toAtari (charAt src st.src (seqLen b st.count))) src st.src b
    st.count
  simp only [host2AtariNext]
  omega

theorem host2AtariLoop_grows (T : Charset) (src : Nat → BitVec 8) (st : Copy) :
    (host2AtariLoop T src st).dst.length + (host2AtariLoop T src st).count = st.dst.length + st.count ∧
      st.reads ⊆ (host2AtariLoop T src st).reads ∧ st.dst ⊆ (host2AtariLoop T src st).dst := by
  induction hn : st.count using Nat.strong_induction_on generalizing st with
  | _ n ih =>
    subst hn
    rw [host2AtariLoop]
    split
    · next hcount =>
      dsimp only
      split
      · exact ⟨rfl, subset_append_left _ _, List.Subset.refl _⟩
      · obtain ⟨hlen, hreads, hdst⟩ := ih _ (count_host2AtariNext T src _ hcount)
          (host2AtariNext T src st (seqLen (src st.src) st.count)) rfl
        refine ⟨hlen.trans ?_, ?_, ?_⟩
        · have hle := length_out_le hcount
            (T.toAtari (charAt src st.src (seqLen (src st.src) st.count))) src st.src (src st.src)
          simp only [host2AtariNext, length_append]; omega
        · refine List.Subset.trans ?_ hreads
          rw [host2AtariNext, append_assoc]; exact subset_append_left _ _
        · exact List.Subset.trans (subset_append_left _ _) hdst
    · exact ⟨rfl, List.Subset.refl _, List.Subset.refl _⟩

/-! ## What is read -/

inductive Reading (src : Nat → BitVec 8) (i room : Nat) (b : BitVec 8) : List (BitVec 8) → Prop
  | whole {c t : List (BitVec 8)} {ch : BitVec 16} (hc : Whole c ch) (hlen : seqLen b room = c.length)
      (hch : charAt src i c.length = ch) (hraw : raw src i c.length = c)
      (ht : StringAt src (i + c.length) t) : Reading src i room b (c ++ t)
  | cut2 (h : Lead2 b) : Reading src i room b [b]
  | cut3 (h : Lead3 b) : Reading src i room b [b]
  | cut3' (h : Lead3 b) : Reading src i room b [b, src (i + 1)]

theorem raw_two (i : Nat) : raw src i 2 = [src i, src (i + 1)] := rfl

theorem raw_three (i : Nat) : raw src i 3 = [src i, src (i + 1), src (i + 2)] := rfl

theorem Whole.taken (hc : Whole c ch) (hs : StringAt src i (c ++ t)) (hroom : c.length ≤ room) :
    seqLen (src i) room = c.length ∧ charAt src i c.length = ch ∧ raw src i c.length = c := by
  cases hc with
  | one h => obtain ⟨rfl, -⟩ := hs; exact ⟨if_pos h, rfl, rfl⟩
  | two h => obtain ⟨rfl, -, rfl, -⟩ := hs; exact ⟨seqLen_lead2 h, rfl, rfl⟩
  | three h => obtain ⟨rfl, -, rfl, -, rfl, -⟩ := hs; exact ⟨seqLen_lead3 h hroom, rfl, rfl⟩

theorem reading (hs : StringAt src i (b :: s)) (hroom : 3 ≤ room) : Reading src i room b (b :: s) := by
  have hwhole : ∀ {c t : List (BitVec 8)} {ch : BitVec 16}, Whole c ch → b :: s = c ++ t →
      Reading src i room b (b :: s) := by
    intro c t ch hc heq
    have hb := hs.1
    rw [heq] at hs ⊢
    obtain ⟨hlen, hch, hraw⟩ := hc.taken hs (Nat.le_trans hc.length_le hroom)
    exact .whole hc (hb ▸ hlen) hch hraw hs.append
  by_cases hone : b < 0x80
  · exact hwhole (.one hone) rfl
  · by_cases htwo : b &&& 0xe0 = 0xc0
    · cases s with
      | nil => exact .cut2 htwo
      | cons b₁ s => exact hwhole (.two htwo) rfl
    · have hthree : Lead3 b := ⟨hone, htwo⟩
      cases s with
      | nil => exact .cut3 hthree
      | cons b₁ s =>
        cases s with
        | nil => exact hs.2.2.1 ▸ .cut3' hthree
        | cons b₂ s => exact hwhole (.three hthree) rfl

/-- The copy goes on behind the NUL: the NUL cuts off a character, and either the third byte of it is read
behind the NUL or there is room for more after it. -/
inductive HostCut (T : Charset) : Nat → List (BitVec 8) → Prop
  | two {room : Nat} {b : BitVec 8} (h : Lead2 b) (hroom : 3 ≤ room)
      (hmore : T.toAtari (code2 b 0) < 0x100 ∨ 4 ≤ room) : HostCut T room [b]
  | three {room : Nat} {b : BitVec 8} (h : Lead3 b) (hroom : 3 ≤ room) : HostCut T room [b]
  | three' {room : Nat} {b b₁ : BitVec 8} (h : Lead3 b) (hroom : 3 ≤ room)
      (hmore : T.toAtari (code3 b b₁ 0) < 0x100 ∨ 5 ≤ room) : HostCut T room [b, b₁]
  | after {room : Nat} {s c t : List (BitVec 8)} {ch : BitVec 16} (heq : s = c ++ t) (hc : Whole c ch)
      (hroom : 3 ≤ room) (ht : HostCut T (room - width T c ch) t) : HostCut T room s

theorem HostCut.three_le (h : HostCut T room s) : 3 ≤ room := by
  cases h with
  | two _ hroom => exact hroom
  | three _ hroom => exact hroom
  | three' _ hroom => exact hroom
  | after _ _ hroom => exact hroom

theorem not_hostCut_nil : ¬ HostCut T room [] := by
  intro h
  cases h with
  | after heq hc => exact hc.ne_nil (append_eq_nil_iff.mp heq.symm).1

theorem hostCut_append (hc : Whole c ch) (hroom : 3 ≤ room) :
    HostCut T room (c ++ t) ↔ HostCut T (room - width T c ch) t := by
  refine ⟨fun h => ?_, .after rfl hc hroom⟩
  generalize hs : c ++ t = s at h
  cases h with
  | two h => exact absurd hs.symm (hc.not_cut (by simp [seqLen_lead2 h]))
  | three h => exact absurd hs.symm (hc.not_cut (by simp [seqLen_lead3 h]))
  | three' h => exact absurd hs.symm (hc.not_cut (by simp [seqLen_lead3 h]))
  | after heq hc' _ ht => obtain ⟨rfl, rfl, rfl⟩ := hc.unique hc' (hs.trans heq); exact ht

theorem hostCut_lead2 (h : Lead2 b) (hroom : 3 ≤ room) :
    HostCut T room [b] ↔ T.toAtari (code2 b 0) < 0x100 ∨ 4 ≤ room := by
  refine ⟨fun hcut => ?_, .two h hroom⟩
  cases hcut with
  | two _ _ hmore => exact hmore
  | three h' => exact absurd h h'.2
  | after heq hc => exact absurd heq (hc.not_cut (by simp [seqLen_lead2 h]))

theorem hostCut_lead3 (h : Lead3 b) (hroom : 3 ≤ room) :
    HostCut T room [b, b₁] ↔ T.toAtari (code3 b b₁ 0) < 0x100 ∨ 5 ≤ room := by
  refine ⟨fun hcut => ?_, .three' h hroom⟩
  cases hcut with
  | three' _ _ hmore => exact hmore
  | after heq hc => exact absurd heq (hc.not_cut (by simp [seqLen_lead3 h]))

theorem mem_reads_next (h : i ∈ (host2AtariNext T src st bytes).reads) :
    i ∈ st.reads ∨ st.src ≤ i ∧ (i = st.src ∨ i < st.src + bytes) := by
  rw [host2AtariNext, mem_append, mem_append, mem_singleton, mem_map] at h
  rcases h with (h | h) | ⟨k, hk, rfl⟩
  · exact .inl h
  · exact .inr ⟨by omega, .inl h⟩
  · have hlt := mem_range.mp hk; exact .inr ⟨by omega, .inr (by omega)⟩

theorem src_mem_reads (h : st.count > 1) : st.src ∈ (host2AtariLoop T src st).reads := by
  rw [host2AtariLoop, if_pos h]
  dsimp only
  split
  · simp
  · exact (host2AtariLoop_grows T src _).2.1 (by simp)

theorem length_out (T : Charset) (src : Nat → BitVec 8) (st : Copy) (bytes : Nat) : (host2AtariNext T src st bytes).count =
    st.count - if T.toAtari (charAt src st.src bytes) ≥ 0x100 then bytes else 1 := by
  simp only [host2AtariNext, atariBytes]
  split
  · rw [length_raw]
  · rfl

theorem reads_next_le (hreads : ∀ i ∈ st.reads, i ≤ len) (hsrc : st.src ≤ len)
    (hbytes : st.src + bytes ≤ len + 1) : ∀ i ∈ (host2AtariNext T src st bytes).reads, i ≤ len := by
  intro i hi
  rcases mem_reads_next hi with hi | ⟨-, hi⟩
  · exact hreads i hi
  · omega

theorem inString_cut (hreads : ∀ i ∈ st.reads, i ≤ len) (hsrc : st.src ≤ len)
    (hbytes : st.src + bytes = len + 1) :
    (∀ i ∈ (host2AtariLoop T src (host2AtariNext T src st bytes)).reads, i ≤ len) ↔
      ¬ (host2AtariNext T src st bytes).count > 1 := by
  by_cases hcount : (host2AtariNext T src st bytes).count > 1
  · refine iff_of_false (fun hall => ?_) (not_not.mpr hcount)
    have hle := hall _ (src_mem_reads hcount)
    simp only [host2AtariNext] at hle; omega
  · rw [host2AtariLoop_done hcount]; exact iff_of_true (reads_next_le hreads hsrc (by omega)) hcount

theorem one_lt_room_iff {k} (hroom : 3 ≤ room) :
    (room - if x ≥ 0x100 then k else 1) > 1 ↔ x < 0x100 ∨ k + 2 ≤ room := by
  by_cases h : x ≥ 0x100
  · rw [if_pos h, or_iff_right (BitVec.not_lt.mpr h)]; omega
  · rw [if_neg h]; exact iff_of_true (by omega) (.inl (BitVec.not_le.mp h))

theorem inString_host2AtariLoop (hs : StringAt src st.src s) (hlen : st.src + s.length = len)
    (hreads : ∀ i ∈ st.reads, i ≤ len) :
    (∀ i ∈ (host2AtariLoop T src st).reads, i ≤ len) ↔ ¬ HostCut T st.count s := by
  induction hn : st.count using Nat.strong_induction_on generalizing st s with
  | _ n ih =>
    subst hn
    by_cases hcount : st.count > 1
    · cases s with
      | nil =>
        rw [host2AtariLoop_end hcount hs]
        refine iff_of_true (fun i hi => ?_) not_hostCut_nil
        rcases mem_append.mp hi with hi | hi
        · exact hreads i hi
        · rw [mem_singleton.mp hi, ← hlen]; exact Nat.le_add_right _ _
      | cons b s =>
        rw [host2AtariLoop_cons hcount hs]
        have hnext := count_host2AtariNext T src b hcount
        by_cases hroom : 3 ≤ st.count
        · have hread := reading hs hroom
          have htail : StringAt src (st.src + (b :: s).length) [] := by
            rw [← append_nil (b :: s)] at hs; exact hs.append
          obtain ⟨hb, -⟩ := hs
          generalize b :: s = u at hread hlen htail
          cases hread with
          | whole hc hseq hch hraw ht =>
            rw [length_append] at hlen
            rw [hseq] at hnext ⊢
            have hpos := length_pos_iff.mpr hc.ne_nil
            rw [ih _ hnext ht (by rw [← hlen, ← Nat.add_assoc]; rfl)
              (reads_next_le hreads (by omega) (by omega)) rfl, length_out, hch, hostCut_append hc hroom]
            rfl
          | cut2 h =>
            have hch : charAt src st.src 2 = code2 b 0 := by
              simp only [charAt, hb, show src (st.src + 1) = 0 from htail]; rfl
            rw [length_singleton] at hlen
            rw [seqLen_lead2 h, inString_cut hreads (by omega) (by omega), length_out, hch,
              hostCut_lead2 h hroom, one_lt_room_iff hroom]
          | cut3 h =>
            refine iff_of_false (fun hall => ?_) (not_not.mpr (.three h hroom))
            rw [length_singleton] at hlen
            rw [seqLen_lead3 h hroom] at hall
            have hread : st.src + 2 ∈ (host2AtariNext T src st 3).reads := by simp [host2AtariNext]
            have hle := hall _ ((host2AtariLoop_grows T src _).2.1 hread); omega
          | cut3' h =>
            have hch : charAt src st.src 3 = code3 b (src (st.src + 1)) 0 := by
              simp only [charAt, hb, show src (st.src + 2) = 0 from htail]; rfl
            simp only [length_cons, length_nil] at hlen
            rw [seqLen_lead3 h hroom, inString_cut hreads (by omega) (by omega), length_out, hch,
              hostCut_lead3 h hroom, one_lt_room_iff hroom]
        · -- two bytes of room: the copy ends here, at the NUL at the latest
          rw [host2AtariLoop_done (by omega)]
          refine iff_of_true (reads_next_le hreads (by omega) ?_) fun h => hroom h.three_le
          have hle := seqLen_le b hcount
          rw [length_cons] at hlen; omega
    · rw [host2AtariLoop_done hcount]
      exact iff_of_true hreads fun h => hcount (Nat.le_trans (by omega) h.three_le)

/-! ## The NUL -/

/-- The copy uses up the buffer: a character that is not convertible is written in two bytes where there is
room for two, or in three where there is room for three. Before that no NUL is written. -/
inductive HostFills (T : Charset) : Nat → List (BitVec 8) → Prop
  | two {b b₁ : BitVec 8} {s : List (BitVec 8)} (h : ¬ b < 0x80) (hch : T.toAtari (code2 b b₁) ≥ 0x100) :
      HostFills T 2 (b :: b₁ :: s)
  | three {b b₁ b₂ : BitVec 8} {s : List (BitVec 8)} (h : Lead3 b)
      (hch : T.toAtari (code3 b b₁ b₂) ≥ 0x100) : HostFills T 3 (b :: b₁ :: b₂ :: s)
  | after {room : Nat} {s c t : List (BitVec 8)} {ch : BitVec 16} (heq : s = c ++ t) (hc : Whole c ch)
      (hroom : 3 ≤ room) (hch : T.toAtari ch ≠ 0) (ht : HostFills T (room - width T c ch) t) :
      HostFills T room s

theorem HostFills.two_le (h : HostFills T room s) : 2 ≤ room := by
  cases h with
  | two => exact Nat.le_refl 2
  | three => omega
  | after _ _ hroom => omega

theorem not_hostFills_nil : ¬ HostFills T room [] := by
  intro h
  cases h with
  | after heq hc => exact hc.ne_nil (append_eq_nil_iff.mp heq.symm).1

theorem hostFills_two : HostFills T 2 (b :: s) ↔
    ∃ b₁ t, s = b₁ :: t ∧ ¬ b < 0x80 ∧ T.toAtari (code2 b b₁) ≥ 0x100 := by
  constructor
  · intro h
    cases h with
    | two h hch => exact ⟨_, _, rfl, h, hch⟩
    | after _ _ hroom => omega
  · rintro ⟨b₁, t, rfl, h, hch⟩; exact .two h hch

theorem hostFills_append (hc : Whole c ch) (hroom : 3 ≤ room) : HostFills T room (c ++ t) ↔
    (room = 3 ∧ c.length = 3 ∧ T.toAtari ch ≥ 0x100) ∨
      T.toAtari ch ≠ 0 ∧ HostFills T (room - width T c ch) t := by
  constructor
  · intro h
    generalize hs : c ++ t = s at h
    cases h with
    | two => omega
    | three h hch => obtain ⟨rfl, rfl, rfl⟩ := hc.unique (.three h) hs; exact .inl ⟨rfl, rfl, hch⟩
    | after heq hc' _ hch ht => obtain ⟨rfl, rfl, rfl⟩ := hc.unique hc' (hs.trans heq); exact .inr ⟨hch, ht⟩
  · rintro (⟨rfl, hlen, hch⟩ | ⟨hch, ht⟩)
    · cases hc with
      | one => simp at hlen
      | two => simp at hlen
      | three h => exact .three h hch
    · exact .after rfl hc hroom hch ht

theorem not_hostFills_cut2 (h : Lead2 b) (hroom : 3 ≤ room) : ¬ HostFills T room [b] := by
  intro hf
  cases hf with
  | after heq hc => exact hc.not_cut (by simp [seqLen_lead2 h]) heq

theorem not_hostFills_cut3 (h : Lead3 b) (hroom : 3 ≤ room) : ¬ HostFills T room [b, b₁] := by
  intro hf
  cases hf with
  | two => omega
  | after heq hc => exact hc.not_cut (by simp [seqLen_lead3 h]) heq

theorem mem_atariBytes (hc : 0 ∉ c) : 0 ∈ atariBytes x c ↔ x = 0 := by
  unfold atariBytes
  split
  · next hx => refine iff_of_false hc ?_; rintro rfl; exact absurd hx (by decide)
  · next hx =>
    have hsmall : x.toNat < 2 ^ 8 := BitVec.not_le.mp hx
    rw [mem_singleton]
    constructor
    · intro h
      have htoNat := congrArg BitVec.toNat h
      rw [BitVec.toNat_setWidth, mod_eq_of_lt hsmall] at htoNat
      exact BitVec.eq_of_toNat_eq htoNat.symm
    · rintro rfl; rfl

theorem charAt_two (i : Nat) : charAt src i 2 = code2 (src i) (src (i + 1)) := rfl

theorem dst_host2AtariNext (bytes : Nat) : (host2AtariNext T src st bytes).dst =
    st.dst ++ atariBytes (T.toAtari (charAt src st.src bytes)) (raw src st.src bytes) := rfl

theorem ended_two (hs : StringAt src st.src (b :: s)) (hcount : st.count = 2) (hdst : 0 ∉ st.dst) :
    0 ∈ (host2AtariLoop T src (host2AtariNext T src st (seqLen b 2))).finish.dst ↔
      ¬ HostFills T 2 (b :: s) := by
  obtain ⟨hb, hne, hs⟩ := hs
  have hroom := length_out T src st (seqLen b 2)
  by_cases hlt : b < 0x80
  · have hlen : seqLen b 2 = 1 := if_pos hlt
    rw [hlen, ite_self, hcount] at hroom
    rw [hlen, host2AtariLoop_done (by omega), hostFills_two]
    refine iff_of_true (mem_finish (.inl (by omega))) ?_
    rintro ⟨b₁, t, -, hge, -⟩; exact hge hlt
  · have hlen : seqLen b 2 = 2 := by rw [seqLen, if_neg hlt, if_pos (.inr (by omega))]
    rw [hlen, hcount, charAt_two, hb] at hroom
    rw [hlen, hostFills_two]
    by_cases hconv : T.toAtari (code2 b (src (st.src + 1))) ≥ 0x100
    · rw [if_pos hconv] at hroom
      rw [host2AtariLoop_done (by omega), finish_of_full hroom, dst_host2AtariNext, charAt_two, hb,
        atariBytes, if_pos hconv, raw_two, hb]
      cases s with
      | nil => have hnul : src (st.src + 1) = 0 := hs; simp [hnul]
      | cons b₁ t =>
        obtain ⟨hb₁, hne₁, -⟩ := hs
        rw [hb₁] at hconv ⊢
        refine iff_of_false ?_ (not_not.mpr ⟨b₁, t, rfl, hlt, hconv⟩)
        simp only [mem_append, mem_cons, not_mem_nil, or_false, not_or]
        exact ⟨hdst, Ne.symm hne, Ne.symm hne₁⟩
    · rw [if_neg hconv] at hroom
      rw [host2AtariLoop_done (by omega)]
      refine iff_of_true (mem_finish (.inl (by omega))) ?_
      rintro ⟨b₁, t, rfl, -, hge⟩; exact hconv (hs.1 ▸ hge)

theorem width_eq_iff (hc : Whole c ch) (hroom : 3 ≤ room) :
    room - width T c ch = 0 ↔ room = 3 ∧ c.length = 3 ∧ T.toAtari ch ≥ 0x100 := by
  have hle := hc.length_le
  unfold width
  split
  · next hconv => simp only [hconv, and_true]; omega
  · next hconv => simp only [hconv, and_false, iff_false]; omega

theorem ended_host2AtariLoop (hs : StringAt src st.src s) (hcount : 0 < st.count) (hdst : 0 ∉ st.dst)
    (hcut : ¬ HostCut T st.count s) :
    0 ∈ (host2AtariLoop T src st).finish.dst ↔ ¬ HostFills T st.count s := by
  induction hn : st.count using Nat.strong_induction_on generalizing st s with
  | _ n ih =>
    subst hn
    by_cases hone : st.count > 1
    · cases s with
      | nil => rw [host2AtariLoop_end hone hs]; exact iff_of_true (mem_finish (.inl hcount)) not_hostFills_nil
      | cons b s =>
        rw [host2AtariLoop_cons hone hs]
        by_cases hroom : 3 ≤ st.count
        · have hnext := count_host2AtariNext T src b hone
          have hread := reading hs hroom
          have hmem := hs.not_mem
          have htail : StringAt src (st.src + (b :: s).length) [] := by
            rw [← append_nil (b :: s)] at hs; exact hs.append
          obtain ⟨hb, -⟩ := hs
          generalize b :: s = u at hread hmem hcut htail
          cases hread with
          | @whole c t ch hc hseq hch hraw ht =>
            rw [hseq] at hnext ⊢
            rw [mem_append, not_or] at hmem
            rw [hostCut_append hc hroom] at hcut
            have hleft : (host2AtariNext T src st c.length).count = st.count - width T c ch := by
              rw [length_out, hch, width]
            have hzero : 0 ∈ (host2AtariNext T src st c.length).dst ↔ T.toAtari ch = 0 := by
              rw [dst_host2AtariNext, mem_append, or_iff_right hdst, hraw, hch,
                mem_atariBytes hmem.1]
            rw [hostFills_append hc hroom, ← width_eq_iff (T := T) hc hroom, ← hleft]
            by_cases hfull : (host2AtariNext T src st c.length).count = 0
            · rw [host2AtariLoop_done (by omega), finish_of_full hfull, hzero]
              refine iff_of_false ?_ (not_not.mpr (.inl hfull))
              intro hnul
              have hconv := ((width_eq_iff (T := T) hc hroom).mp (hleft ▸ hfull)).2.2
              rw [hnul] at hconv; exact absurd hconv (by decide)
            · rw [or_iff_right hfull]
              by_cases hnul : T.toAtari ch = 0
              · have hmem := (host2AtariLoop_grows T src _).2.2 (hzero.mpr hnul)
                exact iff_of_true (mem_finish (.inr hmem)) fun h => h.1 hnul
              · rw [and_iff_right hnul]
                exact ih _ hnext ht (Nat.pos_of_ne_zero hfull) (mt hzero.mp hnul) (hleft ▸ hcut) rfl
          | cut2 h =>
            have hch : charAt src st.src 2 = code2 b 0 := by
              rw [charAt_two, hb, show src (st.src + 1) = 0 from htail]
            rw [hostCut_lead2 h hroom, not_or] at hcut
            refine iff_of_true ?_ (not_hostFills_cut2 h hroom)
            have hone' : (host2AtariNext T src st 2).count = 1 := by
              rw [length_out, hch, if_pos (BitVec.not_lt.mp hcut.1)]; omega
            rw [seqLen_lead2 h, host2AtariLoop_done (by omega)]; exact mem_finish (.inl (by omega))
          | cut3 h => exact absurd (.three h hroom) hcut
          | cut3' h =>
            have hnul : src (st.src + 2) = 0 := htail
            rw [hostCut_lead3 h hroom, not_or] at hcut
            refine iff_of_true (mem_finish (.inr ?_)) (not_hostFills_cut3 h hroom)
            rw [seqLen_lead3 h hroom]
            refine (host2AtariLoop_grows T src _).2.2 ?_
            have hch : charAt src st.src 3 = code3 b (src (st.src + 1)) 0 := by rw [charAt, hb, hnul]; rfl
            rw [dst_host2AtariNext, hch, atariBytes, if_pos (BitVec.not_lt.mp hcut.1), raw_three,
              hnul]
            simp
        · obtain htwo : st.count = 2 := by omega
          rw [htwo]; exact ended_two hs htwo hdst
    · rw [host2AtariLoop_done hone]; exact iff_of_true (mem_finish (.inl hcount)) fun h => hone h.two_le

/-! ## Valid names -/

theorem getElem_of_lt {k} (h : x.toNat < 2 ^ k) (i : Nat) (hi : i < 16) (hk : k ≤ i) : x[i] = false := by
  rw [← BitVec.getLsbD_eq_getElem hi]
  exact testBit_lt_two_pow (Nat.lt_of_lt_of_le h (Nat.pow_le_pow_right (by omega) hk))

theorem Whole.of_eq {ch'} (h : Whole c ch) (heq : ch = ch') : Whole c ch' := heq ▸ h

theorem whole_utf8 (ch : BitVec 16) : Whole (utf8 ch) ch := by
  unfold utf8
  split
  · next h =>
    have hsmall : ch.toNat < 2 ^ 7 := h
    have hone : ch.setWidth 8 < 0x80 := by
      rw [BitVec.lt_def, BitVec.toNat_setWidth]; exact Nat.lt_of_le_of_lt (mod_le _ _) h
    refine (Whole.one hone).of_eq (BitVec.eq_of_toNat_eq ?_)
    rw [BitVec.toNat_setWidth, BitVec.toNat_setWidth]; omega
  · split
    · next h =>
      have hbits := getElem_of_lt (k := 11) h
      have hlead : Lead2 (0xc0#8 ||| (ch >>> 6).setWidth 8) := by
        refine BitVec.eq_of_getLsbD_eq fun i hi => ?_
        interval_cases i <;> simp [hbits]
      refine (Whole.two hlead).of_eq (BitVec.eq_of_getLsbD_eq fun i hi => ?_)
      interval_cases i <;> simp [code2, hbits]
    · have hlead : Lead3 (0xe0#8 ||| (ch >>> 12).setWidth 8) := by
        refine ⟨not_lt_of_getLsbD (by simp), fun h => ?_⟩
        have h5 := congrArg (fun x : BitVec 8 => x.getLsbD 5) h; simp at h5
      refine (Whole.three hlead).of_eq (BitVec.eq_of_getLsbD_eq fun i hi => ?_)
      interval_cases i <;> simp [code3]

end Aranym.Natfeat
