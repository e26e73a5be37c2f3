import Mathlib.Data.BitVec

/-!
# Byte memory with big-endian words

A memory is a function from `w`-bit addresses to bytes. Words and longs are read and written
most significant byte first, and addresses wrap around.
-/

namespace Aranym.Lib

open BitVec Function Nat

abbrev Memory (w : Nat) := BitVec w → BitVec 8

namespace Memory

variable {w : Nat}

variable (m : Memory w) (a : BitVec w) (v : BitVec 16)

def getWord : BitVec 16 := m a ++ m (a + 1)

def getLong : BitVec 32 := m.getWord a ++ m.getWord (a + 2)

def putByte (v : BitVec 8) : Memory w := update m a v

def putWord : Memory w := (m.putByte a (v.extractLsb' 8 8)).putByte (a + 1) (v.extractLsb' 0 8)

def putLong (v : BitVec 32) : Memory w :=
  (m.putWord a (v.extractLsb' 16 16)).putWord (a + 2) (v.extractLsb' 0 16)

/-! ## Reading back -/

theorem append_halves_word : v.extractLsb' 8 8 ++ v.extractLsb' 0 8 = v :=
  (extractLsb'_append_extractLsb'_eq_extractLsb' rfl).trans extractLsb'_eq_self

theorem append_halves_long (v : BitVec 32) : v.extractLsb' 16 16 ++ v.extractLsb' 0 16 = v :=
  (extractLsb'_append_extractLsb'_eq_extractLsb' rfl).trans extractLsb'_eq_self

def Outside (n : Nat) (x : BitVec w) : Prop := n ≤ (x - a).toNat

theorem Outside.ne {a x n k} (h : Outside a n x) (hk : k < n) : x ≠ a + BitVec.ofNat w k := by
  rintro rfl
  have hsub : a + BitVec.ofNat w k - a = BitVec.ofNat w k := by rw [BitVec.add_comm, BitVec.add_sub_cancel]
  rw [Outside, hsub, toNat_ofNat] at h
  exact absurd (mod_le k (2 ^ w)) (by omega)

theorem Outside.mono {a x : BitVec w} {n k : Nat} (h : Outside a n x) (hk : k ≤ n) :
    Outside a k x := Nat.le_trans hk h

theorem outside_offsets {n i k} (h : k + n ≤ i ∨ i < k) (hi : i < 2 ^ w)
    (hk : k + n ≤ 2 ^ w) : Outside (a + BitVec.ofNat w k) n (a + BitVec.ofNat w i) := by
  have hsub : a + BitVec.ofNat w i - (a + BitVec.ofNat w k)
      = BitVec.ofNat w i - BitVec.ofNat w k := add_sub_add_left_eq_sub ..
  rw [Outside, hsub, toNat_sub, toNat_ofNat, toNat_ofNat, mod_eq_of_lt hi]
  rcases Nat.eq_or_lt_of_le (Nat.le_trans (Nat.le_add_right k n) hk) with hk' | hk'
  · subst hk'
    rw [mod_self]
    have : n = 0 := by omega
    omega
  · rw [mod_eq_of_lt hk']
    rcases h with h | h
    · rw [show 2 ^ w - k + i = 2 ^ w + (i - k) by omega, add_mod_left,
        mod_eq_of_lt (by omega)]
      omega
    · rw [mod_eq_of_lt (by omega)]; omega

theorem Outside.shift {a x n k} (h : Outside a (k + n) x) : Outside (a + BitVec.ofNat w k) n x := by
  have hlt := (x - a).isLt
  have hk : (BitVec.ofNat w k).toNat = k := by
    rw [toNat_ofNat, mod_eq_of_lt]
    exact Nat.lt_of_le_of_lt (Nat.le_trans (Nat.le_add_right k n) h) hlt
  have hle : BitVec.ofNat w k ≤ x - a := by
    rw [le_def, hk]; exact Nat.le_trans (Nat.le_add_right k n) h
  have hsub : x - (a + BitVec.ofNat w k) = x - a - BitVec.ofNat w k := by rw [sub_add_eq_sub_sub]
  rw [Outside, hsub, toNat_sub_of_le hle, hk]
  exact le_sub_of_add_le (by rw [Nat.add_comm]; exact h)

theorem putByte_outside {a x} (v : BitVec 8) (h : Outside a 1 x) : m.putByte a v x = m x := by
  have := h.ne Nat.zero_lt_one
  rw [putByte, update_of_ne (by simpa using this)]

theorem putWord_outside {a x} (v : BitVec 16) (h : Outside a 2 x) : m.putWord a v x = m x := by
  have h₀ := h.ne Nat.zero_lt_two
  have h₁ := h.ne Nat.one_lt_two
  simp only [BitVec.add_zero, ne_eq] at h₀ h₁
  simp [putWord, putByte, update_of_ne, h₀, h₁]

theorem putLong_outside {a x : BitVec w} (v : BitVec 32) (h : Outside a 4 x) : m.putLong a v x = m x := by
  have h₂ : Outside (a + 2) 2 x := h.shift (k := 2)
  rw [putLong, putWord_outside _ _ h₂, putWord_outside _ _ (h.mono (by omega))]

def AgreeOn (n : Nat) (m m' : Memory w) : Prop :=
  ∀ i < n, m (a + BitVec.ofNat w i) = m' (a + BitVec.ofNat w i)

theorem AgreeOn.mono {a} {n k : Nat} {m m' : Memory w} (h : AgreeOn a n m m')
    (hk : k ≤ n) : AgreeOn a k m m' := fun i hi => h i (Nat.lt_of_lt_of_le hi hk)

theorem AgreeOn.shift {a n k m m'} (h : AgreeOn a (k + n) m m') : AgreeOn (a + BitVec.ofNat w k) n m m' := by
  intro i hi
  have := h (k + i) (by omega)
  rwa [ofNat_add, ← BitVec.add_assoc] at this

theorem AgreeOn.getWord_eq {a} {m m' : Memory w} (h : AgreeOn a 2 m m') : m.getWord a = m'.getWord a := by
  have h₀ := h 0 Nat.zero_lt_two
  rw [BitVec.add_zero] at h₀
  rw [getWord, getWord, h₀]
  exact congrArg (m' a ++ ·) (h 1 Nat.one_lt_two)

theorem AgreeOn.getLong_eq {a} {m m' : Memory w} (h : AgreeOn a 4 m m') : m.getLong a = m'.getLong a := by
  have h₂ : AgreeOn (a + 2) 2 m m' := h.shift (k := 2)
  rw [getLong, getLong, (h.mono (by omega)).getWord_eq, h₂.getWord_eq]

theorem getWord_putWord_self (hw : 0 < w) : (m.putWord a v).getWord a = v := by
  have hne : a ≠ a + 1 := by simpa using (Nat.one_lt_two_pow hw.ne').ne'
  simp only [getWord, putWord, putByte, update_self, update_of_ne hne,
    append_halves_word]

theorem getLong_putLong_self (v : BitVec 32) (hw : 1 < w) : (m.putLong a v).getLong a = v := by
  have h4 : 2 ^ 2 ≤ 2 ^ w := Nat.pow_le_pow_right (by omega) hw
  have hhi : AgreeOn a 2 (m.putLong a v) (m.putWord a (v.extractLsb' 16 16)) := by
    intro i hi
    exact putWord_outside _ _ (outside_offsets a (k := 2) (by omega) (by omega) (by omega))
  rw [getLong, hhi.getWord_eq, getWord_putWord_self _ _ _ (by omega), putLong,
    getWord_putWord_self _ _ _ (by omega), append_halves_long]

/-! ## Copying a long -/

theorem putLong_getLong (m' : Memory w) (a b : BitVec w) :
    m.putLong a (m'.getLong b) = (((m.putByte a (m' b)).putByte (a + 1) (m' (b + 1))).putByte (a + 2)
      (m' (b + 2))).putByte (a + 2 + 1) (m' (b + 2 + 1)) := by
  simp only [putLong, putWord, getLong, getWord, extractLsb'_append_eq_left, extractLsb'_append_eq_right]

theorem putLong_getLong_apply (m m' : Memory 32) (a b x : BitVec 32) :
    m.putLong a (m'.getLong b) x = if (x - a).toNat < 4 then m' (b + (x - a)) else m x := by
  by_cases h : (x - a).toNat < 4
  · rw [if_pos h, putLong_getLong]
    obtain ⟨k, hk⟩ : ∃ k, x - a = k := ⟨_, rfl⟩
    obtain rfl : x = a + k := by rw [← hk, BitVec.add_comm, BitVec.sub_add_cancel]
    rw [hk] at h ⊢
    have hcases : k = 0 ∨ k = 1 ∨ k = 2 ∨ k = 3 := by bv_omega
    rcases hcases with rfl | rfl | rfl | rfl <;>
      simp [putByte, update_apply, BitVec.add_assoc]
  · rw [if_neg h, putLong_outside _ _ (Nat.le_of_not_lt h)]

/-! ## Bits set in aligned longs -/

/-- Aligned long words only gain bits, and only those of the mask. -/
def SetsBits (mask : BitVec 32 → BitVec 32) (m m' : Memory 32) : Prop :=
  ∀ a, a.toNat % 4 = 0 → ∃ b, b &&& ~~~mask a = 0 ∧ m'.getLong a = m.getLong a ||| b

variable {mask mask' : BitVec 32 → BitVec 32} {m₀ m₁ m₂ : Memory 32}

theorem SetsBits.refl (mask : BitVec 32 → BitVec 32) (m : Memory 32) : SetsBits mask m m :=
  fun _ _ => ⟨0, by simp, by simp⟩

theorem SetsBits.trans (h₁ : SetsBits mask m₀ m₁) (h₂ : SetsBits mask m₁ m₂) : SetsBits mask m₀ m₂ := by
  intro a ha
  obtain ⟨b₁, hb₁, hv₁⟩ := h₁ a ha
  obtain ⟨b₂, hb₂, hv₂⟩ := h₂ a ha
  refine ⟨b₁ ||| b₂, ?_, by rw [hv₂, hv₁, BitVec.or_assoc]⟩
  rw [BitVec.and_or_distrib_right, hb₁, hb₂]
  rfl

theorem getLong_putLong_of_ne (m : Memory 32) {a x} (v : BitVec 32) (ha : a.toNat % 4 = 0)
    (hx : x.toNat % 4 = 0) (hne : x ≠ a) : (m.putLong a v).getLong x = m.getLong x := by
  have hagree : AgreeOn x 4 (m.putLong a v) m := by
    intro i hi
    have hne' : x.toNat ≠ a.toNat := fun h => hne (eq_of_toNat_eq h)
    refine putLong_outside m v ?_
    rw [Outside, toNat_sub, toNat_add, toNat_ofNat]; omega
  exact hagree.getLong_eq

theorem SetsBits.put {a v b} (ha : a.toNat % 4 = 0) (hv : v = m₀.getLong a ||| b)
    (hb : b &&& ~~~mask a = 0) : SetsBits mask m₀ (m₀.putLong a v) := by
  intro x hx
  by_cases hxa : x = a
  · subst hxa; exact ⟨b, hb, by rw [getLong_putLong_self _ _ _ (by decide), hv]⟩
  · exact ⟨0, by simp, by simp [getLong_putLong_of_ne _ _ ha hx hxa]⟩

/-- The byte `q` of what `word` gives for the aligned longs. -/
def byteOf (word : BitVec 32 → BitVec 32) (q : BitVec 32) : BitVec 8 :=
  (word (q - BitVec.ofNat 32 (q.toNat % 4))).extractLsb' (8 * (3 - q.toNat % 4)) 8

theorem byteOf_getLong (m : Memory 32) (q : BitVec 32) : byteOf m.getLong q = m q := by
  have hk : q.toNat % 4 < 4 := mod_lt _ (by decide)
  obtain ⟨a, ha⟩ : ∃ a, q = a + BitVec.ofNat 32 (q.toNat % 4) := ⟨_, (BitVec.sub_add_cancel q _).symm⟩
  unfold byteOf
  generalize q.toNat % 4 = k at hk ha
  subst ha
  rw [BitVec.add_sub_cancel]
  have hcases : k = 0 ∨ k = 1 ∨ k = 2 ∨ k = 3 := by omega
  unfold getLong getWord
  rcases hcases with rfl | rfl | rfl | rfl
  · rw [extractLsb'_append_eq_of_le (by decide), BitVec.add_zero]; exact extractLsb'_append_eq_left
  · rw [extractLsb'_append_eq_of_le (by decide)]; exact extractLsb'_append_eq_right
  · rw [extractLsb'_append_eq_of_add_le (by decide)]; exact extractLsb'_append_eq_left
  · rw [extractLsb'_append_eq_of_add_le (by decide), BitVec.add_assoc]; exact extractLsb'_append_eq_right

/-- `y` is `x` with some bits of `mask` set. -/
def Raised (mask x y : BitVec 8) : Prop := ∃ b, b &&& ~~~mask = 0 ∧ y = x ||| b

theorem Raised.refl (mask x : BitVec 8) : Raised mask x x := ⟨0, by simp, by simp⟩

theorem Raised.trans {k k' x y z : BitVec 8} (h : Raised k x y) (h' : Raised k' y z) : Raised (k ||| k') x z := by
  obtain ⟨b, hb, rfl⟩ := h
  obtain ⟨b', hb', rfl⟩ := h'
  refine ⟨b ||| b', ?_, BitVec.or_assoc ..⟩
  rw [BitVec.not_or, BitVec.and_or_distrib_right, ← BitVec.and_assoc, hb, BitVec.and_comm (~~~k), ← BitVec.and_assoc,
    hb']
  simp

theorem Raised.eq {x y : BitVec 8} (h : Raised 0 x y) : y = x := by
  obtain ⟨b, hb, rfl⟩ := h
  obtain rfl : b = 0 := (BitVec.and_allOnes (x := b)).symm.trans hb
  simp

theorem SetsBits.byte (h : SetsBits mask m₀ m₁) (q : BitVec 32) : Raised (byteOf mask q) (m₀ q) (m₁ q) := by
  obtain ⟨b, hb, hv⟩ := h (q - BitVec.ofNat 32 (q.toNat % 4)) (by rw [toNat_sub, toNat_ofNat]; omega)
  refine ⟨b.extractLsb' (8 * (3 - q.toNat % 4)) 8, ?_, ?_⟩
  · ext i hi
    have hbit := congrArg (fun x => x.getLsbD (8 * (3 - q.toNat % 4) + i)) hb
    simp only [getLsbD_and, getLsbD_not, show 8 * (3 - q.toNat % 4) + i < 32 by omega] at hbit
    simpa [byteOf] using hbit
  · rw [← byteOf_getLong m₁, ← byteOf_getLong m₀, byteOf, hv, extractLsb'_or]
    rfl

/-! ## A memory of given words -/

end Memory

end Aranym.Lib
