import Mathlib.Data.Nat.Bitwise
import Aranym.Mmu.Lemmas.Tag

/-!
# Pages and flushes

Addresses of one 4K page share tag and indices.
-/

namespace Aranym.Mmu

open Option Nat

variable (a addr : BitVec 32)

def pageSize (pagesize8k : Bool) : Nat := if pagesize8k then 2 ^ 13 else 2 ^ 12

def SamePage (pagesize8k : Bool) (addr a : BitVec 32) : Prop :=
  a.toNat / pageSize pagesize8k = addr.toNat / pageSize pagesize8k

instance (pagesize8k : Bool) (addr a : BitVec 32) : Decidable (SamePage pagesize8k addr a) :=
  inferInstanceAs (Decidable (_ = _))

theorem atcTag_eq_of_samePage {pagesize8k addr a} (h : SamePage pagesize8k addr a) :
    atcTag a = atcTag addr := by
  apply BitVec.eq_of_toNat_eq
  rw [atcTag_toNat, atcTag_toNat]
  unfold SamePage pageSize at h
  split at h <;> omega

theorem atcL1Index_val : (atcL1Index a).val = a.toNat / 2 ^ 12 % 256 := by
  simp only [atcL1Index, BitVec.toNat_ushiftRight, shiftRight_eq_div_pow]

theorem atcL2Index_val : (atcL2Index a).val = (a.toNat / 2 ^ 12 ^^^ a.toNat / 2 ^ 12 / 256) % 2 ^ 12 := by
  simp only [atcL2Index, BitVec.toNat_xor, BitVec.toNat_ushiftRight, shiftRight_eq_div_pow,
    Nat.div_div_eq_div_mul]
  rfl

theorem xor_one_eq (k : Nat) : k ^^^ 1 = if k % 2 = 0 then k + 1 else k - 1 := by
  by_cases hk : k % 2 = 0
  · rw [if_pos hk, xor_one_of_even (even_iff.mpr hk)]
  · rw [if_neg hk, xor_one_of_odd (odd_iff.mpr (by omega))]

theorem div_two_eq_iff {n k} : n / 2 = k / 2 ↔ n = k ∨ n = k ^^^ 1 := by
  rw [xor_one_eq]
  split <;> omega

theorem xor_one_mod (n w : Nat) : (n ^^^ 1) % 2 ^ w = (n % 2 ^ w ^^^ 1) % 2 ^ w := by
  rw [xor_mod_two_pow, xor_mod_two_pow, mod_mod]

theorem indices_other_half {addr a} (h : a.toNat / 2 ^ 12 = addr.toNat / 2 ^ 12 ^^^ 1) :
    atcL1Index a = xorOne (atcL1Index addr) ∧ atcL2Index a = xorOne (atcL2Index addr) := by
  constructor
  · apply Fin.ext
    rw [atcL1Index_val, h]
    simp only [xorOne, Fin.val_ofNat, atcL1Index_val]; exact xor_one_mod _ 8
  · apply Fin.ext
    have hdiv : (addr.toNat / 2 ^ 12 ^^^ 1) / 256 = addr.toNat / 2 ^ 12 / 256 := by
      rw [xor_one_eq]
      split <;> omega
    rw [atcL2Index_val, h, hdiv]
    simp only [xorOne, Fin.val_ofNat, atcL2Index_val]
    rw [Nat.xor_assoc, Nat.xor_comm 1, ← Nat.xor_assoc]; exact xor_one_mod _ 12

theorem indices_of_samePage {pagesize8k addr a} (h : SamePage pagesize8k addr a) :
    (atcL1Index a = atcL1Index addr ∧ atcL2Index a = atcL2Index addr) ∨
    (pagesize8k = true ∧ atcL1Index a = xorOne (atcL1Index addr) ∧
      atcL2Index a = xorOne (atcL2Index addr)) := by
  have hpage : a.toNat / 2 ^ 12 = addr.toNat / 2 ^ 12 ∨
      (pagesize8k = true ∧ a.toNat / 2 ^ 12 = addr.toNat / 2 ^ 12 ^^^ 1) := by
    unfold SamePage pageSize at h
    split at h
    · rename_i h8
      have h2 : a.toNat / 2 ^ 12 / 2 = addr.toNat / 2 ^ 12 / 2 := by omega
      exact (div_two_eq_iff.mp h2).imp id fun hx => ⟨h8, hx⟩
    · exact .inl h
  rcases hpage with hp | ⟨h8, hp⟩
  · refine .inl ⟨Fin.ext ?_, Fin.ext ?_⟩
    · rw [atcL1Index_val, atcL1Index_val, hp]
    · rw [atcL2Index_val, atcL2Index_val, hp]
  · exact .inr ⟨h8, indices_other_half hp⟩

theorem exists_other_half : ∃ a, SamePage true addr a ∧ atcL1Index a = xorOne (atcL1Index addr) := by
  have hlt := addr.isLt
  have hx := xor_one_eq (addr.toNat / 2 ^ 12)
  have hbound : (addr.toNat / 2 ^ 12 ^^^ 1) * 2 ^ 12 < 2 ^ 32 := by
    rw [hx]
    split <;> omega
  have ha : (BitVec.ofNat 32 ((addr.toNat / 2 ^ 12 ^^^ 1) * 2 ^ 12)).toNat / 2 ^ 12 =
      addr.toNat / 2 ^ 12 ^^^ 1 := by
    rw [BitVec.toNat_ofNat, mod_eq_of_lt hbound]; omega
  refine ⟨_, ?_, (indices_other_half ha).1⟩
  have h2 := div_two_eq_iff.mpr (.inr ha)
  simp only [SamePage, pageSize, if_true]
  omega

/-! ## The loops of a flush -/

theorem flushL1Rows_eq (global : Bool) (i : Fin 256) (n row : Nat) (l1 : Fin 8 → Fin 256 → AtcLine)
    (h : row + n ≤ 8) : flushL1Rows global i n row l1 = some fun r j =>
      if row ≤ r.val ∧ r.val < row + n ∧ j = i then (l1 r j).flush global else l1 r j := by
  induction n generalizing row l1 with
  | zero => simp only [flushL1Rows, Option.some.injEq]; funext r j; rw [if_neg (by omega)]
  | succ n ih =>
    have hrow : row < 8 := by omega
    simp only [flushL1Rows, hrow, dite_true]
    rw [ih _ _ (by omega), Option.some.injEq]
    funext r j
    by_cases hr : r = ⟨row, hrow⟩
    · subst hr
      rw [if_neg (by simp), Function.update_self]
      by_cases hj : j = i
      · subst hj; simp
      · simp [hj]
    · have hr' : r.val ≠ row := fun h' => hr (Fin.ext h')
      rw [Function.update_of_ne hr]
      by_cases hc : row + 1 ≤ r.val ∧ r.val < row + 1 + n ∧ j = i
      · rw [if_pos hc, if_pos ⟨by omega, by omega, hc.2.2⟩]
      · rw [if_neg hc, if_neg (fun h' => hc ⟨by omega, by omega, h'.2.2⟩)]

theorem flushL1Rows_outside (global : Bool) (i : Fin 256) (n : Nat) (l1 : Fin 8 → Fin 256 → AtcLine) :
    flushL1Rows global i (n + 1) 8 l1 = none := by simp [flushL1Rows]

theorem flush_global (l : AtcLine) : l.flush true = { l with tag := emptyTag } := rfl

theorem xorOne_ne (i : Fin 256) : xorOne i ≠ i := by
  intro h
  have hv := congrArg Fin.val h
  simp only [xorOne, Fin.val_ofNat] at hv
  rw [xor_one_eq] at hv
  split at hv <;> omega

theorem l1Row_bounds (super data write : Bool) : 4 * super.toNat ≤ (l1Row super data write).val ∧
      (l1Row super data write).val < 4 * super.toNat + 4 := by
  cases super <;> cases data <;> cases write <;> decide

/-! ## What a global flush of a page does -/

variable {δ : Type} {m : Machine δ}

theorem flushL2_tag (m : Machine δ) (super : Bool) (j : Fin 4096) :
    ((m.flushL2 super true j).atcL2 super j).tag = emptyTag := by simp [Machine.flushL2, flush_global]

theorem flushL2_tag_stays (m : Machine δ) (super : Bool) {j k} (h : (m.atcL2 super k).tag = emptyTag) :
    ((m.flushL2 super true j).atcL2 super k).tag = emptyTag := by
  by_cases hk : k = j
  · subst hk; exact flushL2_tag m super k
  · rw [Machine.flushL2, atcL2_setL2_of_ne m _ (.inr hk), h]

theorem flushL2_other (m : Machine δ) (super : Bool) (j : Fin 4096) :
    (m.flushL2 super true j).atcL2 (!super) = m.atcL2 (!super) := by simp [Machine.flushL2, Machine.setL2]

theorem mmuFlushAtc_4k (super : Bool) (h : m.regs.mmuPagesize8k = false) :
    ∃ m', mmuFlushAtc m addr super true = some m' ∧ (∀ r j, m'.atcL1 r j =
        if 4 * super.toNat ≤ r.val ∧ r.val < 4 * super.toNat + 4 ∧ j = atcL1Index addr
        then (m.atcL1 r j).flush true else m.atcL1 r j) ∧
      (m'.atcL2 super (atcL2Index addr)).tag = emptyTag ∧ m'.atcL2 (!super) = m.atcL2 (!super) := by
  have hs : super.toNat ≤ 1 := Bool.toNat_le super
  refine ⟨{ m with atcL1 := fun r j =>
    if 4 * super.toNat ≤ r.val ∧ r.val < 4 * super.toNat + 4 ∧ j = atcL1Index addr
    then (m.atcL1 r j).flush true else m.atcL1 r j }.flushL2 super true (atcL2Index addr),
    ?_, fun _ _ => rfl, ?_, flushL2_other _ _ _⟩
  · simp only [mmuFlushAtc, flushL1Rows_eq true (atcL1Index addr) 4 (4 * super.toNat) m.atcL1 (by omega),
      h, bind_eq_bind, bind_some, Bool.false_eq_true, if_false]
  · exact flushL2_tag _ _ _

/-- With 8K pages the flush of the user space drops the first index of the user rows but the second
index of the supervisor rows. -/
theorem mmuFlushAtc_8k_user (h : m.regs.mmuPagesize8k = true) :
    ∃ m', mmuFlushAtc m addr false true = some m' ∧ (∀ r j, m'.atcL1 r j =
        if (r.val < 4 ∧ j = atcL1Index addr) ∨ (4 ≤ r.val ∧ j = xorOne (atcL1Index addr))
        then (m.atcL1 r j).flush true else m.atcL1 r j) ∧ (m'.atcL2 false (atcL2Index addr)).tag = emptyTag ∧
      (m'.atcL2 false (xorOne (atcL2Index addr))).tag = emptyTag ∧ m'.atcL2 true = m.atcL2 true := by
  let l1 : Fin 8 → Fin 256 → AtcLine := fun r j =>
    if (r.val < 4 ∧ j = atcL1Index addr) ∨ (4 ≤ r.val ∧ j = xorOne (atcL1Index addr))
    then (m.atcL1 r j).flush true else m.atcL1 r j
  refine ⟨({ m with atcL1 := l1 }.flushL2 false true (atcL2Index addr)).flushL2 false true
    (xorOne (atcL2Index addr)), ?_, fun _ _ => rfl, ?_, ?_, ?_⟩
  · simp only [mmuFlushAtc, flushL1Rows_eq true (atcL1Index addr) 4 _ m.atcL1
      (show 4 * false.toNat + 4 ≤ 8 by decide), h, bind_eq_bind, bind_some, if_true]
    rw [flushL1Rows_eq true (xorOne (atcL1Index addr)) 4 _ _ (show 4 * false.toNat + 4 + 4 ≤ 8 by decide)]
    -- the two loops flush disjoint rows, so their conditions merge into one
    have hl1 : (fun r j => if 4 * false.toNat + 4 ≤ r.val ∧ r.val < 4 * false.toNat + 4 + 4 ∧
          j = xorOne (atcL1Index addr)
        then (if 4 * false.toNat ≤ r.val ∧ r.val < 4 * false.toNat + 4 ∧ j = atcL1Index addr
          then (m.atcL1 r j).flush true else m.atcL1 r j).flush true
        else if 4 * false.toNat ≤ r.val ∧ r.val < 4 * false.toNat + 4 ∧ j = atcL1Index addr
          then (m.atcL1 r j).flush true else m.atcL1 r j) = l1 := by
      funext r j
      have hr := r.isLt
      simp only [l1, Bool.toNat_false, Nat.mul_zero, Nat.zero_add, Nat.zero_le, true_and]
      by_cases hlow : r.val < 4
      · have h4 : ¬4 ≤ r.val := by omega
        simp [hlow, h4]
      · have h4 : 4 ≤ r.val := by omega
        simp [hlow, h4, hr]
    rw [hl1]; rfl
  · exact flushL2_tag_stays _ _ (flushL2_tag _ _ _)
  · exact flushL2_tag _ _ _
  · exact (flushL2_other _ false _).trans (flushL2_other _ false _)

theorem mmuFlushAtc_8k_super (h : m.regs.mmuPagesize8k = true) : mmuFlushAtc m addr true true = none := by
  simp only [mmuFlushAtc, flushL1Rows_eq true (atcL1Index addr) 4 _ m.atcL1
    (show 4 * true.toNat + 4 ≤ 8 by decide), h, bind_eq_bind, bind_some, if_true]
  rw [show 4 * true.toNat + 4 = 8 from rfl, flushL1Rows_outside]
  rfl

/-! ## Does a flush do its work? -/

/-- `mmu_flush_atc(addr, super, true)` does its work: no line of the space `super` hits for an address
of the page any more, and the other space is untouched. -/
def FlushesPage (m : Machine δ) (addr : BitVec 32) (super : Bool) : Prop :=
  ∃ m', mmuFlushAtc m addr super true = some m' ∧
    (∀ a, SamePage m.regs.mmuPagesize8k addr a →
      (∀ data write, mmuUserLookup m' super data write a = false) ∧
      (m'.atcL2 super (atcL2Index a)).tag ≠ atcTag a) ∧
    (∀ data write i, m'.atcL1 (l1Row (!super) data write) i = m.atcL1 (l1Row (!super) data write) i) ∧
    m'.atcL2 (!super) = m.atcL2 (!super)

theorem flushesPage_4k (super : Bool) (h8 : m.regs.mmuPagesize8k = false) : FlushesPage m addr super := by
  obtain ⟨m', hm', hl1, hl2, hother⟩ := mmuFlushAtc_4k addr super h8
  refine ⟨m', hm', fun a ha => ?_, fun data write i => ?_, hother⟩
  · rw [h8] at ha
    obtain ⟨hi, hj⟩ := (indices_of_samePage ha).resolve_right (fun h => by cases h.1)
    refine ⟨fun data write => ?_, ?_⟩
    · have hrow := l1Row_bounds super data write
      simp only [mmuUserLookup, Machine.l1, l1Slot, hl1, hi, hrow, and_self, if_true, flush_global]
      exact beq_false_of_ne (atcTag_ne_emptyTag a).symm
    · rw [hj, hl2]; exact (atcTag_ne_emptyTag a).symm
  · have hrow := l1Row_bounds (!super) data write
    rw [hl1, if_neg]
    rintro ⟨hlo, hhi, -⟩; cases super <;> simp at hrow hlo hhi <;> omega

theorem not_flushesPage_8k_super (h8 : m.regs.mmuPagesize8k = true) : ¬FlushesPage m addr true := by
  rintro ⟨m', hm', -⟩
  rw [mmuFlushAtc_8k_super addr h8] at hm'
  cases hm'

theorem flushesPage_8k_user_iff (h8 : m.regs.mmuPagesize8k = true) : FlushesPage m addr false ↔ (∀ data write,
        (m.atcL1 (l1Row false data write) (xorOne (atcL1Index addr))).tag ≠ atcTag addr) ∧
      ∀ data write, (m.atcL1 (l1Row true data write) (xorOne (atcL1Index addr))).tag = emptyTag := by
  obtain ⟨m', hm', hl1, hj, hj', hother⟩ := mmuFlushAtc_8k_user addr h8
  have huser (data write : Bool) (j : Fin 256) : m'.atcL1 (l1Row false data write) j =
      if j = atcL1Index addr then (m.atcL1 (l1Row false data write) j).flush true
      else m.atcL1 (l1Row false data write) j := by
    have hrow := (l1Row_bounds false data write).2
    simp only [Bool.toNat_false, Nat.mul_zero, Nat.zero_add] at hrow
    simp [hl1, hrow, Nat.not_le.mpr hrow]
  have hsuper (data write : Bool) (j : Fin 256) : m'.atcL1 (l1Row true data write) j =
      if j = xorOne (atcL1Index addr) then (m.atcL1 (l1Row true data write) j).flush true
      else m.atcL1 (l1Row true data write) j := by
    have hrow := (l1Row_bounds true data write).1
    simp only [Bool.toNat_true, Nat.mul_one] at hrow; simp [hl1, hrow, Nat.not_lt.mpr hrow]
  constructor
  · rintro ⟨m'', hm'', hpage, hl1', -⟩
    rw [hm'] at hm''
    cases hm''
    constructor
    · intro data write
      obtain ⟨a, ha, hi⟩ := exists_other_half addr
      have hmiss := (hpage a (h8 ▸ ha)).1 data write
      simp only [mmuUserLookup, Machine.l1, l1Slot, hi, huser, xorOne_ne, if_false,
        atcTag_eq_of_samePage ha] at hmiss
      exact ne_of_beq_false hmiss
    · intro data write
      have hkept := hl1' data write (xorOne (atcL1Index addr))
      simp only [Bool.not_false, hsuper, if_true, flush_global] at hkept
      rw [← hkept]
  · rintro ⟨hmissed, hdropped⟩
    refine ⟨m', hm', fun a ha => ?_, fun data write i => ?_, hother⟩
    · rw [h8] at ha
      have htag := atcTag_eq_of_samePage ha
      rcases indices_of_samePage ha with ⟨hi, hja⟩ | ⟨-, hi, hja⟩
      · refine ⟨fun data write => ?_, by rw [hja, hj]; exact (atcTag_ne_emptyTag a).symm⟩
        simp only [mmuUserLookup, Machine.l1, l1Slot, hi, huser, if_true, flush_global]
        exact beq_false_of_ne (atcTag_ne_emptyTag a).symm
      · refine ⟨fun data write => ?_, by rw [hja, hj']; exact (atcTag_ne_emptyTag a).symm⟩
        simp only [mmuUserLookup, Machine.l1, l1Slot, hi, huser, xorOne_ne, if_false, htag]
        exact beq_false_of_ne (hmissed data write)
    · simp only [Bool.not_false, hsuper]
      split
      · rename_i hi; rw [flush_global, hi, ← hdropped data write]
      · rfl

end Aranym.Mmu
