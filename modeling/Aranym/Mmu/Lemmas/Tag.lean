import Aranym.Mmu.Access

/-!
# Tags and indices

A tag of an address has its upper two bits clear, the complement of one has them set, and the tag of
an empty line is neither; so the three kinds of L1 lines cannot be confused.
-/

namespace Aranym.Mmu

open BitVec Function

variable (cl : L1Slot) (l : AtcLine) (a : BitVec 32)

theorem atcTag_toNat : (atcTag a).toNat = a.toNat / 2 ^ 18 := by
  have h := a.isLt
  simp only [atcTag, toNat_setWidth, toNat_ushiftRight, Nat.shiftRight_eq_div_pow]
  omega

theorem atcTag_lt : (atcTag a).toNat < 0x4000 := by
  have h := a.isLt
  rw [atcTag_toNat]
  omega

theorem not_tag_toNat (t : BitVec 16) : (~~~t).toNat = 0xffff - t.toNat := by simp [toNat_not]

theorem not_atcTag_ge : 0xc000 ≤ (~~~atcTag a).toNat := by
  have h := atcTag_lt a
  rw [not_tag_toNat]
  omega

theorem atcTag_ne_emptyTag : atcTag a ≠ emptyTag := by
  intro h
  have hlt := atcTag_lt a
  rw [h] at hlt
  exact absurd hlt (by decide)

theorem atcTag_ne_not (b : BitVec 32) : atcTag a ≠ ~~~atcTag b := by
  intro h
  have hlt := atcTag_lt a
  have hge := not_atcTag_ge b
  rw [← h] at hge
  omega

theorem emptyTag_ne_not : emptyTag ≠ ~~~atcTag a := by
  intro h
  have hge := not_atcTag_ge a
  rw [← h] at hge
  exact absurd hge (by decide)

theorem not_eq_atcTag_iff (t : BitVec 16) (a : BitVec 32) : ~~~t = atcTag a ↔ t = ~~~atcTag a := by
  constructor
  · intro h; rw [← h, BitVec.not_not]
  · intro h; rw [h, BitVec.not_not]

/-! ## Slots -/

theorem l1Row_injective {s d w s' d' w'} (h : l1Row s d w = l1Row s' d' w') : s = s' ∧ d = d' ∧ w = w' := by
  revert h
  cases s <;> cases d <;> cases w <;> cases s' <;> cases d' <;> cases w' <;> decide

variable {δ : Type} (m : Machine δ)

@[simp] theorem l1_setL1_self : (m.setL1 cl l).l1 cl = l := by simp [Machine.setL1, Machine.l1]

theorem l1_setL1_of_ne {cl cl'} (l : AtcLine) (h : cl' ≠ cl) : (m.setL1 cl l).l1 cl' = m.l1 cl' := by
  obtain ⟨row, idx⟩ := cl
  obtain ⟨row', idx'⟩ := cl'
  by_cases hr : row' = row
  · subst hr
    have hi : idx' ≠ idx := fun hi => h (by rw [hi])
    simp [Machine.setL1, Machine.l1, update_of_ne hi]
  · simp [Machine.setL1, Machine.l1, update_of_ne hr]

@[simp] theorem setL1_atcL2 : (m.setL1 cl l).atcL2 = m.atcL2 := rfl

@[simp] theorem atcL2_setL2_self (s : Bool) (i : Fin 4096) (l : AtcLine) : (m.setL2 s i l).atcL2 s i = l := by
  simp [Machine.setL2]

theorem atcL2_setL2_of_ne {s s' i j} (l : AtcLine) (h : s' ≠ s ∨ j ≠ i) :
    (m.setL2 s i l).atcL2 s' j = m.atcL2 s' j := by
  by_cases hs : s' = s
  · subst hs
    have hj : j ≠ i := h.resolve_left (fun hs => hs rfl)
    simp [Machine.setL2, update_of_ne hj]
  · simp [Machine.setL2, update_of_ne hs]

end Aranym.Mmu
