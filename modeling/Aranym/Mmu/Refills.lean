import Aranym.Mmu.Theorems

/-!
# Lines and refills

Which addresses a filled line serves, and how often `mmu_fill_atc_l1` (`cpummu.cpp`) refills one.
-/

namespace Aranym.Mmu

open Aranym.Lib

variable {δ : Type} (cfg : Config) (hw : Hardware δ)

/-! ## The addresses of a line -/

theorem mmuFillAtcL1_tags {m m' : Machine δ} {addr super data write cl}
    (h : mmuFillAtcL1 cfg hw addr super data write cl m = .ok true m') :
    (m'.l1 cl).tag = atcTag addr ∧ (m'.atcL2 super (atcL2Index addr)).tag = atcTag addr := by
  have htag := lookupLine_tag cfg hw m addr super data write
  obtain ⟨m₁, hdone, heq⟩ := mmuFillAtcL1_spec cfg hw m addr super data write cl
  rw [heq] at h
  split at h
  · cases h
  · split at h
    · cases h; rw [l1_setL1_self, setL1_atcL2, hdone.line]; exact ⟨htag, htag⟩
    · cases h

/-- After a fill for `a`, both levels hit on its line exactly for the addresses of its 4K page; and tags,
complemented tags and the tag of an empty line are apart. -/
theorem filled_hits_iff {m m' : Machine δ} {a super data write}
    (h : mmuFillAtcL1 cfg hw a super data write (l1Slot super data write a) m = .ok true m')
    (b c : BitVec 32) :
    (l1Slot super data write b = l1Slot super data write a ∧ mmuUserLookup m' super data write b = true ↔
        SamePage4k a b) ∧
      (atcL2Index b = atcL2Index a ∧ (m'.atcL2 super (atcL2Index b)).tag = atcTag b ↔ SamePage4k a b) ∧
      atcTag b ≠ ~~~atcTag c ∧ atcTag b ≠ emptyTag ∧ emptyTag ≠ ~~~atcTag c := by
  obtain ⟨h1, h2⟩ := mmuFillAtcL1_tags cfg hw h
  refine ⟨⟨?_, fun hp => ?_⟩, ⟨?_, fun hp => ?_⟩, atcTag_ne_not b c, atcTag_ne_emptyTag b, emptyTag_ne_not c⟩
  · rintro ⟨hs, hhit⟩
    rw [mmuUserLookup, hs, beq_iff_eq, h1] at hhit
    exact samePage4k_of_l1 hhit (congrArg L1Slot.idx hs).symm
  · have hs : l1Slot super data write b = l1Slot super data write a := by simp only [l1Slot, hp.indices_eq.1]
    exact ⟨hs, by rw [mmuUserLookup, hs, h1, hp.atcTag_eq, beq_self_eq_true]⟩
  · rintro ⟨hi, hhit⟩; rw [hi, h2] at hhit; exact samePage4k_of_l2 hhit hi.symm
  · have hi := hp.indices_eq.2.symm; exact ⟨hi, by rw [hi, h2, hp.atcTag_eq]⟩

theorem filled_hits_second_word : mmuUserLookup
    (final (mmuFillAtcL1 sampleConfig quietHardware 0x1000 true true false (l1Slot true true false 0x1000)
      (resetMachine mmuOffRegs))) true true false 0x1004 = true :=
  ((filled_hits_iff sampleConfig quietHardware (m := resetMachine mmuOffRegs) (a := 0x1000)
    rfl 0x1004 0).1.mpr (by decide)).2

/-! ## The label `restart` -/

/-- What `mmu_fill_atc_l1` finds in the L2 line. -/
def Machine.firstCheck (m : Machine δ) (addr : BitVec 32) (super data write : Bool) : LineCheck :=
  let l := m.atcL2 super (atcL2Index addr)
  if l.tag ≠ atcTag addr then .restart else l.check data write

/-- The runs of `mmu_fill_atc_l1` from a check of the L2 line: control passes the label `restart` `n`
times and leaves the loop in `m'`, by `goto fail` if `ok` is false. -/
inductive Refills (addr : BitVec 32) (super data write : Bool) :
    LineCheck → Machine δ → Nat → Bool → Machine δ → Prop
  | fail (m) : Refills addr super data write .fail m 0 false m
  | pass (m) : Refills addr super data write .pass m 0 true m
  | restart {m m₁ m' desc l n ok}
      (fill : mmuFillAtcL2 cfg hw addr super data write (m.atcL2 super (atcL2Index addr)) m =
        .ok (desc, l) m₁)
      (rest : Refills addr super data write (l.check data write)
        (m₁.setL2 super (atcL2Index addr) l) n ok m') :
      Refills addr super data write .restart m (n + 1) ok m'

theorem mmuFillAtcL2_check {m m' : Machine δ} {addr super data write l desc l'}
    (h : mmuFillAtcL2 cfg hw addr super data write l m = .ok (desc, l') m') :
    l'.check data write = .fail ∨ l'.check data write = .pass := by
  obtain ⟨_, _, hfill, -⟩ := mmuFillAtcL2_spec cfg hw m addr super data write l
  rw [h] at hfill
  cases hfill
  rw [filledLine_check]
  split <;> simp

theorem restart_refills {m m' : Machine δ} {addr super data write n ok}
    (h : restart cfg hw addr super data write (n + 1) m = .ok ok m') :
    Refills cfg hw addr super data write .restart m 1 ok m' := by
  obtain ⟨desc, m₁, hfill, -⟩ :=
    mmuFillAtcL2_spec cfg hw m addr super data write (m.atcL2 super (atcL2Index addr))
  refine .restart hfill ?_
  simp only [restart, bind_apply, get_apply, hfill, modify_apply] at h
  obtain hc | hc := mmuFillAtcL2_check cfg hw hfill <;> simp only [hc] at h <;> cases h <;> rw [hc]
  · exact .fail _
  · exact .pass _

theorem Refills.le_one {c} {m m' : Machine δ} {addr super data write n ok}
    (h : Refills cfg hw addr super data write c m n ok m') : n ≤ 1 := by
  cases h with
  | fail => exact Nat.zero_le 1
  | pass => exact Nat.zero_le 1
  | restart fill rest =>
    obtain hc | hc := mmuFillAtcL2_check cfg hw fill <;> rw [hc] at rest <;> cases rest <;> exact Nat.le_refl 1

/-- `mmu_fill_atc_l1` leaves its loop, in every run after at most one pass of `restart`, since a refill
for a write gives a line that is invalid, write-protected or modified. -/
theorem restart_at_most_once (m : Machine δ) (addr : BitVec 32) (super data write : Bool) :
    (∃ n ok m', Refills cfg hw addr super data write (m.firstCheck addr super data write) m n ok m' ∧
        mmuFillLookup cfg hw addr super data write m = .ok ok m') ∧
      (∀ n ok m', Refills cfg hw addr super data write (m.firstCheck addr super data write) m n ok m' →
        n ≤ 1) ∧
      ∀ l desc l' m', mmuFillAtcL2 cfg hw addr super data true l m = .ok (desc, l') m' →
        l'.valid data = false ∨ l'.writeProtect = true ∨ l'.modified = true := by
  refine ⟨?_, fun n ok m' h => h.le_one cfg hw, fun l desc l' m' h => ?_⟩
  · obtain ⟨m', hl, -⟩ := mmuFillLookup_spec cfg hw m addr super data write
    generalize (!m.refused cfg hw addr super data write) = ok at hl
    have h := hl
    simp only [mmuFillLookup, bind_apply, get_apply] at h
    unfold Machine.firstCheck
    split at h
    · rename_i ht; rw [if_pos ht]; exact ⟨1, _, m', restart_refills cfg hw h, hl⟩
    · rename_i ht
      rw [if_neg ht]
      cases hc : (m.atcL2 super (atcL2Index addr)).check data write <;> rw [hc] at h
      · cases h; exact ⟨0, _, m, .fail m, hl⟩
      · exact ⟨1, _, m', restart_refills cfg hw h, hl⟩
      · cases h; exact ⟨0, _, m, .pass m, hl⟩
  · have hc := mmuFillAtcL2_check cfg hw h
    revert hc
    unfold AtcLine.check
    cases l'.valid data <;> cases l'.writeProtect <;> cases l'.modified <;> simp

end Aranym.Mmu
