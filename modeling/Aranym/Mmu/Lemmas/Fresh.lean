import Aranym.Mmu.Lemmas.Boundary
import Aranym.Mmu.Lemmas.Hidden

/-!
# Translation with an empty ATC

What an access does when both ATC levels are empty, expressed by the registers and by the page the tables give for it.
-/

namespace Aranym.Mmu

open Aranym.Lib BitVec

variable {δ : Type} (cfg : Config) (hw : Hardware δ) {data super write : Bool} {l : AtcLine} {p a b : BitVec 32}

variable (l1 : Fin 8 → Fin 256 → AtcLine) (l2 : Bool → Fin 4096 → AtcLine) (m : Machine δ) (addr : BitVec 32)

/-! ## The table search ignores the ATC -/

def Machine.withAtc : Machine δ := { m with atcL1 := l1, atcL2 := l2 }

theorem hidden_withAtc : Hidden (Machine.withAtc l1 l2 : Machine δ → Machine δ) where
  seen h := by
    simp only [Machine.withAtc, Machine.mk.injEq, true_and] at h
    exact ⟨congrArg MmuRegs.withoutTtr h.1, h.2.1, h.2.2.1, h.2.2.2.1⟩
  update h := by
    simp only [Machine.withAtc, Machine.mk.injEq, true_and] at h ⊢; exact ⟨h.1, h.2.2.2.2⟩

/-! ## The translation as a function of registers and page -/

def pageMask (pagesize8k : Bool) : BitVec 32 := if pagesize8k then 0x1fff else 0xfff

/-- The page the tables hold for an address: its frame and whether it is write-protected, or `none` if
it is not resident, or not for this privilege, or if the search ends in a bus error. -/
def Machine.pageView (super write : Bool) : Option (BitVec 32 × Bool) :=
  let desc := m.tableSearch cfg hw addr super write
  if desc &&& 1 = 0 ∨ (!super ∧ desc &&& mmuMmusrS ≠ 0) then none
  else some (desc &&& ~~~pageMask m.regs.mmuPagesize8k, desc &&& mmuMmusrW != 0)

theorem Hidden.pageView_eq {g : Machine δ → Machine δ} (hg : Hidden g) {m n : Machine δ} (h : g m = g n)
    (super write : Bool) : m.pageView cfg hw addr super write = n.pageView cfg hw addr super write := by
  have hsearch : m.tableSearch cfg hw addr super write = n.tableSearch cfg hw addr super write := by
    have hrun := respects_mmuLookupPagetable cfg hw hg addr super write m n h
    unfold Machine.tableSearch
    revert hrun
    cases mmuLookupPagetable cfg hw addr super write m <;>
      cases mmuLookupPagetable cfg hw addr super write n <;> simp +contextual [mapState]
  have h8k : m.regs.mmuPagesize8k = n.regs.mmuPagesize8k := (congrArg MmuRegs.mmuPagesize8k (hg.seen h).1 :)
  simp only [Machine.pageView, hsearch, h8k]

def translation (r : MmuRegs) (page : Option (BitVec 32 × Bool)) (addr : BitVec 32)
    (super data write : Bool) : Option (BitVec 32) :=
  match mmuMatchTtr r addr super data with
  | .okMatch => some 0
  | .noWrite => if write then none else some 0
  | .noMatch =>
    if !r.mmuEnabled then some 0
    else match page with
      | none => none
      | some (frame, wp) =>
        if write && wp then none else some (frame - (addr &&& ~~~pageMask r.mmuPagesize8k))

def physAction (offset : BitVec 32) (super write : Bool) : Action :=
  if isHwAddr (addr + offset) then .hw (offset + addr)
  else if isHwMirror (addr + offset) then .hw (offset - 0xff000000 + addr)
  else if testRamBoundary cfg (addr + offset) 1 super write then .ram (offset + addr)
  else .busError

structure LineFits (l : AtcLine) (t : Option (BitVec 32)) (data write : Bool) : Prop where
  hw : l.hw = false
  refused : (!l.valid data || (write && l.writeProtect)) = t.isNone
  phys : ∀ p, t = some p → l.phys = p

theorem ofTtr_fits (hl : l.hw = false) {data' res other} (h : data' = data ∨ other = res) (write : Bool) :
    LineFits (l.ofTtr data res other) (if write && res == .noWrite then none else some 0) data' write := by
  have hv : (l.ofTtr data res other).valid data' = true := by
    rcases h with rfl | rfl <;> cases data' <;> simp [AtcLine.ofTtr, AtcLine.valid]
  refine ⟨hl, ?_, fun p hp => ?_⟩
  · rw [hv]; simp only [AtcLine.ofTtr]; cases write && res == .noWrite <;> rfl
  · split at hp
    · cases hp
    · cases hp; rfl

theorem ofDisabled_fits (hl : l.hw = false) (data write : Bool) :
    LineFits l.ofDisabled (some 0) data write := by
  refine ⟨hl, ?_, fun p hp => by cases hp; rfl⟩
  cases data <;> simp [AtcLine.ofDisabled, AtcLine.valid]

theorem ofDesc_fits (hl : l.hw = false) (super pagesize8k : Bool) {y z}
    (desc : BitVec 32) (data write : Bool) (hyz : z &&& ~~~pageMask pagesize8k = y &&& ~~~pageMask pagesize8k) :
    LineFits (l.ofDesc super pagesize8k y desc)
      (match (if desc &&& 1 = 0 ∨ (!super ∧ desc &&& mmuMmusrS ≠ 0) then none
          else some (desc &&& ~~~pageMask pagesize8k, desc &&& mmuMmusrW != 0)) with
        | none => none
        | some (frame, wp) => if write && wp then none else some (frame - (z &&& ~~~pageMask pagesize8k)))
      data write := by
  unfold AtcLine.ofDesc
  by_cases hc : desc &&& 1 = 0 ∨ (!super ∧ desc &&& mmuMmusrS ≠ 0)
  · simp only [if_pos hc]; exact ⟨hl, by cases data <;> simp [AtcLine.valid], fun p hp => by cases hp⟩
  · simp only [if_neg hc]
    refine ⟨hl, ?_, fun p hp => ?_⟩
    · cases write && desc &&& mmuMmusrW != 0 <;> cases data <;> simp [AtcLine.valid]
    · split at hp
      · cases hp
      · cases hp; rw [hyz]; rfl

theorem filledLine_fits {y z data'} (write write' : Bool) (l : AtcLine) (hpage : SamePage4k z y)
    (httr : mmuMatchTtr m.regs z super data' = mmuMatchTtr m.regs y super data) :
    LineFits (m.filledLine cfg hw y super data write l)
      (translation m.regs (m.pageView cfg hw y super write) z super data' write') data' write' := by
  have hother : data' = data ∨ mmuMatchTtr m.regs y super (!data) = mmuMatchTtr m.regs y super data := by
    by_cases hd : data' = data
    · exact .inl hd
    · have hd' : data' = !data := by cases data <;> cases data' <;> simp_all
      exact .inr (by rw [← hd', ← hpage.mmuMatchTtr_eq, httr])
  have hmask : z &&& ~~~pageMask m.regs.mmuPagesize8k = y &&& ~~~pageMask m.regs.mmuPagesize8k := by
    cases m.regs.mmuPagesize8k
    · exact hpage.and_eq (~~~0xfff) (by decide)
    · exact hpage.and_eq (~~~0x1fff) (by decide)
  unfold translation Machine.filledLine
  rw [httr]
  rcases ttrMatch_cases (mmuMatchTtr m.regs y super data) with hres | hres | hres
  · simp only [hres, ne_eq, not_true_eq_false, if_false]
    cases m.regs.mmuEnabled with
    | false => exact ofDisabled_fits rfl _ _
    | true => exact ofDesc_fits rfl super m.regs.mmuPagesize8k _ data' write' hmask
  · rw [hres] at hother
    have hfits := ofTtr_fits (l := { l with tag := atcTag y, hw := false, busFault := false }) rfl hother write'
    simp only [hres, ne_eq, reduceCtorEq, not_false_eq_true, if_true]; simpa using hfits
  · rw [hres] at hother
    have hfits := ofTtr_fits (l := { l with tag := atcTag y, hw := false, busFault := false }) rfl hother write'
    simp only [hres, ne_eq, reduceCtorEq, not_false_eq_true, if_true]; simpa using hfits

/-! ## The lookup and the translation -/

theorem check_eq_fail_iff (l : AtcLine) (data write : Bool) :
    l.check data write = .fail ↔ (!l.valid data || (write && l.writeProtect)) = true := by
  unfold AtcLine.check
  cases l.valid data <;> cases write <;> cases l.writeProtect <;> cases l.modified <;> simp

theorem refusedFresh_eq_isNone (super data write : Bool) : m.refusedFresh cfg hw addr super data write =
      (translation m.regs (m.pageView cfg hw addr super write) addr super data write).isNone := by
  have hfits := filledLine_fits cfg hw m write write .empty (SamePage4k.refl addr)
    (rfl : mmuMatchTtr m.regs addr super data = _)
  have hcheck := filledLine_check cfg hw m addr super data write .empty
  rw [← hfits.refused, Bool.eq_iff_iff, ← check_eq_fail_iff, hcheck]
  cases m.refusedFresh cfg hw addr super data write <;> simp

theorem lookup_fits {m : Machine δ} {addr : BitVec 32} {t : Option (BitVec 32)}
    (ht : translation m.regs (m.pageView cfg hw addr super write) addr super data write = t)
    (hline : (m.atcL2 super (atcL2Index addr)).tag = atcTag addr →
      LineFits (m.atcL2 super (atcL2Index addr)) t data write) :
    m.refused cfg hw addr super data write = t.isNone ∧
      LineFits (m.lookupLine cfg hw addr super data write) t data write := by
  unfold Machine.refused Machine.lookupLine
  cases hd : (m.atcL2 super (atcL2Index addr)).decides addr data write with
  | true => have hfits := hline (check_of_decides hd).1; simp only [hd, if_true]; exact ⟨hfits.refused, hfits⟩
  | false =>
    simp only [hd, Bool.false_eq_true, if_false]
    refine ⟨by rw [refusedFresh_eq_isNone, ht], ?_⟩
    rw [← ht]; exact filledLine_fits cfg hw m write write _ (SamePage4k.refl addr) rfl

theorem grantedAction_eq_physAction (h : LineFits l (some p) data write) (addr : BitVec 32) (super : Bool) :
    l.grantedAction cfg addr super write = physAction cfg addr p super write := by
  rw [grantedAction_eq cfg h.hw, h.phys p rfl]
  rfl

/-! ## Pages -/

theorem SamePage4k.pageView_eq (h : SamePage4k a b) (m : Machine δ) (super write : Bool) :
    m.pageView cfg hw a super write = m.pageView cfg hw b super write := by
  have hsearch : m.tableSearch cfg hw a super write = m.tableSearch cfg hw b super write := by
    simp only [Machine.tableSearch, h.mmuLookupPagetable_eq cfg hw]
  rw [Machine.pageView, hsearch]
  rfl

theorem SamePage4k.translation_eq (h : SamePage4k a b) (r : MmuRegs)
    (page : Option (BitVec 32 × Bool)) (super data write : Bool) :
    translation r page a super data write = translation r page b super data write := by
  have hmask : a &&& ~~~pageMask r.mmuPagesize8k = b &&& ~~~pageMask r.mmuPagesize8k := by
    cases r.mmuPagesize8k
    · exact h.and_eq (~~~0xfff) (by decide)
    · exact h.and_eq (~~~0x1fff) (by decide)
  simp only [translation, h.mmuMatchTtr_eq, hmask]

theorem and_not_pageMask_mod (x : BitVec 32) (pagesize8k : Bool) :
    (x &&& ~~~pageMask pagesize8k).toNat % 2 ^ 12 = 0 := by
  rw [toNat_and, Nat.and_mod_two_pow]
  cases pagesize8k <;> simp [pageMask]

theorem translation_aligned {m : Machine δ} {addr : BitVec 32} {write' : Bool}
    (h : translation m.regs (m.pageView cfg hw addr super write') addr super data write = some p) :
    p.toNat % 2 ^ 12 = 0 := by
  unfold translation at h
  split at h
  · cases h; rfl
  · split at h
    · cases h
    · cases h; rfl
  · split at h
    · cases h; rfl
    · dsimp only [Machine.pageView] at h
      by_cases hc : m.tableSearch cfg hw addr super write' &&& 1 = 0 ∨
          (!super ∧ m.tableSearch cfg hw addr super write' &&& mmuMmusrS ≠ 0)
      · rw [if_pos hc] at h; cases h
      · rw [if_neg hc] at h
        dsimp only at h
        split at h
        · cases h
        · cases h
          have hframe := and_not_pageMask_mod (m.tableSearch cfg hw addr super write') m.regs.mmuPagesize8k
          have hbase := and_not_pageMask_mod addr m.regs.mmuPagesize8k
          rw [toNat_sub]; omega

theorem samePage4k_add (h : SamePage4k a b) (hp : p.toNat % 2 ^ 12 = 0) : SamePage4k (a + p) (b + p) := by
  rw [samePage4k_iff] at h ⊢
  rw [toNat_add, toNat_add]
  omega

end Aranym.Mmu
