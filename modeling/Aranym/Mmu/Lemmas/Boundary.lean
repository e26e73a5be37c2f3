import Aranym.Mmu.Lemmas.Access
import Aranym.Mmu.Lemmas.Page

/-!
# The RAM boundary check behind the L1 cache

The boundary check is per byte, but its verdict is kept per page in the L1 slot.
-/

namespace Aranym.Mmu

open Aranym.Lib

variable {δ : Type} (cfg : Config) (hw : Hardware δ)

/-- The check of the RAM boundary refuses the physical address. -/
def boundaryRefuses (phys : BitVec 32) (super write : Bool) : Bool :=
  !isHwAddr phys && !isHwMirror phys && !testRamBoundary cfg phys 1 super write

def Action.Succeeds (a : Action) : Prop := a ≠ .busError

instance (a : Action) : Decidable a.Succeeds := inferInstanceAs (Decidable (_ ≠ _))

/-- No line of the second level is marked as hardware. -/
def Machine.L2Plain (m : Machine δ) : Prop := ∀ s i, (m.atcL2 s i).hw = false

/-! ## Lines -/

theorem filledLine_hw (m : Machine δ) (addr : BitVec 32) (super data write : Bool) (l : AtcLine) :
    (m.filledLine cfg hw addr super data write l).hw = false ∧
      (m.filledLine cfg hw addr super data write l).tag = atcTag addr := by
  simp only [Machine.filledLine, AtcLine.ofTtr, AtcLine.ofDisabled, AtcLine.ofDesc]
  split
  · exact ⟨rfl, rfl⟩
  · split
    · exact ⟨rfl, rfl⟩
    · split <;> exact ⟨rfl, rfl⟩

theorem lookupLine_tag (m : Machine δ) (addr : BitVec 32) (super data write : Bool) :
    (m.lookupLine cfg hw addr super data write).tag = atcTag addr := by
  simp only [Machine.lookupLine]
  split
  · rename_i h; exact (check_of_decides h).1
  · exact (filledLine_hw cfg hw _ _ _ _ _ _).2

theorem lookupLine_hw {m : Machine δ} (hm : m.L2Plain) (addr : BitVec 32) (super data write : Bool) :
    (m.lookupLine cfg hw addr super data write).hw = false := by
  simp only [Machine.lookupLine]
  split
  · exact hm _ _
  · exact (filledLine_hw cfg hw _ _ _ _ _ _).1

def AtcLine.grantedAction (l : AtcLine) (addr : BitVec 32) (super write : Bool) : Action :=
  match l.special cfg addr super write with
  | none => .ram (l.phys + addr)
  | some l1 => l1.redo addr

theorem grantedAction_eq {l : AtcLine} (h : l.hw = false) (addr : BitVec 32) (super write : Bool) :
    l.grantedAction cfg addr super write = if isHwAddr (addr + l.phys) then .hw (l.phys + addr)
      else if isHwMirror (addr + l.phys) then .hw (l.phys - 0xff000000 + addr)
      else if testRamBoundary cfg (addr + l.phys) 1 super write then .ram (l.phys + addr) else .busError := by
  unfold AtcLine.grantedAction AtcLine.special
  dsimp only
  cases isHwAddr (addr + l.phys) with
  | true => rfl
  | false =>
    cases isHwMirror (addr + l.phys) with
    | true => rfl
    | false =>
      cases testRamBoundary cfg (addr + l.phys) 1 super write with
      | true => rfl
      | false => simp [AtcLine.redo, h]

theorem grantedAction_succeeds_iff {l : AtcLine} (h : l.hw = false) (addr : BitVec 32) (super write : Bool) :
    (l.grantedAction cfg addr super write).Succeeds ↔
      boundaryRefuses cfg (addr + l.phys) super write = false := by
  rw [grantedAction_eq cfg h, Action.Succeeds, boundaryRefuses]
  cases isHwAddr (addr + l.phys) <;> cases isHwMirror (addr + l.phys) <;>
    cases testRamBoundary cfg (addr + l.phys) 1 super write <;> simp

theorem special_tag {l l1 : AtcLine} {addr : BitVec 32} {super write : Bool}
    (h : l.special cfg addr super write = some l1) : l1.tag = l.tag := by
  simp only [AtcLine.special] at h
  split at h
  · cases h; rfl
  · split at h
    · cases h; rfl
    · split at h
      · cases h; rfl
      · cases h

/-! ## Accesses that find the slot filled, or fill it -/

variable {m : Machine δ} {addr : BitVec 32} {super data write : Bool}

theorem access_hit (h : (m.l1 (l1Slot super data write addr)).tag = atcTag addr) :
    m.access cfg hw addr super data write =
      ⟨.ram ((m.l1 (l1Slot super data write addr)).phys + addr), m.l1 (l1Slot super data write addr),
        m.atcL2 super (atcL2Index addr)⟩ := by simp only [Machine.access, if_pos h]

theorem access_negative (h : (m.l1 (l1Slot super data write addr)).tag = ~~~atcTag addr) :
    m.access cfg hw addr super data write =
      ⟨(m.l1 (l1Slot super data write addr)).redo addr, m.l1 (l1Slot super data write addr),
        m.atcL2 super (atcL2Index addr)⟩ := by
  have hne : (m.l1 (l1Slot super data write addr)).tag ≠ atcTag addr :=
    fun h' => atcTag_ne_not addr addr (h'.symm.trans h)
  simp only [Machine.access, if_neg hne, if_pos h]

/-- The first-level line of the access does not hold its page. -/
def Machine.SlotMisses (m : Machine δ) (addr : BitVec 32) (super data write : Bool) : Prop :=
  (m.l1 (l1Slot super data write addr)).tag ≠ atcTag addr ∧
    (m.l1 (l1Slot super data write addr)).tag ≠ ~~~atcTag addr

theorem access_refused (hs : m.SlotMisses addr super data write)
    (hr : m.refused cfg hw addr super data write = true) : m.access cfg hw addr super data write =
      ⟨(m.l1 (l1Slot super data write addr)).redo addr, (m.l1 (l1Slot super data write addr)).complement,
        m.lookupLine cfg hw addr super data write⟩ := by
  simp only [Machine.access, if_neg hs.1, if_neg hs.2, hr, if_true]

theorem access_granted (hs : m.SlotMisses addr super data write)
    (hr : m.refused cfg hw addr super data write = false) : ∃ slot, m.access cfg hw addr super data write =
        ⟨(m.lookupLine cfg hw addr super data write).grantedAction cfg addr super write, slot,
          m.lookupLine cfg hw addr super data write⟩ ∧ ((slot.tag = atcTag addr ∧
          (m.lookupLine cfg hw addr super data write).special cfg addr super write = none ∧
          slot = m.lookupLine cfg hw addr super data write) ∨ slot.tag = ~~~atcTag addr ∧
          (m.lookupLine cfg hw addr super data write).special cfg addr super write =
            some slot.complement) := by
  have htag := lookupLine_tag cfg hw m addr super data write
  simp only [Machine.access, if_neg hs.1, if_neg hs.2, hr, Bool.false_eq_true, if_false,
    AtcLine.grantedAction]
  cases hsp : (m.lookupLine cfg hw addr super data write).special cfg addr super write with
  | none => exact ⟨_, rfl, .inl ⟨htag, rfl, rfl⟩⟩
  | some l1 =>
    have hl1 : l1.tag = atcTag addr := (special_tag cfg hsp).trans htag
    refine ⟨l1.complement, rfl, .inr ⟨by rw [AtcLine.complement, hl1], ?_⟩⟩
    simp [AtcLine.complement]

/-! ## Two accesses of one page -/

variable {a b : Access}

theorem SamePage4k.l1Slot_eq {x y} (h : SamePage4k x y) (super data write : Bool) :
    l1Slot super data write x = l1Slot super data write y := by simp only [l1Slot, h.indices_eq.1]

theorem SamePage4k.slotMisses {x y} (h : SamePage4k x y)
    (hs : m.SlotMisses y super data write) : m.SlotMisses x super data write := by
  simpa only [Machine.SlotMisses, h.l1Slot_eq, h.atcTag_eq] using hs

theorem redo_succeeds_iff (l : AtcLine) (addr : BitVec 32) : (l.redo addr).Succeeds ↔ l.hw = true := by
  unfold AtcLine.redo Action.Succeeds
  cases l.hw <;> simp

theorem succeeds_next_of_same_slot (hpage : SamePage4k a.addr b.addr) (hdata : a.data = b.data)
    (hwrite : a.write = b.write) (hs : m.SlotMisses b.addr m.regs.s b.data b.write)
    (hr : m.refused cfg hw b.addr m.regs.s b.data b.write = false) :
    ((m.next cfg hw a).outcome cfg hw b).Succeeds ↔
      ((m.lookupLine cfg hw b.addr m.regs.s b.data b.write).grantedAction cfg a.addr m.regs.s
        b.write).Succeeds := by
  have hdone := next_spec cfg hw m a
  rw [hdata, hwrite] at hdone
  obtain ⟨slot, hacc, hslot⟩ := access_granted cfg hw (hpage.slotMisses hs)
    (by rw [hpage.refused_eq cfg hw]; exact hr)
  rw [hacc] at hdone
  rw [hpage.lookupLine_eq cfg hw] at hslot
  have hl1 : (m.next cfg hw a).l1 (l1Slot m.regs.s b.data b.write b.addr) = slot := by
    rw [← hpage.l1Slot_eq]; exact hdone.slot
  rw [outcome_eq, hdone.regs]
  rcases hslot with ⟨htag, hnone, rfl⟩ | ⟨htag, hsome⟩
  · rw [access_hit cfg hw (by rw [hl1, htag, hpage.atcTag_eq]), AtcLine.grantedAction, hnone]
    simp [Action.Succeeds]
  · rw [access_negative cfg hw (by rw [hl1, htag, hpage.atcTag_eq]), AtcLine.grantedAction, hsome, hl1]
    simp only [redo_succeeds_iff, AtcLine.complement]

theorem outcome_next_of_slot_kept (hl1 : (m.next cfg hw a).l1 (l1Slot m.regs.s b.data b.write b.addr) =
      m.l1 (l1Slot m.regs.s b.data b.write b.addr)) (hhit : ¬m.SlotMisses b.addr m.regs.s b.data b.write) :
    (m.next cfg hw a).outcome cfg hw b = m.outcome cfg hw b := by
  have hregs := (next_spec cfg hw m a).regs
  rw [outcome_eq, outcome_eq, hregs]
  simp only [Machine.SlotMisses, not_and_or, not_not] at hhit
  rcases hhit with h | h
  · rw [access_hit cfg hw h, access_hit cfg hw (by rw [hl1, h]), hl1]
  · rw [access_negative cfg hw h, access_negative cfg hw (by rw [hl1, h]), hl1]

theorem access_line (m : Machine δ) (addr : BitVec 32) (super data write : Bool) :
    (m.access cfg hw addr super data write).line = m.atcL2 super (atcL2Index addr) ∨
      (m.access cfg hw addr super data write).line = m.lookupLine cfg hw addr super data write := by
  simp only [Machine.access]
  split
  · exact .inl rfl
  · split
    · exact .inl rfl
    · split
      · exact .inr rfl
      · split <;> exact .inr rfl

theorem Machine.L2Plain.next (hm : m.L2Plain) (x : Access) : (m.next cfg hw x).L2Plain := by
  intro s i
  have hdone := next_spec cfg hw m x
  by_cases h : s = m.regs.s ∧ i = atcL2Index x.addr
  · obtain ⟨rfl, rfl⟩ := h
    rw [hdone.line]
    rcases access_line cfg hw m x.addr m.regs.s x.data x.write with h | h
    · rw [h]; exact hm _ _
    · rw [h]; exact lookupLine_hw cfg hw hm _ _ _ _
  · rw [hdone.lines s i (not_and_or.mp h)]; exact hm s i

theorem slot_kept_of_ne (h : l1Slot m.regs.s b.data b.write b.addr ≠ l1Slot m.regs.s a.data a.write a.addr) :
    (m.next cfg hw a).l1 (l1Slot m.regs.s b.data b.write b.addr) =
      m.l1 (l1Slot m.regs.s b.data b.write b.addr) := (next_spec cfg hw m a).slots _ h

theorem slot_kept_of_filled (hpage : SamePage4k a.addr b.addr) (hdata : a.data = b.data)
    (hhit : ¬m.SlotMisses b.addr m.regs.s b.data b.write) :
    (m.next cfg hw a).l1 (l1Slot m.regs.s b.data b.write b.addr) =
      m.l1 (l1Slot m.regs.s b.data b.write b.addr) := by
  by_cases hwrite : a.write = b.write
  · have hdone := next_spec cfg hw m a
    rw [hdata, hwrite] at hdone
    have hhit' : ¬m.SlotMisses a.addr m.regs.s b.data b.write := fun h => hhit (hpage.symm.slotMisses h)
    simp only [Machine.SlotMisses, not_and_or, not_not] at hhit'
    rw [← hpage.l1Slot_eq, hdone.slot]
    rcases hhit' with h | h
    · rw [access_hit cfg hw h]
    · rw [access_negative cfg hw h]
  · apply slot_kept_of_ne; intro h; exact hwrite (l1Row_injective (congrArg L1Slot.row h)).2.2.symm

end Aranym.Mmu
