import Aranym.Mmu.Theorems

/-!
# Writes to the transparent translation registers

`MOVEC` to `ITT0`, `ITT1`, `DTT0` and `DTT1` stores the register and leaves both levels of the ATC as they are.
-/

namespace Aranym.Mmu

open Aranym.Lib

variable {δ : Type} (cfg : Config) (hw : Hardware δ)

/-- `TTR_I0`, `TTR_I1`, `TTR_D0` and `TTR_D1`. -/
inductive Ttr where
  | i0
  | i1
  | d0
  | d1
deriving DecidableEq

def MmuRegs.setTtr (regs : MmuRegs) (r : Ttr) (val : BitVec 32) : MmuRegs :=
  match r with
  | .i0 => { regs with itt0 := val }
  | .i1 => { regs with itt1 := val }
  | .d0 => { regs with dtt0 := val }
  | .d1 => { regs with dtt1 := val }

def mmuSetTtr (r : Ttr) (val : BitVec 32) (m : Machine δ) : Machine δ := { m with regs := m.regs.setTtr r val }

/-- The cases 4 to 7 of `m68k_move2c`. -/
def move2cTtr (r : Ttr) (val : BitVec 32) (m : Machine δ) : Machine δ := mmuSetTtr r (val &&& 0xffffe364) m

/-- The registers after it. -/
def MmuRegs.move2c (regs : MmuRegs) (r : Ttr) (val : BitVec 32) : MmuRegs := regs.setTtr r (val &&& 0xffffe364)

/-! ## The translation in force -/

/-- What the registers and a page of the tables make of an access. -/
def translatedBy (regs : MmuRegs) (page : Option (BitVec 32 × Bool)) (addr : BitVec 32) (super data write : Bool) :
    Action :=
  match translation regs page addr super data write with
  | none => .busError
  | some p => physAction cfg addr p super write

/-- What the tables and registers say of an access. -/
def Machine.translated (m : Machine δ) (addr : BitVec 32) (super data write : Bool) : Action :=
  translatedBy cfg m.regs (m.pageView cfg hw addr super write) addr super data write

/-- What the access does. -/
def Machine.performed (m : Machine δ) (addr : BitVec 32) (super data write : Bool) : Action :=
  match mmuAccess cfg hw addr super data write m with
  | .ok action _ => action
  | .error _ _ => .busError

theorem performed_eq (m : Machine δ) (addr : BitVec 32) (super data write : Bool) :
    m.performed cfg hw addr super data write = (m.access cfg hw addr super data write).action := by
  obtain ⟨m', h, -⟩ := mmuAccess_spec cfg hw m addr super data write
  rw [Machine.performed, h]

/-- What the lines of the ATC say about an access: the one in its L1 slot if it is of the page, else the
one in L2. -/
def Machine.cached (m : Machine δ) (addr : BitVec 32) (super data write : Bool) : Option Action :=
  let slot := m.l1 (l1Slot super data write addr)
  let line := m.atcL2 super (atcL2Index addr)
  if slot.tag = atcTag addr then some (.ram (slot.phys + addr))
  else if slot.tag = ~~~atcTag addr then some (slot.redo addr)
  else if line.decides addr data write then
    some (if !line.valid data || (write && line.writeProtect) then slot.redo addr
      else line.grantedAction cfg addr super write)
  else none

/-- The line that the ATC holds for an access gives what the registers `regs` and the tables give. Without a line, an
access that they refuse does not find the hardware line of another page in its slot. -/
def Machine.Agrees (m : Machine δ) (regs : MmuRegs) (addr : BitVec 32) (super data write : Bool) : Prop :=
  match m.cached cfg addr super data write with
  | some action => action = translatedBy cfg regs (m.pageView cfg hw addr super write) addr super data write
  | none => translation regs (m.pageView cfg hw addr super write) addr super data write = none →
    (m.l1 (l1Slot super data write addr)).hw = false

/-- The ATC holds a line for the access. -/
def Machine.Holds (m : Machine δ) (x : Access) : Prop :=
  (m.l1 (l1Slot m.regs.s x.data x.write x.addr)).tag = atcTag x.addr ∨
    (m.l1 (l1Slot m.regs.s x.data x.write x.addr)).tag = ~~~atcTag x.addr ∨
    (m.atcL2 m.regs.s (atcL2Index x.addr)).tag = atcTag x.addr

variable {cfg hw} {m : Machine δ} {addr : BitVec 32} {super data write : Bool}

theorem performed_of_cached {action} (h : m.cached cfg addr super data write = some action) :
    m.performed cfg hw addr super data write = action := by
  rw [performed_eq]
  simp only [Machine.cached] at h
  split at h
  · next hhit => cases h; rw [access_hit cfg hw hhit]
  · next hhit =>
    split at h
    · next hneg => cases h; rw [access_negative cfg hw hneg]
    · next hneg =>
      split at h
      · next hd =>
        have href : m.refused cfg hw addr super data write
            = (!(m.atcL2 super (atcL2Index addr)).valid data
              || (write && (m.atcL2 super (atcL2Index addr)).writeProtect)) := if_pos hd
        have hline : m.lookupLine cfg hw addr super data write = m.atcL2 super (atcL2Index addr) := if_pos hd
        rw [← href] at h
        split at h
        · next hr => cases h; rw [access_refused cfg hw ⟨hhit, hneg⟩ hr]
        · next hr =>
          cases h
          obtain ⟨slot, hacc, -⟩ := access_granted cfg hw ⟨hhit, hneg⟩ (Bool.eq_false_iff.mpr hr)
          rw [hacc, hline]
      · cases h

theorem performed_of_not_cached (h : m.cached cfg addr super data write = none) :
    m.performed cfg hw addr super data write = m.translated cfg hw addr super data write ↔
      (translation m.regs (m.pageView cfg hw addr super write) addr super data write = none →
        (m.l1 (l1Slot super data write addr)).hw = false) := by
  rw [performed_eq]
  simp only [Machine.cached] at h
  split at h
  · cases h
  next hhit =>
  split at h
  · cases h
  next hneg =>
  split at h
  · cases h
  next hd =>
  have href : m.refused cfg hw addr super data write = m.refusedFresh cfg hw addr super data write := if_neg hd
  have hline : m.lookupLine cfg hw addr super data write
      = m.filledLine cfg hw addr super data write (m.atcL2 super (atcL2Index addr)) := if_neg hd
  have hnone := refusedFresh_eq_isNone cfg hw m addr super data write
  have hfits := filledLine_fits cfg hw m write write (m.atcL2 super (atcL2Index addr)) (SamePage4k.refl addr)
    (rfl : mmuMatchTtr m.regs addr super data = _)
  unfold Machine.translated translatedBy
  cases ht : translation m.regs (m.pageView cfg hw addr super write) addr super data write with
  | none =>
    rw [ht] at hnone
    rw [access_refused cfg hw ⟨hhit, hneg⟩ (href.trans hnone)]
    simp only [AtcLine.redo]; cases (m.l1 (l1Slot super data write addr)).hw <;> simp
  | some p =>
    rw [ht] at hnone hfits
    obtain ⟨slot, hacc, -⟩ := access_granted cfg hw ⟨hhit, hneg⟩ (href.trans hnone)
    rw [hacc, hline]
    exact iff_of_true (grantedAction_eq_physAction cfg hfits addr super) fun h => by cases h

theorem performed_iff_agrees (m : Machine δ) (addr : BitVec 32) (super data write : Bool) :
    m.performed cfg hw addr super data write = m.translated cfg hw addr super data write ↔
      m.Agrees cfg hw m.regs addr super data write := by
  unfold Machine.Agrees
  cases h : m.cached cfg addr super data write with
  | some action => rw [performed_of_cached h]; rfl
  | none => exact performed_of_not_cached h

/-! ## The register write -/

theorem hidden_withoutTtr :
    Hidden (fun m : Machine δ => { m with regs := m.regs.withoutTtr } : Machine δ → Machine δ) where
  seen h := by simp only [Machine.mk.injEq] at h; exact ⟨h.1, h.2.2.2.1, h.2.2.2.2.1, h.2.2.2.2.2.1⟩
  update h := by simp only [Machine.mk.injEq, true_and] at h ⊢; exact ⟨h.1, h.2.1, h.2.2.1, h.2.2.2.2.2.2⟩

theorem withoutTtr_setTtr (regs : MmuRegs) (r : Ttr) (val : BitVec 32) :
    (regs.setTtr r val).withoutTtr = regs.withoutTtr := by cases r <;> rfl

theorem pageView_move2cTtr (r : Ttr) (val : BitVec 32) (m : Machine δ) (addr : BitVec 32) (super write : Bool) :
    (move2cTtr r val m).pageView cfg hw addr super write = m.pageView cfg hw addr super write := by
  refine hidden_withoutTtr.pageView_eq cfg hw addr ?_ super write
  simp only [move2cTtr, mmuSetTtr, withoutTtr_setTtr]

theorem move2c_s (regs : MmuRegs) (r : Ttr) (val : BitVec 32) : (regs.move2c r val).s = regs.s := by cases r <;> rfl

/-- Lines that fit the old register fit the new one too, if it translates the accesses they are for as the old one. -/
theorem AtcInv.move2cTtr {xs : List Access} {pages : PageMap} {r : Ttr} {val : BitVec 32}
    (hinv : AtcInv cfg xs m.regs pages m)
    (hsame : ∀ y ∈ xs, m.Holds y →
      y.translation m.regs pages = y.translation (m.regs.move2c r val) pages) :
    AtcInv cfg xs (m.regs.move2c r val) pages (move2cTtr r val m) := by
  have hs := move2c_s m.regs r val
  have hfresh (y : Access) (hy : y ∈ xs) (h : m.Holds y) : y.freshAction cfg m.regs pages =
      y.freshAction cfg (m.regs.move2c r val) pages := by
    rw [Access.freshAction, Access.freshAction, hsame y hy h, hs]
  refine ⟨rfl, fun y hy ht => ?_, fun y hy ht => ?_, fun y hy ht => ?_⟩ <;> rw [hs] at ht ⊢
  · rw [← hfresh y hy (.inl ht)]; exact hinv.hit y hy ht
  · rw [← hfresh y hy (.inr (.inl ht))]; exact hinv.negative y hy ht
  · rw [← hsame y hy (.inr (.inr ht))]; exact hinv.line y hy ht

variable (cfg hw)

/-- The MMU on, no page resident, and `DTT0` transparent for all of the supervisor's and the user's data. -/
def transparentRegs : MmuRegs := { mmuOnRegs with dtt0 := 0x00ffc000 }

end Aranym.Mmu
