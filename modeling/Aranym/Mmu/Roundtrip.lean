import Aranym.Mmu.Lemmas.Bytes
import Aranym.Mmu.Theorems

/-!
# Operands and their bytes

Words and longs in RAM are read and written as their bytes are, at any address. Quads are not read back.
-/

namespace Aranym.Mmu

open Aranym.Lib

open BitVec hiding setWidth_append

variable {δ : Type} (cfg : Config) (hw : Hardware δ)

variable (m : Machine δ) (addr : BitVec 32) (val : BitVec 64) (data : Bool)

/-! ## Words and longs -/

/-- Tables for address 0 with no bit set yet: the page of address 0 is at `0x4000`. -/
def unusedTables : Machine Unit :=
  { resetMachine { mmuOnRegs with srp := 0x1000 } with
    ram := Memory.putLong (Memory.putLong (Memory.putLong (fun _ => 0) 0x1000 0x2002) 0x2000 0x3002) 0x3000 0x4001 }

/-- The data register of the IDE drive while a sector is read: a word access takes two bytes of the buffer, a byte
access reads zero. -/
def wordHardware : Hardware Unit where
  get := fun w _ => pure (if w = .byte then 0 else 0x1234)
  put := fun _ _ _ => pure ()

/-- The MMU off, and a line left in L1 that takes data reads of page 0 to `0x1000`. -/
def staleRead : Machine Unit :=
  (resetMachine mmuOffRegs).setL1 (l1Slot true true false 0) { AtcLine.empty with tag := atcTag 0, phys := 0x1000 }

/-- A quad is read back as it was written. -/
def QuadRoundTrip : Prop :=
  ∃ m₁ r m₂, mmuPutQuad cfg hw addr val data m = .ok () m₁ ∧ mmuGetQuad cfg hw addr data m₁ = .ok r m₂ ∧
    r.setWidth 64 = val

/-- A quad reads as its two long words. -/
def QuadIsLongs : Prop :=
  ∃ r h l m₁ m₂ m₃, mmuGetQuad cfg hw addr data m = .ok r m₁ ∧ mmuGetLong cfg hw addr data .long m = .ok h m₂ ∧
    mmuGetLong cfg hw (addr + 4) data .long m = .ok l m₃ ∧
    r.setWidth 64 = (h.setWidth 64 <<< 32) ||| l.setWidth 64

/-- Where an access of a quad finds its low long, and the machine then: on the fast path behind the high long, on the
slow path by a second lookup through the slot of the first, made after `high` has transferred the high long. -/
def Machine.lowLong (write : Bool) (high : BitVec 32 → Machine δ → Machine δ) : Option (BitVec 32 × Machine δ) :=
  let cl := l1Slot m.regs.s data write addr
  if mmuUserLookup m m.regs.s data write addr then some ((m.l1 cl).phys + addr + 4, m)
  else match mmuSlow cfg hw addr m.regs.s data write cl m with
    | .ok (.ram p) m₁ =>
      match mmuSlow cfg hw (addr + 4) m.regs.s data write cl (high p m₁) with
      | .ok (.ram p') m₂ => some (p', m₂)
      | _ => none
    | _ => none

/-- `mmu_put_quad` puts the quad into RAM, its low long at `p`. -/
def Machine.QuadPutAt (p : BitVec 32) : Prop :=
  ∃ m', m.lowLong cfg hw addr data true (fun p m => { m with
    ram := m.ram.putLong p (val.extractLsb' 32 32)
    busLog := m.busLog ++ [.ramPut p] }) = some (p, m')

/-- `mmu_get_quad` reads the quad from RAM, its low long from `p`, where its searches leave what is there. -/
def Machine.QuadGotAt (p : BitVec 32) : Prop :=
  ∃ m', m.lowLong cfg hw addr data false (fun p m => { m with busLog := m.busLog ++ [.ramGet p] }) = some (p, m') ∧
    m'.ram.getLong p = m.ram.getLong p

section

variable {cfg hw m addr val data} {p : BitVec 32}

theorem mmuPutLongSlow_ram {v : BitVec 32} {super : Bool} {cl : L1Slot} {m' : Machine δ}
    (h : mmuSlow cfg hw addr super data true cl m = .ok (.ram p) m') :
    mmuPutLongSlow cfg hw addr v super data .long cl m =
      .ok () { m' with ram := m'.ram.putLong p v, busLog := m'.busLog ++ [.ramPut p] } := by
  rw [mmuPutLongSlow, mmuPutSlow, bind_ok h]
  rfl

theorem mmuGetLongSlow_ram {super : Bool} {cl : L1Slot} {m' : Machine δ}
    (h : mmuSlow cfg hw addr super data false cl m = .ok (.ram p) m') :
    mmuGetLongSlow cfg hw addr super data .long cl m =
      .ok (m'.ram.getLong p) { m' with busLog := m'.busLog ++ [.ramGet p] } := by
  rw [mmuGetLongSlow, mmuGetSlow, bind_ok h]
  rfl

theorem Machine.QuadPutAt.mmuPutQuad (h : m.QuadPutAt cfg hw addr val data p) :
    ∃ m', mmuPutQuad cfg hw addr val data m = .ok () m' ∧ m'.ram.getLong p = val.setWidth 32 := by
  obtain ⟨m', h⟩ := h
  rw [setWidth_eq_extractLsb' (by decide), Mmu.mmuPutQuad, bind_ok (get_apply m)]
  simp only [Machine.lowLong] at h
  split at h
  · next hhit =>
    cases h
    rw [if_pos hhit]
    exact ⟨_, rfl, Memory.getLong_putLong_self _ _ _ (by decide)⟩
  next hmiss =>
  rw [if_neg hmiss]
  split at h
  · next hslow =>
    split at h
    · next hslow' =>
      cases h
      exact ⟨_, (bind_ok (mmuPutLongSlow_ram hslow)).trans (mmuPutLongSlow_ram hslow'),
        Memory.getLong_putLong_self _ _ _ (by decide)⟩
    · cases h
  · cases h

theorem Machine.QuadGotAt.mmuGetQuad (h : m.QuadGotAt cfg hw addr data p) :
    ∃ m', mmuGetQuad cfg hw addr data m = .ok (m.ram.getLong p) m' := by
  obtain ⟨m', h, hram⟩ := h
  have hlow (a b : BitVec 32) {n : Machine δ} :
      (.ok ((a ++ b).setWidth 32) n : EStateM.Result M68kException (Machine δ) (BitVec 32)) = .ok b n := by
    rw [BitVec.setWidth_append, dif_pos (Nat.le_refl 32), setWidth_eq]
  rw [← hram, Mmu.mmuGetQuad, bind_ok (get_apply m)]
  simp only [Machine.lowLong] at h
  split at h
  · next hhit => cases h; rw [if_pos hhit]; exact ⟨_, hlow _ _⟩
  next hmiss =>
  rw [if_neg hmiss]
  split at h
  · next hslow =>
    split at h
    · next hslow' =>
      cases h
      have hquad : mmuGetQuadSlow cfg hw addr m.regs.s data (l1Slot m.regs.s data false addr) m = .ok (_ ++ _) _ :=
        (bind_ok (mmuGetLongSlow_ram hslow)).trans (bind_ok (mmuGetLongSlow_ram hslow'))
      exact ⟨_, (bind_ok hquad).trans (hlow _ _)⟩
    · cases h
  · cases h

end

theorem setWidth_eq_iff : (val.setWidth 32).setWidth 64 = val ↔ val.toNat < 2 ^ 32 := by
  rw [← toNat_inj, toNat_setWidth, toNat_setWidth]
  omega

theorem low_eq_longs_iff (r h l : BitVec 32) :
    r.setWidth 64 = (h.setWidth 64 <<< 32) ||| l.setWidth 64 ↔ h = 0 ∧ r = l := by
  have happend : (h.setWidth 64 <<< 32) ||| l.setWidth 64 = h ++ l := by
    rw [← Lib.setWidth_append, setWidth_eq]
  rw [happend, ← toNat_inj, ← toNat_inj, ← toNat_inj, toNat_append, ← Nat.shiftLeft_add_eq_or_of_lt l.isLt,
    Nat.shiftLeft_eq, toNat_setWidth]
  have := r.isLt
  have := l.isLt
  simp only [show (0 : BitVec 32).toNat = 0 from rfl]
  omega

end Aranym.Mmu
