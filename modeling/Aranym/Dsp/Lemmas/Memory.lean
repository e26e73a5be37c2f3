import Aranym.Dsp.Memory

/-!
# What addressing and the stack change
-/

namespace Aranym.Dsp

open Function

theorem exists_updateRn (numreg : BitVec 3) (modifier : BitVec 16) (r : Registers) :
    ∃ value, updateRn numreg modifier r = update r (regR numreg) value := by
  unfold updateRn
  dsimp only
  split
  · exact ⟨_, rfl⟩
  · split
    · exact ⟨_, rfl⟩
    · split
      · exact ⟨_, rfl⟩
      · exact ⟨r (regR numreg), (update_eq_self _ r).symm⟩

theorem updateRn_congr {numreg} (modifier : BitVec 16) {r r'}
    (hr : r' (regR numreg) = r (regR numreg)) (hn : r' (regN numreg) = r (regN numreg))
    (hm : r' (regM numreg) = r (regM numreg)) :
    updateRn numreg modifier r' (regR numreg) = updateRn numreg modifier r (regR numreg) := by
  simp only [updateRn, hm]
  split
  · simp only [updateRnBitreverse, hr, hn, update_self]
  · split
    · simp only [updateRnModulo, hr, hm, update_self]
    · split
      · simp only [hr, update_self]
      · exact hr

theorem updateRn_eq (numreg : BitVec 3) (modifier : BitVec 16) (r : Registers) : updateRn numreg modifier r
    = update r (regR numreg) (updateRn numreg modifier r (regR numreg)) := by
  obtain ⟨value, h⟩ := exists_updateRn numreg modifier r
  rw [h, update_self]

namespace Core

variable {c : Core}

theorem exists_calcEa (eaMode : BitVec 6) (c : Core) : ∃ value len, (c.calcEa eaMode).2.2 =
    { c with registers := update c.registers (regR (eaMode.setWidth 3)) value, curInstLen := len } := by
  have hrn : ∀ modifier, ∃ value, c.updateRn (eaMode.setWidth 3) modifier =
      { c with registers := update c.registers (regR (eaMode.setWidth 3)) value } := by
    intro modifier
    obtain ⟨value, hvalue⟩ := exists_updateRn (eaMode.setWidth 3) modifier c.registers
    exact ⟨value, by rw [Core.updateRn, hvalue]⟩
  have hself : update c.registers (regR (eaMode.setWidth 3)) (c.registers (regR (eaMode.setWidth 3)))
      = c.registers := update_eq_self _ _
  unfold calcEa
  dsimp only
  split
  · obtain ⟨value, hvalue⟩ := hrn ((-c.registers (regN (eaMode.setWidth 3))).setWidth 16)
    exact ⟨value, c.curInstLen, hvalue⟩
  · obtain ⟨value, hvalue⟩ := hrn ((c.registers (regN (eaMode.setWidth 3))).setWidth 16)
    exact ⟨value, c.curInstLen, hvalue⟩
  · obtain ⟨value, hvalue⟩ := hrn (-1); exact ⟨value, c.curInstLen, hvalue⟩
  · obtain ⟨value, hvalue⟩ := hrn 1; exact ⟨value, c.curInstLen, hvalue⟩
  · exact ⟨_, c.curInstLen, by rw [hself]⟩
  · obtain ⟨value, hvalue⟩ := hrn ((c.registers (regN (eaMode.setWidth 3))).setWidth 16)
    refine ⟨c.registers (regR (eaMode.setWidth 3)), c.curInstLen, ?_⟩
    rw [hvalue, setReg, update_idem]
  · exact ⟨_, c.curInstLen + 1, by rw [hself]⟩
  · obtain ⟨value, hvalue⟩ := hrn (-1); exact ⟨value, c.curInstLen, hvalue⟩

/-! ## Stack -/

theorem checkStack_of_lt {i} (h : i.toNat < stackSize) : c.checkStack i = c := if_pos h

theorem stackPush_full (h : c.registers regSp = 0x0f) (curpc cursr : BitVec 32) : c.stackPush curpc cursr = c := by
  rw [stackPush, if_pos h]

def pushed (r : Registers) : Registers :=
  update (update (update r regSp (r regSp + 1)) regSsh (r regSsh + 1)) regSsl (r regSsl + 1)

theorem stackPush_eq (h : c.registers regSp ≠ 0x0f) (curpc cursr : BitVec 32) : c.stackPush curpc cursr =
    ({ c with registers := pushed c.registers }.setStackSsh (c.registers regSsh + 1) (curpc.setWidth 16)).setStackSsl
      (c.registers regSsl + 1) (cursr.setWidth 16) := by
  have hstep : ∀ x : Core, x.registers regSsl = c.registers regSsl + 1 →
      x.setStackSsl (x.registers regSsl) (cursr.setWidth 16)
        = x.setStackSsl (c.registers regSsl + 1) (cursr.setWidth 16) := fun x hx => by rw [hx]
  rw [stackPush, if_neg h]
  refine hstep _ ?_
  rw [setStackSsh]
  split <;> rfl

theorem stackPush_room (h : c.registers regSp ≠ 0x0f) (hssh : (c.registers regSsh + 1).toNat < stackSize)
    (hssl : (c.registers regSsl + 1).toNat < stackSize) (curpc cursr : BitVec 32) : c.stackPush curpc cursr =
      { c with
        registers := pushed c.registers
        stackSsh := update c.stackSsh (c.registers regSsh + 1).toNat (curpc.setWidth 16)
        stackSsl := update c.stackSsl (c.registers regSsl + 1).toNat (cursr.setWidth 16) } := by
  rw [stackPush_eq h, setStackSsh, if_pos hssh, setStackSsl, if_pos hssl]

end Core

end Aranym.Dsp
