import Aranym.Dsp.Masking
import Aranym.Dsp.Lemmas.Memory

/-!
# Fast and long interrupts

An interrupt goes to the two words of its vector. It is a long one if one of them is `JSR`: then the return address
and the status register are pushed at once, and the `JSR` pushes nothing.
-/

namespace Aranym.Dsp

open Function Option

variable {c d e : Core} {source : Core.Interrupt}

namespace Core

def IsJsr (inst : BitVec 32) : Prop :=
  inst >>> 16 &&& bitmask 8 = 0xd ∨ (inst >>> 16 &&& bitmask 8 = 0xb ∧ bitOpcode inst = 0x1c)

instance (inst : BitVec 32) : Decidable (IsJsr inst) := inferInstanceAs (Decidable (_ ∨ _))

def vector (d : Core) : BitVec 32 := (d.raise.map fun x => x.2.interruptInstrFetch).getD 0

def vectorWord1 (d : Core) : BitVec 32 := d.readMemoryP (d.vector.setWidth 16)

def vectorWord2 (d : Core) : BitVec 32 := d.readMemoryP ((d.vector + 1).setWidth 16)

def JsrVector (d : Core) : Prop := IsJsr d.vectorWord1 ∨ IsJsr d.vectorWord2

structure FastEntry (d c : Core) : Prop where
  state : c.interruptState = .fast
  fetch : c.interruptInstrFetch = d.vector
  pc : c.pc = d.vector.setWidth 16
  save : c.interruptSavePc = d.pc.setWidth 32
  registers : c.registers = d.registers
  stackSsh : c.stackSsh = d.stackSsh
  stackSsl : c.stackSsl = d.stackSsl

structure LongEntry (d c : Core) : Prop where
  state : c.interruptState = .long
  pc : c.pc = d.vector.setWidth 16
  sp : c.registers regSp = d.registers regSp + 1
  nonempty : c.registers regSp ≠ 0
  ssh : c.registers regSsh = d.registers regSsh + 1
  ssl : c.registers regSsl = d.registers regSsl + 1
  room : (c.registers regSsh).toNat < stackSize ∧ (c.registers regSsl).toNat < stackSize
  savedPc : (c.stackSsh (c.registers regSsh).toNat).setWidth 32 = d.pc.setWidth 32
  savedSr : (c.stackSsl (c.registers regSsl).toNat).setWidth 32 = d.registers regSr
  below : ∀ i, (i ≠ (c.registers regSsh).toNat → c.stackSsh i = d.stackSsh i) ∧
    (i ≠ (c.registers regSsl).toNat → c.stackSsl i = d.stackSsl i)

/-- The interrupt is fast or long as the instruction at its vector says. -/
def RightKind (d : Core) : Prop :=
  (¬ d.JsrVector → FastEntry d d.postexecuteInterrupts) ∧ (d.JsrVector → LongEntry d d.postexecuteInterrupts)

def CanPush (d : Core) : Prop :=
  d.registers regSp ≠ 0x0f ∧ d.registers regSp + 1 ≠ 0 ∧ (d.registers regSsh + 1).toNat < stackSize ∧
    (d.registers regSsl + 1).toNat < stackSize ∧ (d.registers regSr).toNat < 2 ^ 16

/-- A vector without `JSR` has no word that is taken for one, and a vector with `JSR` finds room on the stack. -/
def WellBehaved (d : Core) : Prop :=
  (¬ d.JsrVector → bitOpcode d.vectorWord1 ≠ 0x1c ∧ bitOpcode d.vectorWord2 ≠ 0x1c) ∧ (d.JsrVector → d.CanPush)

/-! ## What follows -/

/-- The instruction at the program counter is one word long, leaves control and the stack alone, and is not the last
one of a `DO` loop. -/
structure Plain (c : Core) : Prop where
  pc : c.fetch.execute.pc = c.pc
  length : c.fetch.execute.curInstLen = 1
  loopRep : c.fetch.execute.loopRep = false
  state : c.fetch.execute.interruptState = c.interruptState
  fetch : c.fetch.execute.interruptInstrFetch = c.interruptInstrFetch
  save : c.fetch.execute.interruptSavePc = c.interruptSavePc
  sp : c.fetch.execute.registers regSp = c.registers regSp
  loopEnd : (c.fetch.execute.registers regSr).getLsbD srLf → (c.pc + 1).setWidth 32 ≠ c.fetch.execute.registers regLa + 1

/-- After the two instructions of the vector the program goes on where it was, with the stack as it was. -/
def Resumes (d : Core) : Prop :=
  let c := d.postexecuteInterrupts
  let t := c.executeInstruction.executeInstruction
  c.executeInstruction.pc = c.pc + 1 ∧ t.pc = d.pc ∧ t.registers regSp = d.registers regSp ∧ t.interruptState = .none

/-- The instructions of the vector are plain ones: both in a vector without `JSR`, and the first one if `JSR` is the
second, where no further interrupt comes in between. -/
def PlainVector (d : Core) : Prop :=
  (¬ d.JsrVector → d.postexecuteInterrupts.Plain ∧ d.postexecuteInterrupts.executeInstruction.Plain) ∧
    (d.JsrVector → ¬ IsJsr d.vectorWord1 →
      d.postexecuteInterrupts.Plain ∧ d.postexecuteInterrupts.executed.accepted = none)

structure SameTop (c e : Core) : Prop where
  sp : e.registers regSp = c.registers regSp
  ssh : e.registers regSsh = c.registers regSsh
  ssl : e.registers regSsl = c.registers regSsl
  savedPc : e.stackSsh (e.registers regSsh).toNat = c.stackSsh (c.registers regSsh).toNat
  savedSr : e.stackSsl (e.registers regSsl).toNat = c.stackSsl (c.registers regSsl).toNat

def Restores (d : Core) : Prop :=
  ∀ e, SameTop d.postexecuteInterrupts e → e.rti.pc = d.pc ∧ e.rti.registers regSr = d.registers regSr ∧
    e.rti.registers regSp = d.registers regSp

def PushesNothing (e : Core) : Prop :=
  e.jsr.registers regSp = e.registers regSp ∧ e.jsr.stackSsh = e.stackSsh ∧ e.jsr.stackSsl = e.stackSsl

/-- The state in which the `JSR` of a vector is executed. -/
def atJsr (d : Core) : Core :=
  if IsJsr d.vectorWord1 then d.postexecuteInterrupts else d.postexecuteInterrupts.executeInstruction

/-- The interrupt is of the kind of its vector. A fast one comes back by itself. In a long one the `JSR` pushes nothing
more, and `RTI` restores the program counter, the status register and the stack pointer. -/
structure Handled (d : Core) : Prop where
  kind : d.RightKind
  resumes : ¬ d.JsrVector → d.Resumes
  jsr : d.JsrVector → d.atJsr.fetch.PushesNothing
  restores : d.JsrVector → d.Restores

/-! ## The interrupt -/

def Raised (d c : Core) : Prop :=
  ∃ periph hostport swi v, c = { d with
    periph := periph, hostport := hostport, swiInter := swi, interruptInstrFetch := v } ∧ v.toNat ≤ 62

theorem toNat_vector_le (x : BitVec 32) : ((x &&& bitmask 5) * 2).toNat ≤ 62 := by
  have hlt := toNat_and_bitmask_lt x (show 5 < 32 by decide)
  rw [BitVec.toNat_mul, show BitVec.toNat (2 : BitVec 32) = 2 from rfl]
  omega

theorem hiInterrupts_raised (h : d.hiInterrupts = some c) : Raised d c := by
  rw [hiInterrupts] at h
  dsimp only at h
  split at h
  · cases h; exact ⟨_, _, _, _, rfl, toNat_vector_le _⟩
  · split at h
    · cases h; exact ⟨_, _, _, _, rfl, by decide⟩
    · split at h
      · cases h; exact ⟨_, _, _, _, rfl, by decide⟩
      · cases h

theorem ssiInterrupts_raised (h : d.ssiInterrupts = some c) : Raised d c := by
  rw [ssiInterrupts] at h
  dsimp only at h
  split at h
  · cases h; exact ⟨_, _, _, _, rfl, by decide⟩
  · split at h
    · cases h; exact ⟨_, _, _, _, rfl, by decide⟩
    · split at h
      · cases h; exact ⟨_, _, _, _, rfl, by decide⟩
      · split at h
        · cases h; exact ⟨_, _, _, _, rfl, by decide⟩
        · cases h

theorem raiseHi_raised (h : d.raiseHi = some (source, c)) : Raised d c := by
  rw [raiseHi] at h
  split at h
  · obtain ⟨c', hc', heq⟩ := map_eq_some_iff.mp h; cases heq; exact hiInterrupts_raised hc'
  · cases h

theorem raiseSsi_raised (h : d.raiseSsi = some (source, c)) : Raised d c := by
  rw [raiseSsi] at h
  split at h
  · obtain ⟨c', hc', heq⟩ := map_eq_some_iff.mp h; cases heq; exact ssiInterrupts_raised hc'
  · cases h

theorem raise_raised (h : d.raise = some (source, c)) : Raised d c := by
  rw [raise] at h
  split at h
  · cases h; exact ⟨_, _, _, _, rfl, by decide⟩
  · split at h
    · cases h; exact ⟨_, _, _, _, rfl, by decide⟩
    · split at h
      · cases h
      · split at h
        · rcases or_eq_some_iff.mp h with h | ⟨-, h⟩
          · exact raiseHi_raised h
          · exact raiseSsi_raised h
        · rcases or_eq_some_iff.mp h with h | ⟨-, h⟩
          · exact raiseSsi_raised h
          · exact raiseHi_raised h

def TakenLong (d : Core) : Prop := looksLikeJsr d.vectorWord1 ∨ looksLikeJsr d.vectorWord2

theorem takenLong_of_jsr (h : d.JsrVector) : d.TakenLong := h.imp (Or.imp id And.right) (Or.imp id And.right)

theorem looksLikeJsr_iff {inst} (h : ¬ IsJsr inst) : looksLikeJsr inst ↔ bitOpcode inst = 0x1c :=
  ⟨fun hl => hl.resolve_left fun hd => h (.inl hd), .inr⟩

theorem takenLong_iff (h : ¬ d.JsrVector) :
    d.TakenLong ↔ bitOpcode d.vectorWord1 = 0x1c ∨ bitOpcode d.vectorWord2 = 0x1c := by
  obtain ⟨h1, h2⟩ := not_or.mp h
  exact or_congr (looksLikeJsr_iff h1) (looksLikeJsr_iff h2)

def atHandler (level : BitVec 32) (c : Core) : Core :=
  let c := { c with interruptState := .long }.stackPush (c.pc.setWidth 32) (c.registers regSr)
  let cleared := 1#32 <<< srLf ||| 1#32 <<< srT ||| 1#32 <<< srS1 ||| 1#32 <<< srS0 ||| 1#32 <<< srI0 ||| 1#32 <<< srI1
  { c with
    registers := (c.registers.clearSr cleared).setSr (level <<< srI0)
    pc := c.interruptInstrFetch.setWidth 16
    interruptInstrFetch := -1
    interruptSavePc := -1 }

theorem exists_accept (h : d.accepted = some source) : ∃ c level, Raised d c ∧ c.interruptInstrFetch = d.vector ∧
    (d.TakenLong → d.postexecuteInterrupts = c.atHandler level) ∧ (¬ d.TakenLong → d.postexecuteInterrupts =
      { c with interruptState := .fast, interruptSavePc := d.pc.setWidth 32, pc := d.vector.setWidth 16 }) := by
  rw [accepted] at h
  split at h
  · cases h
  · rename_i hnot
    obtain ⟨⟨s, c⟩, hraise, rfl⟩ := map_eq_some_iff.mp h
    have hpost : d.postexecuteInterrupts = c.accept (c.iplToRaise s) := by
      rw [postexecuteInterrupts, if_neg (fun h => hnot (.inl h)), if_neg (fun h => hnot (.inr h)), hraise]
    have hv : c.interruptInstrFetch = d.vector := by rw [vector, hraise]; rfl
    have hraised := raise_raised hraise
    refine ⟨c, c.iplToRaise s, hraised, hv, fun hlong => ?_, fun hlong => ?_⟩
    · rw [hpost, accept]
      refine if_pos ?_
      obtain ⟨periph, hostport, swi, v, rfl, -⟩ := hraised
      rw [TakenLong, vectorWord1, vectorWord2, ← hv] at hlong; exact hlong
    · rw [hpost, accept, ← hv]
      obtain ⟨periph, hostport, swi, v, rfl, -⟩ := hraised
      rw [TakenLong, vectorWord1, vectorWord2, ← hv] at hlong; exact if_neg hlong

theorem fastEntry_of_accepted (h : d.accepted = some source) (hnot : ¬ d.TakenLong) :
    FastEntry d d.postexecuteInterrupts := by
  obtain ⟨c, level, ⟨periph, hostport, swi, v, rfl, -⟩, hv, -, heq⟩ := exists_accept h
  rw [heq hnot]
  exact ⟨rfl, hv, rfl, rfl, rfl, rfl, rfl⟩

theorem state_of_takenLong (h : d.accepted = some source) (hlong : d.TakenLong) :
    d.postexecuteInterrupts.interruptState = .long := by
  obtain ⟨c, level, -, -, heq, -⟩ := exists_accept h
  rw [heq hlong]
  exact stackPush_interruptState _ _ _

theorem setWidth_setWidth_of_lt {x : BitVec 32} (h : x.toNat < 2 ^ 16) : (x.setWidth 16).setWidth 32 = x := by
  apply BitVec.eq_of_toNat_eq
  rw [BitVec.toNat_setWidth, BitVec.toNat_setWidth]
  omega

theorem longEntry_iff (h : d.accepted = some source) (hlong : d.TakenLong) :
    LongEntry d d.postexecuteInterrupts ↔ d.CanPush := by
  obtain ⟨c, level, ⟨periph, hostport, swi, v, hc, -⟩, hv, heq, -⟩ := exists_accept h
  rw [heq hlong]
  constructor
  · intro hentry
    have hsr : (d.registers regSr).toNat < 2 ^ 16 := by rw [← hentry.savedSr, BitVec.toNat_setWidth]; omega
    refine ⟨fun hfull => ?_, hentry.sp ▸ hentry.nonempty, hentry.ssh ▸ hentry.room.1, hentry.ssl ▸ hentry.room.2, hsr⟩
    have hsp := hentry.sp
    have hpush := @stackPush_full { c with interruptState := .long } (by rw [hc]; exact hfull)
    rw [atHandler, hpush, hc] at hsp
    have hsame : d.registers regSp = d.registers regSp + 1 := hsp; bv_omega
  · rintro ⟨hfull, hnonempty, hssh, hssl, hsr⟩
    have hpush := @stackPush_room { c with interruptState := .long } (by rw [hc]; exact hfull) (by rw [hc]; exact hssh)
      (by rw [hc]; exact hssl)
    rw [atHandler, hpush]
    subst hc
    have hpc : (d.pc.setWidth 32).toNat < 2 ^ 16 := by rw [BitVec.toNat_setWidth]; omega
    have hself : ∀ (f : Nat → BitVec 16) i value, update f i value i = value :=
      fun f i value => update_self i value f
    refine ⟨rfl, ?_, rfl, hnonempty, rfl, rfl, ⟨hssh, hssl⟩, ?_, ?_, fun i => ⟨?_, ?_⟩⟩
    · rw [← hv]
    · exact (congrArg (BitVec.setWidth 32) (hself d.stackSsh _ _)).trans (setWidth_setWidth_of_lt hpc)
    · exact (congrArg (BitVec.setWidth 32) (hself d.stackSsl _ _)).trans (setWidth_setWidth_of_lt hsr)
    · exact fun hi => update_of_ne hi _ _
    · exact fun hi => update_of_ne hi _ _

theorem rightKind_iff_wellBehaved (h : d.accepted = some source) : d.RightKind ↔ d.WellBehaved := by
  refine and_congr (imp_congr_right fun hnot => ?_) (imp_congr_right fun hjsr => longEntry_iff h (takenLong_of_jsr hjsr))
  rw [← not_or, ← takenLong_iff hnot]
  refine ⟨fun hfast hlong => ?_, fastEntry_of_accepted h⟩
  have hstate := state_of_takenLong h hlong
  rw [hfast.state] at hstate
  cases hstate

/-! ## Fast interrupts -/

theorem Plain.executed (h : Plain c) : c.executed = { c.fetch.execute with pc := c.pc + 1 } := by
  rw [Core.executed, postexecuteUpdatePc, repeatInstruction, if_neg (by rw [h.loopRep]; decide)]
  dsimp only
  rw [h.length, h.pc, Core.loopEnd]
  split
  · rename_i hlf; exact if_neg (h.loopEnd hlf)
  · rfl

theorem Plain.executeInstruction_fast (h : Plain c) (hfast : c.interruptState = .fast) :
    c.executeInstruction = { c.fetch.execute with pc := c.pc + 1 }.fastInterrupt := by
  have hexec : c.executeInstruction = c.executed.postexecuteInterrupts := rfl
  rw [hexec, h.executed, postexecuteInterrupts]
  dsimp only
  rw [if_neg (by rw [h.loopRep]; decide), if_pos (h.state.trans hfast)]

theorem vector_add_one {v : BitVec 32} (hv : v.toNat ≤ 62) : (v.setWidth 16 + 1).setWidth 32 = v + 1 := by
  bv_omega

theorem vector_add_two {v : BitVec 32} (hv : v.toNat ≤ 62) : (v.setWidth 16 + 1 + 1).setWidth 32 = v + 2 := by
  bv_omega

theorem resumes_of_fastEntry (hv : d.vector.toNat ≤ 62) (h : FastEntry d d.postexecuteInterrupts)
    (hfirst : d.postexecuteInterrupts.Plain) (hsecond : d.postexecuteInterrupts.executeInstruction.Plain) :
    d.Resumes := by
  unfold Resumes
  generalize d.postexecuteInterrupts = c at h hfirst hsecond ⊢
  dsimp only
  have hstep : c.executeInstruction = { c.fetch.execute with pc := c.pc + 1 } := by
    rw [hfirst.executeInstruction_fast h.state, fastInterrupt]
    refine if_neg ?_
    dsimp only
    rw [hfirst.fetch, h.fetch, h.pc, vector_add_one hv]; bv_omega
  have hstate : c.executeInstruction.interruptState = .fast := by rw [hstep, hfirst.state, h.state]
  have hfetch : c.executeInstruction.interruptInstrFetch = d.vector := by rw [hstep, hfirst.fetch, h.fetch]
  have hpc : (c.executeInstruction.pc + 1).setWidth 32 = d.vector + 2 := by rw [hstep, h.pc, vector_add_two hv]
  have hsave : c.executeInstruction.interruptSavePc.setWidth 16 = d.pc := by
    rw [hstep]
    dsimp only
    rw [hfirst.save, h.save, BitVec.setWidth_setWidth_of_le _ (by decide), BitVec.setWidth_eq]
  have hsp : c.executeInstruction.registers regSp = d.registers regSp := by rw [hstep, hfirst.sp, h.registers]
  refine ⟨by rw [hstep], ?_⟩
  rw [hsecond.executeInstruction_fast hstate, fastInterrupt]
  dsimp only
  rw [hsecond.fetch, hfetch, hpc, if_pos (BitVec.le_refl _), if_pos rfl, hsecond.save, hsecond.sp]
  exact ⟨hsave, hsp, rfl⟩

/-! ## Long interrupts -/

theorem restores_of_longEntry (h : LongEntry d d.postexecuteInterrupts) : d.Restores := by
  intro e htop
  generalize d.postexecuteInterrupts = c at h htop
  have hpop : e.registers regSp ≠ 0 := by rw [htop.sp]; exact h.nonempty
  have hssh : (e.registers regSsh).toNat < stackSize := by rw [htop.ssh]; exact h.room.1
  have hssl : (e.registers regSsl).toNat < stackSize := by rw [htop.ssl]; exact h.room.2
  rw [rti, stackPop, if_neg hpop, checkStack_of_lt hssh, checkStack_of_lt hssl]
  refine ⟨?_, ?_, ?_⟩
  · show ((e.stackSsh (e.registers regSsh).toNat).setWidth 32).setWidth 16 = d.pc
    rw [htop.savedPc, h.savedPc, BitVec.setWidth_setWidth_of_le _ (by decide), BitVec.setWidth_eq]
  · show (e.stackSsl (e.registers regSsl).toNat).setWidth 32 = d.registers regSr; rw [htop.savedSr, h.savedSr]
  · show e.registers regSp - 1 = d.registers regSp; rw [htop.sp, h.sp, BitVec.add_sub_cancel]

theorem pushesNothing (hlong : c.interruptState = .long) : c.PushesNothing := by
  have hnot : ¬ c.interruptState ≠ .long := fun h => h hlong
  rw [PushesNothing, jsr]
  by_cases hshort : c.curInst >>> 12 &&& bitmask 4 = 0
  · rw [if_pos hshort]; dsimp only; rw [if_neg hnot]; exact ⟨rfl, rfl, rfl⟩
  · obtain ⟨value, len, hea⟩ := exists_calcEa c.field c
    rw [if_neg hshort]
    generalize c.calcEa c.field = ea at hea ⊢
    obtain ⟨newpc, immediate, c'⟩ := ea
    obtain rfl : c' = _ := hea
    dsimp only
    rw [if_neg hnot]; exact ⟨update_of_ne (ne_regR (by decide) _) _ _, rfl, rfl⟩

theorem Plain.executeInstruction_long (h : Plain c) (hlong : c.interruptState = .long)
    (hnone : c.executed.accepted = none) :
    c.executeInstruction.interruptState = .long ∧ c.executeInstruction.pc = c.pc + 1 := by
  have hexec : c.executeInstruction = c.executed.postexecuteInterrupts := rfl
  have hstate : c.executed.interruptState = .long := by rw [h.executed, h.state, hlong]
  have hrep : ¬ c.executed.loopRep := by rw [h.executed, h.loopRep]; decide
  have hfast : c.executed.interruptState ≠ .fast := by rw [hstate]; decide
  rw [accepted, if_neg (fun hor => hor.elim hrep hfast)] at hnone
  rw [hexec, postexecuteInterrupts, if_neg hrep, if_neg hfast, map_eq_none_iff.mp hnone]
  exact ⟨hstate, by rw [h.executed]⟩

end Core

def swiProgram (instr1 instr2 : BitVec 32) : Core :=
  let c := { Core.cleared with pc := 0x100, running := true, swiInter := true }
  (c.setRamint .p 6 instr1).setRamint .p 7 instr2

end Aranym.Dsp
