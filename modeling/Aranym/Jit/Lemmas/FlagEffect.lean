import Aranym.Cpu.Lemmas.Handlers
import Aranym.Cpu.Lemmas.Stacks
import Aranym.Jit.Lemmas.FlagSpec

/-!
# What the handlers do to the condition codes
-/

namespace Aranym.Jit

open Aranym.Lib Aranym.Cpu Aranym.Mmu BitVec

variable {α β : Type} {live : BitVec 8} {size : Sz}

variable (src dst : BitVec 32)

/-! ## Functions on the condition codes -/

theorem opSpec_of_forget {op : FlagOp α} (hop : ∀ g g' : Flags, op g = op g') : OpSpec 0x1f 0 op where
  kills := fun _ _ _ _ _ => hop _ _
  keeps := by
    intro f hd; cases f <;> exact absurd (by decide) hd

theorem opSpec_const (r : Flags × α) : OpSpec 0x1f 0 (fun _ => r) := opSpec_of_forget fun _ _ => rfl

theorem opSpec_rotate {op : FlagOp α} (hop : ∀ g g' : Flags, g.x = g'.x → op g = op g')
    (hx : ∀ g, (op g).1.x = g.x) : OpSpec 0x0f 0 op where
  kills := by
    intro f hd _ g b
    cases f with
    | x => exact absurd hd (by decide)
    | _ => exact hop _ _ rfl
  keeps := by
    intro f hd g
    cases f with
    | x => exact hx g
    | _ => exact absurd (by decide) hd

theorem opSpec_logical (v : BitVec 32) (a : α) : OpSpec 0x0f 0 (fun g => (flagLogical size v g, a)) :=
  opSpec_rotate (fun g g' hx => by simp only [flagLogical, hx]) fun _ => rfl

theorem opSpec_cznv (n z v c : Bool) (a : α) :
    OpSpec 0x0f 0 (fun g => ({ g with n := n, z := z, v := v, c := c }, a)) :=
  opSpec_rotate (fun g g' hx => by simp only [hx]) fun _ => rfl

theorem opSpec_z (z : Bool) (a : α) : OpSpec 0x04 0 (fun g => ({ g with z := z }, a)) where
  kills := by
    intro f hd _ g b
    cases f with
    | z => rfl
    | _ => exact absurd hd (by decide)
  keeps := by
    intro f hd g
    cases f with
    | z => exact absurd (by decide) hd
    | _ => rfl

theorem opSpec_cmp : OpSpec 0x0f 0 (opCmp size src dst) := opSpec_cznv ..

theorem opSpec_cas : OpSpec 0x0f 0 (opCas size src dst) := opSpec_cznv ..

theorem opSpec_extended {op : FlagOp α}
    (hop : ∀ g g' : Flags, g.x = g'.x → g.z = g'.z → op g = op g') : OpSpec 0x1f 0x14 op where
  kills := by
    intro f _ hl g b
    cases f with
    | x => exact absurd (by decide) hl
    | z => exact absurd (by decide) hl
    | _ => exact hop _ _ rfl rfl
  keeps := by
    intro f hd; cases f <;> exact absurd (by decide) hd

theorem opSpec_shift {op : FlagOp α} (hop : ∀ g g' : Flags, g.x = g'.x → op g = op g') :
    OpSpec 0x1f 0x10 op where
  kills := by
    intro f _ hl g b
    cases f with
    | x => exact absurd (by decide) hl
    | _ => exact hop _ _ rfl
  keeps := by
    intro f hd; cases f <;> exact absurd (by decide) hd

theorem rol_x (imm : Bool) (cnt data : BitVec 32) (g : Flags) : (opRol size imm cnt data g).1.x = g.x := by
  simp only [opRol, shiftFlags]
  split <;> rfl

theorem ror_x (imm : Bool) (cnt data : BitVec 32) (g : Flags) : (opRor size imm cnt data g).1.x = g.x := by
  simp only [opRor, shiftFlags]
  split <;> rfl

/-! ## Families -/

variable {i : Instr} {dead : BitVec 8}

theorem srcDstStore_spec {ssize dsize rsize op} (hop : ∀ src dst, OpSpec dead live (op src dst)) :
    FlagSpec dead live (srcDstStore i ssize dsize rsize op) := by
  refine .genamode fun _ => .genamode fun _ => ?_
  exact .bind_keeps (.alu (hop _ _)) fun _ => (genastore_noStatus ..).keepsFlags

theorem srcDstTest_spec {ssize dsize} {op : BitVec 32 → BitVec 32 → FlagOp α}
    (hop : ∀ src dst, OpSpec dead live (op src dst)) : FlagSpec dead live (srcDstTest i ssize dsize op) :=
  .genamode fun _ => .genamode fun _ => .bind_keeps (.alu (hop _ _)) fun _ => .pure _

theorem srcDstFixup_spec {getv op} (hop : ∀ src dst, OpSpec dead live (op src dst)) :
    FlagSpec dead live (srcDstFixup i getv op) := by
  refine .noStatus_bind (genamode2_noStatus ..) fun _ => ?_
  refine .genamode fun _ => .noStatus_bind (clearFixup_noStatus _) fun _ => ?_
  exact .bind_keeps (.alu (hop _ _)) fun _ => (genastore_noStatus ..).keepsFlags

theorem srcStore_spec {ssize rsize getv op} (hop : ∀ src, OpSpec dead live (op src)) :
    FlagSpec dead live (srcStore i ssize rsize getv op) :=
  .genamode fun _ => .bind_keeps (.alu (hop _)) fun _ => (genastore_noStatus ..).keepsFlags

theorem srcDstStore_keepsFlags {ssize dsize rsize op} (hop : ∀ src dst g, (op src dst g).1 = g) :
    KeepsFlags (srcDstStore i ssize dsize rsize op) := by
  refine .genamode fun _ => ?_
  refine .genamode fun _ => ?_
  exact .bind (KeepsFlags.alu (hop _ _)) fun _ => (genastore_noStatus ..).keepsFlags

theorem genMovea_keepsFlags : KeepsFlags (genMovea i) := by
  refine .genamode fun _ => ?_
  refine .genamode fun _ => ?_
  exact .bind (KeepsFlags.alu fun _ => rfl) fun _ => (genastore_noStatus ..).keepsFlags

theorem genTst_spec : FlagSpec 0x0f 0 (genTst i) :=
  .genamode fun _ => .bind_keeps (.alu (opSpec_logical ..)) fun _ => .pure _

/-! ## Other handlers -/

theorem genCas_spec : FlagSpec 0x0f 0 (genCas i) := by
  refine .genamode fun _ => .genamode fun _ => ?_
  refine .get_bind rfl fun _ => .bind_keeps (.alu (opSpec_cas ..)) fun _ => ?_
  refine .bind syncPc_noStatus.keepsFlags fun _ => ?_
  exact .ite (.get_bind fun _ => (genastore_noStatus ..).keepsFlags)
    (setDregPart_noStatus ..).keepsFlags

theorem genCas2_spec : FlagSpec 0x0f 0 (genCas2 i) := by
  refine .genamode fun _ => .get_bind rfl fun _ => ?_
  refine .noStatus_bind (getMem_noStatus ..) fun _ => .noStatus_bind (getMem_noStatus ..) fun _ => ?_
  refine .bind (.alu (opSpec_cas ..)) fun _ => ?_
  refine .bind (.ite (.alu (opSpec_cas ..)) (.of_keepsFlags (.pure _))) fun _ => .of_keepsFlags ?_
  apply KeepsFlags.ite
  · exact .bind (putMem_noStatus ..).keepsFlags fun _ => (putMem_noStatus ..).keepsFlags
  · exact .bind (setDregPart_noStatus ..).keepsFlags fun _ => (setDregPart_noStatus ..).keepsFlags

theorem longOperands_noStatus : NoStatus (longOperands i) :=
  .genamode fun _ => .genamode fun _ => .bind syncPc_noStatus fun _ => .pure _

theorem divOperands_noStatus : NoStatus (divOperands i) :=
  .genamode fun _ => .genamode fun _ => .bind syncPc_noStatus fun _ => .pure _

theorem genMull_spec : FlagSpec 0x0f 0 (genMull i) := by
  refine .noStatus_bind longOperands_noStatus fun _ => .get_bind rfl fun _ => ?_
  refine .bind_keeps (.alu (opSpec_cznv ..)) fun _ => ?_
  exact .bind (.doIf (.modify fun _ => rfl)) fun _ => .modify fun _ => rfl

theorem genChk_keepsFlags : KeepsFlags (genChk i) := by
  refine .get_bind fun _ => .genamode fun _ => ?_
  refine .genamode fun _ => ?_
  have hthrow : ∀ (op : FlagOp Unit) (e : Trap), KeepsFlags (do alu op; throw e : CpuM Unit) := by
    intro op e
    refine ⟨fun {s t a} hrun => ?_⟩
    cases hrun
  exact .ite (hthrow ..) (.ite (hthrow ..) (.pure _))

theorem opSpec_chk2 (lower upper reg : BitVec 32) : OpSpec 0x05 0 (opChk2 lower upper reg) where
  kills := by
    intro f hd _ g b
    cases f with
    | z => rfl
    | c => rfl
    | _ => exact absurd hd (by decide)
  keeps := by
    intro f hd g
    cases f with
    | z => exact absurd (by decide) hd
    | c => exact absurd (by decide) hd
    | _ => rfl

theorem genChk2_spec : FlagSpec 0x05 0 (genChk2 i) := by
  refine .get_bind rfl fun _ => .genamode fun _ => ?_
  refine .genamode fun _ => .get_bind rfl fun _ => ?_
  refine .noStatus_bind (getMem_noStatus ..) fun _ => .noStatus_bind (getMem_noStatus ..) fun _ => ?_
  exact .bind_keeps (.alu (opSpec_chk2 ..)) fun _ => .ite (.throw _) (.pure _)

theorem opSpec_bcd {op : FlagOp (BitVec 32)}
    (hop : ∀ g g' : Flags, g.x = g'.x → g.z = g'.z → g.n = g'.n → g.v = g'.v → op g = op g')
    (hn : ∀ g, (op g).1.n = g.n) (hv : ∀ g, (op g).1.v = g.v) : OpSpec 0x15 0x14 op where
  kills := by
    intro f hd hl g b
    cases f with
    | c => exact hop _ _ rfl rfl rfl rfl
    | n => exact absurd hd (by decide)
    | v => exact absurd hd (by decide)
    | _ => exact absurd (by decide) hl
  keeps := by
    intro f hd g
    cases f with
    | n => exact hn g
    | v => exact hv g
    | _ => exact absurd (by decide) hd

theorem flagBcd_congr (newv : BitVec 16) (cflg : Bool) {g g'} (hz : g.z = g'.z)
    (hn : g.n = g'.n) (hv : g.v = g'.v) : flagBcd newv cflg g = flagBcd newv cflg g' := by
  simp only [flagBcd, flagZ, hz, hn, hv]

theorem opSpec_sbcd : OpSpec 0x15 0x14 (opSbcd src dst) := by
  refine opSpec_bcd (fun g g' hx hz hn hv => ?_) (fun _ => rfl) fun _ => rfl
  have hbit : xBit g = xBit g' := by simp only [xBit, hx]
  simp only [opSbcd, hbit]
  exact flagBcd_congr _ _ hz hn hv

theorem opSpec_abcd : OpSpec 0x15 0x14 (opAbcd src dst) := by
  refine opSpec_bcd (fun g g' hx hz hn hv => ?_) (fun _ => rfl) fun _ => rfl
  have hbit : xBit g = xBit g' := by simp only [xBit, hx]
  simp only [opAbcd, hbit]
  exact flagBcd_congr _ _ hz hn hv

theorem opSpec_nbcd : OpSpec 0x15 0x14 (opNbcd src) := by
  refine opSpec_bcd (fun g g' hx hz hn hv => ?_) (fun _ => rfl) fun _ => rfl
  have hbit : xBit g = xBit g' := by simp only [xBit, hx]
  simp only [opNbcd, hbit]
  exact flagBcd_congr _ _ hz hn hv

theorem opSpec_subx : OpSpec 0x1f 0x14 (opSubx size src dst) := by
  refine opSpec_extended fun g g' hx hz => ?_
  simp only [opSubx, xBit, flagZn, flagSubx, hx, hz]

theorem opSpec_addx : OpSpec 0x1f 0x14 (opAddx size src dst) := by
  refine opSpec_extended fun g g' hx hz => ?_
  simp only [opAddx, xBit, flagZn, flagAddx, hx, hz]

/-! ## Bit fields -/

theorem getBitfield_noStatus (offset : BitVec 32) (width : Nat) :
    NoStatus (getBitfield src offset width) := by
  unfold getBitfield
  dsimp only
  split
  · exact .bind (getMem_noStatus ..) fun _ => .pure _
  · exact .bind (getMem_noStatus ..) fun _ => .pure _
  · exact .bind (getMem_noStatus ..) fun _ => .bind (getMem_noStatus ..) fun _ => .pure _
  · exact .bind (getMem_noStatus ..) fun _ => .pure _
  · exact .bind (getMem_noStatus ..) fun _ => .bind (getMem_noStatus ..) fun _ => .pure _
  · exact .pure _

theorem putBitfield_noStatus (bf : BitField) (val offset : BitVec 32)
    (width : Nat) : NoStatus (putBitfield dst bf val offset width) := by
  unfold putBitfield
  dsimp only
  split
  · exact putMem_noStatus ..
  · exact putMem_noStatus ..
  · exact .bind (putMem_noStatus ..) fun _ => putMem_noStatus ..
  · exact putMem_noStatus ..
  · exact .bind (putMem_noStatus ..) fun _ => putMem_noStatus ..
  · exact .pure _

theorem bfLoad_keepsFlags (mnemo : Mnemo) (reg : Fin 8) (tmp first : BitVec 32) :
    KeepsFlags (bfLoad mnemo reg tmp first) := by
  unfold bfLoad
  split
  · exact .modify fun _ => rfl
  · exact .modify fun _ => rfl
  · exact .modify fun _ => rfl
  · exact .pure _

theorem genBitfield_spec : FlagSpec 0x0f 0 (genBitfield i) := by
  refine .genamode fun _ => .genamode fun _ => ?_
  refine .get_bind rfl fun _ => ?_
  refine .noStatus_bind (.ite (.pure _) (getBitfield_noStatus ..)) fun _ => ?_
  refine .bind (.alu (opSpec_cznv ..)) fun _ => ?_
  refine .bind (.of_keepsFlags (bfLoad_keepsFlags ..)) fun _ => ?_
  split
  · exact .of_keepsFlags (.pure _)
  · refine .bind (.ite (.alu (opSpec_cznv ..)) (.of_keepsFlags (.pure _))) fun _ => ?_
    exact .of_keepsFlags (.ite (.modify fun _ => rfl) (putBitfield_noStatus ..).keepsFlags)

/-! ## The status register -/

theorem srBit_and_high : ∀ c, ∀ k < 8, srBit c k &&& 0xFF00 = 0#16 := by decide

theorem or_srBit_and_high (v : BitVec 16) (c : Bool) {k} (hk : k < 8) :
    (v ||| srBit c k) &&& 0xFF00 = v &&& 0xFF00 := by
  have h : (v ||| srBit c k) &&& 0xFF00 = (v &&& 0xFF00) ||| (srBit c k &&& 0xFF00) := by
    ext i
    simp only [getElem_and, getElem_or, Bool.and_or_distrib_right]
  rw [h, srBit_and_high c k hk, or_zero]

theorem srValue_high_setFlag (s : CpuState) (f : Flag) (b : Bool) :
    (s.setFlag f b).srValue &&& 0xFF00 = s.srValue &&& 0xFF00 := by
  simp (disch := decide) only [CpuState.srValue, or_srBit_and_high]
  rfl

theorem modify_makeFromSR_spec : FlagSpec 0x1f live (modify makeFromSR : CpuM PUnit) where
  kills := fun _ _ _ {_ _ _} hrun _ => hrun
  keeps := .all _

theorem FlagSpec.modifySR_bind {dead live} {g : BitVec 16 → BitVec 16} {k : PUnit → CpuM β}
    (hk : FlagSpec dead live (k ⟨⟩)) : FlagSpec dead live (modifySR g >>= k) where
  kills := fun f hd hl {_ _ _} hrun b => hk.kills f hd hl hrun b
  keeps := ⟨fun f hd {s _ _} hrun => hk.keeps.run f hd (s := { s with sr := g s.sr }) hrun⟩

/-- What `m` does when it completes does not depend on the condition codes or on the low byte of
`regs.sr`. -/
structure ForgetsStatus (m : CpuM α) : Prop where
  run : ∀ {s t : CpuState} {a : α}, m s = .ok a t → ∀ (f : Flag) (b : Bool) (sr : BitVec 16),
    sr &&& 0xFF00 = s.sr &&& 0xFF00 → m { s.setFlag f b with sr := sr } = .ok a t

theorem ForgetsStatus.noStatus_bind {m} {k : α → CpuM β} (hm : NoStatus m)
    (hk : ∀ a, ForgetsStatus (k a)) : ForgetsStatus (m >>= k) := by
  refine ⟨fun {s t a} hrun f b sr hsr => ?_⟩
  obtain ⟨x, s', h₁, h₂⟩ := bind_ok_inv hrun
  have hrun' := hm.run h₁ (fun g => g.set f b) fun _ => sr
  rw [← (hm.status_eq h₁).2] at hsr
  exact (bind_ok hrun').trans ((hk x).run h₂ f b sr hsr)

theorem FlagSpec.makeSR_bind {k : PUnit → CpuM β} (hk : ForgetsStatus (k ⟨⟩)) :
    FlagSpec 0x1f live (modify makeSR >>= k) where
  kills := by
    intro f _ _ s t a hrun b
    rw [bind_ok (modify_apply ..)] at hrun ⊢; exact hk.run hrun f b _ (srValue_high_setFlag s f b)
  keeps := .all _

theorem forgetsStatus_modifySR {k : PUnit → CpuM β} {v : BitVec 16} (hk : FlagSpec 0x1f 0 (k ⟨⟩)) :
    ForgetsStatus (modifySR (fun sr => (sr &&& 0xFF00) ||| v) >>= k) := by
  refine ⟨fun {s t a} hrun f b sr hsr => ?_⟩
  have hmem : f ∈ flagSet 0x1f := by cases f <;> decide
  have hlive : f ∉ flagSet 0 := by cases f <;> decide
  have hkill := hk.kills f hmem hlive hrun b
  rw [← hkill]
  change k ⟨⟩ { s.setFlag f b with sr := (sr &&& 0xFF00) ||| v } = k ⟨⟩ _
  rw [hsr]
  rfl

theorem genMv2sr_spec : FlagSpec 0x1f 0 (genMv2sr i) := by
  refine .genamode fun _ => .ite ?_ ?_
  · exact .makeSR_bind (forgetsStatus_modifySR modify_makeFromSR_spec)
  · exact .modifySR_bind modify_makeFromSR_spec

theorem genRtr_spec : FlagSpec 0x1f 0 genRtr := by
  refine .makeSR_bind (.noStatus_bind (genamode2_noStatus ..) fun _ => ?_)
  refine .noStatus_bind (genamode_noStatus ..) fun _ => ?_
  refine .noStatus_bind (clearFixup_noStatus _) fun _ => forgetsStatus_modifySR ?_
  exact .noStatus_bind (jumpTo_noStatus _) fun _ => modify_makeFromSR_spec

theorem genStop_spec : FlagSpec 0x1f 0 (genStop i) := by
  refine .genamode fun _ => .ite ?_ ?_
  · exact .noStatus_bind syncPc_noStatus fun _ => .throw _
  · exact .modifySR_bind (.bind modify_makeFromSR_spec fun _ => .all _)

theorem popWord_noStatus : NoStatus popWord := by
  refine .get_bind rfl fun s => .bind ?_ fun _ => ?_
  · exact .get_bind rfl fun _ => memGet_noStatus ..
  · exact .bind (.modify rfl) fun _ => .pure _

theorem popLong_noStatus : NoStatus popLong := by
  refine .get_bind rfl fun s => .bind ?_ fun _ => ?_
  · exact .get_bind rfl fun _ => memGet_noStatus ..
  · exact .bind (.modify rfl) fun _ => .pure _

theorem exRte_setFlag {fuel s t} (h : exRte fuel s = .ok true t) (f : Flag)
    (b : Bool) : exRte fuel (s.setFlag f b) = .ok true t := by
  cases fuel with
  | zero => cases h
  | succ fuel =>
    obtain ⟨newsr, s₁, h₁, h⟩ := bind_ok_inv h
    obtain ⟨newpc, s₂, h₂, h⟩ := bind_ok_inv h
    obtain ⟨format, s₃, h₃, h⟩ := bind_ok_inv h
    rw [exRte, bind_ok (popWord_noStatus.run_setFlag h₁ f b),
      bind_ok (popLong_noStatus.run_setFlag h₂ f b), bind_ok (popWord_noStatus.run_setFlag h₃ f b)]
    cases hf : frameFormat format with
    | leave bytes => rw [hf] at h; exact h
    | throwaway => rw [hf] at h; exact h
    | bad => rw [hf] at h; cases h

theorem genRte_spec (fuel : Nat) : FlagSpec 0x1f 0 (genRte fuel) where
  kills := by
    intro f _ _ s t a hrun b
    obtain ⟨finished, s', h₁, h₂⟩ := bind_ok_inv hrun
    cases finished with
    | true => exact (bind_ok (exRte_setFlag h₁ f b)).trans h₂
    | false => cases h₂
  keeps := .all _

/-! ## The host -/

theorem restoreRegs_flags {s u : CpuState} {r : M68kRegisters} (hr : r.sr = s.srValue) {t : CpuState}
    {a : Unit} (h : restoreRegs r u = .ok a t) : t.flags = s.flags := by
  cases h
  obtain ⟨_, _, _, _, _, hflags⟩ := makeFromSR_sameSR
    { u with regs := r.regs, sr := r.sr, usp := r.usp, isp := r.isp, msp := r.msp } s hr
  exact hflags

theorem genNatfeat_keepsFlags (f : BitVec 32 → Bool → CpuM (BitVec 32)) : KeepsFlags (genNatfeat f) := by
  refine ⟨fun {s t a} hrun => ?_⟩
  obtain ⟨r, s₁, h₁, hrun⟩ := bind_ok_inv hrun
  obtain ⟨d0, s₂, _, h₃⟩ := bind_ok_inv hrun
  cases h₁
  exact restoreRegs_flags rfl h₃

variable {ext : Ext} {opcode : BitVec 16}

theorem genEmulop_flags (hext : ext.KeepsFlags) {s t a}
    (h : genEmulop ext opcode s = .ok a t) (hop : opcode ≠ M68K_EMUL_RESET) : t.flags = s.flags := by
  obtain ⟨r, s₁, h₁, h⟩ := bind_ok_inv h
  cases h₁
  rw [if_neg hop] at h
  obtain ⟨res, s₂, h₂, h₃⟩ := bind_ok_inv h
  cases res with
  | some regs => exact restoreRegs_flags rfl h₃
  | none => cases h₃; exact (hext.emulOp opcode).run (s := makeSR s) h₂

theorem genEmulop_reset_flags {s t a} (h : genEmulop ext M68K_EMUL_RESET s = .ok a t) :
    t.flags = ⟨false, false, false, false, false⟩ := by
  obtain ⟨r, s₁, h₁, h⟩ := bind_ok_inv h
  rw [if_pos rfl] at h
  split at h
  · cases h
  · obtain ⟨_, s₂, _, h₃⟩ := bind_ok_inv h; cases h₃; rfl

end Aranym.Jit
