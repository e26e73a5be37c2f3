import Aranym.Cpu.Lemmas.Reads
import Aranym.Cpu.Lemmas.Table

/-!
# Handlers whose read faults are safe
-/

namespace Aranym.Cpu

open Aranym.Lib Aranym.Mmu Bool

variable {α : Type} {i : Instr} {s t : CpuState}

/-! ## One and two operands -/

theorem operand_readSafe {mode} {reg : BitVec 32} {size : Sz} {getv : Getv} {x : Xlate}
    {k : Operand → CpuM α} (hk : ∀ o, NoReadFault (k o)) :
    ReadSafe (genamode2 mode reg size getv false x false >>= k) := .bind_noReadFault genamode2_readSafe hk

theorem operands_readSafe {smode dmode} {sreg dreg : BitVec 32} {ssize dsize : Sz}
    {sgetv dgetv : Getv} {k : Operand → Operand → CpuM α}
    (h : smode.isIncDec = false ∨ dmode.isMem = false) (hk : ∀ src dst, NoReadFault (k src dst)) :
    ReadSafe (genamode smode sreg ssize sgetv >>= fun src =>
      genamode dmode dreg dsize dgetv >>= fun dst => k src dst) := by
  rcases h with h | h
  · exact .keeps_bind (keeps_genamode2 (.inl h)) fun _ => operand_readSafe fun _ => hk _ _
  · exact operand_readSafe fun _ => .bind (genamode2_noReadFault h) fun _ => hk _ _

variable (h : i.smode.isIncDec = false ∨ i.dmode.isMem = false)

section

include h

theorem srcDstStore_readSafe {ssize dsize rsize} {op : BitVec 32 → BitVec 32 → FlagOp (BitVec 32)} :
    ReadSafe (srcDstStore i ssize dsize rsize op) :=
  operands_readSafe h fun _ _ => .bind (alu_noReadFault _) fun _ => genastore_noReadFault ..

theorem srcDstTest_readSafe {ssize dsize} {op : BitVec 32 → BitVec 32 → FlagOp α} :
    ReadSafe (srcDstTest i ssize dsize op) :=
  operands_readSafe h fun _ _ => .bind (alu_noReadFault _) fun _ => .pure _

theorem genMovea_readSafe : ReadSafe (genMovea i) :=
  operands_readSafe h fun _ _ => .bind (alu_noReadFault _) fun _ => genastore_noReadFault ..

theorem genChk_readSafe : ReadSafe (genChk i) := by
  refine .keeps_bind .get fun _ => operands_readSafe h fun _ _ => ?_
  have hthrow : ∀ (op : FlagOp Unit) (oldpc : BitVec 32),
      NoReadFault (do alu op; throw (.exception 6 oldpc) : CpuM Unit) :=
    fun _ _ => .bind (alu_noReadFault _) fun _ => .throw nofun
  exact .ite (hthrow ..) (.ite (hthrow ..) (.pure _))

theorem genDiv_readSafe {sgn result} : ReadSafe (genDiv i sgn result) := by
  refine .keeps_bind .get fun _ => .bind_noReadFault ?_ fun r => ?_
  · exact operands_readSafe h fun _ _ => .bind (.modify _) fun _ => .pure _
  · refine .ite (.bind (alu_noReadFault _) fun _ => .throw nofun) (.ite (.throw nofun) ?_)
    refine .bind (alu_noReadFault _) fun q => ?_
    cases q with
    | some newv => exact genastore_noReadFault ..
    | none => exact .pure _

theorem longOperands_readSafe : ReadSafe (longOperands i) :=
  operands_readSafe h fun _ _ => .bind (.modify _) fun _ => .pure _

theorem genDivl_readSafe : ReadSafe (genDivl i) := by
  refine .keeps_bind .get fun _ => .bind_noReadFault (longOperands_readSafe h) fun r => ?_
  refine .bind .get fun _ => .ite (.throw nofun) (.ite (.throw nofun) (.bind (alu_noReadFault _) fun q => ?_))
  cases q with
  | some r => exact .modify _
  | none => exact .pure _

theorem genMull_readSafe : ReadSafe (genMull i) := by
  refine .bind_noReadFault (longOperands_readSafe h) fun r => .bind .get fun _ => ?_
  exact .bind (alu_noReadFault _) fun _ => .bind (.doIf (.modify _)) fun _ => .modify _

theorem genCas_readSafe : ReadSafe (genCas i) := by
  refine operands_readSafe h fun _ _ => .bind .get fun _ => .bind (alu_noReadFault _) fun _ => ?_
  refine .bind (.modify _) fun _ => .ite ?_ (.modify _)
  exact .bind .get fun _ => genastore_noReadFault ..

end

theorem srcStore_readSafe {ssize rsize} {getv : Getv} {op : BitVec 32 → FlagOp (BitVec 32)} :
    ReadSafe (srcStore i ssize rsize getv op) :=
  operand_readSafe fun _ => .bind (alu_noReadFault _) fun _ => genastore_noReadFault ..

theorem genTst_readSafe : ReadSafe (genTst i) :=
  operand_readSafe fun _ => .bind (alu_noReadFault _) fun _ => .pure _

theorem genMvsr2_readSafe : ReadSafe (genMvsr2 i) :=
  operand_readSafe fun _ => .bind (.modify _) fun _ => .bind .get fun _ => genastore_noReadFault ..

theorem genMv2sr_readSafe : ReadSafe (genMv2sr i) :=
  operand_readSafe fun _ => .ite
    (.bind (.modify _) fun _ => .bind (.modify _) fun _ => .modify _)
    (.bind (.modify _) fun _ => .modify _)

theorem genScc_readSafe : ReadSafe (genScc i) :=
  operand_readSafe fun _ => .bind .get fun _ => genastore_noReadFault ..

/-! ## Moves -/

theorem genMoves_readSafe (hs : i.smode.isIncDec = false) : ReadSafe (genMoves i) := by
  refine .keeps_bind (keeps_genamode2 (.inl hs)) fun extra => .ite ?_ ?_
  · exact .keeps_bind .get fun _ => operand_readSafe fun _ => genastoreX_noReadFault ..
  · exact operand_readSafe fun _ => .bind (.ite (.modify _) (.modify _)) fun _ => .modify _

theorem movemStore_noReadFault (size : Sz) (rs : List (Fin 16)) (addr : BitVec 32) :
    NoReadFault (movemStore size rs addr) := by
  induction rs generalizing addr with
  | nil => exact .pure _
  | cons r rs ih => exact .bind .get fun _ => .bind (putMem_noReadFault ..) fun _ => ih _

theorem movemStoreDown_noReadFault (size : Sz) (rs : List (Fin 16)) (addr : BitVec 32) :
    NoReadFault (movemStoreDown size rs addr) := by
  induction rs generalizing addr with
  | nil => exact .pure _
  | cons r rs ih => exact .bind .get fun _ => .bind (putMem_noReadFault ..) fun _ => ih _

theorem genmovemle_readSafe : ReadSafe (genmovemle i) := by
  refine .keeps_bind rest_addressing.genNextiword fun mask => .bind_noReadFault genamode2_readSafe fun src => ?_
  refine .bind (.modify _) fun _ => .ite ?_ (movemStore_noReadFault ..)
  exact .bind (movemStoreDown_noReadFault ..) fun _ => .modify _

theorem genPack_readSafe : ReadSafe (genPack i) := by
  refine .ite ?_ ?_
  · refine .of_noReadFault (.bind NoReadFault.fetching.genNextiword fun _ => ?_); exact .bind .get fun _ => .modify _
  · refine .keeps_bind .get fun _ => ?_
    refine .keeps_bind (keeps_getMem _ _ _) fun _ => .keeps_bind (keeps_getMem _ _ _) fun _ => ?_
    refine .of_noReadFault (.bind NoReadFault.fetching.genNextiword fun _ => ?_)
    refine .bind (.modify _) fun _ => .bind (.modify _) fun _ => ?_
    exact .bind (.bind (.modify _) fun _ => .modify _) fun _ => .bind .get fun _ =>
      putMem_noReadFault ..

theorem genUnpk_readSafe : ReadSafe (genUnpk i) := by
  refine .ite ?_ ?_
  · refine .of_noReadFault (.bind NoReadFault.fetching.genNextiword fun _ => ?_); exact .bind .get fun _ => .modify _
  · refine .keeps_bind .get fun _ => .keeps_bind (keeps_getMem _ _ _) fun _ => ?_
    refine .of_noReadFault (.bind NoReadFault.fetching.genNextiword fun _ => ?_)
    refine .bind (.modify _) fun _ => .bind (.modify _) fun _ => ?_
    exact .bind (.bind (.modify _) fun _ => .modify _) fun _ => .bind .get fun _ =>
      putMem_noReadFault ..

/-! ## The stack -/

theorem genRtd_readSafe (hs : i.smode.isIncDec = false) : ReadSafe (genRtd i) :=
  .keeps_bind (keeps_genamode2 (.inl hs)) fun _ => operand_readSafe fun _ =>
    .bind (.modify _) fun _ => .modify _

theorem genRts_readSafe : ReadSafe genRts := by
  refine .keeps_bind .get fun _ => .bind_noReadFault (.of_keeps (keeps_getMem _ _ _)) fun _ => ?_
  exact .bind (.modify _) fun _ => .modify _

theorem genLink_readSafe (hs : i.smode.isMem = false) (hd : i.dmode.isMem = false) :
    ReadSafe (genLink i) := by
  refine .of_noReadFault (.bind (genamode2_noReadFault hd) fun _ => ?_)
  refine .bind (genamode2_noFetch rfl (by decide)) fun _ => ?_
  refine .bind (genamode2_noReadFault hs) fun _ => .bind .get fun _ => ?_
  refine .bind (genastore_noReadFault ..) fun _ => .bind (.modify _) fun _ => ?_
  exact genastore_noReadFault ..

theorem genPea_readSafe : ReadSafe (genPea i) :=
  operand_readSafe fun _ => .bind (genamode2_noFetch rfl (by decide)) fun _ =>
    genastore_noReadFault ..

/-! ## Fixups -/

theorem view_genamode2_fixup {mode reg size getv x o} (hfix : s.fixup.flag = false)
    (h : genamode2 mode reg size getv false x true s = .ok o t) : view t = view s := by
  have hval : ∀ {addr v : BitVec 32} {s s' : CpuState},
      (if getv = .fetch then getMem x size addr else pure 0 : CpuM (BitVec 32)) s = .ok v s' →
        s' = s := by
    intro addr v s s' h
    split at h
    · exact (getMem_ok h).1
    · cases h; rfl
  have hundo : ∀ (r : Fin 8) (v : BitVec 32),
      view (CpuState.setAreg { s with fixup := ⟨true, r, s.areg r⟩ } r v) = view s := by
    intro r v
    rw [view_of_flag hfix]; simp [view, undoFixup, CpuState.setAreg, CpuState.setReg, CpuState.areg]
  cases mode with
  | aipi | apdi =>
    rw [genamode2, if_pos (by rfl)] at h
    obtain ⟨addr, s₁, h₁, h⟩ := bind_ok_inv h
    obtain ⟨v, s₂, h₂, h⟩ := bind_ok_inv h
    cases h₁
    cases hval h₂
    cases h
    exact hundo ..
  | _ => exact view_of_rest ((keeps_genamode2 (.inl rfl)).ok h)

theorem ReadSafe.fixup_bind {mode} {reg : BitVec 32} {size : Sz} {getv : Getv} {x : Xlate}
    {k : Operand → CpuM α} (hk : ∀ o, ReadSafe (k o)) (hfix : s.fixup.flag = false)
    (h : (genamode2 mode reg size getv false x true >>= k) s = .error .readFault t) : view t = view s := by
  rcases bind_error_inv h with h | ⟨o, s', hr, h⟩
  · exact genamode2_readSafe.run h
  · exact ((hk o).run h).trans (view_genamode2_fixup hfix hr)

theorem clearFixup_noReadFault (mode : AMode) : NoReadFault (clearFixup mode) := .ite (.modify _) (.pure _)

theorem srcDstFixup_view {getv} {op : BitVec 32 → BitVec 32 → FlagOp (BitVec 32)}
    (hfix : s.fixup.flag = false) (h : srcDstFixup i getv op s = .error .readFault t) : view t = view s := by
  refine ReadSafe.fixup_bind (fun _ => operand_readSafe fun _ => ?_) hfix h
  refine .bind (clearFixup_noReadFault _) fun _ => .bind (alu_noReadFault _) fun _ => ?_
  exact genastore_noReadFault ..

theorem genRtr_view (hfix : s.fixup.flag = false) (h : genRtr s = .error .readFault t) : view t = view s := by
  rw [genRtr, bind_ok (modify_apply ..)] at h
  have hv : view t = view (makeSR s) := by
    refine ReadSafe.fixup_bind (fun _ => operand_readSafe fun _ => ?_) hfix h
    refine .bind (clearFixup_noReadFault _) fun _ => .bind (.modify _) fun _ => ?_
    exact .bind (.modify _) fun _ => .modify _
  exact hv.trans (view_update s s.pc s.pcOffset s.srValue s.fault)

/-! ## Bodies -/

def modesAllowed (m : Mnemo) (smode dmode : AMode) : Bool :=
  match m with
  | .or | .and | .eor | .sub | .suba | .add | .adda | .mulu | .muls => !smode.isIncDec || !dmode.isMem
  | .btst | .bchg | .bclr | .bset | .cmp | .cmpa | .movea => !smode.isIncDec || !dmode.isMem
  | .chk | .divu | .divs | .divl | .mull | .cas => !smode.isIncDec || !dmode.isMem
  | .neg | .negx | .nbcd | .clr | .not | .tas | .tst | .mvsr2 | .mv2sr | .scc => true
  | .asrw | .aslw | .lsrw | .lslw | .rolw | .rorw | .roxlw | .roxrw => true
  | .move | .subx | .addx | .sbcd | .abcd | .pack | .unpk | .mvmle => true
  | .rts | .rtr | .pea => true
  | .moves | .rtd => !smode.isIncDec
  | .link => !smode.isMem && !dmode.isMem
  | .unlk => smode == .areg
  | .cmpm => smode == .aipi && dmode == .aipi
  | .mvmel => dmode == .aipi
  | .move16 => smode == .aipi && (dmode == .aipi || dmode == .absl) || smode == .absl && dmode == .aipi
  | _ => false

theorem lines_modesAllowed : ∀ d ∈ defs68k, ∀ m ∈ d.mnemo.mnemos, ∀ sm ∈ d.src.modes,
    ∀ dm ∈ d.dst.modes, (!usesIncDec m sm dm || modesAllowed m sm dm) = true := by decide +kernel

theorem table68k_modesAllowed {opc} (hi : table68k opc = some i)
    (huse : i.usesIncDec = true) : modesAllowed i.mnemo i.smode i.dmode = true := by
  have h := modes_of_check (fun m sm dm => !usesIncDec m sm dm || modesAllowed m sm dm)
    lines_modesAllowed hi
  rw [or_eq_true, not_eq_true'] at h
  rcases h with h | h
  · rw [Instr.usesIncDec, h] at huse; cases huse
  · exact h

theorem genBody_view {ext} {fuel : Nat} {opc : BitVec 16}
    (hmodes : modesAllowed i.mnemo i.smode i.dmode = true)
    (hm : i.mnemo ∉ [.cmpm, .unlk, .mvmel, .move16]) (hfix : s.fixup.flag = false)
    (h : genBody ext fuel opc i s = .error .readFault t) : view t = view s := by
  unfold genBody at h
  have hone : (!i.smode.isIncDec || !i.dmode.isMem) = true → i.smode.isIncDec = false ∨ i.dmode.isMem = false := by
    rw [or_eq_true, not_eq_true', not_eq_true']; exact id
  generalize i.mnemo = m at hmodes hm h
  cases m with
  | cmpm | unlk | mvmel | move16 => exact absurd (by decide) hm
  | or | and | eor | sub | suba | add | adda | mulu | muls | bchg | bclr | bset =>
    exact (srcDstStore_readSafe (hone hmodes)).run h
  | btst | cmp | cmpa => exact (srcDstTest_readSafe (hone hmodes)).run h
  | movea => exact (genMovea_readSafe (hone hmodes)).run h
  | chk => exact (genChk_readSafe (hone hmodes)).run h
  | divu | divs => exact (genDiv_readSafe (hone hmodes)).run h
  | divl => exact (genDivl_readSafe (hone hmodes)).run h
  | mull => exact (genMull_readSafe (hone hmodes)).run h
  | cas => exact (genCas_readSafe (hone hmodes)).run h
  | moves => simp only [modesAllowed, not_eq_true'] at hmodes; exact (genMoves_readSafe hmodes).run h
  | rtd => simp only [modesAllowed, not_eq_true'] at hmodes; exact (genRtd_readSafe hmodes).run h
  | link =>
    simp only [modesAllowed, and_eq_true, not_eq_true'] at hmodes
    exact (genLink_readSafe hmodes.1 hmodes.2).run h
  | neg | negx | nbcd | clr | not | tas | asrw | aslw | lsrw | lslw | rolw | rorw | roxlw | roxrw =>
    exact srcStore_readSafe.run h
  | tst => exact genTst_readSafe.run h
  | mvsr2 => exact genMvsr2_readSafe.run h
  | mv2sr => exact genMv2sr_readSafe.run h
  | scc => exact genScc_readSafe.run h
  | pack => exact genPack_readSafe.run h
  | unpk => exact genUnpk_readSafe.run h
  | mvmle => exact genmovemle_readSafe.run h
  | rts => exact genRts_readSafe.run h
  | pea => exact genPea_readSafe.run h
  | rtr => exact genRtr_view hfix h
  | move | subx | addx | sbcd | abcd => exact srcDstFixup_view hfix h
  | _ => cases hmodes

end Aranym.Cpu
