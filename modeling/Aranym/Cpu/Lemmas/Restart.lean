import Aranym.Cpu.Lemmas.ReadSafe

/-!
# Restarts of `CMPM`, `UNLK` and `MOVEM`
-/

namespace Aranym.Cpu

open Aranym.Lib Aranym.Mmu List

variable {ext : Ext} {fuel : Nat} {opc : BitVec 16} {i : Instr} {s t u : CpuState} {size : Sz}
  {addr : BitVec 32} {handler : CpuM Unit} {rs : List (Fin 16)}

/-! ## Equations -/

theorem getMem_fault (h : ReadFaults s size addr) :
    getMem .log size addr s = .error .readFault (recordRead .log size addr s) :=
  (getMem_apply ..).trans (if_pos h)

theorem getMem_granted (h : ¬ReadFaults s size addr) :
    getMem .log size addr s = .ok (memVal size s.mem addr) s := (getMem_apply ..).trans (if_neg h)

theorem genamode_aipi_fault {reg} (h : ReadFaults s size (s.areg (regNo reg))) :
    genamode .aipi reg size .fetch s = .error .readFault (recordRead .log size (s.areg (regNo reg)) s) := by
  have hea : genEa .aipi reg size false s = .ok (s.areg (regNo reg)) s := rfl
  exact (bind_ok hea).trans (bind_error (getMem_fault h))

theorem genamode_aipi_granted {reg} (h : ¬ReadFaults s size (s.areg (regNo reg))) :
    genamode .aipi reg size .fetch s = .ok ⟨memVal size s.mem (s.areg (regNo reg)), s.areg (regNo reg)⟩
        (s.setAreg (regNo reg) (s.areg (regNo reg) + aregInc size (regNo reg))) := by
  have hea : genEa .aipi reg size false s = .ok (s.areg (regNo reg)) s := rfl
  exact (bind_ok hea).trans (bind_ok (getMem_granted h))

theorem checkPrivilege_apply (i : Instr) (s : CpuState) : checkPrivilege i s =
      if i.isPrivileged && !s.s then .error (.exception 8 0) s else .ok () s := by
  rw [checkPrivilege, bind_ok (get_apply s), doIf]
  split <;> rfl

theorem genOpcode_readFault (h : genOpcode ext fuel opc i s = .error .readFault t) :
    (i.isPrivileged && !s.s) = false ∧ genBody ext fuel opc i (entered s) = .error .readFault t := by
  rw [genOpcode, bind_ok (modify_apply ..)] at h
  rcases bind_error_inv h with h | ⟨_, s', hp, h⟩
  · rw [checkPrivilege_apply] at h
    split at h <;> cases h
  · rw [checkPrivilege_apply] at hp
    split at hp
    · cases hp
    · next hpriv =>
      cases hp
      rcases bind_error_inv h with h | ⟨_, _, _, h⟩
      · exact ⟨by simpa using hpriv, h⟩
      · cases h

theorem genOpcode_ok : genOpcode ext fuel opc i s = .ok () u ↔ (i.isPrivileged && !s.s) = false
      ∧ ∃ u₁, genBody ext fuel opc i (entered s) = .ok () u₁ ∧ syncPc u₁ = .ok () u := by
  rw [genOpcode, bind_ok (modify_apply ..), bind_apply, checkPrivilege_apply]
  by_cases hp : (i.isPrivileged && !(entered s).s) = true
  · rw [if_pos hp]
    refine iff_of_false nofun fun h => ?_
    have hfalse : (i.isPrivileged && !(entered s).s) = false := h.1
    rw [hfalse] at hp; cases hp
  · rw [if_neg hp]
    refine ⟨fun h => ⟨by simpa using hp, ?_⟩, fun ⟨_, u₁, h₁, h₂⟩ => (bind_ok h₁).trans h₂⟩
    obtain ⟨_, u₁, h₁, h₂⟩ := bind_ok_inv h; exact ⟨u₁, h₁, h₂⟩

theorem opIllg_noReadFault (ext : Ext) (opcode : BitVec 16) : NoReadFault (opIllg ext opcode) := by
  refine .bind .get fun s => .ite (.ite (.throw nofun) (.ite ?_ (.throw nofun))) (.ite ?_ ?_)
  · exact .bind (.modify _) fun _ => .throw nofun
  · exact .throw nofun
  · exact .throw nofun

theorem cpufunctbl_of_readFault (hi : table68k opc = some i) (h : cpufunctbl ext fuel opc s = .error .readFault t) :
    cpufunctbl ext fuel opc = genOpcode ext fuel opc i := by
  unfold cpufunctbl at h ⊢
  rw [hi] at h ⊢
  dsimp only at h ⊢
  split at h
  · exact absurd h ((opIllg_noReadFault ext opc).run s t)
  · next hillg => exact if_neg hillg

theorem genNextiword_ok {w} (h : genNextiword s = .ok w t) :
    w = s.mem.getWord (s.pc + s.pcOffset) ∧ t = { s with pcOffset := s.pcOffset + 2 }
      ∧ s.bus ⟨s.pc + s.pcOffset, .word, s.s, false, false⟩ = false := by
  rw [genNextiword, bind_ok (get_apply s), getIword] at h
  obtain ⟨w', s', h₁, h₂⟩ := bind_ok_inv h
  rw [bind_ok (get_apply s), memGet, bind_ok (get_apply s)] at h₁
  split at h₁
  · cases h₁
  · next hbus => cases h₁; cases h₂; exact ⟨rfl, rfl, by simpa using hbus⟩

theorem genNextiword_granted (h : s.bus ⟨s.pc + s.pcOffset, .word, s.s, false, false⟩ = false) :
    genNextiword s = .ok (s.mem.getWord (s.pc + s.pcOffset)) { s with pcOffset := s.pcOffset + 2 } := by
  rw [genNextiword, bind_ok (get_apply s), getIword, bind_assoc, bind_ok (get_apply s), memGet,
    bind_assoc, bind_ok (get_apply s), h]
  rfl

theorem undoFixup_of_flag (h : s.fixup.flag = false) : undoFixup s = s := by
  rw [undoFixup, if_neg (by rw [h]; decide)]

theorem add_aregInc_ne (v : BitVec 32) (size : Sz) (r : Fin 8) : v + aregInc size r ≠ v := by
  have hinc : aregInc size r ≠ 0 := by
    cases size with
    | byte => revert r; decide
    | _ => simp [aregInc]
  intro h
  exact hinc (by simpa using h)

/-! ## `CMPM` and `UNLK` -/

theorem not_restartable_of_view (r : Fin 8)
    (hv : view t = view u) (hfix : u.fixup.flag = false) (hne : u.areg r ≠ s.areg r) :
    ¬Restartable handler s t := by
  intro h
  have hareg : (view t).areg r = (view u).areg r := by rw [hv]
  rw [view_of_flag hfix, show (view t).areg r = s.areg r from h.aregs r] at hareg
  exact hne hareg.symm

theorem genCmp_cmpm_view (hs : i.smode = .aipi) (hd : i.dmode = .aipi)
    (h : genCmp i s = .error .readFault t) : ReadFaults s i.size (s.areg (regNo i.sreg)) ∧ view t = view s
      ∨ ¬ReadFaults s i.size (s.areg (regNo i.sreg)) ∧ view t = view (s.setAreg (regNo i.sreg)
          (s.areg (regNo i.sreg) + aregInc i.size (regNo i.sreg))) := by
  rw [genCmp, srcDstTest, hs, hd] at h
  by_cases hf : ReadFaults s i.size (s.areg (regNo i.sreg))
  · rw [bind_error (genamode_aipi_fault hf)] at h
    cases h
    exact .inl ⟨hf, view_update s s.pc s.pcOffset s.sr _⟩
  · rw [bind_ok (genamode_aipi_granted hf)] at h
    exact .inr ⟨hf, (operand_readSafe fun _ => .bind (alu_noReadFault _) fun _ => .pure _).run h⟩

theorem genCmp_cmpm_restartable (hs : i.smode = .aipi) (hd : i.dmode = .aipi)
    (hpc : s.faultPc = s.pc) (hfix : s.fixup.flag = false) (h : genCmp i (entered s) = .error .readFault t) :
    Restartable handler s t ↔ ReadFaults s i.size (s.areg (regNo i.sreg)) := by
  rcases genCmp_cmpm_view hs hd h with ⟨hf, hv⟩ | ⟨hf, hv⟩
  · have hview := hv.trans (view_update s s.pc 2 s.sr s.fault)
    exact iff_of_true (restartable_of_view hpc hfix hview) hf
  · refine iff_of_false (not_restartable_of_view (regNo i.sreg) hv hfix ?_) hf
    rw [CpuState.areg_setAreg_self]; exact add_aregInc_ne _ _ _

theorem genUnlk_view (hs : i.smode = .areg) (h : genUnlk i s = .error .readFault t) :
    view t = view (s.setAreg 7 (signed i.size (s.areg (regNo i.sreg)))) := by
  rw [genUnlk, hs] at h
  have hk : ReadSafe (genamode .aipi 7 .long .fetch >>= fun old =>
      genastore old.val .areg i.sreg i.size 0) := operand_readSafe fun _ => genastore_noReadFault ..
  exact hk.run h

theorem genUnlk_restartable (hs : i.smode = .areg) (hpc : s.faultPc = s.pc) (hfix : s.fixup.flag = false)
    (h : genUnlk i (entered s) = .error .readFault t) :
    Restartable handler s t ↔ s.areg 7 = signed i.size (s.areg (regNo i.sreg)) := by
  have hv := genUnlk_view hs h
  by_cases heq : s.areg 7 = signed i.size (s.areg (regNo i.sreg))
  · have hsame : (entered s).setAreg 7 (signed i.size ((entered s).areg (regNo i.sreg))) = entered s := by
      change CpuState.setAreg (entered s) 7 (signed i.size (s.areg (regNo i.sreg))) = entered s
      rw [← heq]; simp [CpuState.setAreg, CpuState.setReg, CpuState.areg]
    rw [hsame] at hv
    exact iff_of_true (restartable_of_view hpc hfix (hv.trans (view_update s s.pc 2 s.sr s.fault))) heq
  · refine iff_of_false (not_restartable_of_view 7 hv hfix ?_) heq
    rw [CpuState.areg_setAreg_self]; exact fun h => heq h.symm

/-! ## `MOVEM` -/

theorem exists_aregIdx {r} (h : 8 ≤ r.val) : ∃ a, aregIdx a = r :=
  ⟨⟨r.val - 8, by omega⟩, Fin.ext (by simp only [aregIdx]; omega)⟩

theorem loadsKeepAregs_congr {s'}
    (hregs : ∀ x ∈ rs, s'.regs x = s.regs x) (hmem : s'.mem = s.mem) (hbus : s'.bus = s.bus)
    (hs : s'.s = s.s) : LoadsKeepAregs size rs addr s' ↔ LoadsKeepAregs size rs addr s := by
  induction rs generalizing addr with
  | nil => exact Iff.rfl
  | cons x rs ih =>
    have hrest := fun a => @ih a fun y hy => hregs y (mem_cons_of_mem x hy)
    simp [LoadsKeepAregs, ReadFaults, hregs x mem_cons_self, hmem, hbus, hs, hrest]

theorem movemLoad_fault (hnd : rs.Nodup) (h : movemLoad size rs addr s = .error .readFault t) :
    ∃ regs fault, t = { s with regs := regs, fault := fault }
      ∧ (∀ x ∉ rs, regs x = s.regs x)
      ∧ ((∀ r, regs (aregIdx r) = s.regs (aregIdx r)) ↔ LoadsKeepAregs size rs addr s) := by
  induction rs generalizing addr s with
  | nil => cases h
  | cons r rs ih =>
    by_cases hf : ReadFaults s size addr
    · rw [movemLoad, bind_error (getMem_fault hf)] at h
      cases h
      exact ⟨s.regs, _, rfl, fun _ _ => rfl, iff_of_true (fun _ => rfl) (.inl hf)⟩
    · rw [movemLoad, bind_ok (getMem_granted hf), bind_ok (modify_apply ..)] at h
      obtain ⟨hr, hnd⟩ := nodup_cons.mp hnd
      obtain ⟨regs, fault, rfl, hout, hiff⟩ := ih hnd h
      have hrval : regs r = memVal size s.mem addr := (hout r hr).trans (s.regs_setReg_self ..)
      have hne : ∀ x, x ≠ r → (s.setReg r (memVal size s.mem addr)).regs x = s.regs x :=
        fun x hx => s.regs_setReg_of_ne hx _
      refine ⟨regs, fault, rfl, fun x hx => ?_, ?_⟩
      · rw [mem_cons, not_or] at hx; exact (hout x hx.2).trans (hne x hx.1)
      · rw [loadsKeepAregs_congr (fun x hx => hne x fun heq => hr (heq ▸ hx)) rfl rfl rfl] at hiff
        simp only [LoadsKeepAregs, hf, false_or, ← hiff]
        constructor
        · intro hall
          have hval : 8 ≤ r.val → memVal size s.mem addr = s.regs r := by
            intro h8
            obtain ⟨a, rfl⟩ := exists_aregIdx h8; exact hrval.symm.trans (hall a)
          refine ⟨hval, fun a => ?_⟩
          by_cases ha : aregIdx a = r
          · rw [ha]; exact hrval.trans (s.regs_setReg_self ..).symm
          · exact (hall a).trans (hne _ ha).symm
        · rintro ⟨hval, hall⟩ a
          by_cases ha : aregIdx a = r
          · rw [ha, hrval]; exact hval (ha ▸ Nat.le_add_right 8 a.val)
          · exact (hall a).trans (hne _ ha)

theorem movemLoad_congr {a regs} (hregs : ∀ x ∉ rs, regs x = s.regs x)
    (h : movemLoad size rs addr s = .ok a u) : movemLoad size rs addr { s with regs := regs } = .ok a u := by
  induction rs generalizing addr s regs with
  | nil => have heq : regs = s.regs := funext fun x => hregs x not_mem_nil; rw [heq]; exact h
  | cons r rs ih =>
    obtain ⟨v, s', hget, h⟩ := bind_ok_inv h
    obtain ⟨rfl, rfl, hbus⟩ := getMem_ok hget
    have hgranted : ¬ReadFaults { s' with regs := regs } size addr := by
      intro hf; exact absurd (hbus.symm.trans hf) (by decide)
    have hupd : ∀ x ∉ rs, Function.update regs r (memVal size s'.mem addr) x
        = (s'.setReg r (memVal size s'.mem addr)).regs x := by
      intro x hx
      by_cases hxr : x = r
      · rw [hxr, Function.update_self, CpuState.regs_setReg_self]
      · rw [Function.update_of_ne hxr, CpuState.regs_setReg_of_ne _ hxr]; exact hregs x (by simp [hx, hxr])
    rw [movemLoad, bind_ok (getMem_granted hgranted), bind_ok (modify_apply ..)]
    rw [bind_ok (modify_apply ..)] at h
    have hstep := ih (s := s'.setReg r (memVal size s'.mem addr)) hupd h; exact hstep

theorem movemRegs_nodup (mask : BitVec 16) : (movemRegs mask).Nodup := (nodup_finRange 16).filter _

theorem genamode2_movem (reg : BitVec 32) (size : Sz) (s : CpuState) :
    genamode2 .aipi reg size .fetchAlign true .log false s = .ok ⟨0, s.areg (regNo reg)⟩ s := rfl

theorem genmovemel_fault (hd : i.dmode = .aipi) (h : genmovemel i s = .error .readFault t) :
    movemLoad i.size (movemRegs (s.mem.getWord (s.pc + s.pcOffset))) (s.areg (regNo i.dreg))
      { s with pcOffset := s.pcOffset + 2 } = .error .readFault t := by
  rw [genmovemel, hd] at h
  rcases bind_error_inv h with h | ⟨w, u, hw, h⟩
  · exact absurd h (NoReadFault.fetching.genNextiword.run _ _)
  · obtain ⟨rfl, rfl, _⟩ := genNextiword_ok hw
    rw [bind_ok (genamode2_movem ..)] at h
    rcases bind_error_inv h with h | ⟨_, _, _, h⟩
    · exact h
    · cases h

theorem genmovemel_congr {regs} (hd : i.dmode = .aipi)
    (hregs : ∀ x ∉ movemRegs (s.mem.getWord (s.pc + s.pcOffset)), regs x = s.regs x)
    (hbase : regs (aregIdx (regNo i.dreg)) = s.areg (regNo i.dreg))
    (h : genmovemel i s = .ok () u) : genmovemel i { s with regs := regs } = .ok () u := by
  rw [genmovemel, hd] at h ⊢
  obtain ⟨w, s₁, hw, h⟩ := bind_ok_inv h
  obtain ⟨rfl, rfl, hbus⟩ := genNextiword_ok hw
  rw [bind_ok (genamode2_movem ..)] at h
  obtain ⟨a, s₂, hload, h⟩ := bind_ok_inv h
  have hload' := movemLoad_congr (s := { s with pcOffset := s.pcOffset + 2 }) hregs hload
  have hw' := genNextiword_granted (s := { s with regs := regs }) hbus
  rw [bind_ok hw', bind_ok (genamode2_movem ..)]
  have hbase' : CpuState.areg { s with pcOffset := s.pcOffset + 2 } (regNo i.dreg)
      = regs (aregIdx (regNo i.dreg)) := hbase.symm
  rw [hbase'] at hload'
  exact (bind_ok hload').trans h

theorem genmovemel_fault_state (hd : i.dmode = .aipi) (h : genmovemel i (entered s) = .error .readFault t) :
    ∃ regs pcOffset fault, t = { s with regs := regs, pcOffset := pcOffset, fault := fault }
      ∧ (∀ x ∉ movemRegs (s.mem.getWord (s.pc + 2)), regs x = s.regs x)
      ∧ ((∀ r, regs (aregIdx r) = s.areg r) ↔ LoadsKeepAregs i.size
        (movemRegs (s.mem.getWord (s.pc + 2))) (s.areg (regNo i.dreg)) s) := by
  obtain ⟨regs, fault, rfl, hout, hiff⟩ := movemLoad_fault (movemRegs_nodup _) (genmovemel_fault hd h)
  exact ⟨regs, _, fault, rfl, hout,
    hiff.trans (loadsKeepAregs_congr (fun _ _ => rfl) rfl rfl rfl)⟩

theorem restart_update (hpc : s.faultPc = s.pc) (hfix : s.fixup.flag = false)
    (regs : Fin 16 → BitVec 32) (mem : Memory 32) (pcOffset : BitVec 32) (fault : FaultInfo) (bus : Bus) :
    restart s { s with regs := regs, mem := mem, pcOffset := pcOffset, fault := fault } bus
      = { s with regs := regs, mem := mem, bus := bus } := by
  simp [restart, undoFixup, hfix, Bool.false_eq_true, hpc]

theorem genmovemel_restartable (hmn : i.mnemo = .mvmel) (hd : i.dmode = .aipi)
    (hpc : s.faultPc = s.pc) (hfix : s.fixup.flag = false)
    (h : genOpcode ext fuel opc i s = .error .readFault t) : Restartable (genOpcode ext fuel opc i) s t ↔
      LoadsKeepAregs i.size (movemRegs (s.mem.getWord (s.pc + 2))) (s.areg (regNo i.dreg)) s := by
  have hbody : genBody ext fuel opc i = genmovemel i := by simp only [genBody, hmn]
  have hb := (genOpcode_readFault h).2
  rw [hbody] at hb
  obtain ⟨regs, pcOffset, fault, rfl, hout, hiff⟩ := genmovemel_fault_state hd hb
  rw [← hiff]
  have hundo : undoFixup { s with regs := regs, pcOffset := pcOffset, fault := fault } = _ :=
    undoFixup_of_flag hfix
  refine ⟨fun hr r => ?_, fun hregs => ⟨fun r => ?_, fun bus u hrun => ?_⟩⟩
  · have := hr.aregs r; rwa [hundo] at this
  · rw [hundo]; exact hregs r
  · have hstate := restart_update hpc hfix regs s.mem pcOffset fault bus
    rw [hstate]
    rw [genOpcode_ok, hbody] at hrun ⊢
    obtain ⟨hp, u₁, h₁, h₂⟩ := hrun
    exact ⟨hp, u₁, genmovemel_congr (s := entered { s with bus := bus }) hd hout (hregs _) h₁, h₂⟩

end Aranym.Cpu
