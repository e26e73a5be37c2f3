import Aranym.Cpu.Lemmas.Restart

/-!
# `MOVEM` from memory in every addressing mode

What a `MOVEM` leaves of the registers when a read faults, and what it makes of them when every
access is granted.
-/

namespace Aranym.Cpu

open Aranym.Lib Aranym.Mmu List Function

variable {α β : Type} {ext : Ext} {fuel : Nat} {opc : BitVec 16} {i : Instr} {s t : CpuState}
  {size : Sz} {addr : BitVec 32} {rs : List (Fin 16)} {regs : Fin 16 → BitVec 32}

/-! ## Programs that return if every access is granted -/

structure Completes (m : CpuM α) : Prop where
  run : ∀ s, s.bus = resident → Ends (fun _ => False) m s fun _ t => t.bus = resident

namespace Completes

theorem pure (a : α) : Completes (pure a : CpuM α) := ⟨fun _ hbus => hbus⟩

theorem modify {g} (hg : ∀ s, (g s).bus = s.bus) :
    Completes (modify g : CpuM PUnit) := ⟨fun s hbus => (hg s).trans hbus⟩

theorem bind {m} {k : α → CpuM β} (hm : Completes m) (hk : ∀ a, Completes (k a)) : Completes (m >>= k) :=
  ⟨fun s hbus => .bind ((hm.run s hbus).mono fun a t ht => (hk a).run t ht)⟩

theorem get : Completes (get : CpuM CpuState) := ⟨fun _ hbus => hbus⟩

theorem ite {p : Prop} [Decidable p] {m₁ m₂ : CpuM α} (h₁ : Completes m₁) (h₂ : Completes m₂) :
    Completes (if p then m₁ else m₂) := by split <;> assumption

end Completes

theorem memGet_completes (e : Trap) (read : Memory 32 → BitVec 32 → α) (size : Sz)
    (addr : BitVec 32) (super data : Bool) : Completes (memGet e read size addr super data) := by
  refine ⟨fun s hbus => .get_bind (.ite (fun h => ?_) fun _ => .pure hbus)⟩
  rw [hbus] at h
  cases h

theorem Completes.addressing : Addressing @Completes where
  pure := .pure
  bind := .bind
  get_bind _ hk := .bind .get hk
  modify _ hg := .modify fun s => show (rest _).bus = (rest s).bus by rw [hg]
  fetch := memGet_completes _
  read := memGet_completes _

/-! ## The operands of a `MOVEM` -/

theorem movemOperands_completes (hd : i.dmode.isMem = true) : Completes (movemOperands i) := by
  refine .bind Completes.addressing.genNextiword fun _ => .bind ?_ fun _ => .pure _
  rw [genamode2, if_pos hd]
  refine .bind (Completes.addressing.genEa ..) fun _ => .bind (.ite (Completes.addressing.getMem ..) (.pure _)) fun _ => ?_
  exact .bind (.pure _) fun _ => .pure _

theorem keeps_movemOperands (i : Instr) : Keeps rest (movemOperands i) :=
  .bind rest_addressing.genNextiword fun _ => .bind (keeps_genamode2 (.inr rfl)) fun _ => .pure _

theorem movemOperands_mask {r} (h : movemOperands i (entered s) = .ok r t) :
    r.1 = s.mem.getWord (s.pc + 2) := by
  obtain ⟨mask, s₁, hmask, h⟩ := bind_ok_inv h
  obtain ⟨src, s₂, -, h⟩ := bind_ok_inv h
  cases h
  exact (genNextiword_ok hmask).1

theorem genmovemel_eq (i : Instr) : genmovemel i = movemOperands i >>= fun r =>
    movemLoad i.size (movemRegs r.1) r.2 >>= fun addr =>
      doIf (i.dmode = .aipi) (modify fun s => s.setAreg (regNo i.dreg) addr) := by
  simp [genmovemel, movemOperands, bind_assoc]

/-! ## The loads -/

theorem loadedRegs_congr (hmem : t.mem = s.mem) (hbus : t.bus = s.bus) (hs : t.s = s.s) :
    loadedRegs t size rs addr regs = loadedRegs s size rs addr regs := by
  induction rs generalizing addr regs with
  | nil => rfl
  | cons r rs ih =>
    have hf : ReadFaults t size addr ↔ ReadFaults s size addr := by rw [ReadFaults, ReadFaults, hbus, hs]
    simp [loadedRegs, hf, hmem, ih]

theorem movemLoad_final (size : Sz) (rs : List (Fin 16)) (addr : BitVec 32) (s : CpuState) :
    rest (final (movemLoad size rs addr s)) = rest { s with regs := loadedRegs s size rs addr s.regs } := by
  induction rs generalizing addr s with
  | nil => rfl
  | cons r rs ih =>
    by_cases hf : ReadFaults s size addr
    · rw [movemLoad, bind_error (getMem_fault hf), loadedRegs, if_pos hf]; rfl
    · rw [movemLoad, bind_ok (getMem_granted hf), bind_ok (modify_apply ..), loadedRegs, if_neg hf, ih,
        loadedRegs_congr (t := s.setReg r (memVal size s.mem addr)) (s := s) rfl rfl rfl]
      rfl

theorem loadedRegs_of_notMem {x} (hx : x ∉ rs) : loadedRegs s size rs addr regs x = regs x := by
  induction rs generalizing addr regs with
  | nil => rfl
  | cons r rs ih =>
    rw [mem_cons, not_or] at hx
    rw [loadedRegs]
    split
    · rfl
    · rw [ih hx.2, update_of_ne hx.1]

theorem loadedRegs_get (hbus : s.bus = resident) (hnd : rs.Nodup) {k} (hk : k < rs.length) :
    loadedRegs s size rs addr regs rs[k] = movemElem size s.mem addr k := by
  induction rs generalizing addr regs k with
  | nil => cases hk
  | cons r rs ih =>
    obtain ⟨hr, hnd⟩ := nodup_cons.mp hnd
    have hf : ¬ReadFaults s size addr := by rw [ReadFaults, hbus]; exact Bool.false_ne_true
    rw [loadedRegs, if_neg hf]
    cases k with
    | zero => rw [getElem_cons_zero, loadedRegs_of_notMem hr, update_self, movemElem]; simp
    | succ k =>
      rw [getElem_cons_succ, ih hnd (Nat.lt_of_succ_lt_succ hk), movemElem, movemElem]
      congr 1
      rw [BitVec.ofNat_add]
      grind

theorem loadedRegs_eq_iff {addr' regs'} (hbus : s.bus = resident)
    (hnd : rs.Nodup) (hregs : ∀ x ∉ rs, regs' x = regs x) :
    loadedRegs s size rs addr' regs' = loadedRegs s size rs addr regs ↔
      ∀ k < rs.length, movemElem size s.mem addr' k = movemElem size s.mem addr k := by
  constructor
  · intro h k hk; rw [← loadedRegs_get hbus hnd hk, ← loadedRegs_get hbus hnd hk, h]
  · intro h
    funext x
    by_cases hx : x ∈ rs
    · obtain ⟨k, hk, rfl⟩ := getElem_of_mem hx
      rw [loadedRegs_get hbus hnd hk, loadedRegs_get hbus hnd hk, h k hk]
    · rw [loadedRegs_of_notMem hx, loadedRegs_of_notMem hx, hregs x hx]

theorem movemLoad_granted (hbus : s.bus = resident) (size : Sz) (rs : List (Fin 16)) (addr : BitVec 32) :
    movemLoad size rs addr s = .ok (addr + BitVec.ofNat 32 rs.length * movemStep size)
      { s with regs := loadedRegs s size rs addr s.regs } := by
  induction rs generalizing addr s with
  | nil => simp [movemLoad, loadedRegs]
  | cons r rs ih =>
    have hf : ¬ReadFaults s size addr := by rw [ReadFaults, hbus]; exact Bool.false_ne_true
    rw [movemLoad, bind_ok (getMem_granted hf), bind_ok (modify_apply ..), loadedRegs, if_neg hf]
    have hstep := ih (s := s.setReg r (memVal size s.mem addr)) hbus (addr + movemStep size)
    rw [loadedRegs_congr (t := s.setReg r (memVal size s.mem addr)) (s := s) rfl rfl rfl] at hstep
    rw [hstep, length_cons, BitVec.ofNat_add]
    congr 1
    grind

/-! ## The instruction -/

theorem loadedRegs_of_rest (h : rest t = rest s) :
    loadedRegs t size rs addr t.regs = loadedRegs s size rs addr s.regs := by
  have hregs : (rest t).regs = (rest s).regs := by rw [h]
  have hmem : (rest t).mem = (rest s).mem := by rw [h]
  have hbus : (rest t).bus = (rest s).bus := by rw [h]
  have hs : (rest t).s = (rest s).s := by rw [h]
  rw [show t.regs = s.regs from hregs]
  exact loadedRegs_congr hmem hbus hs

theorem rest_setRegs (h : rest t = rest s) (regs : Fin 16 → BitVec 32) :
    rest { t with regs := regs } = rest { s with regs := regs } :=
  congrArg (fun u : CpuState => { u with regs := regs }) h

theorem genmovemel_readFault (h : genmovemel i (entered s) = .error .readFault t) :
    rest t = rest { s with regs := movemRegsAtFault i s } := by
  rw [genmovemel_eq] at h
  rcases bind_error_inv h with hop | ⟨r, s₁, hop, h⟩
  · have hrest := keeps_movemOperands i (entered s); rw [movemRegsAtFault, hop]; rwa [hop] at hrest
  · have hrest : rest s₁ = rest (entered s) := (keeps_movemOperands i).ok hop
    rcases bind_error_inv h with hload | ⟨_, _, _, h⟩
    · have hfinal := movemLoad_final i.size (movemRegs r.1) r.2 s₁
      rw [hload] at hfinal
      rw [loadedRegs_of_rest hrest, rest_setRegs hrest] at hfinal
      rw [movemRegsAtFault, hop]
      rw [loadedRegs_congr (t := entered s) (s := s) rfl rfl rfl] at hfinal; exact hfinal
    · unfold doIf at h
      split at h <;> cases h

theorem movemRegsAtFault_of_notMem {x} (hx : x ∉ movemRegs (s.mem.getWord (s.pc + 2))) :
    movemRegsAtFault i s x = s.regs x := by
  unfold movemRegsAtFault
  cases hop : movemOperands i (entered s) with
  | ok r u =>
    have hmask : r.1 = s.mem.getWord (s.pc + 2) := movemOperands_mask hop
    dsimp only
    rw [hmask]; exact loadedRegs_of_notMem hx
  | error e u => rfl

def movemFinalRegs (i : Instr) (s : CpuState) : Fin 16 → BitVec 32 :=
  let rs := movemRegs (s.mem.getWord (s.pc + 2))
  let loaded := loadedRegs { s with bus := resident } i.size rs (movemAddr i s) s.regs
  if i.dmode = .aipi then
    update loaded (aregIdx (regNo i.dreg))
      (movemAddr i s + BitVec.ofNat 32 rs.length * movemStep i.size)
  else loaded

theorem genmovemel_granted (hd : i.dmode.isMem = true) (s : CpuState) :
    ∃ u, genmovemel i (entered { s with bus := resident }) = .ok () u ∧ u.regs = movemFinalRegs i s := by
  have hends := (movemOperands_completes hd).run (entered { s with bus := resident }) rfl
  unfold Ends at hends
  cases hop : movemOperands i (entered { s with bus := resident }) with
  | error e t => rw [hop] at hends; exact hends.elim
  | ok r s₁ =>
    rw [hop] at hends
    have hrest : rest s₁ = rest (entered { s with bus := resident }) := (keeps_movemOperands i).ok hop
    have hmask : r.1 = s.mem.getWord (s.pc + 2) := movemOperands_mask (s := { s with bus := resident }) hop
    have haddr : r.2 = movemAddr i s := by rw [movemAddr, hop]
    rw [genmovemel_eq, bind_ok hop, bind_ok (movemLoad_granted hends ..), loadedRegs_of_rest hrest, hmask,
      haddr, movemFinalRegs, doIf,
      loadedRegs_congr (t := entered { s with bus := resident }) (s := { s with bus := resident }) rfl rfl rfl]
    split <;> exact ⟨_, rfl, rfl⟩

theorem movemFinalRegs_eq_iff (hregs : ∀ x ∉ movemRegs (s.mem.getWord (s.pc + 2)), regs x = s.regs x) :
    movemFinalRegs i { s with regs := regs } = movemFinalRegs i s ↔
      (i.dmode = .aipi → movemAddr i { s with regs := regs } = movemAddr i s)
        ∧ ∀ k < (movemRegs (s.mem.getWord (s.pc + 2))).length,
          movemElem i.size s.mem (movemAddr i { s with regs := regs }) k
            = movemElem i.size s.mem (movemAddr i s) k := by
  have hloaded : loadedRegs { s with regs := regs, bus := resident } i.size _ (movemAddr i { s with regs := regs })
        regs =
      loadedRegs { s with regs := regs, bus := resident } i.size _ (movemAddr i s) s.regs ↔
      ∀ k < _, movemElem i.size s.mem _ k = movemElem i.size s.mem _ k :=
    loadedRegs_eq_iff rfl (movemRegs_nodup (s.mem.getWord (s.pc + 2))) hregs
  have hcongr : loadedRegs { s with regs := regs, bus := resident } i.size
        (movemRegs (s.mem.getWord (s.pc + 2))) (movemAddr i s) s.regs =
      loadedRegs { s with bus := resident } i.size _ _ _ :=
    loadedRegs_congr rfl rfl rfl
  rw [hcongr] at hloaded
  simp only [movemFinalRegs]
  by_cases haipi : i.dmode = .aipi
  · rw [if_pos haipi, if_pos haipi]
    constructor
    · intro h
      have hend := congrFun h (aregIdx (regNo i.dreg))
      rw [update_self, update_self] at hend
      have haddr : movemAddr i { s with regs := regs } = movemAddr i s := (BitVec.add_left_inj _).mp hend
      exact ⟨fun _ => haddr, fun k _ => by rw [haddr]⟩
    · rintro ⟨haddr, helem⟩; rw [hloaded.mpr helem, haddr haipi]
  · rw [if_neg haipi, if_neg haipi, hloaded]; exact ⟨fun h => ⟨fun h' => absurd h' haipi, h⟩, fun h => h.2⟩

theorem genmovemel_sameRegs_iff (hmn : i.mnemo = .mvmel) (hd : i.dmode.isMem = true)
    (hpc : s.faultPc = s.pc) (hfix : s.fixup.flag = false)
    (h : genOpcode ext fuel opc i s = .error .readFault t) :
    SameRegsAfterFault (genOpcode ext fuel opc i) s t ↔ MovemCanRestart i s := by
  have hbody : genBody ext fuel opc i = genmovemel i := by simp only [genBody, hmn]
  obtain ⟨hpriv, hfault⟩ := genOpcode_readFault h
  rw [hbody] at hfault
  -- the restart sees the registers that were loaded before the fault
  have hrestart : restart s t resident = { s with regs := movemRegsAtFault i s, bus := resident } := by
    rw [restart_view, view_of_rest (genmovemel_readFault hfault), ← restart_view]
    exact restart_update hpc hfix _ s.mem s.pcOffset s.fault resident
  have hrun : ∀ regs, ∃ u, genOpcode ext fuel opc i { s with regs := regs, bus := resident } = .ok () u
      ∧ u.regs = movemFinalRegs i { s with regs := regs } := by
    intro regs
    obtain ⟨u, hu, hregs⟩ := genmovemel_granted hd { s with regs := regs }
    exact ⟨_, genOpcode_ok.mpr ⟨hpriv, u, by rw [hbody]; exact hu, rfl⟩, hregs⟩
  obtain ⟨u, hu, huregs⟩ := hrun s.regs
  obtain ⟨v, hv, hvregs⟩ := hrun (movemRegsAtFault i s)
  rw [← hrestart] at hv
  have hiff := movemFinalRegs_eq_iff (i := i) fun x hx => movemRegsAtFault_of_notMem (s := s) (i := i) hx
  rw [← hvregs] at hiff
  refine Iff.trans ⟨?_, fun heq => ⟨u, v, hu, hv, heq.trans huregs.symm⟩⟩ hiff
  rintro ⟨u', v', hu', hv', heq⟩
  cases hu.symm.trans hu'
  cases hv.symm.trans hv'
  exact heq.trans huregs

end Aranym.Cpu
