import Aranym.Cpu.Lemmas.Restart

/-!
# Restarts of `MOVE16`

A `MOVE16` writes memory before its last read.
-/

namespace Aranym.Cpu

open Aranym.Lib Aranym.Mmu BitVec List

variable {ext : Ext} {fuel : Nat} {opc : BitVec 16} {i : Instr} {s t u : CpuState}
  {mems memd : BitVec 32} {m : Memory 32}

/-! ## Lines -/

def IsLine (a : BitVec 32) : Prop := a.toNat % 16 = 0

theorem isLine_lineAddr (a : BitVec 32) : IsLine (lineAddr a) := by
  have h : (lineAddr a).setWidth 4 = 0 := by ext k hk; simp [lineAddr]
  have := congrArg BitVec.toNat h
  rwa [toNat_setWidth] at this

theorem IsLine.eq_of_mem {a b x} (ha : IsLine a) (hb : IsLine b)
    (hxa : (x - a).toNat < 16) (hxb : (x - b).toNat < 16) : a = b := by
  apply eq_of_toNat_eq
  rw [toNat_sub] at hxa hxb
  have := a.isLt
  have := b.isLt
  have := x.isLt
  unfold IsLine at ha hb
  omega

theorem add_sub_self (a x : BitVec 32) : a + x - a = x := by rw [BitVec.add_comm, BitVec.add_sub_cancel]

theorem lineCopied_source (hs : IsLine mems) (hd : IsLine memd) {n} (hn : n ≤ 16) {x} (hx : x.toNat < 16) :
    lineCopied mems memd n m (mems + x) = m (mems + x) := by
  unfold lineCopied
  split
  · next h =>
    have heq : mems = memd := hs.eq_of_mem hd (x := mems + x) (by rwa [add_sub_self]) (by omega)
    rw [heq, add_sub_self]
  · rfl

theorem lineCopied_zero : lineCopied mems memd 0 m = m := by
  funext a
  simp [lineCopied]

theorem lineCopied_again (hs : IsLine mems) (hd : IsLine memd) {n} (hn : n ≤ 16) :
    lineCopied mems memd 16 (lineCopied mems memd n m) = lineCopied mems memd 16 m := by
  funext a
  by_cases ha : (a - memd).toNat < 16
  · rw [lineCopied, if_pos ha, lineCopied_source hs hd hn ha, lineCopied, if_pos ha]
  · rw [lineCopied, if_neg ha, lineCopied, if_neg (by omega), lineCopied, if_neg ha]

theorem lineCopied_step (hs : IsLine mems) (hd : IsLine memd) {k} (hk : k + 4 ≤ 16) :
    (lineCopied mems memd k m).putLong (memd + BitVec.ofNat 32 k)
      ((lineCopied mems memd k m).getLong (mems + BitVec.ofNat 32 k)) = lineCopied mems memd (k + 4) m := by
  have hofk : (BitVec.ofNat 32 k).toNat = k := by rw [toNat_ofNat]; omega
  have hagree : Memory.AgreeOn (mems + BitVec.ofNat 32 k) 4 (lineCopied mems memd k m) m := by
    intro j hj
    rw [BitVec.add_assoc, ← ofNat_add]
    refine lineCopied_source hs hd (by omega) ?_
    rw [toNat_ofNat]; omega
  rw [hagree.getLong_eq]
  funext x
  rw [Memory.putLong_getLong_apply]
  have hsub : x - (memd + BitVec.ofNat 32 k) = x - memd - BitVec.ofNat 32 k := by rw [sub_add_eq_sub_sub]
  have hlt := (x - memd).isLt
  rw [hsub]
  by_cases hin : (x - memd - BitVec.ofNat 32 k).toNat < 4
  · have hoff : (x - memd).toNat < k + 4 := by rw [toNat_sub, hofk] at hin; omega
    rw [if_pos hin, lineCopied, if_pos hoff, BitVec.add_assoc,
      BitVec.add_comm (BitVec.ofNat 32 k), BitVec.sub_add_cancel]
  · have hoff : (x - memd).toNat < k ↔ (x - memd).toNat < k + 4 := by
      rw [toNat_sub, hofk] at hin; omega
    rw [if_neg hin]; simp only [lineCopied, hoff]

/-! ## Copies -/

def WriteFaults (s : CpuState) (size : Sz) (addr : BitVec 32) : Prop :=
  s.bus ⟨addr, size, s.s, true, true⟩ = true

theorem putMem_long_granted {addr v} (h : ¬WriteFaults s .long addr) :
    putMem .log .long addr v s = .ok () { s with mem := s.mem.putLong addr v } := by
  rw [putMem, bind_ok (get_apply s)]
  dsimp only
  rw [memPut, bind_ok (get_apply s)]
  exact congrFun (if_neg h) s

theorem putMem_long_ok {addr v} (h : putMem .log .long addr v s = .ok () t) : ¬WriteFaults s .long addr := by
  intro hf
  rw [putMem, bind_ok (get_apply s)] at h
  dsimp only at h
  rw [memPut, bind_ok (get_apply s)] at h
  split at h
  · cases h
  · next hn => exact hn hf

def copyLongs (mems memd : BitVec 32) : Nat → Nat → CpuM Unit
  | 0, _ => pure ()
  | c + 1, k => do
    let v ← getMem .log .long (mems + BitVec.ofNat 32 k)
    putMem .log .long (memd + BitVec.ofNat 32 k) v
    copyLongs mems memd c (k + 4)

theorem move16Line_eq (mems memd : BitVec 32) : move16Line mems memd = copyLongs mems memd 4 0 := by
  simp [move16Line, copyLongs]

def CopyGranted (s : CpuState) (mems memd : BitVec 32) : Nat → Nat → Prop
  | 0, _ => True
  | c + 1, k => ¬ReadFaults s .long (mems + BitVec.ofNat 32 k)
    ∧ ¬WriteFaults s .long (memd + BitVec.ofNat 32 k) ∧ CopyGranted s mems memd c (k + 4)

def afterCopy (s : CpuState) (mems memd : BitVec 32) (k : Nat) : CpuState :=
  { s with mem := lineCopied mems memd k s.mem }

theorem copyLong_granted (hs : IsLine mems) (hd : IsLine memd) {k} (hk : k + 4 ≤ 16)
    (hw : ¬WriteFaults s .long (memd + BitVec.ofNat 32 k)) : putMem .log .long (memd + BitVec.ofNat 32 k)
      (memVal .long (afterCopy s mems memd k).mem (mems + BitVec.ofNat 32 k))
      (afterCopy s mems memd k) = .ok () (afterCopy s mems memd (k + 4)) := by
  have hstep := lineCopied_step (m := s.mem) hs hd hk
  refine (putMem_long_granted (s := afterCopy s mems memd k) hw).trans ?_
  exact congrArg (fun mem => EStateM.Result.ok () { s with mem := mem }) hstep

theorem copyLongs_ok (hs : IsLine mems) (hd : IsLine memd) (c k : Nat) (hk : k + 4 * c ≤ 16) :
    copyLongs mems memd c k (afterCopy s mems memd k) = .ok () u ↔
      CopyGranted s mems memd c k ∧ u = afterCopy s mems memd (k + 4 * c) := by
  induction c generalizing k with
  | zero =>
    refine ⟨fun h => ⟨trivial, ?_⟩, fun h => ?_⟩
    · cases h; rfl
    · rw [h.2]; rfl
  | succ c ih =>
    have ih := ih (k + 4) (by omega)
    rw [show k + 4 + 4 * c = k + 4 * (c + 1) by omega] at ih
    refine ⟨fun h => ?_, fun ⟨⟨hr, hw, hrest⟩, hu⟩ => ?_⟩
    · obtain ⟨v, s₁, hget, h⟩ := bind_ok_inv h
      obtain ⟨rfl, rfl, hbus⟩ := getMem_ok hget
      obtain ⟨_, s₂, hput, h⟩ := bind_ok_inv h
      have hw : ¬WriteFaults s .long (memd + BitVec.ofNat 32 k) :=
        putMem_long_ok (s := afterCopy s mems memd k) hput
      rw [copyLong_granted hs hd (by omega) hw] at hput
      cases hput
      obtain ⟨hrest, hu⟩ := ih.mp h
      refine ⟨⟨fun hf => ?_, hw, hrest⟩, hu⟩
      exact absurd (hbus.symm.trans hf) (by decide)
    · have hget := getMem_granted (s := afterCopy s mems memd k) hr
      rw [copyLongs, bind_ok hget, bind_ok (copyLong_granted hs hd (by omega) hw)]
      exact ih.mpr ⟨hrest, hu⟩

theorem copyLongs_fault (hs : IsLine mems) (hd : IsLine memd) (c k : Nat) (hk : k + 4 * c ≤ 16)
    (h : copyLongs mems memd c k (afterCopy s mems memd k) = .error .readFault t) :
    copiedBytes s mems c k ≤ 16
      ∧ ∃ fault, t = { afterCopy s mems memd (copiedBytes s mems c k) with fault := fault } := by
  induction c generalizing k with
  | zero => cases h
  | succ c ih =>
    unfold copiedBytes
    by_cases hr : ReadFaults s .long (mems + BitVec.ofNat 32 k)
    · rw [copyLongs, bind_error (getMem_fault (s := afterCopy s mems memd k) hr)] at h
      cases h
      rw [if_pos hr]; exact ⟨by omega, _, rfl⟩
    · rw [copyLongs, bind_ok (getMem_granted (s := afterCopy s mems memd k) hr)] at h
      rw [if_neg hr]
      rcases bind_error_inv h with h | ⟨_, s₁, hput, h⟩
      · exact absurd h ((putMem_noReadFault ..).run _ _)
      · have hw : ¬WriteFaults s .long (memd + BitVec.ofNat 32 k) :=
        putMem_long_ok (s := afterCopy s mems memd k) hput
        rw [copyLong_granted hs hd (by omega) hw] at hput
        cases hput
        exact ih (k + 4) (by omega) h

theorem afterCopy_zero (s : CpuState) (mems memd : BitVec 32) : afterCopy s mems memd 0 = s := by
  rw [afterCopy, lineCopied_zero]

theorem copyLine_ok (hs : IsLine mems) (hd : IsLine memd) : copyLongs mems memd 4 0 s = .ok () u ↔
      CopyGranted s mems memd 4 0 ∧ u = afterCopy s mems memd 16 := by
  have h := copyLongs_ok (s := s) (u := u) hs hd 4 0 (by omega)
  rwa [afterCopy_zero] at h

theorem copyLine_fault (hs : IsLine mems) (hd : IsLine memd)
    (h : copyLongs mems memd 4 0 s = .error .readFault t) : copiedBytes s mems 4 0 ≤ 16
      ∧ ∃ fault, t = { afterCopy s mems memd (copiedBytes s mems 4 0) with fault := fault } :=
  by
  rw [← afterCopy_zero s mems memd] at h
  exact copyLongs_fault hs hd 4 0 (by omega) h

/-! ## The handler -/

def move16Tail (opc : BitVec 16) (i : Instr) : Option (Fin 8) → CpuM Unit
  | some dstreg => do
    doIf (regNo i.sreg ≠ dstreg) (incAreg (regNo i.sreg) 16)
    incAreg dstreg 16
  | none => do
    doIf (opc &&& 0xfff8 = 0xf600) (incAreg (regNo i.sreg) 16)
    doIf (opc &&& 0xfff8 = 0xf608) (incAreg (regNo i.dreg) 16)

def move16Fetch (opc : BitVec 16) (i : Instr) (s : CpuState) : List Access × BitVec 32 :=
  if opc &&& 0xfff8 = 0xf620 then ([⟨s.pc + 2, .word, s.s, false, false⟩], 4)
  else if i.smode = .absl ∨ i.dmode = .absl then ([⟨s.pc + 2, .long, s.s, false, false⟩], 6)
  else ([], 2)

theorem genNextilong_granted (h : s.bus ⟨s.pc + s.pcOffset, .long, s.s, false, false⟩ = false) :
    genNextilong s = .ok (s.mem.getLong (s.pc + s.pcOffset)) { s with pcOffset := s.pcOffset + 4 } := by
  rw [genNextilong, bind_ok (get_apply s), getIlong, bind_assoc, bind_ok (get_apply s), memGet,
    bind_assoc, bind_ok (get_apply s), h]
  rfl

theorem genNextilong_fault (h : s.bus ⟨s.pc + s.pcOffset, .long, s.s, false, false⟩ = true) :
    ∃ t, genNextilong s = .error .fetchFault t := by
  rw [genNextilong, bind_ok (get_apply s), getIlong, bind_assoc, bind_ok (get_apply s), memGet,
    bind_assoc, bind_ok (get_apply s), h]
  exact ⟨_, rfl⟩

theorem genNextiword_fault (h : s.bus ⟨s.pc + s.pcOffset, .word, s.s, false, false⟩ = true) :
    ∃ t, genNextiword s = .error .fetchFault t := by
  rw [genNextiword, bind_ok (get_apply s), getIword, bind_assoc, bind_ok (get_apply s), memGet,
    bind_assoc, bind_ok (get_apply s), h]
  exact ⟨_, rfl⟩

theorem genamode2_aipi_noFetch (reg : BitVec 32) (size : Sz) (s : CpuState) :
    genamode2 .aipi reg size .noFetch true .log false s = .ok ⟨0, s.areg (regNo reg)⟩ s := rfl

theorem genamode2_absl_noFetch {reg size} (h : s.bus ⟨s.pc + s.pcOffset, .long, s.s, false, false⟩ = false) :
    genamode2 .absl reg size .noFetch true .log false s
      = .ok ⟨0, s.mem.getLong (s.pc + s.pcOffset)⟩ { s with pcOffset := s.pcOffset + 4 } := by
  rw [genamode2, if_pos (by rfl), genEa, bind_ok (genNextilong_granted h)]
  rfl

theorem modesAllowed_move16 {smode dmode} (h : modesAllowed .move16 smode dmode = true) :
    smode = .aipi ∧ dmode = .aipi ∨ smode = .aipi ∧ dmode = .absl ∨ smode = .absl ∧ dmode = .aipi := by
  simp only [modesAllowed, Bool.or_eq_true, Bool.and_eq_true, beq_iff_eq] at h
  tauto

theorem genMove16_eq (hmodes : modesAllowed .move16 i.smode i.dmode = true)
    (hfetch : ∀ a ∈ (move16Fetch opc i s).1, s.bus a = false) : genMove16 i opc (entered s) =
      (copyLongs (move16Decode opc i s.mem s).1 (move16Decode opc i s.mem s).2.1 4 0 >>= fun _ =>
        move16Tail opc i (move16Decode opc i s.mem s).2.2)
        { s with pcOffset := (move16Fetch opc i s).2 } := by
  unfold genMove16 move16Decode
  unfold move16Fetch at hfetch ⊢
  by_cases hf : opc &&& 0xfff8 = 0xf620
  · simp only [if_pos hf] at hfetch ⊢
    have hw := genNextiword_granted (s := entered s) (hfetch _ mem_cons_self)
    rw [bind_ok (get_apply _), bind_ok hw, bind_ok (get_apply _), move16Line_eq]; rfl
  · simp only [if_neg hf] at hfetch ⊢
    rcases modesAllowed_move16 hmodes with ⟨hs, hd⟩ | ⟨hs, hd⟩ | ⟨hs, hd⟩
    · simp only [hs, hd, move16Addr]
      rw [bind_ok (genamode2_aipi_noFetch ..), bind_ok (genamode2_aipi_noFetch ..), move16Line_eq]
      rfl
    · simp only [hs, hd, move16Addr] at hfetch ⊢
      have hl := hfetch _ mem_cons_self
      rw [bind_ok (genamode2_aipi_noFetch ..),
        bind_ok (genamode2_absl_noFetch (s := entered s) hl), move16Line_eq]
      rfl
    · simp only [hs, hd, move16Addr] at hfetch ⊢
      have hl := hfetch _ mem_cons_self
      rw [bind_ok (genamode2_absl_noFetch (s := entered s) hl),
        bind_ok (genamode2_aipi_noFetch ..), move16Line_eq]
      rfl

theorem genMove16_fetchFault (hmodes : modesAllowed .move16 i.smode i.dmode = true)
    {a} (ha : a ∈ (move16Fetch opc i s).1) (hbus : s.bus a = true) :
    ∃ t, genMove16 i opc (entered s) = .error .fetchFault t := by
  unfold genMove16
  unfold move16Fetch at ha
  by_cases hf : opc &&& 0xfff8 = 0xf620
  · simp only [if_pos hf, mem_singleton] at ha ⊢
    subst ha
    obtain ⟨t, ht⟩ := genNextiword_fault (s := entered s) hbus
    exact ⟨t, (bind_ok (get_apply _)).trans (bind_error ht)⟩
  · simp only [if_neg hf] at ha ⊢
    rcases modesAllowed_move16 hmodes with ⟨hs, hd⟩ | ⟨hs, hd⟩ | ⟨hs, hd⟩
    · simp [hs, hd] at ha
    · simp only [hs, hd, or_true, if_true, mem_singleton] at ha ⊢
      subst ha
      obtain ⟨t, ht⟩ := genNextilong_fault (s := entered s) hbus
      exact ⟨t, (bind_ok (genamode2_aipi_noFetch ..)).trans (bind_error (bind_error ht))⟩
    · simp only [hs, hd, true_or, if_true, mem_singleton] at ha ⊢
      subst ha
      obtain ⟨t, ht⟩ := genNextilong_fault (s := entered s) hbus
      exact ⟨t, bind_error (bind_error ht)⟩

/-! ## Restarts -/

theorem move16Tail_noReadFault (d : Option (Fin 8)) : NoReadFault (move16Tail opc i d) := by
  cases d with
  | some dstreg => exact .bind (.doIf (.modify _)) fun _ => .modify _
  | none => exact .bind (.doIf (.modify _)) fun _ => .doIf (.modify _)

theorem isLine_decode (opc : BitVec 16) (i : Instr) (m : Memory 32) (s : CpuState) :
    IsLine (move16Decode opc i m s).1 ∧ IsLine (move16Decode opc i m s).2.1 := by
  unfold move16Decode move16Addr
  split
  · exact ⟨isLine_lineAddr _, isLine_lineAddr _⟩
  · refine ⟨?_, ?_⟩ <;> dsimp only <;> split <;> exact isLine_lineAddr _

theorem genMove16_fault (hmodes : modesAllowed .move16 i.smode i.dmode = true)
    (h : genMove16 i opc (entered s) = .error .readFault t) :
    copiedBytes s (move16Decode opc i s.mem s).1 4 0 ≤ 16 ∧ ∃ pcOffset fault, t = { s with
        mem := lineCopied (move16Decode opc i s.mem s).1 (move16Decode opc i s.mem s).2.1
          (copiedBytes s (move16Decode opc i s.mem s).1 4 0) s.mem
        pcOffset := pcOffset
        fault := fault } := by
  obtain ⟨hs, hd⟩ := isLine_decode opc i s.mem s
  by_cases hfetch : ∀ a ∈ (move16Fetch opc i s).1, s.bus a = false
  · rw [genMove16_eq hmodes hfetch] at h
    rcases bind_error_inv h with h | ⟨_, _, _, h⟩
    · obtain ⟨hle, fault, rfl⟩ := copyLine_fault hs hd h; exact ⟨hle, _, fault, rfl⟩
    · exact absurd h ((move16Tail_noReadFault _).run _ _)
  · simp only [not_forall] at hfetch
    obtain ⟨a, ha, hbus⟩ := hfetch
    obtain ⟨u, hu⟩ := genMove16_fetchFault hmodes ha (by simpa using hbus)
    rw [hu] at h; cases h

theorem genMove16_ok (hmodes : modesAllowed .move16 i.smode i.dmode = true) {d}
    (hdec : move16Decode opc i s.mem s = (mems, memd, d)) : genMove16 i opc (entered s) = .ok () u ↔
      (∀ a ∈ (move16Fetch opc i s).1, s.bus a = false) ∧ CopyGranted s mems memd 4 0 ∧ move16Tail opc i d
          { s with pcOffset := (move16Fetch opc i s).2, mem := lineCopied mems memd 16 s.mem }
          = .ok () u := by
  obtain ⟨hs, hd⟩ := isLine_decode opc i s.mem s
  have heq := fun hfetch : ∀ a ∈ (move16Fetch opc i s).1, s.bus a = false =>
    genMove16_eq hmodes hfetch
  rw [hdec] at hs hd heq
  by_cases hfetch : ∀ a ∈ (move16Fetch opc i s).1, s.bus a = false
  · rw [heq hfetch]
    refine ⟨fun h => ?_, fun ⟨_, hcopy, htail⟩ => ?_⟩
    · obtain ⟨_, u₁, h₁, h₂⟩ := bind_ok_inv h
      obtain ⟨hcopy, rfl⟩ := (copyLine_ok hs hd).mp h₁; exact ⟨hfetch, hcopy, h₂⟩
    · have hline := (copyLine_ok (s := { s with pcOffset := (move16Fetch opc i s).2 }) hs hd).mpr
        ⟨hcopy, rfl⟩
      exact (bind_ok hline).trans htail
  · refine iff_of_false (fun h => ?_) fun h => hfetch h.1
    simp only [not_forall] at hfetch
    obtain ⟨a, ha, hbus⟩ := hfetch
    obtain ⟨v, hv⟩ := genMove16_fetchFault hmodes ha (by simpa using hbus)
    rw [hv] at h; cases h

theorem move16Tail_ok (opc : BitVec 16) (i : Instr) (d : Option (Fin 8)) (s : CpuState) :
    ∃ u, move16Tail opc i d s = .ok () u := by
  cases d with
  | some dstreg =>
    unfold move16Tail doIf
    dsimp only
    split <;> exact ⟨_, rfl⟩
  | none =>
    unfold move16Tail doIf
    dsimp only
    split <;> split <;> exact ⟨_, rfl⟩

theorem move16Tail_areg {dstreg} (h : move16Tail opc i (some dstreg) s = .ok () u) (x : Fin 8) :
    u.areg x = s.areg x + if x = dstreg ∨ x = regNo i.sreg then 16 else 0 := by
  unfold move16Tail doIf at h
  dsimp only at h
  split at h
  · next hne => cases h; rw [CpuState.areg_setAreg, CpuState.areg_setAreg, CpuState.areg_setAreg]; grind
  · next heq => cases h; rw [CpuState.areg_setAreg]; grind

def lineBus (mems memd : BitVec 32) : Bus := fun a =>
  if a.write then !decide ((a.addr - memd).toNat < 16)
  else a.data && !decide ((a.addr - mems).toNat < 16)

theorem copyGranted_lineBus (s : CpuState) (mems memd : BitVec 32) :
    CopyGranted { s with bus := lineBus mems memd } mems memd 4 0 := by
  simp [CopyGranted, ReadFaults, WriteFaults, lineBus]

theorem eq_of_copyGranted_lineBus {mems' memd'} (hs : IsLine mems) (hd : IsLine memd)
    (hs' : IsLine mems') (hd' : IsLine memd')
    (h : CopyGranted { s with bus := lineBus mems memd } mems' memd' 4 0) :
    mems' = mems ∧ memd' = memd := by
  obtain ⟨hr, hw, _⟩ := h
  have hzero : ∀ a : BitVec 32, a + BitVec.ofNat 32 0 = a := fun a => BitVec.add_zero a
  simp only [ReadFaults, WriteFaults, lineBus, hzero] at hr hw
  have hself : ∀ a : BitVec 32, (a - a).toNat < 16 := by intro a; rw [BitVec.sub_self]; decide
  exact ⟨hs'.eq_of_mem hs (hself _) (by simpa using hr), hd'.eq_of_mem hd (hself _) (by simpa using hw)⟩

theorem move16Fetch_access {a} (ha : a ∈ (move16Fetch opc i s).1) : a.write = false ∧ a.data = false := by
  unfold move16Fetch at ha
  split at ha
  · simp_all
  · split at ha <;> simp_all

theorem move16Decode_isSome (opc : BitVec 16) (i : Instr) (m m' : Memory 32) (s : CpuState) :
    (move16Decode opc i m s).2.2.isSome = (move16Decode opc i m' s).2.2.isSome := by
  unfold move16Decode
  split <;> rfl

theorem syncPc_regs (h : syncPc s = .ok () u) : u.regs = s.regs := by
  cases h
  rfl

theorem move16Tail_inj {s' u' d d'} (hregs : s'.regs = s.regs)
    (h : move16Tail opc i (some d) s = .ok () u) (h' : move16Tail opc i (some d') s' = .ok () u')
    (hu : u'.regs = u.regs) : d' = d := by
  have hareg : ∀ x, (if x = d' ∨ x = regNo i.sreg then 16 else 0 : BitVec 32)
      = if x = d ∨ x = regNo i.sreg then 16 else 0 := by
    intro x
    have h₁ := move16Tail_areg h x
    have h₂ := move16Tail_areg h' x
    have hx : u'.areg x = u.areg x := congrFun hu _
    have hx' : s'.areg x = s.areg x := congrFun hregs _
    rw [h₁, h₂, hx'] at hx; exact add_left_cancel hx
  have hd := hareg d
  have hd' := hareg d'
  grind

theorem genMove16_restartable (hmn : i.mnemo = .move16)
    (hmodes : modesAllowed .move16 i.smode i.dmode = true) (hpc : s.faultPc = s.pc)
    (hfix : s.fixup.flag = false) (h : genOpcode ext fuel opc i s = .error .readFault t) :
    Restartable (genOpcode ext fuel opc i) s t ↔ KeepsOwnWords opc i s := by
  have hbody : genBody ext fuel opc i = genMove16 i opc := by simp only [genBody, hmn]
  obtain ⟨hp, hb⟩ := genOpcode_readFault h
  rw [hbody] at hb
  obtain ⟨hle, pcOffset, fault, rfl⟩ := genMove16_fault hmodes hb
  obtain ⟨hs, hd⟩ := isLine_decode opc i s.mem s
  obtain ⟨mems, memd, d, hdec⟩ : ∃ mems memd d, move16Decode opc i s.mem s = (mems, memd, d) :=
    ⟨_, _, _, rfl⟩
  simp only [KeepsOwnWords, hdec] at hle hs hd ⊢
  obtain ⟨m', hm'⟩ : ∃ m', m' = lineCopied mems memd (copiedBytes s mems 4 0) s.mem := ⟨_, rfl⟩
  rw [← hm']
  have hrestart := restart_update hpc hfix s.regs m' pcOffset fault
  constructor
  · intro hr
    obtain ⟨hs', hd'⟩ := isLine_decode opc i m' s
    obtain ⟨mems', memd', d', hdec'⟩ : ∃ mems' memd' d', move16Decode opc i m' s = (mems', memd', d') :=
      ⟨_, _, _, rfl⟩
    rw [hdec'] at hs' hd' ⊢
    -- a bus that grants just the two lines tells them from any others
    have hfetch : ∀ a ∈ (move16Fetch opc i s).1, lineBus mems memd a = false := by
      intro a ha
      obtain ⟨hw, hdata⟩ := move16Fetch_access ha; simp [lineBus, hw, hdata]
    obtain ⟨u₁, htail⟩ := move16Tail_ok opc i d
      { s with pcOffset := (move16Fetch opc i s).2, mem := lineCopied mems memd 16 s.mem,
               bus := lineBus mems memd }
    have h₁ := (genMove16_ok (s := { s with bus := lineBus mems memd }) hmodes hdec).mpr
      ⟨hfetch, copyGranted_lineBus s mems memd, htail⟩
    have hrun := hr.rerun (lineBus mems memd) _
      (genOpcode_ok.mpr ⟨hp, u₁, (congrFun hbody _).trans h₁, modify_apply _ _⟩)
    rw [hrestart, genOpcode_ok, hbody] at hrun
    obtain ⟨_, u₂, h₂, hsync⟩ := hrun
    obtain ⟨_, hcopy, htail'⟩ :=
      (genMove16_ok (s := { s with mem := m', bus := lineBus mems memd }) hmodes hdec').mp h₂
    obtain ⟨rfl, rfl⟩ := eq_of_copyGranted_lineBus (s := { s with mem := m' }) hs hd hs' hd' hcopy
    have hu : u₂.regs = u₁.regs := (syncPc_regs hsync).symm
    have hsome : d'.isSome = d.isSome := by
      simpa only [hdec, hdec'] using move16Decode_isSome opc i m' s.mem s
    cases d with
    | none =>
      rw [Option.isSome_none, Option.isSome_eq_false_iff, Option.isNone_iff_eq_none] at hsome
      rw [hsome]
    | some d =>
      obtain ⟨d', rfl⟩ := Option.isSome_iff_exists.mp hsome
      rw [move16Tail_inj (by rfl) htail htail' hu]
  · intro hwords
    refine ⟨fun r => ?_, fun bus u hrun => ?_⟩
    · rw [undoFixup_of_flag (by exact hfix)]; rfl
    · rw [hrestart]
      rw [genOpcode_ok, hbody] at hrun ⊢
      obtain ⟨_, u₁, h₁, h₂⟩ := hrun
      obtain ⟨hfetch, hcopy, htail⟩ := (genMove16_ok (s := { s with bus := bus }) hmodes hdec).mp h₁
      refine ⟨hp, u₁, ?_, h₂⟩
      refine (genMove16_ok (s := { s with mem := m', bus := bus }) hmodes hwords).mpr ⟨hfetch, hcopy, ?_⟩
      have hagain : lineCopied mems memd 16 m' = lineCopied mems memd 16 s.mem := by
        rw [hm', lineCopied_again hs hd hle]
      dsimp only
      rw [hagain]; exact htail

end Aranym.Cpu
