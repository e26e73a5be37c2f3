import Aranym.Cpu.Lemmas.Stacks

/-!
# Exception frames on the stack

What the pushes of `Exception` do to the state, and what `ex_rte` reads back.
-/

namespace Aranym.Cpu

open Aranym.Lib Aranym.Lib.Memory Aranym.Mmu BitVec

def Bus.StackOk (b : Bus) (sp : BitVec 32) (n : Nat) : Prop :=
  ∀ k ≤ n, ∀ size write, b.Grants (sp - BitVec.ofNat 32 k) size write

variable {s s' : CpuState} {addr pc sp : BitVec 32} {n : Nat} {sr format : BitVec 16} {b : Bus} {m : CpuM Unit}

theorem sub_ofNat_sub (a : BitVec 32) (i k : Nat) :
    a - BitVec.ofNat 32 i - BitVec.ofNat 32 k = a - BitVec.ofNat 32 (i + k) := by
  rw [ofNat_add, sub_add_eq_sub_sub]

theorem Bus.StackOk.pushed {i} (h : b.StackOk sp (i + n)) : b.StackOk (sp - BitVec.ofNat 32 i) n := by
  intro k hk size write
  rw [sub_ofNat_sub]
  exact h (i + k) (by omega) size write

theorem Bus.StackOk.mono {i} (h : b.StackOk sp n) (hi : i ≤ n) : b.StackOk sp i :=
  fun k hk => h k (Nat.le_trans hk hi)

/-! ## Memory accesses that are granted -/

theorem getWord_ok (hs : s.s = true) (h : s.bus.Grants addr .word false) :
    getWord addr s = .ok (s.mem.getWord addr) s := by
  have hb : s.bus ⟨addr, .word, s.s, true, false⟩ = false := by rw [hs]; exact h
  simp [getWord, memGet, bind_apply, hb]

theorem getLong_ok (hs : s.s = true) (h : s.bus.Grants addr .long false) :
    getLong addr s = .ok (s.mem.getLong addr) s := by
  have hb : s.bus ⟨addr, .long, s.s, true, false⟩ = false := by rw [hs]; exact h
  simp [getLong, memGet, bind_apply, hb]

theorem putWord_ok (v : BitVec 16) (hs : s.s = true) (h : s.bus.Grants addr .word true) :
    putWord addr v s = .ok () { s with mem := s.mem.putWord addr v } := by
  have hb : s.bus ⟨addr, .word, s.s, true, true⟩ = false := by rw [hs]; exact h
  simp [putWord, memPut, bind_apply, hb]

theorem putLong_ok (v : BitVec 32) (hs : s.s = true) (h : s.bus.Grants addr .long true) :
    putLong addr v s = .ok () { s with mem := s.mem.putLong addr v } := by
  have hb : s.bus ⟨addr, .long, s.s, true, true⟩ = false := by rw [hs]; exact h
  simp [putLong, memPut, bind_apply, hb]

/-! ## Pushes -/

structure Pushed (n : Nat) (s s' : CpuState) : Prop where
  rest : s' = { s.setAreg 7 (s.areg 7 - BitVec.ofNat 32 n) with mem := s'.mem, fault := s'.fault }
  outside : ∀ x, Outside (s.areg 7 - BitVec.ofNat 32 n) n x → s'.mem x = s.mem x

theorem Pushed.areg_seven (h : Pushed n s s') : s'.areg 7 = s.areg 7 - BitVec.ofNat 32 n := by
  rw [h.rest]
  exact CpuState.areg_setAreg_self s 7 _

theorem Pushed.bus_eq (h : Pushed n s s') : s'.bus = s.bus := by rw [h.rest]; rfl

theorem Pushed.s_eq (h : Pushed n s s') : s'.s = s.s := by rw [h.rest]; rfl

theorem Pushed.trans {k s''} (h : Pushed n s s') (h' : Pushed k s' s'') : Pushed (n + k) s s'' := by
  have ha := h.areg_seven
  have ha' : s'.areg 7 - BitVec.ofNat 32 k = s.areg 7 - BitVec.ofNat 32 (n + k) := by rw [ha, sub_ofNat_sub]
  refine ⟨?_, fun x hx => ?_⟩
  · rw [h'.rest, ha', h.rest]; simp [CpuState.setAreg, CpuState.setReg]
  · have h₁ : Outside (s'.areg 7 - BitVec.ofNat 32 k) k x := by rw [ha']; exact hx.mono (by omega)
    have h₂ : Outside (s.areg 7 - BitVec.ofNat 32 n) n x := by
      have := Outside.shift (k := k) (n := n) (by rw [Nat.add_comm k n]; exact hx)
      rwa [ofNat_add, sub_add_eq_sub_sub, BitVec.sub_add_cancel] at this
    rw [h'.outside x h₁, h.outside x h₂]

def Pushes (n : Nat) (m : CpuM Unit) : Prop :=
  ∀ s, s.s = true → s.bus.StackOk (s.areg 7) n → ∃ s', m s = .ok () s' ∧ Pushed n s s'

theorem Pushes.bind {k m'} (h : Pushes n m) (h' : Pushes k (m' ())) : Pushes (n + k) (m >>= m') := by
  intro s hs hok
  obtain ⟨t, ht, hpt⟩ := h s hs (hok.mono (by omega))
  have hok' : t.bus.StackOk (t.areg 7) k := by rw [hpt.bus_eq, hpt.areg_seven]; exact hok.pushed
  obtain ⟨u, hu, hpu⟩ := h' t (hpt.s_eq.trans hs) hok'
  exact ⟨u, (bind_ok ht).trans hu, hpt.trans hpu⟩

theorem Pushes.get_bind {k} (h : ∀ s, Pushes n (k s)) : Pushes n (get >>= k) := fun s hs hok => h s s hs hok

theorem Pushes.modify_fault (f : CpuState → FaultInfo) :
    Pushes 0 (modify fun s => { s with fault := f s }) := by
  intro s _ _
  refine ⟨_, rfl, ?_, fun x _ => rfl⟩
  simp [CpuState.setAreg, CpuState.setReg, CpuState.areg, aregIdx]

def CpuState.pushWord (s : CpuState) (w : BitVec 16) : CpuState :=
  { s.setAreg 7 (s.areg 7 - 2) with mem := s.mem.putWord (s.areg 7 - 2) w }

def CpuState.pushLong (s : CpuState) (l : BitVec 32) : CpuState :=
  { s.setAreg 7 (s.areg 7 - 4) with mem := s.mem.putLong (s.areg 7 - 4) l }

theorem mem_pushWord (s : CpuState) (w : BitVec 16) :
    (s.pushWord w).mem = s.mem.putWord (s.areg 7 - 2) w := rfl

theorem mem_pushLong (s : CpuState) (l : BitVec 32) :
    (s.pushLong l).mem = s.mem.putLong (s.areg 7 - 4) l := rfl

theorem Pushed.pushWord (s : CpuState) (w : BitVec 16) : Pushed 2 s (s.pushWord w) :=
  ⟨rfl, fun _ hx => putWord_outside _ _ hx⟩

theorem Pushed.pushLong (s : CpuState) (l : BitVec 32) : Pushed 4 s (s.pushLong l) :=
  ⟨rfl, fun _ hx => putLong_outside _ _ hx⟩

theorem excPushWord_ok (w : BitVec 16) (hs : s.s = true) (h : s.bus.StackOk (s.areg 7) 2) :
    excPushWord w s = .ok () (s.pushWord w) := by
  have hp := putWord_ok (s := s.setAreg 7 (s.areg 7 - 2)) w hs (h 2 (by omega) .word true)
  rw [excPushWord, bind_ok (modify_apply ..), bind_ok (get_apply _), CpuState.areg_setAreg_self]
  exact hp

theorem excPushLong_ok (l : BitVec 32) (hs : s.s = true) (h : s.bus.StackOk (s.areg 7) 4) :
    excPushLong l s = .ok () (s.pushLong l) := by
  have hp := putLong_ok (s := s.setAreg 7 (s.areg 7 - 4)) l hs (h 4 (by omega) .long true)
  rw [excPushLong, bind_ok (modify_apply ..), bind_ok (get_apply _), CpuState.areg_setAreg_self]
  exact hp

theorem Pushes.excPushWord (w : BitVec 16) : Pushes 2 (excPushWord w) := fun s hs h =>
  ⟨_, excPushWord_ok w hs h, .pushWord s w⟩

theorem Pushes.excPushLong (l : BitVec 32) : Pushes 4 (excPushLong l) := fun s hs h =>
  ⟨_, excPushLong_ok l hs h, .pushLong s l⟩

theorem Pushes.busErrorPushes : Pushes 52 busErrorPushes :=
  .bind (k := 48) (.excPushLong _) <| .bind (k := 44) (.excPushLong _) <|
  .bind (k := 40) (.excPushLong _) <| .bind (k := 36) (.excPushLong _) <|
  .bind (k := 32) (.excPushLong _) <| .bind (k := 28) (.excPushLong _) <|
  .bind (k := 24) (.excPushLong _) <|
  .get_bind fun _ => .bind (k := 20) (.excPushLong _) <|
  .get_bind fun _ => .bind (k := 16) (.excPushLong _) <|
  .get_bind fun _ => .bind (k := 12) (.excPushLong _) <|
  .bind (k := 10) (.excPushWord _) <| .bind (k := 8) (.excPushWord _) <|
  .get_bind fun _ => .bind (k := 6) (.excPushWord _) <|
  .bind (k := 6) (.modify_fault _) <|
  .get_bind fun _ => .bind (k := 4) (.excPushWord _) <|
  .get_bind fun _ => .excPushLong _

/-! ## The common part of a frame -/

structure FrameAt (mem : Memory 32) (a : BitVec 32) (sr : BitVec 16) (pc : BitVec 32)
    (format : BitVec 16) : Prop where
  sr_eq : mem.getWord a = sr
  pc_eq : mem.getLong (a + 2) = pc
  format_eq : mem.getWord (a + 6) = format

theorem frameAt_pushes (m : Memory 32) (a : BitVec 32) (sr : BitVec 16) (pc : BitVec 32)
    (format : BitVec 16) :
    FrameAt (((m.putWord (a + 6) format).putLong (a + 2) pc).putWord a sr) a sr pc format := by
  have hsr : AgreeOn (a + 2) 6
      (((m.putWord (a + 6) format).putLong (a + 2) pc).putWord a sr)
      ((m.putWord (a + 6) format).putLong (a + 2) pc) := by
    intro i hi
    have := outside_offsets a (n := 2) (k := 0) (i := 2 + i) (by omega) (by omega) (by omega)
    rw [ofNat_add, ← BitVec.add_assoc, BitVec.add_zero] at this
    exact putWord_outside _ _ this
  have hpc : AgreeOn (a + 6) 2 ((m.putWord (a + 6) format).putLong (a + 2) pc)
      (m.putWord (a + 6) format) := by
    intro i hi
    have := outside_offsets a (n := 4) (k := 2) (i := 6 + i) (by omega) (by omega) (by omega)
    rw [ofNat_add, ← BitVec.add_assoc] at this; exact putLong_outside _ _ this
  have hsr' := hsr.shift (k := 4) (n := 2)
  rw [BitVec.add_assoc, show (2 : BitVec 32) + BitVec.ofNat 32 4 = 6 from rfl] at hsr'
  refine ⟨getWord_putWord_self _ _ _ (by omega), ?_, ?_⟩
  · rw [(hsr.mono (by omega)).getLong_eq, getLong_putLong_self _ _ _ (by omega)]
  · rw [hsr'.getWord_eq, hpc.getWord_eq, getWord_putWord_self _ _ _ (by omega)]

theorem FrameAt.congr {m m' a} (h : FrameAt m a sr pc format) (hm : AgreeOn a 8 m' m) :
    FrameAt m' a sr pc format := by
  have h₂ : AgreeOn (a + 2) 4 m' m := (hm.mono (by omega)).shift (k := 2)
  have h₆ : AgreeOn (a + 6) 2 m' m := hm.shift (k := 6)
  exact ⟨(hm.mono (by omega)).getWord_eq.trans h.sr_eq, h₂.getLong_eq.trans h.pc_eq,
    h₆.getWord_eq.trans h.format_eq⟩

theorem excMakeFrame_common_ok (sr : BitVec 16) (pc : BitVec 32) (format : BitVec 16)
    (hs : s.s = true) (h : s.bus.StackOk (s.areg 7) 8) :
    ∃ s', (do excPushWord format; excPushLong pc; excPushWord sr) s = .ok () s' ∧ Pushed 8 s s' ∧
      FrameAt s'.mem (s'.areg 7) sr pc format := by
  have p₁ := Pushed.pushWord s format
  have p₂ := p₁.trans (.pushLong _ pc)
  have p₃ := p₂.trans (.pushWord _ sr)
  have h₁ := excPushWord_ok format hs (h.mono (by omega))
  have h₂ := excPushLong_ok pc (p₁.s_eq.trans hs) (by
    rw [p₁.bus_eq, p₁.areg_seven]
    exact (h.mono (by omega)).pushed)
  have h₃ := excPushWord_ok sr (p₂.s_eq.trans hs) (by
    rw [p₂.bus_eq, p₂.areg_seven]
    exact h.pushed)
  refine ⟨_, (bind_ok h₁).trans ((bind_ok h₂).trans h₃), p₃, ?_⟩
  have hf := frameAt_pushes s.mem (s.areg 7 - 8) sr pc format
  have e₂ : (s.pushWord format).areg 7 - 4 = s.areg 7 - 8 + 2 := by rw [p₁.areg_seven]; bv_omega
  have e₃ : ((s.pushWord format).pushLong pc).areg 7 - 2 = s.areg 7 - 8 := by rw [p₂.areg_seven]; bv_omega
  have e₁ : s.areg 7 - 2 = s.areg 7 - 8 + 6 := by bv_omega
  rw [p₃.areg_seven, mem_pushWord, mem_pushLong, mem_pushWord, e₃, e₂, e₁]
  exact hf

def PushesFrame (n : Nat) (m : CpuM Unit) (s : CpuState) (sr : BitVec 16) (pc : BitVec 32)
    (format : BitVec 16) : Prop :=
  ∃ s', m s = .ok () s' ∧ Pushed n s s' ∧ FrameAt s'.mem (s'.areg 7) sr pc format

theorem excMakeFrame_ok (format : Nat) (sr : BitVec 16) (pc : BitVec 32)
    (nr : Nat) (hm : Pushes n m) (hs : s.s = true) (h : s.bus.StackOk (s.areg 7) (n + 8)) :
    PushesFrame (n + 8) (do m; excPushWord (formatWord format nr); excPushLong pc; excPushWord sr) s sr pc
      (formatWord format nr) := by
  obtain ⟨t, ht, hpt⟩ := hm s hs (h.mono (by omega))
  obtain ⟨u, hu, hpu, hf⟩ := excMakeFrame_common_ok sr pc (formatWord format nr)
    (hpt.s_eq.trans hs) (by rw [hpt.bus_eq, hpt.areg_seven]; exact h.pushed)
  exact ⟨u, (bind_ok ht).trans hu, hpt.trans hpu, hf⟩

theorem Pushes.pure : Pushes 0 (pure ()) := by
  intro s _ _
  refine ⟨s, rfl, ?_, fun x _ => rfl⟩
  simp [CpuState.setAreg, CpuState.setReg, CpuState.areg, aregIdx]

/-! ## The frame of an exception -/

def formatOf (nr : Nat) : Nat :=
  if nr = 2 then 7 else if nr = 3 ∨ nr = 5 ∨ nr = 6 ∨ nr = 7 ∨ nr = 9 then 2 else 0

def extraBytes (nr : Nat) : Nat :=
  if nr = 2 then 52 else if nr = 3 ∨ nr = 5 ∨ nr = 6 ∨ nr = 7 ∨ nr = 9 then 4 else 0

def pushedPc (nr : Nat) (s : CpuState) : BitVec 32 :=
  if nr = 2 then s.faultPc else if nr = 3 then s.lastAddrForException3 else s.pc

theorem busErrorFrame_ok (hs : s.s = true) (h : s.bus.StackOk (s.areg 7) 60) :
    PushesFrame 60 busErrorFrame s s.sr s.faultPc (formatWord 7 2) := by
  obtain ⟨t, ht, hpt⟩ := Pushes.busErrorPushes s hs (h.mono (by omega))
  obtain ⟨u, hu, hpu, hf⟩ := excMakeFrame_ok 7 t.sr t.faultPc 2 .pure (hpt.s_eq.trans hs)
    (by rw [hpt.bus_eq, hpt.areg_seven]; exact h.pushed (n := 8))
  have hsr : t.sr = s.sr := by rw [hpt.rest]; rfl
  have hpc : t.faultPc = s.faultPc := by rw [hpt.rest]; rfl
  rw [hsr, hpc] at hf
  exact ⟨u, (bind_ok ht).trans hu, hpt.trans hpu, hf⟩

theorem PushesFrame.of_eq {m'} (h : PushesFrame n m s sr pc format) (he : m' s = m s) :
    PushesFrame n m' s sr pc format := by
  obtain ⟨t, ht, hp⟩ := h
  exact ⟨t, he.trans ht, hp⟩

theorem exceptionFrame_ok (nr : Nat) (oldpc : BitVec 32) (hs : s.s = true)
    (hm : ¬(s.m ∧ isInterrupt nr)) (h : s.bus.StackOk (s.areg 7) (extraBytes nr + 8)) :
    PushesFrame (extraBytes nr + 8) (exceptionFrame nr oldpc s.pc) s s.sr (pushedPc nr s)
      (formatWord (formatOf nr) nr) := by
  by_cases h2 : nr = 2
  · subst h2
    obtain ⟨t, ht, hp⟩ := busErrorFrame_ok hs h
    refine ⟨t, ?_, hp⟩
    simp [exceptionFrame, bind_apply, tryCatch_apply, ht]
  by_cases h3 : nr = 3
  · have he : extraBytes nr = 4 := by simp [extraBytes, h3]
    have hf : formatOf nr = 2 := by simp [formatOf, h3]
    rw [he] at h ⊢
    rw [hf, pushedPc, if_neg h2, if_pos h3]
    refine (excMakeFrame_ok 2 s.sr s.lastAddrForException3 nr
      (.excPushLong (s.lastFaultForException3 &&& 0xfffffffe)) hs h).of_eq ?_
    rw [exceptionFrame, bind_ok (get_apply s), if_neg h2, if_pos h3]; rfl
  by_cases h5 : nr = 5 ∨ nr = 6 ∨ nr = 7 ∨ nr = 9
  · have he : extraBytes nr = 4 := by simp [extraBytes, h2, h5]
    have hf : formatOf nr = 2 := by simp [formatOf, h2, h5]
    rw [he] at h ⊢
    rw [hf, pushedPc, if_neg h2, if_neg h3]
    refine (excMakeFrame_ok 2 s.sr s.pc nr (.excPushLong oldpc) hs h).of_eq ?_
    rw [exceptionFrame, bind_ok (get_apply s), if_neg h2, if_neg h3, if_pos h5]; rfl
  · have he : extraBytes nr = 0 := by simp [extraBytes, h2, h3, h5]
    have hf : formatOf nr = 0 := by simp [formatOf, h2, h3, h5]
    rw [he] at h ⊢
    rw [hf, pushedPc, if_neg h2, if_neg h3]
    refine (excMakeFrame_ok 0 s.sr s.pc nr .pure hs h).of_eq ?_
    rw [exceptionFrame, bind_ok (get_apply s), if_neg h2, if_neg h3, if_neg h5, if_neg hm]; rfl

/-! ## RTE -/

theorem frameFormat_formatOf : ∀ nr < 256, frameFormat (formatWord (formatOf nr) nr)
      = .leave (BitVec.ofNat 32 (extraBytes nr)) := by decide +kernel

theorem frameFormat_throwaway : ∀ nr < 256, frameFormat (formatWord 1 nr) = .throwaway := by decide +kernel

theorem frameFormat_short : ∀ nr < 256, frameFormat (formatWord 0 nr) = .leave 0 := by decide +kernel

theorem popWord_ok (hs : s.s = true) (h : s.bus.Grants (s.areg 7) .word false) :
    popWord s = .ok (s.mem.getWord (s.areg 7)) (s.setAreg 7 (s.areg 7 + 2)) := by
  rw [popWord, bind_ok (get_apply s), bind_ok (getWord_ok hs h)]
  rfl

theorem popLong_ok (hs : s.s = true) (h : s.bus.Grants (s.areg 7) .long false) :
    popLong s = .ok (s.mem.getLong (s.areg 7)) (s.setAreg 7 (s.areg 7 + 4)) := by
  rw [popLong, bind_ok (get_apply s), bind_ok (getLong_ok hs h)]
  rfl

structure FrameReadable (b : Bus) (a : BitVec 32) : Prop where
  sr : b.Grants a .word false
  pc : b.Grants (a + 2) .long false
  format : b.Grants (a + 6) .word false

theorem Bus.StackOk.frameReadable (h : b.StackOk sp n)
    (hn : 8 ≤ n) : FrameReadable b (sp - BitVec.ofNat 32 n) := by
  have hsub : ∀ k ≤ n, sp - BitVec.ofNat 32 n + BitVec.ofNat 32 k = sp - BitVec.ofNat 32 (n - k) := by
    intro k hk
    conv_lhs => rw [show n = (n - k) + k by omega, ofNat_add, sub_add_eq_sub_sub,
      BitVec.sub_add_cancel]
  refine ⟨h n (by omega) _ _, ?_, ?_⟩
  · exact hsub 2 (by omega) ▸ h (n - 2) (by omega) _ _
  · exact hsub 6 (by omega) ▸ h (n - 6) (by omega) _ _

theorem exRte_pops {α : Type} (k : BitVec 16 → BitVec 32 → BitVec 16 → CpuM α) (hs : s.s = true)
    (hr : FrameReadable s.bus (s.areg 7)) (hf : FrameAt s.mem (s.areg 7) sr pc format) :
    (do
      let newsr ← popWord
      let newpc ← popLong
      let fmt ← popWord
      k newsr newpc fmt) s = k sr pc format (s.setAreg 7 (s.areg 7 + 8)) := by
  have h₁ := popWord_ok hs hr.sr
  have h₂ := popLong_ok (s := s.setAreg 7 (s.areg 7 + 2)) hs (by
    rw [CpuState.areg_setAreg_self]; exact hr.pc)
  rw [CpuState.areg_setAreg_self, CpuState.setAreg_setAreg, BitVec.add_assoc,
    show (2 : BitVec 32) + 4 = 6 from rfl] at h₂
  have h₃ := popWord_ok (s := s.setAreg 7 (s.areg 7 + 6)) hs (by
    rw [CpuState.areg_setAreg_self]; exact hr.format)
  rw [CpuState.areg_setAreg_self, CpuState.setAreg_setAreg, BitVec.add_assoc] at h₃
  rw [bind_ok h₁, bind_ok h₂, bind_ok h₃, ← hf.sr_eq, ← hf.pc_eq, ← hf.format_eq]
  rfl

theorem exRte_leave {bytes} (fuel : Nat) (hs : s.s = true) (hr : FrameReadable s.bus (s.areg 7))
    (hf : FrameAt s.mem (s.areg 7) sr pc format) (hfmt : frameFormat format = .leave bytes) :
    exRte (fuel + 1) s = .ok true
      (setpc pc (makeFromSR { s.setAreg 7 (s.areg 7 + 8 + bytes) with sr := sr })) := by
  rw [exRte, exRte_pops _ hs hr hf, hfmt]
  change EStateM.Result.ok true (setpc pc (makeFromSR { (s.setAreg 7 (s.areg 7 + 8)).setAreg 7
    ((s.setAreg 7 (s.areg 7 + 8)).areg 7 + bytes) with sr := sr })) = _
  rw [CpuState.areg_setAreg_self, CpuState.setAreg_setAreg]

theorem exRte_throwaway (fuel : Nat) (hs : s.s = true) (hr : FrameReadable s.bus (s.areg 7))
    (hf : FrameAt s.mem (s.areg 7) sr pc format) (hfmt : frameFormat format = .throwaway) : exRte (fuel + 1) s
      = exRte fuel (makeFromSR { s.setAreg 7 (s.areg 7 + 8) with sr := sr }) := by
  rw [exRte, exRte_pops _ hs hr hf, hfmt]
  rfl

end Aranym.Cpu
