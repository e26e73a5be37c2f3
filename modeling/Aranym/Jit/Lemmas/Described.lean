import Aranym.Jit.Lemmas.FlagTable

/-!
# Runs that the masks describe

The runs of a handler and of its body have the same flags, so that the question is about the body.
-/

namespace Aranym.Jit

open Aranym.Lib Aranym.Cpu Aranym.Mmu List

variable {α β : Type} {ext : Ext} {fuel : Nat} {opcode : BitVec 16} {i : Cpu.Instr}
  {dead live : BitVec 8} {s t : CpuState} {f : Flag}

/-! ## Flags that are handed through -/

structure PassesFlag (f : Flag) (m : CpuM α) : Prop where
  run : ∀ {s t : CpuState} {a : α}, m s = .ok a t → ∀ b, m (s.setFlag f b) = .ok a (t.setFlag f b)

namespace PassesFlag

theorem noStatus_bind {m} {k : α → CpuM β} (hm : NoStatus m)
    (hk : ∀ a, PassesFlag f (k a)) : PassesFlag f (m >>= k) := by
  refine ⟨fun {s t a} hrun b => ?_⟩
  obtain ⟨x, s', h₁, h₂⟩ := bind_ok_inv hrun
  exact (bind_ok (hm.run_setFlag h₁ f b)).trans ((hk x).run h₂ b)

theorem get_bind {k : CpuState → CpuM β} (hg : ∀ {s b}, k (s.setFlag f b) = k s)
    (hk : ∀ s, PassesFlag f (k s)) : PassesFlag f (get >>= k) := by
  refine ⟨fun {s t a} hrun b => ?_⟩
  rw [bind_ok (get_apply _)] at hrun ⊢
  rw [hg]
  exact (hk s).run hrun b

theorem alu_bind {op} {k : α → CpuM β}
    (hop : ∀ g b, op (g.set f b) = ((op g).1.set f b, (op g).2)) (hk : ∀ a, NoStatus (k a)) :
    PassesFlag f (alu op >>= k) := by
  refine ⟨fun {s t a} hrun b => ?_⟩
  obtain ⟨x, s', h₁, h₂⟩ := bind_ok_inv hrun
  cases h₁
  have halu : alu op (s.setFlag f b)
      = .ok (op s.flags).2 (CpuState.setFlag { s with flags := (op s.flags).1 } f b) := by
    change EStateM.Result.ok (op (s.flags.set f b)).2
      { s with flags := (op (s.flags.set f b)).1 } = _
    rw [hop]; rfl
  exact (bind_ok halu).trans ((hk _).run_setFlag h₂ f b)

theorem ite {p : Prop} [Decidable p] {m₁ m₂ : CpuM α} (h₁ : PassesFlag f m₁)
    (h₂ : PassesFlag f m₂) : PassesFlag f (if p then m₁ else m₂) := by split <;> assumption

theorem pure (a : α) : PassesFlag f (pure a : CpuM α) :=
  ⟨fun {_ _ _} hrun b => (NoStatus.pure a).run_setFlag hrun f b⟩

theorem alu_throw (op : FlagOp α) (e : Trap) : PassesFlag f (do let _ ← alu op; throw e : CpuM β) := by
  refine ⟨fun {s t a} hrun => ?_⟩
  cases hrun

end PassesFlag

theorem genChk_passes : PassesFlag .n (genChk i) := by
  refine .get_bind rfl fun _ => .noStatus_bind (genamode_noStatus ..) fun _ => ?_
  refine .noStatus_bind (genamode_noStatus ..) fun _ => ?_
  exact .ite (.alu_throw ..) (.ite (.alu_throw ..) (.pure _))

theorem genChk2_passes : PassesFlag .n (genChk2 i) := by
  refine .get_bind rfl fun _ => .noStatus_bind (genamode_noStatus ..) fun _ => ?_
  refine .noStatus_bind (genamode_noStatus ..) fun _ => .get_bind rfl fun _ => ?_
  refine .noStatus_bind (getMem_noStatus ..) fun _ => .noStatus_bind (getMem_noStatus ..) fun _ => ?_
  exact .alu_bind (fun _ _ => rfl) fun _ => .ite (.throw _) (.pure _)

theorem srcDstFixup_passes {getv} {op : BitVec 32 → BitVec 32 → FlagOp (BitVec 32)}
    (hop : ∀ src dst g b, op src dst (g.set f b) = ((op src dst g).1.set f b, (op src dst g).2)) :
    PassesFlag f (srcDstFixup i getv op) := by
  refine .noStatus_bind (genamode2_noStatus ..) fun _ => ?_
  refine .noStatus_bind (genamode_noStatus ..) fun _ => ?_
  refine .noStatus_bind (clearFixup_noStatus _) fun _ => ?_
  exact .alu_bind (hop _ _) fun _ => genastore_noStatus ..

theorem srcStore_passes {ssize rsize} {getv : Getv} {op : BitVec 32 → FlagOp (BitVec 32)}
    (hop : ∀ src g b, op src (g.set f b) = ((op src g).1.set f b, (op src g).2)) :
    PassesFlag f (srcStore i ssize rsize getv op) :=
  .noStatus_bind (genamode_noStatus ..) fun _ => .alu_bind (hop _) fun _ => genastore_noStatus ..

theorem genBody_passes (hm : i.mnemo ∈ [.chk, .chk2, .sbcd, .abcd, .nbcd]) :
    PassesFlag .n (genBody ext fuel opcode i) := by
  unfold genBody
  simp only [mem_cons, not_mem_nil, or_false] at hm
  rcases hm with h | h | h | h | h <;> rw [h]
  · exact genChk_passes
  · exact genChk2_passes
  · exact srcDstFixup_passes fun _ _ _ _ => rfl
  · exact srcDstFixup_passes fun _ _ _ _ => rfl
  · exact srcStore_passes fun _ _ _ => rfl

/-! ## Described runs -/

theorem FlagSpec.described {m} (hm : FlagSpec dead live m) (hrun : m s = .ok () t) :
    Described m dead live s t where
  forgets := by
    intro f hd hl b t' hrun'
    have h := hm.kills f hd hl hrun b
    rw [hrun'] at h
    cases h
    rfl
  keeps := fun f hd => hm.keeps.run f hd hrun

theorem not_described_of_passes {m}
    (hpass : ∀ b, m (s.setFlag f b) = .ok () (t.setFlag f b)) (hd : f ∈ flagSet dead)
    (hl : f ∉ flagSet live) : ¬Described m dead live s t := by
  intro h
  have hval := h.forgets f hd hl (!t.flags.get f) _ (hpass _)
  simp [CpuState.setFlag, Flags.get_set] at hval

theorem described_noStatus_bind {m} {k : α → CpuM Unit} (hm : NoStatus m) {a : α}
    {u : CpuState} (h : m s = .ok a u) :
    Described (m >>= k) dead live s t ↔ Described (k a) dead live u t := by
  have hflip : ∀ f b, (m >>= k) (s.setFlag f b) = k a (u.setFlag f b) :=
    fun f b => bind_ok (hm.run_setFlag h f b)
  have hflags := hm.keepsFlags.run h
  constructor
  · intro hd
    exact ⟨fun f hf hl b t' hrun => hd.forgets f hf hl b t' ((hflip f b).trans hrun),
      fun f hf => hflags ▸ hd.keeps f hf⟩
  · intro hd
    exact ⟨fun f hf hl b t' hrun => hd.forgets f hf hl b t' ((hflip f b).symm.trans hrun),
      fun f hf => hflags ▸ hd.keeps f hf⟩

theorem described_get_bind {k} (hk : ∀ f b, k (s.setFlag f b) = k s) :
    Described (get >>= k) dead live s t ↔ Described (k s) dead live s t := by
  have hflip : ∀ f b, (get >>= k) (s.setFlag f b) = k s (s.setFlag f b) := by
    intro f b
    rw [bind_ok (get_apply _), hk]
  constructor
  · intro hd; exact ⟨fun f hf hl b t' hrun => hd.forgets f hf hl b t' ((hflip f b).trans hrun), hd.keeps⟩
  · intro hd; exact ⟨fun f hf hl b t' hrun => hd.forgets f hf hl b t' ((hflip f b).symm.trans hrun), hd.keeps⟩

theorem described_bind_syncPc {m t₁} (hsync : syncPc t₁ = .ok () t) :
    Described (m >>= fun _ => syncPc) dead live s t ↔ Described m dead live s t₁ := by
  have hflags := syncPc_noStatus.keepsFlags.run hsync
  constructor
  · intro h
    refine ⟨fun f hd hl b t' hrun => ?_, fun f hd => hflags ▸ h.keeps f hd⟩
    have hrun' : (m >>= fun _ => syncPc) (s.setFlag f b) = _ := (bind_ok hrun).trans (modify_apply ..)
    have hval := h.forgets f hd hl b _ hrun'
    rw [← hflags]; exact hval
  · intro h
    refine ⟨fun f hd hl b t' hrun => ?_, fun f hd => hflags ▸ h.keeps f hd⟩
    obtain ⟨_, u, hu, hsync'⟩ := bind_ok_inv hrun
    rw [hflags, syncPc_noStatus.keepsFlags.run hsync']; exact h.forgets f hd hl b u hu

theorem described_genOpcode (h : genOpcode ext fuel opcode i s = .ok () t) :
    ∃ t₁, genBody ext fuel opcode i (entered s) = .ok () t₁ ∧ ∀ dead live,
      (Described (genOpcode ext fuel opcode i) dead live s t ↔
        Described (genBody ext fuel opcode i) dead live (entered s) t₁) := by
  rw [genOpcode, bind_ok (modify_apply ..)] at h
  obtain ⟨_, s₁, hpriv, h⟩ := bind_ok_inv h
  have hs₁ : s₁ = entered s := by
    rw [checkPrivilege, bind_ok (get_apply _), doIf] at hpriv
    split at hpriv
    · cases hpriv
    · cases hpriv; rfl
  subst hs₁
  obtain ⟨_, t₁, hbody, hsync⟩ := bind_ok_inv h
  refine ⟨t₁, hbody, fun dead live => ?_⟩
  rw [genOpcode, described_noStatus_bind (.modify rfl) (modify_apply ..),
    described_noStatus_bind checkPrivilege_noStatus hpriv, described_bind_syncPc hsync]

/-! ## Divisions -/

theorem described_quotient {op : Option α → FlagOp (Option α)} {k : Option α → CpuM Unit}
    {r : Option α} (hsome : ∀ a, OpSpec 0x0f 0 (op (some a)))
    (hnone : ∀ g b, op none (g.set .z b) = ((op none g).1.set .z b, (op none g).2))
    (hk : ∀ a, NoStatus (k a)) (h : (alu (op r) >>= k) s = .ok () t) :
    Described (alu (op r) >>= k) 0x0f 0 s t ↔ r.isSome := by
  cases r with
  | some a =>
    have hspec : FlagSpec 0x0f 0 (alu (op (some a)) >>= k) :=
      .bind_keeps (.alu (hsome a)) fun _ => (hk _).keepsFlags
    exact iff_of_true (hspec.described h) rfl
  | none =>
    have hpass : PassesFlag .z (alu (op none) >>= k) := .alu_bind hnone hk
    exact iff_of_false (not_described_of_passes (hpass.run h) (by decide) (by decide)) (by simp)

theorem genDiv_described {sgn} {result : BitVec 32 → BitVec 32 → Option (BitVec 32)}
    (h : genDiv i sgn result s = .ok () t) : Described (genDiv i sgn result) 0x0f 0 s t ↔
      ∀ src dst u, divOperands i s = .ok (src, dst) u → (result src dst).isSome := by
  rw [genDiv, bind_ok (get_apply _)] at h
  obtain ⟨⟨src, dst⟩, u, hops, h⟩ := bind_ok_inv h
  have hfits : (∀ src dst u, divOperands i s = .ok (src, dst) u → (result src dst).isSome)
      ↔ (result src dst).isSome := by
    refine ⟨fun hall => hall _ _ _ hops, fun hsome _ _ _ hops' => ?_⟩
    rw [hops] at hops'
    cases hops'
    exact hsome
  rw [genDiv, described_get_bind fun _ _ => rfl, described_noStatus_bind divOperands_noStatus hops, hfits]
  dsimp only at h ⊢
  split_ifs at h with hsrc hnone
  · cases h
  · cases h
  · rw [if_neg hsrc, if_neg hnone]
    refine described_quotient (fun _ => opSpec_logical ..) (fun _ _ => rfl) (fun r => ?_) h
    cases r with
    | some newv => exact genastore_noStatus ..
    | none => exact .pure _

theorem genDivl_described (h : genDivl i s = .ok () t) : Described (genDivl i) 0x0f 0 s t ↔
      ∀ extra src u, longOperands i s = .ok (extra, src) u →
        (divlResult (extra.setWidth 16) src (u.dreg (numField extra 12))
          (u.dreg (numField extra 0))).isSome := by
  rw [genDivl, bind_ok (get_apply _)] at h
  obtain ⟨⟨extra, src⟩, u, hops, h⟩ := bind_ok_inv h
  have hfits : (∀ extra src u, longOperands i s = .ok (extra, src) u →
        (divlResult (extra.setWidth 16) src (u.dreg (numField extra 12))
          (u.dreg (numField extra 0))).isSome)
      ↔ (divlResult (extra.setWidth 16) src (u.dreg (numField extra 12))
          (u.dreg (numField extra 0))).isSome := by
    refine ⟨fun hall => hall _ _ _ hops, fun hsome _ _ _ hops' => ?_⟩
    rw [hops] at hops'
    cases hops'
    exact hsome
  rw [genDivl, described_get_bind fun _ _ => rfl, described_noStatus_bind longOperands_noStatus hops,
    hfits]
  dsimp only at h ⊢
  rw [bind_ok (get_apply _)] at h
  rw [described_get_bind fun _ _ => rfl]
  split_ifs at h with hsrc hnone
  · cases h
  · cases h
  · rw [if_neg hsrc, if_neg hnone]
    refine described_quotient (fun _ => opSpec_logical ..) (fun _ _ => rfl) (fun r => ?_) h
    cases r with
    | some r => exact .modify rfl
    | none => exact .pure _

/-! ## All bodies -/

theorem table68k_misdescribed {opc} (h : table68k opc = some i) :
    (i.mnemo ∈ [.chk, .chk2, .sbcd, .abcd, .nbcd] → .n ∈ flagSet i.flagdead ∧ .n ∉ flagSet i.flaglive)
      ∧ (i.mnemo ∈ [.divu, .divs, .divl] → i.flagdead = 0x0f ∧ i.flaglive = 0)
      ∧ (i.mnemo = .emulop → i.flagdead = 0) := by
  obtain ⟨d, hd, hl⟩ := table68k_fromLine h
  obtain ⟨h₁, h₂, h₃⟩ := lines_misdescribed d hd i.mnemo hl.mnemo
  have huse : ¬(i.mnemo = .scc ∨ i.mnemo = .bcc ∨ i.mnemo = .dbcc ∨ i.mnemo = .trapcc) →
      i.flaglive = d.flagsUsed i.mnemo 0 := by
    intro hcc
    rw [hl.flaglive, InstrDef.flagsUsed, InstrDef.flagsUsed, if_neg hcc, if_neg hcc]
  rw [hl.flagdead]
  refine ⟨fun hm => ?_, fun hm => ?_, h₃⟩
  · rw [huse (by simp only [mem_cons, not_mem_nil, or_false] at hm; grind)]; exact h₁ hm
  · rw [huse (by simp only [mem_cons, not_mem_nil, or_false] at hm; grind)]; exact h₂ hm

theorem genEmulop_described (hext : ext.KeepsFlags) (h : genEmulop ext opcode s = .ok () t) :
    Described (genEmulop ext opcode) 0 live s t ↔
      (opcode = M68K_EMUL_RESET → s.flags = ⟨false, false, false, false, false⟩) := by
  have hflags : Described (genEmulop ext opcode) 0 live s t ↔ t.flags = s.flags := by
    constructor
    · intro hd; exact Flags.ext_get fun f => hd.keeps f (by cases f <;> decide)
    · intro heq; exact ⟨fun f hf => absurd hf (by cases f <;> decide), fun f _ => by rw [heq]⟩
  rw [hflags]
  by_cases hop : opcode = M68K_EMUL_RESET
  · subst hop; rw [genEmulop_reset_flags h]; exact ⟨fun heq _ => heq.symm, fun heq => (heq rfl).symm⟩
  · exact iff_of_true (genEmulop_flags hext h hop) fun heq => absurd heq hop

theorem genBody_described_of_table (hext : ext.KeepsFlags) {opc}
    (hi : table68k opc = some i) (hm : i.mnemo ∉ misdescribed) (h : genBody ext fuel opc i s = .ok () t) :
    Described (genBody ext fuel opc i) i.flagdead i.flaglive s t := by
  have hm' : i.mnemo ∉ [.divu, .divs, .divl, .emulop] := by
    simp only [misdescribed, mem_cons, not_mem_nil, or_false] at hm ⊢
    tauto
  obtain ⟨hd, hl⟩ := table68k_flagEffect hi hm
  rw [hd]
  exact ((genBody_spec hext hm').mono hl).described h

theorem genBody_described (hext : ext.KeepsFlags) {opc} (hi : table68k opc = some i)
    (h : genBody ext fuel opc i (entered s) = .ok () t) :
    Described (genBody ext fuel opc i) i.flagdead i.flaglive (entered s) t ↔ MasksHold opc i s := by
  obtain ⟨hpassed, hdiv, hemul⟩ := table68k_misdescribed hi
  unfold MasksHold
  cases hm : i.mnemo with
  | chk | chk2 | sbcd | abcd | nbcd =>
    have hmem : i.mnemo ∈ [.chk, .chk2, .sbcd, .abcd, .nbcd] := by simp [hm]
    obtain ⟨hd, hl⟩ := hpassed hmem
    exact iff_of_false (not_described_of_passes ((genBody_passes hmem).run h) hd hl) id
  | divu | divs =>
    obtain ⟨hd, hl⟩ := hdiv (by simp [hm])
    simp only [genBody, hm, hd, hl] at h ⊢; exact genDiv_described h
  | divl =>
    obtain ⟨hd, hl⟩ := hdiv (by simp [hm])
    simp only [genBody, hm, hd, hl] at h ⊢; exact genDivl_described h
  | emulop => simp only [genBody, hm, hemul hm] at h ⊢; exact genEmulop_described hext h
  | _ => exact iff_of_true (genBody_described_of_table hext hi (by rw [hm]; decide) h) trivial

end Aranym.Jit
