import Aranym.Jit.Lemmas.Described
import Aranym.Jit.Tracked

/-!
# Theorems about the compiler
-/

namespace Aranym.Jit

open Aranym.Lib Aranym.Cpu

variable {κ : Type}

/-! ## Dead flags -/

/-- The compiled block has the registers and the memory of the full execution after every entry, and
its flags at the end. -/
theorem compiledRun_eq_fullRun (block : List (Entry κ)) (hmasks : ∀ e ∈ block, e.MasksCorrect)
    (s t : κ × Flags) (cs : List κ) (hrun : CompiledRun block s cs t) : fullRun block s = (cs, t) := by
  obtain ⟨hcs, hcore, hflags⟩ := (hrun.relaxed hmasks).cores_eq
    (fun e he l => (hmasks e he).sound (liveflags (l.map Entry.prop))) s.2 fun i _ => rfl
  have hlast : (fullRun block s).2.2 = t.2 := Flags.ext_get fun i => hflags i mem_flagSet_all
  exact Prod.ext hcs (Prod.ext hcore hlast)

def countEntry : Entry (BitVec 32) where
  core := fun c _ => c + 1
  comp := fun _ f => ⟨f.x, false, true, false, false⟩
  prop := ⟨0, 0x0f, false⟩

theorem countEntry_masksCorrect : countEntry.MasksCorrect where
  core_use := fun _ _ _ _ => rfl
  flags_use := by
    intro c f g _ i hi
    cases i with
    | x => simp [mem_flagSet, countEntry, flagBit] at hi
    | n => rfl
    | z => rfl
    | v => rfl
    | c => rfl
  flags_unset := by
    intro c f i hi
    cases i with
    | x => rfl
    | n => exact absurd rfl hi
    | z => exact absurd rfl hi
    | v => exact absurd rfl hi
    | c => exact absurd rfl hi
  addx := fun h => by cases h

theorem compiledRun_two_counts : fullRun [countEntry, countEntry] (0, ⟨true, false, false, false, false⟩)
      = ([1, 2], (2, ⟨true, false, true, false, false⟩)) := by
  have hrubbish : VariantFlags countEntry (liveflags [countEntry.prop]) 0
      ⟨true, false, false, false, false⟩ ⟨true, true, false, true, true⟩ := by
    intro i hi
    cases i with
    | x => rfl
    | n => exact absurd rfl hi
    | z => exact absurd rfl hi
    | v => exact absurd rfl hi
    | c => exact absurd rfl hi
  have hcare : DontCare (liveflags [countEntry.prop]) ⟨true, true, false, true, true⟩
      ⟨true, true, true, true, false⟩ := rfl
  have hlast : VariantFlags countEntry (liveflags []) 1 ⟨true, true, true, true, false⟩
      ⟨true, false, true, false, false⟩ := rfl
  refine compiledRun_eq_fullRun _ (fun e he => ?_) _ _ _
    (.cons hrubbish hcare (.cons hlast rfl (.nil _)))
  simp only [List.mem_cons, List.not_mem_nil, or_false, or_self] at he
  rw [he]
  exact countEntry_masksCorrect

/-! ## The masks of the table -/

/-- The masks of an opcode describe a run of its handler exactly when the instruction is not `CHK`,
`CHK2` or a decimal one, not a division whose quotient does not fit, and not the reset by `EmulOp`
with a flag that is set. -/
theorem cpufunctbl_described_iff (ext : Ext) (hext : ext.KeepsFlags) (fuel : Nat) (opc : BitVec 16)
    (s t : CpuState) (hrun : cpufunctbl ext fuel opc s = .ok () t) : ∃ i, table68k opc = some i ∧
      (Described (cpufunctbl ext fuel opc) i.flagdead i.flaglive s t ↔ MasksHold opc i s) := by
  unfold cpufunctbl at hrun ⊢
  obtain ⟨e, u, hillg⟩ := opIllg_throws ext opc s
  cases hi : table68k opc with
  | none => rw [hi] at hrun; dsimp only at hrun; rw [hillg] at hrun; cases hrun
  | some i =>
    refine ⟨i, rfl, ?_⟩
    rw [hi] at hrun
    dsimp only at hrun ⊢
    by_cases hbad : i.mnemo = .illg ∨ 4 < i.clev
    · rw [if_pos hbad, hillg] at hrun; cases hrun
    · rw [if_neg hbad] at hrun ⊢
      obtain ⟨t₁, hbody, hdesc⟩ := described_genOpcode hrun
      rw [hdesc, genBody_described hext hi hbody]

theorem idle_keepsFlags : Ext.idle.KeepsFlags where
  fpu := fun _ _ _ _ => .pure _
  atariReset := .pure _
  emulOp := fun _ => .pure _

theorem add_described : ∃ i t, table68k 0xd280 = some i
    ∧ cpufunctbl Ext.idle 0 0xd280 (sampleState false) = .ok () t
    ∧ Described (cpufunctbl Ext.idle 0 0xd280) i.flagdead i.flaglive (sampleState false) t := by
  obtain ⟨i, hi, hdesc⟩ := cpufunctbl_described_iff Ext.idle idle_keepsFlags 0 0xd280
    (sampleState false) _ rfl
  refine ⟨i, _, hi, rfl, hdesc.mpr ?_⟩
  cases hi
  trivial

/-- `CHK.W D1,D0` without a trap: `N` is declared as set, and the handler does not touch it. -/
theorem chk_not_described : ∃ i t, table68k 0x4181 = some i
    ∧ cpufunctbl Ext.idle 0 0x4181 (sampleState false) = .ok () t
    ∧ ¬Described (cpufunctbl Ext.idle 0 0x4181) i.flagdead i.flaglive (sampleState false) t := by
  refine ⟨_, _, rfl, rfl, fun h => ?_⟩
  have hval := h.forgets .n (by decide) (by decide) false _ rfl
  cases hval

/-! ## The tables of the allocator -/

/-- In every state that the operations reach under the rules for locks, the tables track every
register. An operation that keeps to the rules does not abort in `evict`, and no locked native register
loses all that it holds. -/
theorem reaches_tracked (H : Host) (compPcP : BitVec 32) (l : Live H) (h : Reaches compPcP l) :
    Tracked l ∧ ∀ op : AllocOp H, op.Allowed l → (∀ e l', op.run l = .error e l' → e ≠ .locked)
        ∧ ∀ l', op.run l = .ok () l' → ∀ n, (l.nat n).locked ≠ 0 → 0 < (l.nat n).nholds →
          0 < (l'.nat n).nholds := by
  refine ⟨h.good.consistent.tracked, fun op ha => ⟨fun e l' hrun => ?_, fun l' hrun => ?_⟩⟩
  · rcases (op.run_ends h.good ha).error hrun with he | he <;> rw [he] <;> simp
  · exact ((op.run_ends h.good ha).ok hrun).2

theorem readreg_tracked : ∃ l : Live x8664, (AllocOp.readreg 0 4 none false).run (initComp x8664 0) = .ok () l
    ∧ Tracked l ∧ ((AllocOp.evict 1).Allowed l →
      ∀ e l', (AllocOp.evict 1).run l = .error e l' → e ≠ .locked) := by
  have hallowed : (AllocOp.readreg 0 4 none false).Allowed (initComp x8664 0) :=
    ⟨mayUse_four _ _, by simp [Pinned, initComp], by simp [Pinned, initComp]⟩
  have hrun : ∃ l : Live x8664, (AllocOp.readreg 0 4 none false).run (initComp x8664 0) = .ok () l :=
    ⟨_, rfl⟩
  obtain ⟨l, hl⟩ := hrun
  have h := reaches_tracked x8664 0 l (.step .init hallowed hl)
  exact ⟨l, hl, h.1, fun ha => (h.2 _ ha).1⟩

/-- A scratch register has no value at the begin of a block: it is in no native register, not in
memory and not a constant. -/
theorem scratch_undef : Reaches (H := x8664) 0 (initComp x8664 0)
    ∧ ((initComp x8664 0).state 20).status ≠ .inmem ∧ ((initComp x8664 0).state 20).status ≠ .isconst
    ∧ ((initComp x8664 0).state 20).realreg = none := by
  exact ⟨.init, by decide, by decide, rfl⟩

/-! ## The values of a block -/

/-- A block in which no offset is added to a register that is only partly in a native one runs, and
leaves in memory all that the direct interpretation knows of the registers of the 68k. -/
theorem runBlock_agrees (H : Host) (compPcP : BitVec 32) (ops : List MidOp) (m : Machine H)
    (hlen : 9 * ops.length + 65 ≤ 2000000000) (hsafe : SafeRun ops (initComp H compPcP)) :
    ∃ m', runBlock H compPcP ops m = some m'
      ∧ ∀ r : VReg, r.val < 16 → (interpAll ops (initFile m) r).Agree (m'.mem r) := by
  have hinit := between_init H compPcP (b := 64 + 9 * ops.length) (by omega)
  have hrun : Ends (fun _ => False) (do compileAll ops; flush : Alloc H Unit) (initComp H compPcP)
      fun _ l' => Consistent l' ∧ Sim (fun _ => False) (interpAll ops) (initComp H compPcP) l'
        ∧ ∀ r : VReg, r.val < 16 → Flushed (l'.state r) := by
    refine .bind ((compileAll_ends ops hinit hsafe).mono fun _ l₁ ⟨hb, hd₁⟩ => ?_)
    have hroom : Room (fun _ => False) 2 64 l₁ := .inr ⟨hb.spare.touchcnt, hb.spare.free.trans' (by omega)⟩
    refine (flush_ends hb.consistent hroom hb.resting hb.flags hb.pc).mono fun _ l' ⟨hd, hf⟩ =>
      ⟨hd.consistent, hd₁.sim.andThen hd₁.kept.locked hd.sim,
        fun r hr => hf r ?_ ?_⟩
    · rw [hb.needflush, initNeedflush, if_pos (.inl hr)]
    · rintro rfl; exact absurd hr (by decide)
  unfold Ends at hrun
  cases hres : (do compileAll ops; flush : Alloc H Unit) (initComp H compPcP) with
  | error e l' => rw [hres] at hrun; exact hrun.elim
  | ok u l' =>
    rw [hres] at hrun
    obtain ⟨hc, hsim, hflushed⟩ := hrun
    obtain ⟨code, m', ht, he, hrep, -⟩ := hsim (initFile m) m (rep_init H compPcP m)
    have ht' : l'.target = code := ht
    refine ⟨m', ?_, fun r hr => hrep.mem hc (hflushed r hr)⟩
    simp only [runBlock, hres, ht', he]

def d0 : GReg := ⟨0, .inl (by decide)⟩

def d1 : GReg := ⟨1, .inl (by decide)⟩

def mixed (H : Host) : Machine H where
  nat := fun _ => 0xdead0000
  mem := fun r => if r = 0 then 0x77771000 else 0x12342000

theorem add_then_move_agrees : ∃ m', runBlock x8664 0 [.addLRi false d0 5, .movWRr d0 d1] (mixed x8664) = some m'
    ∧ ∀ r : VReg, r.val < 16 →
      (interpAll [.addLRi false d0 5, .movWRr d0 d1] (initFile (mixed x8664)) r).Agree (m'.mem r) := by
  refine runBlock_agrees x8664 0 _ (mixed x8664) (by decide) ⟨fun r hr hin => ?_, fun l' _ => ?_⟩
  · have hr0 : r = 0 := by simpa [MidOp.offsetReg, d0] using hr.symm
    subst hr0; exact absurd hin (by decide)
  · exact ⟨by simp [MidOp.Safe, MidOp.offsetReg], fun _ _ => trivial⟩

/-- After `mov_w_rr` only half of `D0` is in the native register. The lazy sum is stored with all of
the register, whose upper half is not that of `D0`. -/
theorem move_then_add_loses_upper :
    (runBlock x8664 0 [.movWRr d0 d1, .addLRi false d0 5] (mixed x8664)).map (fun m => m.mem 0)
        = some 0xdead2005
      ∧ (interpAll [.movWRr d0 d1, .addLRi false d0 5] (initFile (mixed x8664)) 0).value = 0x77772005
      ∧ (interpAll [.movWRr d0 d1, .addLRi false d0 5] (initFile (mixed x8664)) 0).known = 0xffffffff := by
  refine ⟨?_, ?_, ?_⟩ <;> decide

end Aranym.Jit
