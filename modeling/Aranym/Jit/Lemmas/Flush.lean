import Aranym.Jit.Lemmas.Midfunc

/-!
# The end of a block

`flush` sends every register that the next block reads to its memory cell.
-/

namespace Aranym.Jit

open Aranym.Lib List

variable {H : Host} {l l' l₁ l₂ : Live H} {r q : VReg} {n : Fin H.nRegs} {E : Abort → Prop}

def Flushed (st : RegStatus H) : Prop := st.status = .undef ∨ Calm st

structure FlushedReg (r : VReg) (l l' : Live H) : Prop where
  consistent : Consistent l'
  moved : Moved r 2 l l'
  sim : Sim (fun _ => False) id l l'
  flushed : (l.state r).needflush = .tomem → r ≠ pcP → Flushed (l'.state r)
  stays : Flushed (l.state r) → Flushed (l'.state r)

theorem FlushedReg.of_store {m : Machine H → BitVec 32} (op : Raw H) (hc : Consistent l)
    (hr : (l.state r).realreg = none)
    (hl' : l' = { l.setState r fun st => { st with val := 0, status := .inmem } with
      target := l.target ++ [op] })
    (hop : ∀ t, op.exec t = some (t.setMem r (m t)))
    (hrep : ∀ t w, RepAt (l.state r) t r w → w.Agree (m t)) : FlushedReg r l l' := by
  have hst : l'.state r = { l.state r with val := 0, status := .inmem } := by rw [hl']; simp
  have hcalm : Flushed (l'.state r) := by rw [hst]; exact .inr ⟨rfl, .inl rfl⟩
  refine ⟨?_, ?_, .of_emit (by rw [hl']) (fun v t ht => ⟨_, hop t, fun q => ?_, fun _ _ => rfl, by simp⟩)
    fun v hv => hv, fun _ _ => hcalm, fun _ => hcalm⟩
  · have h := consistent_out (g := fun st => { st with val := 0, status := .inmem }) hc hr hr rfl
      (by simp [InReg])
    rw [hl']; exact ⟨h.slots, h.placed, h.touched⟩
  · have h : Moved r 2 l (l.setState r fun st => { st with val := 0, status := .inmem }) :=
      (moved_setState rfl).trans (.refl r 2 _)
    rw [hl']
    exact ⟨⟨h.locked, h.touchcnt, h.held, h.needflush, h.flagsOnStack, h.m68kPcOffset⟩, h.calm, h.outside⟩
  · by_cases hq : q = r
    · subst hq
      have hmem : (t.setMem q (m t)).mem q = m t := Function.update_self ..
      rw [hst]
      simp only [RepAt, hmem, plus_zero]; exact hrep t _ (ht.at_reg q)
    · have hstq : l'.state q = l.state q := by rw [hl']; simp [state_setState, hq]
      rw [hstq]; exact (ht.at_reg q).congr rfl (Function.update_of_ne hq ..) fun _ _ => rfl

theorem FlushedReg.refl (hc : Consistent l)
    (h : (l.state r).needflush = .tomem → r ≠ pcP → Flushed (l.state r)) : FlushedReg r l l :=
  ⟨hc, .refl r 2 l, .refl l, h, fun h => h⟩

theorem flushReg_ends (hc : Consistent l) (hroom : Room E 2 2 l) (hp : Pinned l r → (l.state r).val = 0) :
    Ends E (flushReg r) l fun _ l' => FlushedReg r l l' := by
  have hout : ∀ s, (l.state r).status = s → s ≠ .clean → s ≠ .dirty → (l.state r).realreg = none := by
    intro s hs h₁ h₂
    refine hc.realreg_none fun hin => ?_
    rcases isinreg_iff.mp hin with h | h
    · exact h₁ (hs.symm.trans h)
    · exact h₂ (hs.symm.trans h)
  refine .get_bind (.doIf (fun hneed => ?_) fun hneed => .refl hc fun h => absurd h hneed)
  have hreg : ∀ (s : Status), (l.state r).status = s → s = .clean ∨ s = .dirty →
      Ends E (do removeOffset r none; tomem r) l fun _ l' => FlushedReg r l l' := by
    intro s hs hin
    obtain ⟨n, hr⟩ := hc.exists_realreg (isinreg_iff.mpr (by rw [InReg, hs]; exact hin))
    refine .bind ((removeOffset_ends hc hroom hp).mono fun _ l₁ h => ?_)
    obtain ⟨n₁, hr₁⟩ := Option.isSome_iff_exists.mp (h.isSome (by rw [hr]; rfl))
    refine (tomem_ends h.consistent hr₁).mono fun _ l' hst => ?_
    have hval := hst.val (h.val.resolve_right (h.consistent.ne_isconst hr₁))
    have hcalm : Flushed (l'.state r) := .inr ⟨hval, .inr (by rw [hst.state])⟩
    exact ⟨hst.consistent, h.moved.trans (hst.moved hr₁ r),
      h.sim.andThen h.moved.locked hst.sim, fun _ _ => hcalm, fun _ => hcalm⟩
  cases hs : (l.state r).status with
  | undef => exact .pure (.refl hc fun _ _ => .inl hs)
  | clean => exact hreg _ hs (.inl rfl)
  | dirty => exact hreg _ hs (.inr rfl)
  | inmem =>
    refine .doIf (fun _ => .modify_bind (.modify ?_)) fun hval => ?_
    · refine .of_store (m := fun t => t.mem r + (l.state r).val)
        (.addLMi r (l.state r).val) hc (hout _ hs (by simp) (by simp)) ?_ (fun _ => rfl) fun t w hw => ?_
      · simp [Live.setState, hs]
      · simpa only [RepAt, hs] using hw
    · exact .refl hc fun _ _ => .inr ⟨not_not.mp hval, .inl hs⟩
  | isconst =>
    refine .doIf (fun _ => .get_bind (.doIf (fun _ => .bind (.doIf (fun hh => ?_) fun _ => ?_)) fun hn => ?_))
      fun hpc => .refl hc fun _ h => absurd h hpc
    · rw [hneed] at hh; cases hh
    · refine .modify_bind (.modify ?_)
      refine .of_store (m := fun _ => (l.state r).val) (.movLMi r (l.state r).val) hc
        (hout _ hs (by simp) (by simp)) ?_ (fun _ => rfl) fun t w hw => ?_
      · simp [Live.setState]
      · simpa only [RepAt, hs] using hw
    · exact absurd (by simp [Live.isconst, hs]) hn

theorem FlushedReg.flushed_of_ne (h : FlushedReg r l l') (hc : Consistent l) (hq : q ≠ r)
    (hf : Flushed (l.state q)) : Flushed (l'.state q) := by
  rcases hf with hs | hcalm
  · have hr : (l.state q).realreg = none := hc.realreg_none fun hin => by
      rcases isinreg_iff.mp hin with h | h <;> cases h.symm.trans hs
    rw [h.moved.outside q hq hr]; exact .inl hs
  · exact .inr (h.moved.calm q hq hcalm)

theorem flushRegs_ends (rs : List VReg) (hc : Consistent l) (hroom : Room E 2 (2 * rs.length) l)
    (hrest : Resting l) : Ends E (flushRegs rs) l fun _ l' => Does (2 * rs.length) id l l'
      ∧ ∀ r, Flushed (l.state r) ∨ (r ∈ rs ∧ (l.state r).needflush = .tomem ∧ r ≠ pcP) →
        Flushed (l'.state r) := by
  induction rs generalizing l with
  | nil =>
    refine .pure ⟨⟨hc, (Moved.refl 0 0 l).toKept, .refl l⟩, fun r h => ?_⟩
    exact h.resolve_right fun h => absurd h.1 (by simp)
  | cons a rs ih =>
    rw [length_cons] at hroom
    refine .bind ((flushReg_ends (r := a) hc (hroom.mono (le_refl 2) (by omega))
      fun hp => absurd hp hrest.not_pinned).mono fun _ l₁ h => ?_)
    have hroom₁ : Room E 2 (2 * rs.length) l₁ := hroom.moved h.moved (by omega)
    refine (ih h.consistent hroom₁ (hrest.kept h.moved.toKept)).mono fun _ l' ⟨hd, hf⟩ => ⟨?_, fun r hr => hf r ?_⟩
    · refine ⟨hd.consistent, (h.moved.toKept.trans hd.kept).mono ?_, ?_⟩
      · rw [length_cons]; omega
      · exact h.sim.andThen h.moved.locked hd.sim
    · by_cases hra : r = a
      · subst hra
        rcases hr with hr | ⟨-, hneed, hpc⟩
        · exact .inl (h.stays hr)
        · exact .inl (h.flushed hneed hpc)
      · rcases hr with hr | ⟨hmem, hneed, hpc⟩
        · exact .inl (h.flushed_of_ne hc hra hr)
        · refine .inr ⟨(mem_cons.mp hmem).resolve_left hra, ?_, hpc⟩; rw [h.moved.needflush, hneed]

theorem flush_ends (hc : Consistent l) (hroom : Room E 2 64 l) (hrest : Resting l)
    (hflags : l.flagsOnStack = .valid) (hpc : l.m68kPcOffset = 0) : Ends E flush l fun _ l' => Does 64 id l l'
      ∧ ∀ r, (l.state r).needflush = .tomem → r ≠ pcP → Flushed (l'.state r) := by
  refine .bind (.get_bind (.doIf (fun h => absurd hflags h) fun _ => .bind (.get_bind
    (.doIf (fun h => absurd hpc h) fun _ => ?_))))
  refine (flushRegs_ends (List.finRange 32) hc (by simpa using hroom) hrest).mono
    fun _ l' ⟨hd, hf⟩ => ⟨by simpa using hd, fun r hneed hr => hf r (.inr ⟨mem_finRange r, hneed, hr⟩)⟩

theorem Rep.mem {m v} (h : Rep l m v) (hc : Consistent l)
    (hf : Flushed (l.state r)) : (v r).Agree (m.mem r) := by
  have hat := h.at_reg r
  rcases hf with hs | ⟨hval, hs | hs⟩
  · exact .of_known_zero (by simpa only [RepAt, hs] using hat)
  · simpa only [RepAt, hs, hval, plus_zero] using hat
  · obtain ⟨n, hn⟩ := hc.exists_realreg (isinreg_iff.mpr (.inl hs))
    obtain ⟨-, hd, -, -, -, hclean⟩ := (repAt_inreg (.inl hs) hn).mp hat
    simpa only [hclean hs, part_zero, hval, plus_zero] using hd

/-! ## A block -/

structure Between (b : Nat) (l : Live H) : Prop where
  consistent : Consistent l
  resting : Resting l
  spare : Spare 4 b l
  flags : l.flagsOnStack = .valid
  pc : l.m68kPcOffset = 0
  needflush : ∀ r, (l.state r).needflush = initNeedflush r

theorem Between.does {b k f} (h : Between (b + k) l) (hd : Does k f l l') : Between b l' where
  consistent := hd.consistent
  resting := h.resting.kept hd.kept
  spare := by
    have hroom : Room (fun _ => False) 4 (b + k) l := .inr h.spare
    exact (hroom.kept hd.kept).resolve_left id
  flags := by rw [hd.kept.flagsOnStack, h.flags]
  pc := by rw [hd.kept.m68kPcOffset, h.pc]
  needflush := fun r => by rw [hd.kept.needflush, h.needflush]

theorem between_init (H : Host) (compPcP : BitVec 32) {b} (hb : b + 1 ≤ 2000000000) :
    Between b (initComp H compPcP) where
  consistent := by
    refine ⟨fun r n i => ?_, fun r => ?_, fun _ => Nat.one_pos⟩
    · simp [Live.slots, initComp]
    · refine ⟨?_, by simp [initComp], by simp [initComp]⟩; simp only [InReg, initComp, initStatus]; grind
  resting := fun _ _ => rfl
  spare := by
    refine ⟨by simp only [initComp]; omega, ?_⟩
    have h := H.four_le; simpa [initComp] using h
  flags := rfl
  pc := rfl
  needflush := fun _ => rfl

theorem compileAll_ends (ops : List MidOp) {b} (h : Between (b + 9 * ops.length) l) (hsafe : SafeRun ops l) :
    Ends (fun _ => False) (compileAll ops) l fun _ l' =>
      Between b l' ∧ Does (9 * ops.length) (interpAll ops) l l' := by
  induction ops generalizing l with
  | nil => exact .pure ⟨h, h.consistent, (Moved.refl 0 0 l).toKept, .refl l⟩
  | cons op ops ih =>
    have hroom : Room (fun _ => False) 3 8 l :=
      .inr ⟨by have := h.spare.touchcnt; simp only [length_cons] at this; omega,
        h.spare.free.trans' (by omega)⟩
    have hstep := compile_ends op h.consistent hroom h.resting h.flags hsafe.1
    refine .bind ?_
    unfold Ends at hstep ⊢
    cases hrun : op.compile l with
    | error e l₁ => rw [hrun] at hstep; exact hstep
    | ok u l₁ =>
      rw [hrun] at hstep
      have hnext : Between (b + 9 * ops.length) l₁ := by
        refine Between.does ?_ hstep
        rw [length_cons] at h
        convert h using 1
        omega
      refine (ih hnext (hsafe.2 l₁ hrun)).mono fun _ l' ⟨hb, hd⟩ => ⟨hb, hd.consistent, ?_, ?_⟩
      · refine (hstep.kept.trans hd.kept).mono ?_; rw [length_cons]; omega
      · exact hstep.sim.andThen hstep.kept.locked hd.sim

theorem rep_init (H : Host) (compPcP : BitVec 32) (m : Machine H) :
    Rep (initComp H compPcP) m (initFile m) where
  at_reg := by
    intro r
    unfold initFile
    by_cases hr : r.val < 16
    · have hpc : r ≠ pcP := by rintro rfl; exact absurd hr (by decide)
      simp only [RepAt, initComp, initStatus, hr, true_or, if_true, hpc, if_false, plus_zero]
      exact Word.agree_ofValue.mpr rfl
    · rw [if_neg hr]
      unfold RepAt
      split
      · rfl
      · exact Word.agree_unknown
      · exact Word.agree_unknown
      · simp [initComp]
      · simp [initComp]
  flagX := rfl

end Aranym.Jit
