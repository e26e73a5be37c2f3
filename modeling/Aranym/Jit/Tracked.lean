import Aranym.Jit.Lemmas.Flush

/-!
# Every virtual register is somewhere

The operations on `live` that the middle layer uses, the rules for locks that it keeps to, and what the
tables say after any number of them.
-/

namespace Aranym.Jit

open Aranym.Lib

variable {H : Host} {l l' l₁ l₂ : Live H} {r q : VReg} {n : Fin H.nRegs} {k : Nat}

/-- The calls that the code generator makes to the allocator. -/
inductive AllocOp (H : Host)
  | readreg (r : VReg) (size : Nat) (spec : Option (Fin H.nRegs)) (canOffset : Bool)
  | writereg (r : VReg) (size : Nat) (spec : Option (Fin H.nRegs))
  | rmw (r : VReg) (wsize rsize : Nat) (spec : Option (Fin H.nRegs))
  | unlock2 (n : Fin H.nRegs)
  | movLRr (d s : VReg)
  | setConst (r : VReg) (val : BitVec 32)
  | evict (r : VReg)
  | freeNreg (n : Fin H.nRegs)
  | movNregs (d s : Fin H.nRegs)
  | makeExclusive (r : VReg) (size : Nat) (spec : Option (Fin H.nRegs))
  | addOffset (r : VReg) (off : BitVec 32)
  | removeOffset (r : VReg) (spec : Option (Fin H.nRegs))
  | forgetAbout (r : VReg)
  | liveFlags
  | flush

def AllocOp.run (op : AllocOp H) : Alloc H Unit :=
  match op with
  | readreg r size spec canOffset => do
    let _ ← readregGeneral r size spec canOffset
  | writereg r size spec => do
    let _ ← writeregGeneral r size spec
  | rmw r wsize rsize spec => do
    let _ ← rmwGeneral r wsize rsize spec
  | unlock2 n => Jit.unlock2 n
  | movLRr d s => Jit.movLRr d s
  | setConst r val => Jit.setConst r val
  | evict r => Jit.evict r
  | freeNreg n => Jit.freeNreg n
  | movNregs d s => Jit.movNregs d s
  | makeExclusive r size spec => Jit.makeExclusive r size spec
  | addOffset r off => Jit.addOffset r off
  | removeOffset r spec => Jit.removeOffset r spec
  | forgetAbout r => Jit.forgetAbout r
  | liveFlags => Jit.liveFlags
  | flush => Jit.flush

/-- The rules for locks. A register alone in a locked native register is not taken out of it, only
what is locked is unlocked, and nothing is locked at the end of a block. -/
def AllocOp.Allowed (op : AllocOp H) (l : Live H) : Prop :=
  match op with
  | readreg r size spec canOffset => MayUse l r size spec
    ∧ (Pinned l r → size ≤ (l.state r).validsize)
    ∧ (canOffset = false → Pinned l r → (l.state r).val = 0)
  | writereg r size spec => MayUse l r size spec ∧ (size < 4 → Pinned l r → (l.state r).val = 0)
  | rmw r wsize rsize spec => MayUse l r rsize spec
    ∧ (wsize = 1 ∨ wsize = 2 ∨ wsize = 4) ∧ rsize ≤ wsize
    ∧ (Pinned l r → rsize ≤ (l.state r).validsize) ∧ (Pinned l r → (l.state r).val = 0)
  | unlock2 n => (l.nat n).locked ≠ 0 ∧ H.alwaysUsed n = false
  | movLRr d s => (d ≠ s → ¬Pinned l d) ∧ (Pinned l s → (l.state s).validsize = 4)
  | setConst r _ | evict r | forgetAbout r => ¬Pinned l r
  | freeNreg n => (l.nat n).locked = 0
  | movNregs d s => s ≠ d → (l.nat d).locked = 0 ∧ (l.nat s).locked = 0
  | removeOffset r _ => Pinned l r → (l.state r).val = 0
  | makeExclusive _ _ _ | addOffset _ _ | liveFlags => True
  | flush => ∀ n, H.alwaysUsed n = false → (l.nat n).locked = 0

/-- The states that allowed calls reach from `init_comp`. -/
inductive Reaches (compPcP : BitVec 32) : Live H → Prop
  | init : Reaches compPcP (initComp H compPcP)
  | step {l l' : Live H} {op : AllocOp H} (h : Reaches compPcP l) (ha : op.Allowed l)
      (hrun : op.run l = .ok () l') : Reaches compPcP l'

/-- Each virtual register is in no native one, or in one place of one native register; and each place
of a native register is that of the virtual register it names. -/
structure Tracked (l : Live H) : Prop where
  place : ∀ r, ((l.state r).status = .inmem ∨ (l.state r).status = .isconst ∨ (l.state r).status = .undef)
      ∧ (∀ n i, i < (l.nat n).nholds → (l.nat n).holds i ≠ r)
    ∨ ((l.state r).status = .clean ∨ (l.state r).status = .dirty)
      ∧ ∃ n, (l.state r).realreg = some n ∧ (l.state r).realind < (l.nat n).nholds
        ∧ (l.nat n).holds (l.state r).realind = r
        ∧ ∀ k i, i < (l.nat k).nholds → (l.nat k).holds i = r → k = n ∧ i = (l.state r).realind
  holds : ∀ n i, i < (l.nat n).nholds →
    (l.state ((l.nat n).holds i)).realreg = some n ∧ (l.state ((l.nat n).holds i)).realind = i

theorem Consistent.loc_iff (hc : Consistent l) (i : Nat) : i < (l.nat n).nholds ∧ (l.nat n).holds i = r
      ↔ (l.state r).realreg = some n ∧ (l.state r).realind = i := by
  refine (hc.slots r n i).symm.trans ?_
  simp [Live.slots]

theorem Consistent.tracked (hc : Consistent l) : Tracked l where
  place := by
    intro r
    cases hreg : (l.state r).realreg with
    | none =>
      refine .inl ⟨?_, fun n i hi hr => ?_⟩
      · have hin : ¬InReg (l.state r) := by rw [(hc.placed r).inreg, hreg]; simp
        cases hs : (l.state r).status with
        | inmem => exact .inl rfl
        | isconst => exact .inr (.inl rfl)
        | undef => exact .inr (.inr rfl)
        | clean => exact absurd (.inl hs) hin
        | dirty => exact absurd (.inr hs) hin
      · have h := ((hc.loc_iff i).mp ⟨hi, hr⟩).1; rw [hreg] at h; cases h
    | some n =>
      obtain ⟨hlt, hslot⟩ := slot_of_realreg hc.slots hreg
      refine .inr ⟨hc.inreg hreg, n, rfl, hlt, hslot, fun k i hi hr => ?_⟩
      obtain ⟨hk, hind⟩ := (hc.loc_iff i).mp ⟨hi, hr⟩
      rw [hreg, Option.some.injEq] at hk; exact ⟨hk.symm, hind.symm⟩
  holds := fun n i hi => (hc.loc_iff i).mp ⟨hi, rfl⟩

/-! ## The operations keep the tables -/

structure Good (l : Live H) : Prop where
  consistent : Consistent l
  always : ∀ n, H.alwaysUsed n = true → (l.nat n).locked ≠ 0 ∧ (l.nat n).nholds = 0

def Held (l l' : Live H) : Prop := ∀ n, (l.nat n).locked ≠ 0 → 0 < (l.nat n).nholds → 0 < (l'.nat n).nholds

def Harmless (e : Abort) : Prop := e = .noReg ∨ e = .flagsTrash

theorem room_harmless {k b} : Room Harmless k b l := .inl (.inl rfl)

theorem Good.kept (h : Good l) (hc : Consistent l') (hk : Kept k l l') : Good l' ∧ Held l l' := by
  refine ⟨⟨hc, fun n hn => ?_⟩, fun n hn => (hk.held n hn).mpr⟩
  obtain ⟨hlock, hz⟩ := h.always n hn
  have hiff := hk.held n hlock
  exact ⟨by rwa [hk.locked], by omega⟩

theorem Good.lock (h : Good l) (n : Fin H.nRegs) : Good (l.lock n) := by
  refine ⟨h.consistent.setLocked (· + 1), fun k hk => ?_⟩
  rw [(nat_lock k).2]
  exact ⟨locked_lock_ne_zero (h.always k hk).1, (h.always k hk).2⟩

theorem Good.lockTouch (h : Good l) (hc : Consistent l') (hk : Kept k l l') (n : Fin H.nRegs) :
    Good ((l'.touch n).lock n) ∧ Held l ((l'.touch n).lock n) := by
  obtain ⟨hgood, hheld⟩ := h.kept (consistent_touch hc n) (hk.trans Kept.touch)
  refine ⟨hgood.lock n, fun k hk hpos => ?_⟩
  rw [(nat_lock k).2]
  exact hheld k hk hpos

theorem unheld_of_alone (hc : Consistent l) (hr : (l.state r).realreg = some n)
    (hone : (l.nat n).nholds = 1) :
    (l.setState r fun st => { st with status := .inmem, realreg := none }).setNat n
      (fun x => { x with nholds := 0 }) = l.unheld r n := by
  obtain ⟨hlt, hslot⟩ := slot_of_realreg hc.slots hr
  have hind : (l.state r).realind = 0 := by omega
  rw [hind] at hslot
  have hself : Function.update (l.nat n).holds 0 r = (l.nat n).holds := by
    have h := Function.update_eq_self 0 (l.nat n).holds; rwa [hslot] at h
  simp [Live.unheld, Live.setState, Live.setNat, hone, hind, hslot, hself]

theorem flagsToStack_ends (h : Good l) (hfree : ∀ n, H.alwaysUsed n = false → (l.nat n).locked = 0) :
    Ends Harmless flagsToStack l fun _ l' => Good l' ∧ ∀ n, (l'.nat n).locked = (l.nat n).locked := by
  have hrest : Resting l := by
    intro n hn
    by_cases ha : H.alwaysUsed n
    · exact (h.always n ha).2
    · exact absurd (hfree n (by simpa using ha)) hn
  have hflags : ∀ l₁ : Live H, Good l₁ → (∀ n, (l₁.nat n).locked = (l.nat n).locked) →
      Ends Harmless (modify fun l => { l with flagsOnStack := .valid }) l₁ fun _ l' =>
        Good l' ∧ ∀ n, (l'.nat n).locked = (l.nat n).locked := by
    intro l₁ hg hl
    exact .modify ⟨⟨⟨hg.consistent.slots, hg.consistent.placed, hg.consistent.touched⟩, hg.always⟩, hl⟩
  refine .get_bind (.doIf (fun _ => .bind (.doIf (fun _ => .bind (.doIf (fun _ => .throw (.inr rfl))
    fun _ => .bind ?_)) fun _ => hflags l h fun _ => rfl)) fun _ => ⟨h, fun _ => rfl⟩)
  have hmay : MayUse l flagTmp 4 H.flagNreg1 :=
    ⟨.inr (.inr rfl), fun hp => absurd hp hrest.not_pinned, fun n hn _ =>
      ⟨hfree n (H.flagNreg1_free n hn), fun k hk => by
        by_contra hlock
        have := hrest k hlock
        have := h.consistent.nholds_pos hk
        omega⟩⟩
  refine writeregGeneral_ends h.consistent room_harmless hmay (fun h => absurd h (by omega)) fun n l₁ ho _ => ?_
  obtain ⟨hgood, -⟩ := h.kept (consistent_touch ho.consistent n) (ho.moved.toKept.trans Kept.touch)
  have hone : ((l₁.touch n).nat n).nholds = 1 := by simpa [Live.touch, Live.setNat] using ho.nholds
  have hlock₁ : ∀ k, ((l₁.touch n).nat k).locked = (l.nat k).locked :=
    (ho.moved.toKept.trans Kept.touch).locked
  generalize hl₂ : l₁.touch n = l₂ at hgood hone hlock₁
  have hr₂ : (l₂.state flagTmp).realreg = some n := by rw [← hl₂]; exact ho.realreg
  refine .bind (.modify_bind (.modify_bind (.get_bind (.bind (.doIf (fun hne => ?_) fun _ => .modify ?_)))))
  · exact absurd ((nat_lock n).2.trans hone) hne
  have hcons : Consistent (({ l₂.lock n with target := l₂.target ++ [.flagsToReg n] } : Live H)) :=
    ⟨(hgood.lock n).consistent.slots, (hgood.lock n).consistent.placed, (hgood.lock n).consistent.touched⟩
  have heq := unheld_of_alone hcons hr₂ ((nat_lock n).2.trans hone)
  have hleft := consistent_unheld hcons hr₂
  rw [← heq] at hleft
  refine unlock2_ends ?_ (hflags _ ⟨hleft.setLocked (· - 1), fun k hk => ?_⟩ fun k => ?_)
  · simp [Live.setNat, Live.setState, Live.lock]
  · have hkn : k ≠ n := by rintro rfl; have := (hgood.always k hk).2; omega
    simpa [Live.setNat, Live.setState, Live.lock, Live.unlock, hkn] using hgood.always k hk
  · rw [← hlock₁]
    by_cases hkn : k = n <;> simp [Live.setNat, Live.setState, Live.lock, Live.unlock, hkn]

theorem addOffset_good (h : Good l) (r : VReg) (off : BitVec 32) :
    Good (l.setState r fun st => { st with val := st.val + off }) := ⟨h.consistent.addVal, h.always⟩

theorem flush_good (h : Good l) (hfree : ∀ n, H.alwaysUsed n = false → (l.nat n).locked = 0) :
    Ends Harmless flush l fun _ l' => Good l' ∧ Held l l' := by
  have hheld : ∀ l', Held l l' := by
    intro l' n hn hpos
    by_cases ha : H.alwaysUsed n
    · have := (h.always n ha).2; omega
    · exact absurd (hfree n (by simpa using ha)) hn
  have hregs : ∀ l₁ : Live H, Good l₁ → (∀ n, (l₁.nat n).locked = (l.nat n).locked) →
      Ends Harmless (flushRegs (List.finRange 32)) l₁ fun _ l' => Good l' ∧ Held l l' := by
    intro l₁ hg hl
    have hrest : Resting l₁ := by
      intro n hn
      by_cases ha : H.alwaysUsed n
      · exact (hg.always n ha).2
      · rw [hl] at hn; exact absurd (hfree n (by simpa using ha)) hn
    exact (flushRegs_ends _ hg.consistent room_harmless hrest).mono fun _ l' ⟨hd, _⟩ =>
      ⟨(hg.kept hd.consistent hd.kept).1, hheld l'⟩
  refine .bind ((flagsToStack_ends h hfree).mono fun _ l₁ ⟨hg, hl⟩ => .bind (.get_bind (.doIf (fun hpc => ?_)
    fun _ => hregs l₁ hg hl)))
  refine .bind (.ite (by simp) fun _ => .doIf (fun _ => .modify (.modify ?_)) fun hnot => absurd hpc hnot)
  have hgood := addOffset_good hg pcP l₁.m68kPcOffset
  exact hregs _ ⟨⟨hgood.consistent.slots, hgood.consistent.placed, hgood.consistent.touched⟩, hgood.always⟩ hl

theorem AllocOp.run_ends (op : AllocOp H) (h : Good l) (ha : op.Allowed l) :
    Ends Harmless op.run l fun _ l' => Good l' ∧ Held l l' := by
  have hc := h.consistent
  have hmoved : ∀ {r k l'}, Consistent l' → Moved r k l l' → Good l' ∧ Held l l' :=
    fun hc' hm => h.kept hc' hm.toKept
  cases op with
  | readreg r size spec canOffset =>
    refine .bind (readregGeneral_ends hc room_harmless ha.1 ha.2.1 ha.2.2 fun n l₁ hg _ => .pure ?_)
    exact h.lockTouch hg.consistent hg.moved.toKept n
  | writereg r size spec =>
    refine .bind (writeregGeneral_ends hc room_harmless ha.1 ha.2 fun n l₁ ho _ => .pure ?_)
    exact h.lockTouch ho.consistent ho.moved.toKept n
  | rmw r wsize rsize spec =>
    obtain ⟨hmay, hw, hle, hfit, hval⟩ := ha
    refine .bind (rmwGeneral_ends hc room_harmless hmay hle hw hfit hval fun n l₁ ho _ _ => .pure ?_)
    exact h.lockTouch ho.consistent ho.moved.toKept n
  | unlock2 n =>
    refine unlock2_ends ha.1 ⟨⟨hc.setLocked (· - 1), fun k hk => ?_⟩, fun k _ hpos => ?_⟩
    · have hkn : k ≠ n := by rintro rfl; rw [ha.2] at hk; cases hk
      rw [(nat_unlock k).1, (nat_unlock k).2, if_neg hkn]; exact h.always k hk
    · rwa [(nat_unlock k).2]
  | movLRr d s => exact (movLRr_ends hc room_harmless ha.1 ha.2).mono fun _ l' ⟨hc', hk, _⟩ => h.kept hc' hk
  | setConst r val => exact (setConst_ends hc ha).mono fun _ l' ⟨hc', hm, _⟩ => hmoved hc' hm
  | evict r =>
    cases hr : (l.state r).realreg with
    | none => exact .of_ok (evict_none hc hr) ⟨h, fun _ _ hpos => hpos⟩
    | some n =>
      exact (evict_ends hc hr fun hlock hone => ha ⟨n, hr, hlock, hone⟩).mono fun _ l' he =>
        hmoved he.consistent (he.moved r)
  | freeNreg n => exact (freeNreg_ends hc ha).mono fun _ l' ⟨hf, _⟩ => hmoved hf.consistent (hf.moved 0)
  | movNregs d s =>
    by_cases hne : s = d
    · refine .get_bind (.doIf (fun hsd => absurd hne hsd) fun _ => ⟨h, fun _ _ hpos => hpos⟩)
    · exact (movNregs_ends hc hne (ha hne).1 (ha hne).2).mono fun _ l' ht =>
        hmoved ht.consistent (ht.moved 0)
  | makeExclusive r size spec =>
    exact (makeExclusive_ends hc room_harmless).mono fun _ l' hx => hmoved hx.consistent hx.moved
  | addOffset r off => exact .modify ⟨addOffset_good h r off, fun _ _ hpos => hpos⟩
  | removeOffset r spec =>
    exact (removeOffset_ends hc room_harmless ha).mono fun _ l' hs => hmoved hs.consistent hs.moved
  | forgetAbout r => exact (forgetAbout_ends hc ha).mono fun _ l' ⟨hc', hm, _⟩ => hmoved hc' hm
  | liveFlags => exact .modify ⟨⟨⟨hc.slots, hc.placed, hc.touched⟩, h.always⟩, fun _ _ hpos => hpos⟩
  | flush => exact flush_good h ha

theorem good_init (H : Host) (compPcP : BitVec 32) : Good (initComp H compPcP) := by
  refine ⟨(between_init H compPcP (b := 0) (by omega)).consistent, fun n hn => ⟨?_, rfl⟩⟩
  simp [initComp, hn]

theorem Reaches.good {compPcP} (h : Reaches compPcP l) : Good l := by
  induction h with
  | init => exact good_init H compPcP
  | step h ha hrun ih => exact ((AllocOp.run_ends _ ih ha).ok hrun).1

end Aranym.Jit
