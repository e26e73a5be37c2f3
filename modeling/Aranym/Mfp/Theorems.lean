import Aranym.Lib.Bits
import Aranym.Lib.Run
import Aranym.Mfp.Defs

/-!
# No interrupt is lost

Whenever an unmasked interrupt waits that is above all those in service, the CPU has been told, and it
gets the vector of the highest one.
-/

namespace Aranym.Mfp

open Aranym.Lib BitVec List Nat Bool

variable {m m' : State}

namespace State

/-- `j` is an unmasked interrupt above all that are in service. -/
def Urgent (m : State) (j : Nat) : Prop :=
  m.unmasked.getLsbD j = true ∧ ∀ k, m.irqInservice.getLsbD k = true → k < j

def Raised (m : State) : Prop := ∀ j, m.Urgent j → m.flag = true

end State

open State

/-! ## Priorities -/

theorem highest_some {x n j} (h : highest x n = some j) :
    x.getLsbD j = true ∧ ∀ k, k < n → x.getLsbD k = true → k ≤ j := by
  induction n with
  | zero => simp [highest] at h
  | succ n ih =>
    rw [highest] at h
    split at h
    · next hn => cases h; exact ⟨hn, fun k hk _ => le_of_lt_succ hk⟩
    · next hn =>
      obtain ⟨hj, hmax⟩ := ih h
      refine ⟨hj, fun k hk hxk => hmax k (Nat.lt_of_le_of_ne (le_of_lt_succ hk) ?_) hxk⟩
      rintro rfl; exact hn hxk

theorem highest_none {x n} (h : highest x n = none) : ∀ k, k < n → x.getLsbD k = false := by
  induction n with
  | zero => exact fun k hk => absurd hk (Nat.not_lt_zero k)
  | succ n ih =>
    rw [highest] at h
    split at h
    · cases h
    · next hn =>
      intro k hk
      rcases Nat.lt_succ_iff_lt_or_eq.mp hk with hk | rfl
      · exact ih h k hk
      · simpa using hn

theorem lt_twoPow_iff {x j} (hj : j < 16) : x < BitVec.twoPow 16 j ↔ ∀ k, x.getLsbD k = true → k < j := by
  have hpow : (BitVec.twoPow 16 j).toNat = 2 ^ j := by
    rw [toNat_twoPow, mod_eq_of_lt (Nat.pow_lt_pow_right (by omega) hj)]
  rw [lt_def, hpow]
  constructor
  · intro h k hk
    by_contra hle
    have hlt : x.toNat < 2 ^ k := Nat.lt_of_lt_of_le h (Nat.pow_le_pow_right (by omega) (by omega))
    rw [BitVec.getLsbD, testBit_lt_two_pow hlt] at hk; cases hk
  · intro h
    refine lt_pow_two_of_testBit _ fun k hk => ?_
    by_contra hbit
    exact absurd (h k (eq_true_of_not_eq_false hbit)) (Nat.not_lt.mpr hk)

/-! ## Changes that keep the CPU informed -/

theorem raised_of_flag (h : m.flag = true) : m.Raised := fun _ _ => h

theorem raised_of_unmasked (h : m.unmasked = 0) : m.Raised := by
  intro j hj
  have hbit := hj.1
  simp [h] at hbit

theorem State.Raised.of_le (h : m.Raised) (hflag : m'.flag = m.flag)
    (hun : ∀ j, m'.unmasked.getLsbD j = true → m.unmasked.getLsbD j = true)
    (hserv : ∀ k, m.irqInservice.getLsbD k = true → m'.irqInservice.getLsbD k = true) : m'.Raised := by
  intro j hj
  rw [hflag]
  exact h j ⟨hun j hj.1, fun k hk => hj.2 k (hserv k hk)⟩

theorem State.Raised.congr (h : m.Raised) (hflag : m'.flag = m.flag)
    (hpending : m'.irqPending = m.irqPending) (hmask : m'.irqMask = m.irqMask)
    (hserv : m'.irqInservice = m.irqInservice) : m'.Raised := by
  refine h.of_le hflag (fun j hj => ?_) fun k hk => hserv ▸ hk
  rwa [unmasked, hpending, hmask] at hj

theorem raised_trigger (m : State) : (m.triggerMFP (m.unmasked ≠ 0)).Raised := by
  by_cases h : m.unmasked = 0
  · exact raised_of_unmasked h
  · exact raised_of_flag (decide_eq_true h)

/-! ## Requests -/

theorem not_urgent_of_gt {j} (hj : j < 16) (h : m.irqInservice > BitVec.twoPow 16 j) :
    ¬ ∀ k, m.irqInservice.getLsbD k = true → k < j := by
  intro hserv
  have hlt := (lt_twoPow_iff hj).mpr hserv
  rw [gt_iff_lt, lt_def] at h
  rw [lt_def] at hlt
  exact absurd h (Nat.lt_asymm hlt)

theorem State.Raised.request (h : m.Raised) {level} (hl : level < 16) :
    (m.request (BitVec.twoPow 16 level)).Raised := by
  -- every other urgent interrupt was urgent before
  have hother : ∀ j, j ≠ level →
      { m with irqPending := m.irqPending ||| BitVec.twoPow 16 level }.Urgent j → m.flag = true := by
    intro j hne hj
    refine h j ⟨?_, hj.2⟩
    have hun := hj.1
    simp only [unmasked, getLsbD_and, getLsbD_or, getLsbD_twoPow,
      and_eq_true, or_eq_true, decide_eq_true_eq] at hun ⊢
    exact ⟨hun.1.resolve_right fun h => hne h.2.symm, hun.2⟩
  simp only [State.request]
  split
  · next hmask =>
    intro j hj
    refine hother j ?_ hj
    rintro rfl
    have hun := hj.1; simp [unmasked, (and_twoPow_eq_zero_iff m.irqMask hl).mp hmask] at hun
  · split
    · next hserv => intro j hj; refine hother j ?_ hj; rintro rfl; exact not_urgent_of_gt hl hserv hj.2
    · exact raised_of_flag rfl

theorem irq_of_request {P : State → Prop}
    (htimer : ∀ m timerC timerCounter, P m → P { m with timerC := timerC, timerCounter := timerCounter })
    (hrequest : ∀ m level, level < 16 → P m → P (m.request (BitVec.twoPow 16 level))) (h : P m) (level : Nat)
    (count : Int) : P (m.irq level count) := by
  have h₁ : P (if level = 5 then { m with timerC := m.timerC.resetCounter } else m) := by
    split
    · exact htimer m _ m.timerCounter h
    · exact h
  unfold State.irq
  generalize (if level = 5 then { m with timerC := m.timerC.resetCounter } else m) = m₁ at h₁
  dsimp only
  split
  · exact h₁
  · next hen =>
    have h₂ : P (if level = 5 then { m₁ with timerCounter := m₁.timerCounter + count } else m₁) := by
      split
      · exact htimer m₁ m₁.timerC _ h₁
      · exact h₁
    have hl : level < 16 := by
      by_contra hge
      refine hen ?_
      refine eq_of_getLsbD_eq fun k hk => ?_
      have hne : level ≠ k := by omega
      simp [getLsbD_twoPow, hne]
    generalize (if level = 5 then { m₁ with timerCounter := m₁.timerCounter + count } else m₁) = m₂ at h₂
    split
    · exact h₂
    · exact hrequest m₂ level hl h₂

theorem setActiveEdge_of_irq {P : State → Prop} (hirq : ∀ m level, P m → P (m.irq level 1))
    (hedge : ∀ m activeEdge, P m → P { m with activeEdge := activeEdge }) (h : P m) (value : BitVec 8) :
    P (m.setActiveEdge value) := by
  refine hedge _ _ (foldl_invariant h (fun pre line _ _ hm => ?_) (append_nil mapGpipToIer).symm)
  dsimp only
  split
  · exact hirq _ line.2 hm
  · exact hm

theorem setGPIPbit_of_irq {P : State → Prop} (hirq : ∀ m level, P m → P (m.irq level 1))
    (hport : ∀ m input gpipData, P m → P { m with input := input, gpipData := gpipData }) (h : P m)
    (mask value : BitVec 32) : P (m.setGPIPbit mask value) := by
  refine foldl_invariant (hport m _ _ h) (fun pre line _ _ hm => ?_) (append_nil mapGpipToIer).symm
  have hnext := hirq _ line.2 hm
  dsimp only
  split
  · exact hm
  · split
    · split <;> assumption
    · split <;> assumption

theorem State.Raised.irq (h : m.Raised) (level : Nat) (count : Int) : (m.irq level count).Raised :=
  irq_of_request (fun _ _ _ h => h.congr rfl rfl rfl rfl) (fun _ _ hl h => h.request hl) h level count

theorem State.Raised.setActiveEdge (h : m.Raised) (value : BitVec 8) : (m.setActiveEdge value).Raised :=
  setActiveEdge_of_irq (fun _ level h => h.irq level 1) (fun _ _ h => h.congr rfl rfl rfl rfl) h value

theorem State.Raised.setGPIPbit (h : m.Raised) (mask value : BitVec 32) : (m.setGPIPbit mask value).Raised :=
  setGPIPbit_of_irq (fun _ level h => h.irq level 1) (fun _ _ _ h => h.congr rfl rfl rfl rfl) h mask value

/-! ## Interrupts -/

theorem raised_passed {j} (hmax : ∀ k, m.unmasked.getLsbD k = true → k ≤ j) (hj : j < 16)
    (vector : BitVec 32) : (if m.vr &&& vrSei ≠ 0
      then (vector, { m with irqInservice := m.irqInservice ||| BitVec.twoPow 16 j })
      else if m.unmasked ≠ 0 then (vector, m.triggerMFP true) else (vector, m)).2.Raised := by
  split
  · intro k hk; have hserv := hk.2 j (by simp [hj]); exact absurd (hmax k hk.1) (Nat.not_le.mpr hserv)
  · split
    · exact raised_of_flag rfl
    · next hun => exact raised_of_unmasked (not_not.mp hun)

theorem raised_doInterrupt (m : State) : m.doInterrupt.2.Raised := by
  rw [State.doInterrupt]
  cases hj : highest m.unmasked 16 with
  | none =>
    have hun : m.unmasked = 0 := eq_of_getLsbD_eq fun k hk => by
      simpa using highest_none hj k hk
    exact raised_of_unmasked hun
  | some j =>
    obtain ⟨hbit, hmax⟩ := highest_some hj
    have hj16 := lt_of_getLsbD hbit
    have hmax' : ∀ k, m.unmasked.getLsbD k = true → k ≤ j :=
      fun k hk => hmax k (lt_of_getLsbD hk) hk
    dsimp only
    split
    · next hge =>
      -- an interrupt of at least this priority is in service
      intro k hk
      have hlt : m.irqInservice < BitVec.twoPow 16 j :=
        (lt_twoPow_iff hj16).mpr fun i hi => Nat.lt_of_lt_of_le (hk.2 i hi) (hmax' k hk.1)
      exact absurd hge (BitVec.not_le.mpr hlt)
    · refine raised_passed (fun k hk => hmax' k ?_) hj16 _
      revert hk
      split <;> split <;> simp +contextual [unmasked, triggerMFP]

/-! ## Registers -/

theorem State.Raised.setEnable (h : m.Raised) (enable : BitVec 16) : (m.setEnable enable).Raised := by
  refine h.of_le rfl (fun j hj => ?_) fun k hk => hk
  simp only [State.setEnable, unmasked, getLsbD_and, and_eq_true] at hj ⊢
  exact ⟨hj.1.1, hj.2⟩

theorem State.Raised.setPending (h : m.Raised) (y : BitVec 16) :
    (m.setPending (m.irqPending &&& y)).Raised := by
  simp only [State.setPending]
  split
  · next hun => exact raised_of_unmasked hun
  · refine h.of_le rfl (fun j hj => ?_) fun k hk => hk
    simp only [unmasked, getLsbD_and, and_eq_true] at hj ⊢; exact ⟨hj.1.1, hj.2⟩

theorem raised_setInservice (m : State) (inservice : BitVec 16) : (m.setInservice inservice).Raised := by
  simp only [State.setInservice]
  split
  · exact raised_of_flag rfl
  · next hun => exact raised_of_unmasked (not_not.mp hun)

theorem State.Raised.setVr (h : m.Raised) (value : BitVec 8) : (m.setVr value).Raised := by
  simp only [State.setVr]
  split
  · exact h.congr rfl rfl rfl rfl
  · exact raised_trigger _

theorem State.Raised.writeReg (h : m.Raised) (addr : Nat) (value : BitVec 8) :
    (m.writeReg addr value).Raised := by
  unfold State.writeReg
  split
  case h_2 => exact h.setActiveEdge value
  case h_4 => exact h.setEnable _
  case h_5 => exact h.setEnable _
  case h_6 => exact h.setPending _
  case h_7 => exact h.setPending _
  case h_8 => exact raised_setInservice m _
  case h_9 => exact raised_setInservice m _
  case h_10 => exact raised_trigger _
  case h_11 => exact raised_trigger _
  case h_12 => exact h.setVr value
  case h_20 => exact h
  all_goals exact h.congr rfl rfl rfl rfl

theorem State.Raised.readReg (h : m.Raised) (busy : BitVec 8) (addr : Nat) :
    (m.readReg busy addr).2.Raised := by
  unfold State.readReg
  split <;> exact h.congr rfl rfl rfl rfl

/-! ## Runs -/

theorem State.Raised.run (base : Base) (h : m.Raised) (op : Op) : (op.run base m).Raised := by
  cases op with
  | read busy addr =>
    simp only [Op.run, State.handleRead]
    split
    · exact h
    · exact h.readReg busy _
  | write addr value =>
    simp only [Op.run, State.handleWrite]
    split
    · exact h
    · exact h.writeReg _ value
  | irq level count => exact h.irq level count
  | setGPIPbit mask value => exact h.setGPIPbit mask value
  | doInterrupt => exact raised_doInterrupt m

theorem doInterrupt_urgent {j} (h : m.Urgent j) : ∃ top, m.unmasked.getLsbD top = true ∧
    (∀ k, m.unmasked.getLsbD k = true → k ≤ top) ∧
      m.doInterrupt.1 = (m.vr &&& vrVector) + BitVec.ofNat 32 top := by
  cases htop : highest m.unmasked 16 with
  | none => have hbit := highest_none htop j (lt_of_getLsbD h.1); rw [h.1] at hbit; cases hbit
  | some top =>
    obtain ⟨hbit, hmax⟩ := highest_some htop
    have hle : ∀ k, m.unmasked.getLsbD k = true → k ≤ top :=
      fun k hk => hmax k (lt_of_getLsbD hk) hk
    have hlt : m.irqInservice < BitVec.twoPow 16 top :=
      (lt_twoPow_iff (lt_of_getLsbD hbit)).mpr fun k hk =>
        Nat.lt_of_lt_of_le (h.2 k hk) (hle j h.1)
    refine ⟨top, hbit, hle, ?_⟩
    simp only [doInterrupt, htop, ge_iff_le, if_neg (BitVec.not_le.mpr hlt)]
    rw [apply_ite Prod.fst, apply_ite Prod.fst, ite_self, ite_self]

/-- After a reset, whatever the guest and the devices do: while an unmasked interrupt is pending above
all those in service, the CPU is told, and when it asks, the vector is that of the highest unmasked
pending one. -/
theorem urgent_delivered (base : Base) (m₀ : State) (ops : List Op) {j : Nat}
    (h : (runOps base m₀.reset ops).Urgent j) : (runOps base m₀.reset ops).flag = true ∧
      ∃ top, (runOps base m₀.reset ops).unmasked.getLsbD top = true ∧
        (∀ k, (runOps base m₀.reset ops).unmasked.getLsbD k = true → k ≤ top) ∧
        (runOps base m₀.reset ops).doInterrupt.1 =
          ((runOps base m₀.reset ops).vr &&& vrVector) + BitVec.ofNat 32 top := by
  have hreset : m₀.reset.Raised := raised_of_unmasked (by simp [State.reset, unmasked])
  have hrun : (runOps base m₀.reset ops).Raised :=
    foldl_invariant hreset (fun _ op _ _ hm => hm.run base op) (append_nil ops).symm
  exact ⟨hrun j h, doInterrupt_urgent h⟩

theorem urgent_delivered_timerC : let base : Base := ⟨0xfffffa00, 0x30⟩
    let ops := [.write 0xfffffa09 0x20, .write 0xfffffa15 0x20, .write 0xfffffa17 0x48, .irq 5 1]
    let m₀ : State := ⟨0, 0, 0, 0, 0, 0, 0, 0, .reset, .reset, .reset, .reset, 0, 0, false⟩
    (runOps base m₀.reset ops).Urgent 5 ∧ (runOps base m₀.reset ops).flag = true := by
  intro base ops m₀
  have hserv : (runOps base m₀.reset ops).irqInservice = 0 := by decide
  have hurgent : (runOps base m₀.reset ops).Urgent 5 :=
    ⟨by decide, fun k hk => by simp [hserv] at hk⟩
  exact ⟨hurgent, (urgent_delivered base m₀ ops hurgent).1⟩

end Aranym.Mfp
