import Aranym.Mfp.Theorems

/-!
# What the CPU is told

The CPU asks for a vector while its flag is set.

Source: `mfp.cpp`, `newcpu.cpp`.
-/

namespace Aranym.Mfp

open Aranym.Lib State BitVec

variable {m : State}

variable (base : Base)

namespace State

/-- The CPU enters the interrupt of the MFP. -/
def Enters (m : State) (intmask : Nat) : Prop := m.flag = true ∧ 6 > intmask

instance decidableEnters (m : State) (intmask : Nat) : Decidable (m.Enters intmask) :=
  inferInstanceAs (Decidable (_ ∧ _))

def serve (m : State) (intmask : Nat) : State :=
  if m.Enters intmask then
    let (vector, m) := m.doInterrupt
    if vector ≠ 0 then m else m.triggerMFP false
  else m

/-- The flag is set only while there is an interrupt to name. -/
def Named (m : State) : Prop := m.flag = true → m.unmasked ≠ 0

end State

/-- An operation, a service of the interrupt by the CPU, or a reset. -/
inductive Event
  | op (o : Op)
  | serve (intmask : Nat)
  | reset
  deriving DecidableEq

def Event.run (m : State) : Event → State
  | .op o => o.run base m
  | .serve intmask => m.serve intmask
  | .reset => m.reset

def runEvents (m : State) (es : List Event) : State := es.foldl (Event.run base) m

/-- A write of `enable` to the enable registers leaves an unmasked interrupt pending if the CPU was told of
one. -/
def State.StaysNamed (m : State) (enable : BitVec 16) : Prop :=
  m.flag = true → m.irqPending &&& enable &&& m.irqMask ≠ 0

/-- The enable registers are not written so that the last unmasked interrupt is cancelled while the flag is set,
and the chip is not reset then. -/
def Event.Careful (m : State) : Event → Prop
  | .op (.write addr value) => addr - base.hwOffset ≤ base.hwSize →
      (addr - base.hwOffset = 0x07 → m.StaysNamed (setHigh m.irqEnable value)) ∧
        (addr - base.hwOffset = 0x09 → m.StaysNamed (setLow m.irqEnable value))
  | .op _ => True
  | .serve _ => True
  | .reset => m.flag = false

/-! ## Steps that keep the flag in step -/

theorem named_of_flag (h : m.flag = false) : m.Named := by
  intro hf
  rw [h] at hf
  cases hf

theorem named_of_unmasked (h : m.unmasked ≠ 0) : m.Named := fun _ => h

theorem named_trigger (m : State) : (m.triggerMFP (m.unmasked ≠ 0)).Named := fun h => of_decide_eq_true h

theorem State.Named.congr {m' : State} (h : m.Named) (hflag : m'.flag = m.flag)
    (hpending : m'.irqPending = m.irqPending) (hmask : m'.irqMask = m.irqMask) : m'.Named := by
  intro hf
  rw [unmasked, hpending, hmask]
  exact h (hflag ▸ hf)

theorem and_or_ne_zero {x y z : BitVec 16} (h : x &&& z ≠ 0) : (x ||| y) &&& z ≠ 0 := by
  intro hz
  refine h (eq_of_getLsbD_eq fun k hk => ?_)
  have hbit := congrArg (BitVec.getLsbD · k) hz
  simp only [getLsbD_and, getLsbD_or] at hbit ⊢
  revert hbit
  cases x.getLsbD k <;> cases y.getLsbD k <;> cases z.getLsbD k <;> simp

theorem State.Named.request (h : m.Named) (i : BitVec 16) : (m.request i).Named := by
  have hmore : m.flag = true → (m.irqPending ||| i) &&& m.irqMask ≠ 0 := fun hf => and_or_ne_zero (h hf)
  simp only [State.request]
  split
  · exact hmore
  · next hmask =>
    split
    · exact hmore
    · refine named_of_unmasked ?_
      change (m.irqPending ||| i) &&& m.irqMask ≠ 0
      rw [BitVec.or_comm]
      refine and_or_ne_zero ?_
      rwa [BitVec.and_comm]

theorem State.Named.irq (h : m.Named) (level : Nat) (count : Int) : (m.irq level count).Named :=
  irq_of_request (fun _ _ _ h => h.congr rfl rfl rfl) (fun _ _ _ h => h.request _) h level count

theorem State.Named.setActiveEdge (h : m.Named) (value : BitVec 8) : (m.setActiveEdge value).Named :=
  setActiveEdge_of_irq (fun _ level h => h.irq level 1) (fun _ _ h => h.congr rfl rfl rfl) h value

theorem State.Named.setGPIPbit (h : m.Named) (mask value : BitVec 32) : (m.setGPIPbit mask value).Named :=
  setGPIPbit_of_irq (fun _ level h => h.irq level 1) (fun _ _ _ h => h.congr rfl rfl rfl) h mask value

theorem named_doInterrupt (h : m.Named) : m.doInterrupt.2.Named := by
  rw [State.doInterrupt]
  cases hj : highest m.unmasked 16 with
  | none => exact named_of_flag rfl
  | some j =>
    dsimp only
    split
    · exact named_of_flag rfl
    · have h₁ : (if j = 5 then { m with timerCounter := m.timerCounter - 1 } else m).Named := by
        split
        · exact h.congr rfl rfl rfl
        · exact h
      generalize (if j = 5 then { m with timerCounter := m.timerCounter - 1 } else m) = m₁ at h₁
      have h₂ : (if j ≠ 5 ∨ m₁.timerCounter ≤ 0 then
          { m₁ with irqPending := m₁.irqPending &&& ~~~BitVec.twoPow 16 j }.triggerMFP false else m₁).Named := by
        split
        · exact named_of_flag rfl
        · exact h₁
      generalize (if j ≠ 5 ∨ m₁.timerCounter ≤ 0 then
        { m₁ with irqPending := m₁.irqPending &&& ~~~BitVec.twoPow 16 j }.triggerMFP false else m₁) = m₂ at h₂
      split
      · exact h₂.congr rfl rfl rfl
      · split
        · next hun => exact named_of_unmasked hun
        · exact h₂

theorem State.Named.serve (h : m.Named) (intmask : Nat) : (m.serve intmask).Named := by
  simp only [State.serve]
  split
  · split
    · exact named_doInterrupt h
    · exact named_of_flag rfl
  · exact h

/-! ## Registers -/

theorem named_setPending (m : State) (pending : BitVec 16) : (m.setPending pending).Named := by
  simp only [State.setPending]
  split
  · exact named_of_flag rfl
  · next hun => exact named_of_unmasked hun

theorem State.Named.setInservice (h : m.Named) (inservice : BitVec 16) : (m.setInservice inservice).Named := by
  simp only [State.setInservice]
  split
  · next hun => exact named_of_unmasked hun
  · exact h.congr rfl rfl rfl

theorem State.Named.setVr (h : m.Named) (value : BitVec 8) : (m.setVr value).Named := by
  simp only [State.setVr]
  split
  · exact h.congr rfl rfl rfl
  · exact named_trigger _

theorem named_setEnable_iff (enable : BitVec 16) : (m.setEnable enable).Named ↔ m.StaysNamed enable := Iff.rfl

theorem State.Named.writeReg (h : m.Named) {addr : Nat} (value : BitVec 8) (h7 : addr ≠ 0x07) (h9 : addr ≠ 0x09) :
    (m.writeReg addr value).Named := by
  unfold State.writeReg
  split
  case h_2 => exact h.setActiveEdge value
  case h_4 => exact absurd rfl h7
  case h_5 => exact absurd rfl h9
  case h_6 => exact named_setPending m _
  case h_7 => exact named_setPending m _
  case h_8 => exact h.setInservice _
  case h_9 => exact h.setInservice _
  case h_10 => exact named_trigger _
  case h_11 => exact named_trigger _
  case h_12 => exact h.setVr value
  case h_20 => exact h
  all_goals exact h.congr rfl rfl rfl

theorem State.Named.readReg (h : m.Named) (busy : BitVec 8) (addr : Nat) : (m.readReg busy addr).2.Named := by
  unfold State.readReg
  split <;> exact h.congr rfl rfl rfl

theorem named_write_iff (h : m.Named) (addr : BitVec 32) (value : BitVec 8) :
    (m.handleWrite base addr value).Named ↔ (Event.op (.write addr value)).Careful base m := by
  simp only [State.handleWrite, Event.Careful]
  by_cases hin : addr - base.hwOffset > base.hwSize
  · rw [if_pos hin]; exact iff_of_true h fun hle => absurd hle (BitVec.not_le.mpr hin)
  · rw [if_neg hin]
    have hle : addr - base.hwOffset ≤ base.hwSize := BitVec.not_lt.mp hin
    generalize addr - base.hwOffset = a at hle
    by_cases h7 : a = 0x07
    · subst h7
      simp only [hle, true_imp_iff, show ¬ (0x07 : BitVec 32) = 0x09 by decide, false_imp_iff, and_true]
      exact named_setEnable_iff _
    · by_cases h9 : a = 0x09
      · subst h9
        simp only [hle, true_imp_iff, show ¬ (0x09 : BitVec 32) = 0x07 by decide, false_imp_iff, true_and]
        exact named_setEnable_iff _
      · refine iff_of_true (h.writeReg value (fun heq => h7 ?_) fun heq => h9 ?_) fun _ =>
          ⟨fun heq => absurd heq h7, fun heq => absurd heq h9⟩
        · exact eq_of_toNat_eq heq
        · exact eq_of_toNat_eq heq

/-! ## Runs -/

theorem named_reset_iff : m.reset.Named ↔ m.flag = false := by simp [State.Named, State.reset, unmasked]

theorem named_run_iff (h : m.Named) (e : Event) : (e.run base m).Named ↔ e.Careful base m := by
  cases e with
  | op o =>
    cases o with
    | read busy addr =>
      refine iff_of_true ?_ trivial
      simp only [Event.run, Op.run, State.handleRead]
      split
      · exact h
      · exact h.readReg busy _
    | write addr value => exact named_write_iff base h addr value
    | irq level count => exact iff_of_true (h.irq level count) trivial
    | setGPIPbit mask value => exact iff_of_true (h.setGPIPbit mask value) trivial
    | doInterrupt => exact iff_of_true (named_doInterrupt h) trivial
  | serve intmask => exact iff_of_true (h.serve intmask) trivial
  | reset => exact named_reset_iff

/-- From power-on, whatever the guest, the devices and the CPU do: the flag is set only while an unmasked
interrupt is pending, and so `doInterrupt` is never entered without one, exactly if no step cancels the last of
them behind the CPU's back. -/
theorem named_throughout_iff (m₀ : State) (h : m₀.flag = false) (es : List Event) :
    (∀ pre post, es = pre ++ post → (runEvents base m₀.reset pre).Named ∧
      ∀ intmask, (runEvents base m₀.reset pre).Enters intmask → (runEvents base m₀.reset pre).unmasked ≠ 0) ↔
    ∀ pre e post, es = pre ++ e :: post → e.Careful base (runEvents base m₀.reset pre) := by
  refine Iff.trans ?_ (foldl_invariant_iff (named_reset_iff.mpr h) (fun m e hm => named_run_iff base hm e) es)
  refine forall_congr' fun pre => forall_congr' fun post => imp_congr_right fun _ => ?_
  exact ⟨And.left, fun hm => ⟨hm, fun _ henter => hm henter.1⟩⟩

def chip : Base := ⟨0xfffa00, 0x30⟩

def powerOn : State := ⟨0, 0, 0, 0, 0, 0, 0, 0, .reset, .reset, .reset, .reset, 0, 0, false⟩

def keyboardServed : List Event :=
  [.op (.write 0xfffa09 0x40), .op (.write 0xfffa15 0x40), .op (.irq 6 1), .serve 0]

theorem named_keyboard : (runEvents chip powerOn.reset keyboardServed).Named := by
  refine ((named_throughout_iff chip powerOn rfl keyboardServed).mpr ?_ keyboardServed [] rfl).1
  intro pre e post hes
  rcases pre with _ | ⟨e₁, _ | ⟨e₂, _ | ⟨e₃, _ | ⟨e₄, pre⟩⟩⟩⟩ <;> simp only [keyboardServed,
    List.cons_append, List.nil_append, List.cons.injEq] at hes
  · obtain ⟨rfl, -⟩ := hes; intro _; exact ⟨fun heq => absurd heq (by decide), fun _ hf => by cases hf⟩
  · obtain ⟨rfl, rfl, -⟩ := hes
    intro _; exact ⟨fun heq => absurd heq (by decide), fun heq => absurd heq (by decide)⟩
  · obtain ⟨rfl, rfl, rfl, -⟩ := hes; trivial
  · obtain ⟨rfl, rfl, rfl, rfl, -⟩ := hes; trivial
  · simp at hes

def keyboardWaits : State := runEvents chip powerOn.reset
  [.op (.write 0xfffa09 0x40), .op (.write 0xfffa15 0x40), .op (.irq 6 1)]

/-- The keyboard interrupt is disabled while it waits, or the chip is reset then: the flag stays set, and the CPU
asks for a vector that does not exist. -/
theorem unnamed_after_disable : let disabled := Event.run chip keyboardWaits (.op (.write 0xfffa09 0))
    let again := Event.run chip keyboardWaits .reset
    (disabled.Enters 0 ∧ disabled.unmasked = 0 ∧ disabled.doInterrupt.1 = 0) ∧
      again.Enters 0 ∧ again.unmasked = 0 ∧ again.doInterrupt.1 = 0 := by
  decide

end Aranym.Mfp
