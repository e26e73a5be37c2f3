import Aranym.Mfp.Theorems

/-!
# Edges of the port

Each line of the port goes through an exclusive-or gate, whose other input is its bit of the active edge
register. A line asks for an interrupt when the output of the gate goes from 1 to 0, whichever input changed.

Source: `mfp.cpp`.
-/

namespace Aranym.Mfp

open Aranym.Lib State BitVec List

variable {m : State}

namespace State

def isInput (m : State) (i : Nat) : Bool := !m.dataDirection.getLsbD i

def gate (m : State) (i : Nat) : Bool := m.input.getLsbD i ^^ m.activeEdge.getLsbD i

/-- The lines with an active edge between two states, with their interrupts. -/
def fallen (before after : State) : List (Nat × Nat) :=
  mapGpipToIer.filter fun line => after.isInput line.1 && before.gate line.1 && !after.gate line.1

def irqAll (m : State) (lines : List (Nat × Nat)) : State := lines.foldl (fun m line => m.irq line.2 1) m

/-- Drive the lines of `mask` to `value`. -/
def setLines (m : State) (mask value : BitVec 8) : State :=
  { m with
    input := m.input &&& ~~~mask ||| value &&& mask
    gpipData := m.gpipData &&& ~~~(mask &&& ~~~m.dataDirection) ||| value &&& (mask &&& ~~~m.dataDirection) }

def Latched (m : State) : Prop := ∀ i, m.isInput i = true → m.gpipData.getLsbD i = m.input.getLsbD i

def port (m : State) : BitVec 8 × BitVec 8 × BitVec 8 × BitVec 8 :=
  (m.input, m.gpipData, m.activeEdge, m.dataDirection)

end State

/-! ## Requests leave the port alone -/

theorem port_request (m : State) (i : BitVec 16) : (m.request i).port = m.port := by
  simp only [State.request]
  split
  · rfl
  · split <;> rfl

theorem port_irq (m : State) (level : Nat) (count : Int) : (m.irq level count).port = m.port :=
  irq_of_request (P := fun m' => m'.port = m.port) (fun _ _ _ h => h) (fun _ _ _ h => (port_request _ _).trans h) rfl
    level count

theorem port_irqAll (m : State) (lines : List (Nat × Nat)) : (m.irqAll lines).port = m.port := by
  induction lines generalizing m with
  | nil => rfl
  | cons line lines ih => exact (ih _).trans (port_irq m line.2 1)

theorem foldl_irq_eq (step : State → Nat × Nat → State) (c : BitVec 8 × BitVec 8 × BitVec 8 × BitVec 8 → Nat → Bool)
    (lines : List (Nat × Nat))
    (hstep : ∀ m, ∀ line ∈ lines, step m line = if c m.port line.1 then m.irq line.2 1 else m) (m : State) :
    lines.foldl step m = m.irqAll (lines.filter fun line => c m.port line.1) := by
  induction lines generalizing m with
  | nil => rfl
  | cons line lines ih =>
    have hrest := ih fun m line' h => hstep m line' (mem_cons_of_mem _ h)
    rw [foldl_cons, hstep m line mem_cons_self]
    by_cases hc : c m.port line.1 = true
    · rw [if_pos hc, hrest, port_irq, filter_cons_of_pos (p := fun line : Nat × Nat => c m.port line.1) hc]
      rfl
    · rw [if_neg hc, hrest, filter_cons_of_neg (p := fun line : Nat × Nat => c m.port line.1) hc]

/-! ## The two detectors -/

theorem line_lt {line} (h : line ∈ mapGpipToIer) : line.1 < 8 := by
  revert line
  decide

theorem and_twoPow_eq_iff {x y i} (hi : i < 8) :
    x &&& BitVec.twoPow 8 i = y &&& BitVec.twoPow 8 i ↔ x.getLsbD i = y.getLsbD i := by
  constructor
  · intro h; have hbit := congrArg (BitVec.getLsbD · i) h; simpa [hi] using hbit
  · intro h
    refine eq_of_getLsbD_eq fun k hk => ?_
    rw [getLsbD_and, getLsbD_and, getLsbD_twoPow]
    by_cases hki : i = k
    · subst hki; rw [h]
    · simp [hki]

theorem setActiveEdge_eq (m : State) (value : BitVec 8) : m.setActiveEdge value
    = { m.irqAll (fallen m { m with activeEdge := value }) with activeEdge := value } := by
  have hloop := foldl_irq_eq
    (fun m line => if m.activeEdge &&& BitVec.twoPow 8 line.1 ≠ value &&& BitVec.twoPow 8 line.1 ∧
        m.dataDirection &&& BitVec.twoPow 8 line.1 = 0 ∧
        m.activeEdge &&& BitVec.twoPow 8 line.1 ≠ m.input &&& BitVec.twoPow 8 line.1
      then m.irq line.2 1 else m)
    (fun p i => !p.2.2.2.getLsbD i && (p.1.getLsbD i ^^ p.2.2.1.getLsbD i) && !(p.1.getLsbD i ^^ value.getLsbD i))
    mapGpipToIer
    (fun m line hline => by
      have hi := line_lt hline
      refine if_congr ?_ rfl rfl
      simp only [ne_eq, and_twoPow_eq_iff hi, and_twoPow_eq_zero_iff m.dataDirection hi, port]
      cases m.dataDirection.getLsbD line.1 <;> cases m.activeEdge.getLsbD line.1 <;>
        cases m.input.getLsbD line.1 <;> cases value.getLsbD line.1 <;> decide) m
  simp only [State.setActiveEdge]
  rw [hloop]
  rfl

/-- A change of the lines. The loop compares what the port shows; on the input lines this is the latch. -/
theorem setGPIPbit_eq (h : m.Latched) (mask value : BitVec 32) : m.setGPIPbit mask value
    = (m.setLines (mask.setWidth 8) (value.setWidth 8)).irqAll
      (fallen m (m.setLines (mask.setWidth 8) (value.setWidth 8))) := by
  have hloop := foldl_irq_eq
    (fun m' line => if m.gpipData &&& BitVec.twoPow 8 line.1 = m'.gpipData &&& BitVec.twoPow 8 line.1 then m'
      else if m'.activeEdge &&& BitVec.twoPow 8 line.1 ≠ 0 then
        (if m.gpipData &&& BitVec.twoPow 8 line.1 ≠ 0 then m' else m'.irq line.2 1)
      else if m'.gpipData &&& BitVec.twoPow 8 line.1 ≠ 0 then m'
      else m'.irq line.2 1)
    (fun p i => (m.gpipData.getLsbD i ^^ p.2.1.getLsbD i) && !(p.2.1.getLsbD i ^^ p.2.2.1.getLsbD i)) mapGpipToIer
    (fun m' line hline => by
      have hi := line_lt hline
      have hzero : ∀ x : BitVec 8, x &&& BitVec.twoPow 8 line.1 = 0#8 ↔ x.getLsbD line.1 = false :=
        fun x => and_twoPow_eq_zero_iff x hi
      cases hold : m.gpipData.getLsbD line.1 <;> cases hnew : m'.gpipData.getLsbD line.1 <;>
        cases hedge : m'.activeEdge.getLsbD line.1 <;>
        simp [and_twoPow_eq_iff hi, hzero, port, hold, hnew, hedge])
    (m.setLines (mask.setWidth 8) (value.setWidth 8))
  refine hloop.trans (congrArg _ (filter_congr fun line hline => ?_))
  have hi := line_lt hline
  have hl := h line.1
  simp only [port, setLines, State.isInput, gate, getLsbD_or, getLsbD_and, getLsbD_not, hi,
    decide_true, Bool.true_and] at hl ⊢
  revert hl
  cases m.dataDirection.getLsbD line.1 <;> cases m.gpipData.getLsbD line.1 <;> cases m.input.getLsbD line.1 <;>
    cases m.activeEdge.getLsbD line.1 <;> cases (mask.setWidth 8).getLsbD line.1 <;>
    cases (value.setWidth 8).getLsbD line.1 <;> decide

/-! ## The latch -/

theorem State.Latched.congr {m' : State} (h : m.Latched) (hinput : m'.input = m.input)
    (hdata : m'.gpipData = m.gpipData) (hdir : m'.dataDirection = m.dataDirection) : m'.Latched := by
  intro i hi
  rw [hdata, hinput]
  exact h i (by rwa [State.isInput, hdir] at hi)

theorem State.Latched.irqAll (h : m.Latched) (lines : List (Nat × Nat)) : (m.irqAll lines).Latched := by
  have hport := port_irqAll m lines
  simp only [port, Prod.mk.injEq] at hport
  exact h.congr hport.1 hport.2.1 hport.2.2.2

theorem State.Latched.setActiveEdge (h : m.Latched) (value : BitVec 8) : (m.setActiveEdge value).Latched := by
  rw [setActiveEdge_eq]
  exact (h.irqAll _).congr rfl rfl rfl

theorem State.Latched.setLines (h : m.Latched) (mask value : BitVec 8) : (m.setLines mask value).Latched := by
  intro i hi
  have hl := h i hi
  have hdir : m.dataDirection.getLsbD i = false := by simpa [State.isInput, State.setLines] using hi
  simp only [State.setLines, getLsbD_or, getLsbD_and, getLsbD_not, hl, hdir]
  by_cases hi8 : i < 8
  · simp [hi8]
  · simp [getLsbD_of_ge _ _ (Nat.not_lt.mp hi8)]

theorem State.Latched.setGPIPbit (h : m.Latched) (mask value : BitVec 32) : (m.setGPIPbit mask value).Latched := by
  rw [setGPIPbit_eq h]
  exact (h.setLines _ _).irqAll _

theorem State.Latched.irq (h : m.Latched) (level : Nat) (count : Int) : (m.irq level count).Latched := by
  have hport := port_irq m level count
  simp only [port, Prod.mk.injEq] at hport
  exact h.congr hport.1 hport.2.1 hport.2.2.2

theorem State.Latched.writeGpip (h : m.Latched) (value : BitVec 8) : (m.writeReg 0x01 value).Latched := by
  intro i hi
  have hl := h i hi
  have hdir : m.dataDirection.getLsbD i = false := by simpa [State.isInput, State.writeReg] using hi
  simp only [State.writeReg, getLsbD_or, getLsbD_and, getLsbD_not, hl, hdir]
  by_cases hi8 : i < 8
  · simp [hi8]
  · simp [getLsbD_of_ge _ _ (Nat.not_lt.mp hi8)]

theorem latched_writeDdr (m : State) (value : BitVec 8) : (m.writeReg 0x05 value).Latched := by
  intro i hi
  have hdir : value.getLsbD i = false := by simpa [State.isInput, State.writeReg] using hi
  simp only [State.writeReg, getLsbD_or, getLsbD_and, getLsbD_not, hdir]
  by_cases hi8 : i < 8
  · simp [hi8]
  · simp [getLsbD_of_ge _ _ (Nat.not_lt.mp hi8)]

theorem State.Latched.doInterrupt (h : m.Latched) : m.doInterrupt.2.Latched := by
  have hport : m.doInterrupt.2.input = m.input ∧ m.doInterrupt.2.gpipData = m.gpipData ∧
      m.doInterrupt.2.dataDirection = m.dataDirection := by
    simp only [State.doInterrupt]
    split
    · exact ⟨rfl, rfl, rfl⟩
    · split
      · exact ⟨rfl, rfl, rfl⟩
      · split <;> split <;> split <;> (try split) <;> exact ⟨rfl, rfl, rfl⟩
  exact h.congr hport.1 hport.2.1 hport.2.2

theorem State.Latched.writeReg (h : m.Latched) (addr : Nat) (value : BitVec 8) : (m.writeReg addr value).Latched := by
  by_cases h1 : addr = 0x01
  · exact h1 ▸ h.writeGpip value
  by_cases h5 : addr = 0x05
  · exact h5 ▸ latched_writeDdr m value
  unfold State.writeReg
  split
  case h_1 => exact absurd rfl h1
  case h_2 => exact h.setActiveEdge value
  case h_3 => exact absurd rfl h5
  case h_6 | h_7 =>
    simp only [State.setPending]
    split <;> exact h.congr rfl rfl rfl
  case h_8 | h_9 =>
    simp only [State.setInservice]
    split <;> exact h.congr rfl rfl rfl
  case h_12 =>
    simp only [State.setVr]
    split <;> exact h.congr rfl rfl rfl
  all_goals exact h.congr rfl rfl rfl

theorem State.Latched.run (base : Base) (h : m.Latched) (op : Op) : (op.run base m).Latched := by
  cases op with
  | read busy addr =>
    simp only [Op.run, State.handleRead]
    split
    · exact h
    · unfold State.readReg
      split <;> exact h.congr rfl rfl rfl
  | write addr value =>
    simp only [Op.run, State.handleWrite]
    split
    · exact h
    · exact h.writeReg _ value
  | irq level count => exact h.irq level count
  | setGPIPbit mask value => exact h.setGPIPbit mask value
  | doInterrupt => exact h.doInterrupt

/-- After a reset, whatever the guest and the devices do: the port shows the latch on its input lines, and a change
of the lines or of the active edge register asks for the interrupts of exactly those input lines whose gate goes
from 1 to 0. -/
theorem edges_detected (base : Base) (m₀ : State) (ops : List Op) : let m := runOps base m₀.reset ops
    m.Latched ∧
      (∀ mask value, m.setGPIPbit mask value = (m.setLines (mask.setWidth 8) (value.setWidth 8)).irqAll
        (fallen m (m.setLines (mask.setWidth 8) (value.setWidth 8)))) ∧
      ∀ value, m.writeReg 0x03 value
        = { m.irqAll (fallen m { m with activeEdge := value }) with activeEdge := value } := by
  intro m
  have hreset : m₀.reset.Latched := fun _ _ => rfl
  have hrun : m.Latched :=
    foldl_invariant hreset (fun _ op _ _ hm => hm.run base op) (append_nil ops).symm
  exact ⟨hrun, setGPIPbit_eq hrun, setActiveEdge_eq m⟩

end Aranym.Mfp
