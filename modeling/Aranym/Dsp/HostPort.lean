import Aranym.Dsp.Lemmas.Places

/-!
# The two directions of the host port

The host writes its bytes to `TXH`, `TXM` and `TXL` and reads those of the DSP in `RXH`, `RXM` and `RXL`; the DSP writes
`X:HTX` and reads `X:HRX`. The registers of the two directions are the same cells.

Source: `dsp_core.c`, `dsp_cpu.c`.
-/

namespace Aranym.Dsp

open Function

namespace Core

/-- The bytes that wait for the host, which has to read them while `RXDF` is set. -/
def rxBytes (c : Core) : BitVec 8 × BitVec 8 × BitVec 8 := (c.hostport cpuTxh, c.hostport cpuTxm, c.hostport cpuTxl)

/-- The word that waits for the DSP, which has to read it while `HRDF` is set. -/
def hrxWord (c : Core) : BitVec 32 := c.periph .x hostHrx

theorem hostportUpdateTrdy_rxBytes (c : Core) : c.hostportUpdateTrdy.rxBytes = c.rxBytes := by
  rw [hostportUpdateTrdy]
  split <;> rfl

theorem host2dsp_rxBytes (c : Core) : c.host2dsp.rxBytes = c.rxBytes := by
  rw [host2dsp]
  split
  · rfl
  · split
    · rfl
    · exact hostportUpdateTrdy_rxBytes _

theorem writeHost_txl_rxBytes (value : BitVec 8) (c : Core) :
    (c.writeHost cpuTxl value).rxBytes = (c.hostport cpuTxh, c.hostport cpuTxm, value) := by
  change rxBytes (if ¬ c.running then _ else (c.setHost cpuTxl value).hostportCpuwrite) = _
  split
  · change rxBytes (if c.bootstrapPos + 1 = 0x200 then _ else _) = _
    split <;> rfl
  · exact (host2dsp_rxBytes _).trans (hostportUpdateTrdy_rxBytes _)

theorem writeMemory_htx (value : BitVec 32) (c : Core) :
    (c.writeMemory .x 0xffeb value).hrxWord = value &&& bitmask 24 := by
  have hrom : ¬ (c.romOn ∧ (0xffeb : BitVec 16) < 0x200) := fun h => absurd h.2 (by decide)
  simp only [writeMemory, hrom]
  exact (writePeriphX_periph (n := hostHrx) (by decide) (k := hostHrx) (by decide) _ c).trans (if_pos rfl)

end Core

/-- A write of one side leaves the word that waits for it alone just if it writes what is there, whatever the flags
say. -/
theorem directions_apart_iff (c : Core) :
    (∀ value, (c.writeHost cpuTxh value).rxBytes = c.rxBytes ↔ value = c.hostport cpuTxh) ∧
    (∀ value, (c.writeHost cpuTxm value).rxBytes = c.rxBytes ↔ value = c.hostport cpuTxm) ∧
    (∀ value, (c.writeHost cpuTxl value).rxBytes = c.rxBytes ↔ value = c.hostport cpuTxl) ∧
    ∀ value, (c.writeMemory .x 0xffeb value).hrxWord = c.hrxWord ↔ value &&& bitmask 24 = c.hrxWord := by
  refine ⟨fun value => ?_, fun value => ?_, fun value => ?_, fun value => ?_⟩
  · exact ⟨congrArg Prod.fst, fun h => h ▸ rfl⟩
  · exact ⟨fun h => congrArg (·.2.1) h, fun h => h ▸ rfl⟩
  · rw [c.writeHost_txl_rxBytes]
    exact ⟨fun h => congrArg (·.2.2) h, fun h => h ▸ rfl⟩
  · rw [c.writeMemory_htx]

/-- Both sides have a word to read. -/
def waiting : Core := (Core.cleared.setIsr isrRxdf).setHsr hsrHrdf

theorem waiting_overwritten :
    waiting.isr.getLsbD isrRxdf = true ∧ (waiting.writeHost cpuTxh 5).rxBytes ≠ waiting.rxBytes ∧
      waiting.hsr.getLsbD hsrHrdf = true ∧ (waiting.writeMemory .x 0xffeb 5).hrxWord ≠ waiting.hrxWord := by decide

end Aranym.Dsp
