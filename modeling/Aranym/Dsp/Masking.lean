import Aranym.Dsp.Cpu
import Aranym.Dsp.Lemmas.Alu
import Aranym.Lib.Run

/-!
# Levels of interrupts

While a long interrupt of a peripheral is in force, no peripheral of its level or a lower one should interrupt.
-/

namespace Aranym.Dsp

open Aranym.Lib BitVec Option

variable {c c' d : Core} {source : Core.Interrupt}

namespace Core

def executed (c : Core) : Core := c.fetch.execute.postexecuteUpdatePc

def accepted (d : Core) : Option Interrupt :=
  if d.loopRep ∨ d.interruptState = .fast then none else d.raise.map Prod.fst

def Interrupt.peripheral (source : Interrupt) : Prop := source = .host ∨ source = .ssi

instance (source : Interrupt) : Decidable source.peripheral := inferInstanceAs (Decidable (_ ∨ _))

def HostRequest (d : Core) : Prop :=
  ((d.periph .x hostHcr).getLsbD hcrHcie ∧ d.hsr.getLsbD hsrHcp) ∨
    ((d.periph .x hostHcr).getLsbD hcrHrie ∧ d.hsr.getLsbD hsrHrdf) ∨
    ((d.periph .x hostHcr).getLsbD hcrHtie ∧ ¬ d.hsr.getLsbD hsrHtde)

def SsiRequest (d : Core) : Prop :=
  ((d.periph .x ssiCrb).getLsbD crbRie ∧ (d.periph .x ssiSr).getLsbD ssiSrRdf) ∨
    ((d.periph .x ssiCrb).getLsbD crbTie ∧ (d.periph .x ssiSr).getLsbD ssiSrTdf)

def Requests (d : Core) (q : BitVec 32) : Prop := (d.HostRequest ∧ d.iplHi = q) ∨ (d.SsiRequest ∧ d.iplSsi = q)

def Polls (d : Core) : Prop :=
  ¬ d.loopRep ∧ d.interruptState ≠ .fast ∧ ¬ (d.registers regSr).getLsbD srT ∧ ¬ d.swiInter ∧ d.ipl ≠ 3

end Core

/-! ## Events -/

/-- What happens to the core: an instruction, or the host at one of its registers. -/
inductive Event where
  | instruction
  | read (addr : BitVec 3)
  | write (addr : BitVec 3) (value : BitVec 8)

structure Tracked where
  core : Core
  inForce : Nat

namespace Tracked

def kept (t : Tracked) : Nat := if t.core.executed.ipl < t.core.ipl then 0 else t.inForce

def step (t : Tracked) : Event → Tracked
  | .instruction =>
    let d := t.core.executed
    let c := d.postexecuteInterrupts
    ⟨c, match d.accepted with
      | none => t.kept
      | some source =>
        if source.peripheral ∧ c.interruptState = .long then max t.kept (d.iplToRaise source).toNat else t.kept⟩
  | .read addr => ⟨(t.core.readHost addr).2, t.inForce⟩
  | .write addr value => ⟨t.core.writeHost addr value, t.inForce⟩

def run (c : Core) (es : List Event) : Tracked := es.foldl step ⟨c, 0⟩

/-- An interrupt of a peripheral is of a higher level than what is in force, and not of level 0. -/
def Masks (t : Tracked) : Event → Prop
  | .instruction => ∀ source, t.core.executed.accepted = some source → source.peripheral →
      t.kept < (t.core.executed.iplToRaise source).toNat
  | _ => True

/-- The highest request is not one of the level of the CPU if that level is in force, or 0. -/
def Careful (t : Tracked) : Event → Prop
  | .instruction =>
    let d := t.core.executed
    d.Polls → d.ipl.toNat = t.kept → d.Requests d.ipl → ∃ q, d.Requests q ∧ d.ipl < q
  | _ => True

end Tracked

/-! ## Requests -/

namespace Core

structure SameLevels (c d : Core) : Prop where
  registers : d.registers = c.registers
  ipr : d.periph .x ipr = c.periph .x ipr

theorem SameLevels.ipl (h : SameLevels c d) : d.ipl = c.ipl := by rw [Core.ipl, h.registers, Core.ipl]

theorem SameLevels.iplToRaise (h : SameLevels c d) (source : Interrupt) : d.iplToRaise source = c.iplToRaise source := by
  cases source with
  | trace => rfl
  | swi => rfl
  | host => rw [Core.iplToRaise, Core.iplToRaise, iplHi, iplHi, h.ipr]
  | ssi => rw [Core.iplToRaise, Core.iplToRaise, iplSsi, iplSsi, h.ipr]

theorem sameLevels_setPeriph {n} (hn : n ≠ ipr) (value : BitVec 32) :
    SameLevels c (c.setPeriph .x n value) := by
  refine ⟨rfl, ?_⟩
  rw [setPeriph]
  dsimp only
  rw [Function.update_self, Function.update_of_ne hn.symm]

theorem sameLevels_clearHsr (bit : Nat) : SameLevels c (c.clearHsr bit) := sameLevels_setPeriph (by decide) _

theorem hiInterrupts_sameLevels (h : c.hiInterrupts = some d) : SameLevels c d := by
  rw [hiInterrupts] at h
  dsimp only at h
  split at h
  · cases h; exact ⟨rfl, (sameLevels_clearHsr hsrHcp).ipr⟩
  · split at h
    · cases h; exact ⟨rfl, (sameLevels_clearHsr hsrHrdf).ipr⟩
    · split at h
      · cases h; exact ⟨rfl, (sameLevels_clearHsr hsrHtde).ipr⟩
      · cases h

theorem hiInterrupts_isSome : c.hiInterrupts.isSome ↔ c.HostRequest := by
  rw [hiInterrupts, HostRequest]
  dsimp only
  split
  · rename_i h; exact iff_of_true rfl (.inl h)
  · rename_i h1
    split
    · rename_i h; exact iff_of_true rfl (.inr (.inl h))
    · rename_i h2
      split
      · rename_i h; exact iff_of_true rfl (.inr (.inr h))
      · rename_i h3; exact iff_of_false Bool.false_ne_true (fun h => h.elim h1 fun h => h.elim h2 h3)

theorem ssiInterrupts_sameLevels (h : c.ssiInterrupts = some d) : SameLevels c d := by
  have hset : ∀ value, SameLevels c (c.setPeriph .x ssiSr value) := sameLevels_setPeriph (by decide)
  rw [ssiInterrupts] at h
  dsimp only at h
  split at h
  · cases h; exact ⟨rfl, (hset (c.periph .x ssiSr &&& (0xff - 1#32 <<< ssiSrRoe))).ipr⟩
  · split at h
    · cases h; exact ⟨rfl, rfl⟩
    · split at h
      · cases h; exact ⟨rfl, (hset (c.periph .x ssiSr &&& (0xff - 1#32 <<< ssiSrTue))).ipr⟩
      · split at h
        · cases h; exact ⟨rfl, rfl⟩
        · cases h

theorem ssiInterrupts_isSome : c.ssiInterrupts.isSome ↔ c.SsiRequest := by
  rw [ssiInterrupts, SsiRequest]
  dsimp only
  generalize (c.periph .x ssiCrb).getLsbD crbRie = rie
  generalize (c.periph .x ssiCrb).getLsbD crbTie = tie
  generalize (c.periph .x ssiSr).getLsbD ssiSrRdf = rdf
  generalize (c.periph .x ssiSr).getLsbD ssiSrTdf = tdf
  cases rie <;> cases tie <;> cases rdf <;> cases tdf <;>
    cases (c.periph .x ssiSr).getLsbD ssiSrRoe <;> cases (c.periph .x ssiSr).getLsbD ssiSrTue <;> simp

theorem raiseHi_eq_some (h : c.raiseHi = some (source, d)) :
    source = .host ∧ c.ipl ≤ c.iplHi ∧ c.HostRequest ∧ SameLevels c d := by
  rw [raiseHi] at h
  split at h
  · rename_i hle
    obtain ⟨d', hd', heq⟩ := map_eq_some_iff.mp h
    cases heq
    exact ⟨rfl, hle, hiInterrupts_isSome.mp (by rw [hd']; rfl), hiInterrupts_sameLevels hd'⟩
  · cases h

theorem raiseSsi_eq_some (h : c.raiseSsi = some (source, d)) :
    source = .ssi ∧ c.ipl ≤ c.iplSsi ∧ c.SsiRequest ∧ SameLevels c d := by
  rw [raiseSsi] at h
  split at h
  · rename_i hle
    obtain ⟨d', hd', heq⟩ := map_eq_some_iff.mp h
    cases heq
    exact ⟨rfl, hle, ssiInterrupts_isSome.mp (by rw [hd']; rfl), ssiInterrupts_sameLevels hd'⟩
  · cases h

theorem raiseHi_eq_none : c.raiseHi = none ↔ (c.ipl ≤ c.iplHi → ¬ c.HostRequest) := by
  rw [raiseHi, ← hiInterrupts_isSome]
  split <;> (rename_i hle; simp [hle])

theorem raiseSsi_eq_none : c.raiseSsi = none ↔ (c.ipl ≤ c.iplSsi → ¬ c.SsiRequest) := by
  rw [raiseSsi, ← ssiInterrupts_isSome]
  split <;> (rename_i hle; simp [hle])

theorem raise_sameLevels (h : c.raise = some (source, d)) : SameLevels c d := by
  rw [raise] at h
  split at h
  · cases h; exact ⟨rfl, rfl⟩
  · split at h
    · cases h; exact ⟨rfl, rfl⟩
    · split at h
      · cases h
      · split at h
        · rcases or_eq_some_iff.mp h with h | ⟨-, h⟩
          · exact (raiseHi_eq_some h).2.2.2
          · exact (raiseSsi_eq_some h).2.2.2
        · rcases or_eq_some_iff.mp h with h | ⟨-, h⟩
          · exact (raiseSsi_eq_some h).2.2.2
          · exact (raiseHi_eq_some h).2.2.2

theorem raise_peripheral (hraise : c.raise = some (source, d)) (hper : source.peripheral) :
    ¬ (c.registers regSr).getLsbD srT ∧ ¬ c.swiInter ∧ c.ipl ≠ 3 ∧ c.ipl ≤ c.iplToRaise source ∧
      c.Requests (c.iplToRaise source) ∧ ∀ q, c.Requests q → q ≤ c.iplToRaise source := by
  have hnot : ∀ {x : Interrupt}, x = .trace ∨ x = .swi → source ≠ x := by
    rintro x (rfl | rfl) rfl <;> rcases hper with h | h <;> cases h
  rw [raise] at hraise
  split at hraise
  · cases hraise; exact absurd rfl (hnot (.inl rfl))
  · split at hraise
    · cases hraise; exact absurd rfl (hnot (.inr rfl))
    · split at hraise
      · cases hraise
      · rename_i ht hswi hipl
        refine ⟨ht, hswi, hipl, ?_⟩
        split at hraise
        · rename_i hle
          rcases or_eq_some_iff.mp hraise with h | ⟨hnone, h⟩
          · obtain ⟨rfl, hlevel, hreq, -⟩ := raiseHi_eq_some h
            refine ⟨hlevel, .inl ⟨hreq, rfl⟩, ?_⟩
            rintro q (⟨-, rfl⟩ | ⟨-, rfl⟩)
            · exact BitVec.le_refl _
            · exact hle
          · obtain ⟨rfl, hlevel, hreq, -⟩ := raiseSsi_eq_some h
            refine ⟨hlevel, .inr ⟨hreq, rfl⟩, ?_⟩
            rintro q (⟨hhost, rfl⟩ | ⟨-, rfl⟩)
            · exact absurd hhost (raiseHi_eq_none.mp hnone (BitVec.le_trans hlevel hle))
            · exact BitVec.le_refl _
        · rename_i hle
          have hlt : c.iplHi ≤ c.iplSsi := BitVec.le_of_lt (BitVec.not_le.mp hle)
          rcases or_eq_some_iff.mp hraise with h | ⟨hnone, h⟩
          · obtain ⟨rfl, hlevel, hreq, -⟩ := raiseSsi_eq_some h
            refine ⟨hlevel, .inr ⟨hreq, rfl⟩, ?_⟩
            rintro q (⟨-, rfl⟩ | ⟨-, rfl⟩)
            · exact hlt
            · exact BitVec.le_refl _
          · obtain ⟨rfl, hlevel, hreq, -⟩ := raiseHi_eq_some h
            refine ⟨hlevel, .inl ⟨hreq, rfl⟩, ?_⟩
            rintro q (⟨-, rfl⟩ | ⟨hssi, rfl⟩)
            · exact BitVec.le_refl _
            · exact absurd hssi (raiseSsi_eq_none.mp hnone (BitVec.le_trans hlevel hlt))

theorem accepted_peripheral (h : d.accepted = some source) (hper : source.peripheral) :
    d.Polls ∧ d.ipl ≤ d.iplToRaise source ∧ d.Requests (d.iplToRaise source) ∧
      ∀ q, d.Requests q → q ≤ d.iplToRaise source := by
  rw [accepted] at h
  split at h
  · cases h
  · rename_i hnot
    obtain ⟨⟨s, d'⟩, hraise, rfl⟩ := map_eq_some_iff.mp h
    obtain ⟨ht, hswi, hipl, hrest⟩ := raise_peripheral hraise hper
    exact ⟨⟨fun h => hnot (.inl h), fun h => hnot (.inr h), ht, hswi, hipl⟩, hrest⟩

theorem accepted_of_requests (hpolls : d.Polls) (hreq : d.Requests d.ipl) :
    ∃ source, d.accepted = some source ∧ source.peripheral := by
  obtain ⟨hrep, hfast, ht, hswi, hipl⟩ := hpolls
  have hraise : d.raise = if d.iplSsi ≤ d.iplHi then d.raiseHi.or d.raiseSsi else d.raiseSsi.or d.raiseHi := by
    rw [raise, if_neg ht, if_neg hswi, if_neg hipl]
  have hsome : d.raiseHi ≠ none ∨ d.raiseSsi ≠ none := by
    rcases hreq with ⟨h, hq⟩ | ⟨h, hq⟩
    · exact .inl fun hnone => raiseHi_eq_none.mp hnone (by rw [hq]; exact BitVec.le_refl _) h
    · exact .inr fun hnone => raiseSsi_eq_none.mp hnone (by rw [hq]; exact BitVec.le_refl _) h
  have hex : ∃ x, d.raise = some x ∧ x.1.peripheral := by
    rw [hraise]
    cases hhi : d.raiseHi with
    | some x =>
      cases hssi : d.raiseSsi with
      | some y =>
        split
        · exact ⟨x, rfl, .inl (raiseHi_eq_some hhi).1⟩
        · exact ⟨y, rfl, .inr (raiseSsi_eq_some hssi).1⟩
      | none => split <;> exact ⟨x, rfl, .inl (raiseHi_eq_some hhi).1⟩
    | none =>
      cases hssi : d.raiseSsi with
      | some y => split <;> exact ⟨y, rfl, .inr (raiseSsi_eq_some hssi).1⟩
      | none => exact absurd hsome (by simp [hhi, hssi])
  obtain ⟨x, hx, hper⟩ := hex
  refine ⟨x.1, ?_, hper⟩
  rw [accepted, if_neg (fun h => h.elim hrep hfast), hx]
  rfl

/-! ## The level of the CPU -/

theorem toNat_and_two (x : BitVec 32) : (x &&& bitmask 2).toNat ≤ 3 := by
  have := toNat_and_bitmask_lt x (show 2 < 32 by decide)
  omega

theorem toNat_ipl_le (c : Core) : c.ipl.toNat ≤ 3 := toNat_and_two _

theorem toNat_iplToRaise_le (c : Core) (source : Interrupt) : (c.iplToRaise source).toNat ≤ 3 := by
  cases source with
  | trace => exact le_refl 3
  | swi => exact le_refl 3
  | host => exact toNat_and_two _
  | ssi => exact toNat_and_two _

theorem level_of_sr (sr : BitVec 32) {mask level : BitVec 32} (h0 : mask.getLsbD 8 = false) (h1 : mask.getLsbD 9 = false)
    (hlevel : level.toNat ≤ 3) : ((sr &&& mask) ||| level <<< srI0) >>> srI0 &&& bitmask 2 = level := by
  apply eq_of_getLsbD_eq
  intro i hi
  rw [getLsbD_and, getLsbD_ushiftRight, getLsbD_or, getLsbD_and, getLsbD_shiftLeft]
  by_cases hlow : i < 2
  · have hcases : i = 0 ∨ i = 1 := by omega
    rcases hcases with rfl | rfl
    · rw [show srI0 + 0 = 8 from rfl, h0, show (bitmask 2).getLsbD 0 = true by decide]; simp [srI0]
    · rw [show srI0 + 1 = 9 from rfl, h1, show (bitmask 2).getLsbD 1 = true by decide]; simp [srI0]
  · have hbit : level.getLsbD i = false := by
      rw [← testBit_toNat]
      exact Nat.testBit_lt_two_pow (lt_of_le_of_lt hlevel (lt_of_lt_of_le (by decide : 3 < 2 ^ 2)
        (Nat.pow_le_pow_right (by decide) (by omega))))
    have hmask : (bitmask 2).getLsbD i = false := by
      rw [← testBit_toNat, toNat_bitmask (by decide), Nat.testBit_two_pow_sub_one]
      exact decide_eq_false hlow
    rw [hbit, hmask, Bool.and_false]

theorem stackPush_interruptState (curpc cursr : BitVec 32) (c : Core) :
    (c.stackPush curpc cursr).interruptState = c.interruptState := by
  rw [stackPush]
  split
  · rfl
  · simp only [setStackSsl, setStackSsh]
    split <;> split <;> rfl

theorem accept_ipl (c : Core) {level : BitVec 32} (hlevel : level.toNat ≤ 3) :
    ((c.accept level).interruptState = .long ∧ (c.accept level).ipl = level) ∨
      ((c.accept level).interruptState = .fast ∧ (c.accept level).ipl = c.ipl) := by
  rw [accept]
  split
  · left; exact ⟨stackPush_interruptState _ _ _, level_of_sr _ (by decide) (by decide) hlevel⟩
  · exact .inr ⟨rfl, rfl⟩

theorem fastInterrupt_ipl (c : Core) : c.fastInterrupt.ipl = c.ipl := by
  rw [fastInterrupt]
  split <;> rfl

theorem ipl_of_accepted (h : d.accepted = some source) :
    (d.postexecuteInterrupts.interruptState = .long ∧ d.postexecuteInterrupts.ipl = d.iplToRaise source) ∨
      (d.postexecuteInterrupts.interruptState = .fast ∧ d.postexecuteInterrupts.ipl = d.ipl) := by
  rw [accepted] at h
  split at h
  · cases h
  · rename_i hnot
    obtain ⟨⟨s, d'⟩, hraise, rfl⟩ := map_eq_some_iff.mp h
    have hsame := raise_sameLevels hraise
    have heq : d.postexecuteInterrupts = d'.accept (d'.iplToRaise s) := by
      rw [postexecuteInterrupts, if_neg fun h => hnot (.inl h), if_neg fun h => hnot (.inr h), hraise]
    rw [heq, ← hsame.iplToRaise, ← hsame.ipl]; exact accept_ipl d' (toNat_iplToRaise_le d' s)

theorem ipl_of_not_accepted (h : d.accepted = none) : d.postexecuteInterrupts.ipl = d.ipl := by
  rw [accepted] at h
  rw [postexecuteInterrupts]
  split
  · rfl
  · rename_i hrep
    split
    · exact fastInterrupt_ipl d
    · rename_i hfast; rw [if_neg fun h => h.elim hrep hfast, map_eq_none_iff] at h; rw [h]

theorem dsp2host_registers (c : Core) : c.dsp2host.registers = c.registers := by
  rw [dsp2host]
  split
  · rfl
  · split <;> rfl

theorem hostportUpdateTrdy_registers (c : Core) : c.hostportUpdateTrdy.registers = c.registers := by
  rw [hostportUpdateTrdy]
  split <;> rfl

theorem host2dsp_registers (c : Core) : c.host2dsp.registers = c.registers := by
  rw [host2dsp]
  split
  · rfl
  · split
    · rfl
    · exact hostportUpdateTrdy_registers _

theorem readHost_registers (addr : BitVec 3) (c : Core) : (c.readHost addr).2.registers = c.registers := by
  rw [readHost]
  dsimp only
  split
  · exact dsp2host_registers _
  · rfl

theorem hostportCpuwrite_registers (c : Core) : c.hostportCpuwrite.registers = c.registers :=
  (host2dsp_registers _).trans (hostportUpdateTrdy_registers _)

theorem writeHost_registers (addr : BitVec 3) (value : BitVec 8) (c : Core) :
    (c.writeHost addr value).registers = c.registers := by
  rw [writeHost]
  split
  · rfl
  · split
    · dsimp only
      split <;> rfl
    · split
      · rfl
      · split
        · rfl
        · dsimp only
          split
          · split <;> rfl
          · exact hostportCpuwrite_registers _

end Core

/-! ## Runs -/

namespace Tracked

variable {t : Tracked}

theorem kept_le (h : t.inForce ≤ t.core.ipl.toNat) : t.kept ≤ t.core.executed.ipl.toNat := by
  rw [kept]
  split
  · exact Nat.zero_le _
  · rename_i hle; exact h.trans (le_def.mp (BitVec.not_lt.mp hle))

theorem inForce_le (h : t.inForce ≤ t.core.ipl.toNat) (e : Event) : (t.step e).inForce ≤ (t.step e).core.ipl.toNat := by
  cases e with
  | instruction =>
    have hkept := kept_le h
    have hle := Core.toNat_ipl_le t.core.executed
    simp only [step]
    cases hacc : t.core.executed.accepted with
    | none => rw [Core.ipl_of_not_accepted hacc]; exact hkept
    | some source =>
      dsimp only
      rcases Core.ipl_of_accepted hacc with ⟨hlong, hipl⟩ | ⟨hfast, hipl⟩
      · rw [hlong, hipl]
        split
        · rename_i hper
          have hlevel := le_def.mp (Core.accepted_peripheral hacc hper.1).2.1
          exact max_le (hkept.trans hlevel) (le_refl _)
        · rename_i hper
          have hthree : (t.core.executed.iplToRaise source).toNat = 3 := by
            cases source with
            | trace => rfl
            | swi => rfl
            | host => exact absurd ⟨.inl rfl, rfl⟩ hper
            | ssi => exact absurd ⟨.inr rfl, rfl⟩ hper
          omega
      · rw [hfast, hipl, if_neg fun h => absurd h.2 (by decide)]; exact hkept
  | read addr =>
    change t.inForce ≤ (t.core.readHost addr).2.ipl.toNat
    rw [Core.ipl, Core.readHost_registers]; exact h
  | write addr value =>
    change t.inForce ≤ (t.core.writeHost addr value).ipl.toNat
    rw [Core.ipl, Core.writeHost_registers]; exact h

theorem masks_iff (h : t.inForce ≤ t.core.ipl.toNat) (e : Event) : t.Masks e ↔ t.Careful e := by
  cases e with
  | instruction =>
    have hkept := kept_le h
    constructor
    · intro hmasks hpolls heq hreq
      obtain ⟨source, hacc, hper⟩ := Core.accepted_of_requests hpolls hreq
      obtain ⟨-, -, hlevel, -⟩ := Core.accepted_peripheral hacc hper
      have hlt := hmasks source hacc hper
      rw [← heq] at hlt; exact ⟨_, hlevel, lt_def.mpr hlt⟩
    · intro hcareful source hacc hper
      obtain ⟨hpolls, hle, hreq, hmax⟩ := Core.accepted_peripheral hacc hper
      have hle := le_def.mp hle
      by_contra hnot
      have hipl : t.core.executed.ipl = t.core.executed.iplToRaise source := eq_of_toNat_eq (by omega)
      obtain ⟨q, hq, hlt⟩ := hcareful hpolls (by omega) (by rw [hipl]; exact hreq)
      have hqle := le_def.mp (hmax q hq)
      rw [lt_def, hipl] at hlt; omega
  | read addr => exact Iff.rfl
  | write addr value => exact Iff.rfl

end Tracked

/-- Along a run, all interrupts of peripherals respect what is in force exactly if at each step the highest request is
not just of the level of the CPU while that level is in force, or 0. -/
theorem masks_throughout_iff (c : Core) (es : List Event) :
    (∀ pre e post, es = pre ++ e :: post → (Tracked.run c pre).Masks e) ↔
      ∀ pre e post, es = pre ++ e :: post → (Tracked.run c pre).Careful e := by
  have hinv : ∀ pre post, es = pre ++ post → (Tracked.run c pre).inForce ≤ (Tracked.run c pre).core.ipl.toNat :=
    fun pre post hes => @foldl_invariant _ _ Tracked.step (fun t => t.inForce ≤ t.core.ipl.toNat) ⟨c, 0⟩ es
      (Nat.zero_le _) (fun _ e _ _ h => Tracked.inForce_le h e) pre post hes
  constructor
  · intro h pre e post hes; exact (Tracked.masks_iff (hinv pre _ hes) e).mp (h pre e post hes)
  · intro h pre e post hes; exact (Tracked.masks_iff (hinv pre _ hes) e).mpr (h pre e post hes)

def commandProgram (level : BitVec 32) : Core :=
  let c := { Core.cleared with pc := 0x100, running := true }
  let c := (c.setPeriph .x ipr (level <<< 10)).setPeriph .x hostHcr (1#32 <<< hcrHcie)
  (c.setHost cpuIsr 0x06).setRamint .p 0x24 0x0d0040

/-- A second host command interrupts the subroutine of the first one, and a command interrupts at level 0. -/
theorem interrupts_itself : let first := Tracked.run (commandProgram 1) [.write cpuCvr 0x92, .instruction]
    let second := first.step (.write cpuCvr 0x92)
    let disabled := Tracked.run (commandProgram 0) [.write cpuCvr 0x92]
    (first.core.interruptState = .long ∧ first.inForce = 1) ∧
      (second.core.executed.accepted = some .host ∧ second.kept = 1 ∧ second.core.executed.iplToRaise .host = 1) ∧
      disabled.core.executed.accepted = some .host ∧ disabled.core.executed.iplToRaise .host = 0 := by
  decide +kernel

end Aranym.Dsp
