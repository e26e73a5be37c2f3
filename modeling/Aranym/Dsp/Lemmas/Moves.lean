import Aranym.Dsp.Parmove
import Aranym.Dsp.Lemmas.Memory
import Aranym.Dsp.Lemmas.Unseen

/-!
# What moves read and write

The host port is the only part of the DSP in which reading or writing a word changes more than that word.
-/

namespace Aranym.Dsp

open BitVec List Function

namespace Core

variable {c : Core} {f f' : Core → Core}

variable (space : Space) (bit : Nat)

/-! ## The host port -/

abbrev HostState := (BitVec 6 → BitVec 32) × (BitVec 3 → BitVec 8)

def host (c : Core) : HostState := (c.periph .x, c.hostport)

def withHost (c : Core) (p : HostState) : Core :=
  { c with periph := update c.periph .x p.1, hostport := p.2 }

def HostAction (f : Core → Core) : Prop := ∃ F : HostState → HostState, ∀ c, f c = c.withHost (F c.host)

theorem withHost_host (c : Core) : c.withHost c.host = c := by rw [withHost, host, update_eq_self]

theorem host_withHost (c : Core) (p : HostState) : (c.withHost p).host = p := by
  rw [host, withHost]
  dsimp only
  rw [update_self]

theorem HostAction.id : HostAction fun c => c := ⟨fun p => p, fun c => (withHost_host c).symm⟩

theorem HostAction.comp (h' : HostAction f') (h : HostAction f) : HostAction fun c => f' (f c) := by
  obtain ⟨F, hF⟩ := h
  obtain ⟨F', hF'⟩ := h'
  refine ⟨fun p => F' (F p), fun c => ?_⟩
  dsimp only
  rw [hF' (f c), hF c, host_withHost]
  simp only [withHost, update_idem]

theorem HostAction.ite {P} [DecidablePred P] (h : HostAction f) (h' : HostAction f') :
    HostAction fun c => if P c.host then f c else f' c := by
  obtain ⟨F, hF⟩ := h
  obtain ⟨F', hF'⟩ := h'
  refine ⟨fun p => if P p then F p else F' p, fun c => ?_⟩
  dsimp only
  split
  · exact hF c
  · exact hF' c

theorem setPeriph_action (n : BitVec 6) (value : HostState → BitVec 32) :
    HostAction fun c => c.setPeriph .x n (value c.host) :=
  ⟨fun p => (update p.1 n (value p), p.2), fun _ => rfl⟩

theorem setHost_action (n : BitVec 3) (value : HostState → BitVec 8) :
    HostAction fun c => c.setHost n (value c.host) := by
  refine ⟨fun p => (p.1, update p.2 n (value p)), fun c => ?_⟩
  simp only [withHost, host, update_eq_self, setHost]

theorem clearHsr_action : HostAction (clearHsr · bit) := setPeriph_action _ fun p => p.1 hostHsr &&& _

theorem setHsr_action : HostAction (setHsr · bit) := setPeriph_action _ fun p => p.1 hostHsr ||| _

theorem clearIsr_action : HostAction (clearIsr · bit) := setHost_action _ fun p => p.2 cpuIsr &&& _

theorem setIsr_action : HostAction (setIsr · bit) := setHost_action _ fun p => p.2 cpuIsr ||| _

theorem hostportUpdateTrdy_action : HostAction hostportUpdateTrdy := by
  have htest := @HostAction.ite _ _ (fun p => (p.2 cpuIsr).getLsbD isrTxde ∧ ¬ (p.1 hostHsr).getLsbD hsrHrdf) _
    (setIsr_action isrTrdy) .id
  exact htest.comp (clearIsr_action isrTrdy)

theorem dsp2host_action : HostAction dsp2host := by
  have hcopy := ((setHost_action cpuTxh fun p => (p.1 hostHrx >>> 16).setWidth 8).comp
    (setHost_action cpuTxm fun p => (p.1 hostHrx >>> 8).setWidth 8)).comp
    (setHost_action cpuTxl fun p => (p.1 hostHrx).setWidth 8)
  have htransfer := ((setIsr_action isrRxdf).comp (setHsr_action hsrHtde)).comp hcopy
  exact @HostAction.ite _ _ (fun p => (p.2 cpuIsr).getLsbD isrRxdf) _ .id
    (@HostAction.ite _ _ (fun p => (p.1 hostHsr).getLsbD hsrHtde) _ .id htransfer)

theorem host2dsp_action : HostAction host2dsp := by
  have hcopy := setPeriph_action hostHrx fun p => (p.2 cpuTxl).setWidth 32 ||| (p.2 cpuTxm).setWidth 32 <<< 8 |||
    (p.2 cpuTxh).setWidth 32 <<< 16
  have htransfer := hostportUpdateTrdy_action.comp (((setIsr_action isrTxde).comp (setHsr_action hsrHrdf)).comp hcopy)
  exact @HostAction.ite _ _ (fun p => (p.2 cpuIsr).getLsbD isrTxde) _ .id
    (@HostAction.ite _ _ (fun p => (p.1 hostHsr).getLsbD hsrHrdf) _ .id htransfer)

theorem hostportDspread_action : HostAction hostportDspread :=
  (host2dsp_action.comp (hostportUpdateTrdy_action.comp (clearHsr_action hsrHrdf)) :)

theorem writePeriphX_action (n : BitVec 6) (value : BitVec 32) : HostAction (writePeriphX n value) := by
  have hset := fun n => setPeriph_action n fun _ => value
  have hwrite := (dsp2host_action.comp (clearHsr_action hsrHtde)).comp (hset hostHrx)
  have hflags := (setHost_action cpuIsr fun p => p.2 cpuIsr &&& (0xff - (1#8 <<< isrHf3 ||| 1#8 <<< isrHf2)) |||
    value.setWidth 8 &&& (1#8 <<< isrHf3 ||| 1#8 <<< isrHf2)).comp (hset hostHcr)
  unfold writePeriphX
  split_ifs
  · exact hwrite
  · exact hflags
  · exact .id
  · exact hset n

theorem exists_readMemory (address : BitVec 16) (c : Core) :
    (c.readMemory space address).2 = c ∨ space = .x ∧ (c.readMemory space address).2 = c.hostportDspread := by
  unfold readMemory
  split_ifs
  · exact .inl rfl
  · exact .inl rfl
  · exact .inl rfl
  · dsimp only
    split_ifs with h
    · exact .inr ⟨h.1, rfl⟩
    · exact .inl rfl
  · exact .inl rfl

/-! ## Before the operation of the ALU -/

structure Prepared (c c' : Core) : Prop where
  unseen : ∃ g, Unseen g ∧ c'.registers = g c.registers
  special : ∀ n : RegNum, n.getLsbD 5 → n ≠ regSr → c'.registers n = c.registers n
  curInst : c'.curInst = c.curInst
  pc : c'.pc = c.pc

theorem Prepared.refl (c : Core) : Prepared c c := ⟨⟨_, .id, rfl⟩, fun _ _ _ => rfl, rfl, rfl⟩

theorem Prepared.trans {c' c''} (h : Prepared c c') (h' : Prepared c' c'') : Prepared c c'' := by
  obtain ⟨g, hg, hreg⟩ := h.unseen
  obtain ⟨g', hg', hreg'⟩ := h'.unseen
  refine ⟨⟨_, hg'.comp hg, by rw [hreg', hreg]⟩, fun n hn hsr => ?_, h'.curInst.trans h.curInst, h'.pc.trans h.pc⟩
  rw [h'.special n hn hsr, h.special n hn hsr]

theorem prepared_hostAction (h : HostAction f) (c : Core) : Prepared c (f c) := by
  obtain ⟨F, hF⟩ := h
  rw [hF c]
  exact ⟨⟨_, .id, rfl⟩, fun _ _ _ => rfl, rfl, rfl⟩

theorem prepared_readMemory (address : BitVec 16) (c : Core) : Prepared c (c.readMemory space address).2 := by
  rcases exists_readMemory space address c with h | ⟨-, h⟩ <;> rw [h]
  · exact .refl c
  · exact prepared_hostAction hostportDspread_action c

theorem prepared_setLimited (b : Bool) (c : Core) : Prepared c { c with registers := c.registers.setLimited b } := by
  cases b with
  | false => exact .refl c
  | true => exact ⟨⟨_, .limit, rfl⟩, fun n _ hsr => update_of_ne hsr _ _, rfl, rfl⟩

theorem prepared_calcEa (eaMode : BitVec 6) (c : Core) : Prepared c (c.calcEa eaMode).2.2 := by
  obtain ⟨value, len, h⟩ := exists_calcEa eaMode c
  rw [h]
  have hbits : ∀ m : BitVec 3, 0x10 ≤ regR m ∧ regR m ≠ regSr ∧ (regR m).getLsbD 5 = false := by decide
  obtain ⟨hle, hsr, hbit⟩ := hbits (eaMode.setWidth 3)
  refine ⟨⟨_, .other hle hsr value, rfl⟩, fun n hn _ => update_of_ne ?_ _ _, rfl, rfl⟩
  rintro rfl
  rw [hbit] at hn
  cases hn

theorem prepared_readSource (numreg : RegNum) (c : Core) : Prepared c (c.readSource numreg).2 := by
  rw [readSource]
  split
  · exact prepared_setLimited _ c
  · exact .refl c

theorem prepared_moveMemory (address : BitVec 32) (immediate : Bool) (numreg : RegNum) (write : Bool)
    (c : Core) : Prepared c (c.moveMemory space address immediate numreg write).2 := by
  rw [moveMemory]
  split
  · rw [readOperand]
    split
    · exact .refl c
    · exact prepared_readMemory _ _ c
  · exact prepared_readSource numreg c

theorem prepared_pm4x (lAddr : BitVec 32) (c : Core) : Prepared c (c.pm4x lAddr).2 := by
  unfold pm4x
  dsimp only
  split_ifs
  · exact (prepared_readMemory _ _ c).trans (prepared_readMemory _ _ _)
  · exact (prepared_readMemory _ _ c).trans (prepared_readMemory _ _ _)
  · exact .refl c
  · exact prepared_setLimited _ c
  · exact prepared_setLimited _ c
  · exact prepared_setLimited _ c
  · exact (prepared_setLimited _ c).trans (prepared_setLimited _ _)

theorem prepared_pmAddress (c : Core) : Prepared c c.pmAddress.2.2 := by
  unfold pmAddress
  dsimp only
  split
  · exact prepared_calcEa _ c
  · exact .refl c

theorem prepared_parmoveRead (c : Core) : Prepared c c.parmoveRead.2 := by
  have h5 : Prepared c c.pm5.2 := (prepared_pmAddress c).trans (prepared_moveMemory _ _ _ _ _ _)
  have h3 : Prepared c c.pm3.2 := .refl c
  unfold parmoveRead
  split
  · exact (prepared_calcEa _ c).trans (prepared_setLimited _ _)
  · exact ((prepared_calcEa _ c).trans (prepared_moveMemory _ _ _ _ _ _)).trans (prepared_setLimited _ _)
  · unfold pm2 pm22
    dsimp only
    split_ifs
    · exact .refl c
    · exact prepared_calcEa _ c
    · exact prepared_setLimited _ c
    · exact .refl c
    · exact .refl c
    · exact h3
  · exact h3
  · unfold pm4
    dsimp only
    split
    · exact (prepared_pmAddress c).trans (prepared_pm4x _ _)
    · exact h5
  · exact h5
  · exact h5
  · exact h5
  · exact (((prepared_calcEa _ c).trans (prepared_calcEa _ _)).trans (prepared_moveMemory _ _ _ _ _ _)).trans
      (prepared_moveMemory _ _ _ _ _ _)

end Core

/-! ## Destinations -/

def Dest.Low : Dest → Prop
  | .reg n => n.getLsbD 5 = false
  | .mem _ _ => True

variable {numreg : RegNum}

theorem low_of_mask (x : BitVec 32) {mask} (h : mask.getLsbD 5 = false) :
    ((x &&& mask).setWidth 6).getLsbD 5 = false := by
  rw [getLsbD_setWidth, getLsbD_and, h, Bool.and_false, Bool.and_false]

theorem low_add_bit (x : BitVec 32) {n} (h : n.getLsbD 5 = false ∧ (n + 1).getLsbD 5 = false) :
    (n + (x &&& 1).setWidth 6).getLsbD 5 = false := by
  rcases bit_cases x with hx | hx <;> rw [hx]
  · rw [BitVec.add_zero]; exact h.1
  · exact h.2

theorem pmRegister_low {data} (h : data.getLsbD 5 = false ∧ (data + 1).getLsbD 5 = false) (n : BitVec 32) :
    (Core.pmRegister data n).getLsbD 5 = false := by
  rw [Core.pmRegister]
  split_ifs
  · exact h.1
  · exact h.2
  · rfl
  · rfl

theorem registersLmove_low (n : Nat) :
    (registersLmove n).1.getLsbD 5 = false ∧ (registersLmove n).2.getLsbD 5 = false := by
  have htable : ∀ n < 8, (registersLmove n).1.getLsbD 5 = false ∧ (registersLmove n).2.getLsbD 5 = false := by decide
  rcases Nat.lt_or_ge n 8 with hn | hn
  · exact htable n hn
  · rw [registersLmove, getD_eq_getElem?_getD, List.getElem?_eq_none hn]; exact ⟨rfl, rfl⟩

theorem exists_reg_of_pmWritereg {src m} (hm : m ∈ pmWritereg numreg src) :
    ∃ n, m.1 = .reg n ∧ (numreg.getLsbD 5 = false → n.getLsbD 5 = false) := by
  rw [pmWritereg] at hm
  split at hm
  · rename_i haccu
    simp only [mem_cons, not_mem_nil, or_false] at hm
    rcases haccu with rfl | rfl <;> rcases hm with rfl | rfl | rfl <;> exact ⟨_, rfl, fun _ => rfl⟩
  · obtain rfl := mem_singleton.mp hm; exact ⟨_, rfl, fun h => h⟩

theorem pmWritereg_low (h : numreg.getLsbD 5 = false) (src : Acc) : ∀ m ∈ pmWritereg numreg src, m.1.Low := by
  intro m hm
  obtain ⟨n, hn, hlow⟩ := exists_reg_of_pmWritereg hm
  rw [hn]
  exact hlow h

namespace Core

theorem moveMemory_low (h : numreg.getLsbD 5 = false) (space : Space) (address : BitVec 32) (immediate write : Bool)
    (c : Core) : ∀ m ∈ (c.moveMemory space address immediate numreg write).1, m.1.Low := by
  rw [moveMemory]
  split
  · exact pmWritereg_low h _
  · intro m hm; obtain rfl := mem_singleton.mp hm; trivial

theorem pm3_low (c : Core) : ∀ m ∈ c.pm3.1.first ++ c.pm3.1.second, m.1.Low := by
  have hreg : ((c.curInst >>> 16 &&& bitmask 5).setWidth 6).getLsbD 5 = false := low_of_mask _ (by decide)
  intro m hm
  exact pmWritereg_low hreg _ m (by simpa [pm3] using hm)

theorem pm5_low (c : Core) : ∀ m ∈ c.pm5.1.first ++ c.pm5.1.second, m.1.Low := by
  have hreg : (((c.curInst >>> 16 &&& bitmask 3) ||| (c.curInst >>> 17 &&& bitmask 2 <<< 3)).setWidth 6).getLsbD 5
      = false := by
    rw [setWidth_or, getLsbD_or, low_of_mask _ (by decide), low_of_mask _ (by decide), Bool.or_false]
  intro m hm
  exact moveMemory_low hreg _ _ _ _ _ m (by simpa [pm5] using hm)

theorem parmoveRead_low (c : Core) : ∀ m ∈ c.parmoveRead.1.first ++ c.parmoveRead.1.second, m.1.Low := by
  have happ : ∀ {l l' : List (Dest × BitVec 32)}, (∀ m ∈ l, m.1.Low) → (∀ m ∈ l', m.1.Low) →
      ∀ m ∈ l ++ l', m.1.Low := fun h h' m hm => (mem_append.mp hm).elim (h m) (h' m)
  have hone : ∀ {d : Dest} {v : BitVec 32}, d.Low → ∀ m ∈ [(d, v)], m.1.Low := fun h m hm => by
    obtain rfl := mem_singleton.mp hm; exact h
  have hnil : ∀ m ∈ ([] : List (Dest × BitVec 32)), m.1.Low := fun m hm => absurd hm not_mem_nil
  unfold parmoveRead
  split
  · exact happ (hone trivial) (pmWritereg_low (low_add_bit _ ⟨rfl, rfl⟩) _)
  · refine happ (moveMemory_low ?_ _ _ _ _ _) (hone ?_)
    · split
      · exact pmRegister_low ⟨rfl, rfl⟩ _
      · exact pmRegister_low ⟨rfl, rfl⟩ _
    · split
      · exact low_add_bit _ ⟨rfl, rfl⟩
      · exact low_add_bit _ ⟨rfl, rfl⟩
  · unfold pm2 pm22
    dsimp only
    split_ifs
    · exact hnil
    · exact hnil
    · exact happ (pmWritereg_low (low_of_mask _ (by decide)) _) hnil
    · exact happ (pmWritereg_low (low_of_mask _ (by decide)) _) hnil
    · exact happ (pmWritereg_low (low_of_mask _ (by decide)) _) hnil
    · exact pm3_low c
  · exact pm3_low c
  · unfold pm4
    dsimp only
    split
    · unfold pm4x
      dsimp only
      split_ifs
      · exact happ (pmWritereg_low (registersLmove_low _).1 _) hnil
      · exact happ (pmWritereg_low (registersLmove_low _).1 _) (pmWritereg_low (registersLmove_low _).2 _)
      · exact happ (hone trivial) (hone trivial)
      · exact happ (hone trivial) (hone trivial)
      · exact happ (hone trivial) (hone trivial)
      · exact happ (hone trivial) (hone trivial)
      · exact happ (hone trivial) (hone trivial)
    · exact pm5_low c
  · exact pm5_low c
  · exact pm5_low c
  · exact pm5_low c
  · exact happ (moveMemory_low (pmRegister_low ⟨rfl, rfl⟩ _) _ _ _ _ _)
      (moveMemory_low (pmRegister_low ⟨rfl, rfl⟩ _) _ _ _ _ _)

end Core

end Aranym.Dsp
