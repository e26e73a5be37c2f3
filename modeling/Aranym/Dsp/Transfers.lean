import Aranym.Dsp.Lemmas.Places

/-!
# The moves that an instruction word asks for

Which word goes where, for each kind of move, in the terms of the assembler: a source, read before the operation of
the ALU, and a destination. `dsp_parmove_read` keeps exactly these words for their destinations.
-/

namespace Aranym.Dsp

open List Function

/-- A word that a register gives: an accumulator is limited to 24 bits. -/
def sourceValue (numreg : RegNum) (r : Registers) : BitVec 32 × Bool :=
  if isAccu numreg then accu24 numreg r else (r numreg, false)

/-- Where a move takes its word from. `low` is the low word of an accumulator that is stored as a long; it is limited
with the high one. -/
inductive Source where
  | reg (n : RegNum)
  | low (n : RegNum)
  | mem (space : Space) (address : BitVec 32)
  | value (v : BitVec 32)

def Source.word (c : Core) : Source → BitVec 32
  | .reg n => (sourceValue n c.registers).1
  | .low n =>
    let high := accu24 n c.registers
    if high.2 then (if high.1.getLsbD 23 then 0 else 0xffffff) else c.registers (regA0 + (n &&& 1))
  | .mem space address => (c.readMemory space (address.setWidth 16)).1
  | .value v => v

/-- A move. A register takes the bits of `mask`; `toLong` is a move to all 56 bits of an accumulator. -/
inductive Transfer where
  | toMem (source : Source) (space : Space) (address : BitVec 32)
  | toReg (source : Source) (n : RegNum) (mask : BitVec 32)
  | toLong (high low : Source) (n : RegNum)

/-- The words of an accumulator, with the extension as the sign of the middle one. -/
def accuStores (n : RegNum) (high low : BitVec 32) : List (Dest × BitVec 32) :=
  [(.reg (regA2 + (n &&& 1)), if high.getLsbD 23 then 0xff else 0), (.reg (regA1 + (n &&& 1)), high),
    (.reg (regA0 + (n &&& 1)), low)]

def regStores (n : RegNum) (word : BitVec 32) : List (Dest × BitVec 32) :=
  if isAccu n then accuStores n word 0 else [(.reg n, word)]

/-- The places a transfer writes, with their new contents. -/
def Transfer.stores (c : Core) : Transfer → List (Dest × BitVec 32)
  | .toMem source space address => [(.mem space address, source.word c)]
  | .toReg source n mask => regStores n (source.word c &&& mask)
  | .toLong high low n => accuStores n (high.word c &&& bitmask 24) (low.word c &&& bitmask 24)

def fits (n : RegNum) : BitVec 32 := bitmask (registersMask n)

def whole : BitVec 32 := BitVec.allOnes 32

/-- `x:ea,D` or `#xxxxxx,D` if `write`, else `S,x:ea`; the same with `y:`. -/
def memoryMove (space : Space) (address : BitVec 32) (immediate : Bool) (n : RegNum) (write : Bool) : Transfer :=
  if write then .toReg (if immediate then .value address else .mem space address) n (fits n)
  else .toMem (.reg n) space address

/-- `l:ea,D` if `write`, else `S,l:ea`, for the pair of registers `k`. -/
def longMove (address : BitVec 32) (k : Nat) (write : Bool) : List Transfer :=
  let (high, low) := registersLmove k
  if write then
    if high = low then [.toLong (.mem .x address) (.mem .y address) high]
    else [.toReg (.mem .x address) high (fits high), .toReg (.mem .y address) low (fits low)]
  else [.toMem (.reg high) .x address, .toMem (if high = low then .low high else .reg low) .y address]

/-- `#xx,D`. -/
def shortMove (inst : BitVec 32) : Transfer :=
  let n : RegNum := (inst >>> 16 &&& bitmask 5).setWidth 6
  let value := inst >>> 8 &&& bitmask 8
  .toReg (.value (if n = regX0 ∨ n = regX1 ∨ n = regY0 ∨ n = regY1 ∨ isAccu n then value <<< 16 else value)) n (fits n)

namespace Core

/-- The moves of the instruction, and the state in which their sources are read: the address registers are updated. -/
def transfers (c : Core) : List Transfer × Core :=
  let inst := c.curInst
  let xy : RegNum := ((inst >>> 16 &&& bitmask 3) ||| (inst >>> 17 &&& bitmask 2 <<< 3)).setWidth 6
  let xyMove : List Transfer × Core :=
    let (address, immediate, c) := c.pmAddress
    ([memoryMove (xySpace (inst.getLsbD 19)) address immediate xy (inst.getLsbD 15)], c)
  match (inst >>> 20 &&& bitmask 4).toNat with
  | 0 =>
    let (address, _, c) := c.calcEa ((inst >>> 8).setWidth 6)
    let accu : RegNum := regA + (inst >>> 16 &&& 1).setWidth 6
    let y := inst.getLsbD 15
    ([.toMem (.reg accu) (xySpace y) address, .toReg (.reg (if y then regY0 else regX0)) accu whole], c)
  | 1 =>
    let (address, immediate, c) := c.calcEa ((inst >>> 8).setWidth 6)
    let y := inst.getLsbD 14
    let n := if y then pmRegister regY0 (inst >>> 16 &&& bitmask 2) else pmRegister regX0 (inst >>> 18 &&& bitmask 2)
    let accu : RegNum := regA + (if y then inst >>> 19 &&& 1 else inst >>> 17 &&& 1).setWidth 6
    let dest : RegNum := if y then regX0 + (inst >>> 18 &&& 1).setWidth 6 else regY0 + (inst >>> 16 &&& 1).setWidth 6
    ([memoryMove (xySpace y) address immediate n (inst.getLsbD 15), .toReg (.reg accu) dest (fits dest)], c)
  | 2 =>
    let value := inst >>> 8
    if value &&& 0xffff = 0x2000 then ([], c)
    else if value &&& 0xffe0 = 0x2040 then ([], (c.calcEa ((value &&& bitmask 5).setWidth 6)).2.2)
    else if value &&& 0xfc00 = 0x2000 then
      let source : RegNum := (inst >>> 13 &&& bitmask 5).setWidth 6
      let dest : RegNum := (inst >>> 8 &&& bitmask 5).setWidth 6
      ([.toReg (.reg source) dest (if isAccu source then whole else fits source)], c)
    else ([shortMove inst], c)
  | 3 => ([shortMove inst], c)
  | 4 =>
    if ((inst >>> 16 &&& bitmask 3) ||| (inst >>> 17 &&& bitmask 2 <<< 3)) >>> 2 = 0 then
      let (address, _, c) := c.pmAddress
      let k := ((inst >>> 16 &&& bitmask 2) ||| (inst >>> 17 &&& 1#32 <<< 2)).toNat
      (longMove (address &&& bitmask 16) k (inst.getLsbD 15), c)
    else xyMove
  | 5 | 6 | 7 => xyMove
  | _ =>
    let (address1, _, c) := c.calcEa (pm8Ea inst).1
    let (address2, _, c) := c.calcEa (pm8Ea inst).2
    ([memoryMove .x address1 false (pmRegister regX0 (inst >>> 18 &&& bitmask 2)) (inst.getLsbD 15),
      memoryMove .y address2 false (pmRegister regY0 (inst >>> 16 &&& bitmask 2)) (inst.getLsbD 22)], c)

/-- The words that the instruction moves, and where to. -/
def moved (c : Core) : List (Dest × BitVec 32) := c.transfers.1.flatMap (Transfer.stores c.transfers.2)

/-- They go to different places. -/
def MovesApart (c : Core) : Prop :=
  c.moved.Pairwise fun a b => ∀ p, a.1.place c.romOn = some p → b.1.place c.romOn ≠ some p

variable {c : Core}

/-! ## The order of two reads -/

theorem readMemory_registers {r} (hr : r regOmr = c.registers regOmr) (space : Space) (address : BitVec 16) :
    readMemory space address { c with registers := r } =
      ((c.readMemory space address).1, { (c.readMemory space address).2 with registers := r }) := by
  obtain ⟨F, hF⟩ := hostportDspread_action
  have hrom : romOn { c with registers := r } = c.romOn := congrArg (BitVec.getLsbD · omrDe) hr
  have hread : hostportDspread { c with registers := r } = { c.hostportDspread with registers := r } := by
    rw [hF, hF]; rfl
  simp only [readMemory, hrom]
  split_ifs
  · rfl
  · rfl
  · rfl
  · simp only [hread]
  · rfl
  · rfl

theorem readMemory_withHost (address : BitVec 16) (p : HostState) :
    (readMemory .y address (c.withHost p)).1 = (c.readMemory .y address).1 := by
  have hrom : (c.withHost p).romOn = c.romOn := rfl
  have hperiph : (c.withHost p).periph .y = c.periph .y :=
    update_of_ne (show Space.y ≠ .x by decide) p.1 c.periph
  have hnot : ∀ n : BitVec 6, ¬ (Space.y = .x ∧ n = hostHrx) := fun n h => by cases h.1
  simp only [readMemory, hrom, if_neg (hnot _), hperiph]
  split_ifs <;> rfl

theorem exists_withHost (space : Space) (address : BitVec 16) (c : Core) :
    ∃ p, (c.readMemory space address).2 = c.withHost p := by
  obtain ⟨F, hF⟩ := hostportDspread_action
  rcases exists_readMemory space address c with h | ⟨-, h⟩
  · exact ⟨c.host, by rw [h, withHost_host]⟩
  · exact ⟨F c.host, by rw [h, hF]⟩

theorem accu24_setLimited (numreg : RegNum) (b : Bool) (r : Registers) :
    accu24 numreg (r.setLimited b) = accu24 numreg r := by
  have hlt : ∀ n : RegNum, regA2 + (n &&& 1) < 0x10 ∧ regA1 + (n &&& 1) < 0x10 := by decide
  obtain ⟨h2, h1⟩ := hlt numreg
  have hlimit := Unseen.limit
  cases b with
  | false => rfl
  | true =>
    have hset : r.setLimited true = r.setSr (1#32 <<< srL) := rfl
    simp only [accu24, hset, hlimit.scaling, hlimit.data r _ h2, hlimit.data r _ h1]

theorem readSource_eq (numreg : RegNum) (c : Core) : c.readSource numreg = ((sourceValue numreg c.registers).1,
    { c with registers := c.registers.setLimited (sourceValue numreg c.registers).2 }) := by
  rw [readSource, sourceValue]
  split <;> rfl

theorem sourceValue_setLimited {numreg} (hn : numreg ≠ regSr) (b : Bool) (r : Registers) :
    sourceValue numreg (r.setLimited b) = sourceValue numreg r := by
  have hreg : r.setLimited b numreg = r numreg := by
    cases b with
    | false => rfl
    | true => exact update_of_ne hn _ _
  rw [sourceValue, sourceValue, accu24_setLimited, hreg]

theorem setLimited_comm (a b : Bool) (r : Registers) : (r.setLimited a).setLimited b = (r.setLimited b).setLimited a := by
  cases a <;> cases b <;> rfl

theorem setLimited_omr (b : Bool) (r : Registers) : r.setLimited b regOmr = r regOmr := by cases b <;> rfl

theorem moveMemory_comm {n1 n2} (hn1 : n1 ≠ regSr) (hn2 : n2 ≠ regSr) (a1 a2 : BitVec 32) (w1 w2 : Bool)
    (c : Core) :
    ((c.moveMemory .y a2 false n2 w2).2.moveMemory .x a1 false n1 w1).1 = (c.moveMemory .x a1 false n1 w1).1 ∧
      (c.moveMemory .y a2 false n2 w2).1 = ((c.moveMemory .x a1 false n1 w1).2.moveMemory .y a2 false n2 w2).1 ∧
      ((c.moveMemory .y a2 false n2 w2).2.moveMemory .x a1 false n1 w1).2
        = ((c.moveMemory .x a1 false n1 w1).2.moveMemory .y a2 false n2 w2).2 := by
  have hy : ∀ c : Core, (c.readMemory .y (a2.setWidth 16)).2 = c := fun c =>
    (exists_readMemory .y _ c).resolve_right fun h => by cases h.1
  obtain ⟨p, hp⟩ := exists_withHost .x (a1.setWidth 16) c
  cases w1 with
  | true =>
    cases w2 with
    | true =>
      simp only [moveMemory, readOperand, if_true, Bool.false_eq_true, if_false, hy, hp, readMemory_withHost, and_self]
    | false =>
      simp only [moveMemory, readOperand, if_true, Bool.false_eq_true, if_false, readSource_eq, hp,
        readMemory_registers (setLimited_omr _ c.registers)]
      exact ⟨trivial, rfl, rfl⟩
  | false =>
    cases w2 with
    | true =>
      simp only [moveMemory, readOperand, if_true, Bool.false_eq_true, if_false, readSource_eq, hy,
        readMemory_registers (setLimited_omr _ c.registers), and_self]
    | false =>
      simp only [moveMemory, Bool.false_eq_true, if_false, readSource_eq, sourceValue_setLimited hn1,
        sourceValue_setLimited hn2, setLimited_comm (sourceValue n2 c.registers).2, and_self]

theorem moveMemory_registers (space : Space) (address : BitVec 32) (immediate : Bool) (n : RegNum) (write : Bool)
    (c : Core) : ∃ b, (c.moveMemory space address immediate n write).2.registers = c.registers.setLimited b := by
  rw [moveMemory]
  split
  · refine ⟨false, ?_⟩
    rw [readOperand]
    split
    · rfl
    · obtain ⟨p, hp⟩ := exists_withHost space (address.setWidth 16) c; rw [hp]; rfl
  · exact ⟨_, by rw [readSource_eq]⟩

/-! ## The words that are kept -/

theorem ne_sr_of_low {n} (h : n.getLsbD 5 = false) : n ≠ regSr := by
  rintro rfl
  cases h

theorem pmWritereg_eq {n : RegNum} {sign word : BitVec 32} (h : isAccu n → sign = if word.getLsbD 23 then 0xff else 0) :
    pmWritereg n ⟨sign, word, 0⟩ = regStores n word := by
  rw [pmWritereg, regStores]
  split
  · rename_i haccu; rw [h haccu]; rfl
  · rfl

theorem pmWritereg_moveWords (n : RegNum) (value : BitVec 32) :
    pmWritereg n (moveWords n value) = regStores n (value &&& fits n) := by
  refine pmWritereg_eq fun haccu => ?_
  have hbit : (bitmask (registersMask n)).getLsbD 23 = true := by rcases haccu with rfl | rfl <;> decide
  rw [BitVec.getLsbD_and, hbit, Bool.and_true]

theorem moveMemory_stores (space : Space) (address : BitVec 32) (immediate : Bool) (n : RegNum) (write : Bool)
    (c : Core) : (c.moveMemory space address immediate n write).1 =
      (memoryMove space address immediate n write).stores c := by
  rw [moveMemory, memoryMove]
  split
  · dsimp only
    rw [readOperand, pmWritereg_moveWords]
    split <;> rfl
  · rw [readSource_eq]; rfl

theorem word_accu (n : RegNum) (hn : n &&& 1 = n) (c : Core) :
    (Source.reg (regA + n)).word c = (accu24 n c.registers).1 := by
  have htable : ∀ n : RegNum, n &&& 1 = n → isAccu (regA + n) ∧ (regA + n) &&& 1 = n := by decide
  obtain ⟨haccu, hbit⟩ := htable n hn
  rw [Source.word, sourceValue, if_pos haccu, accu24, accu24, hbit, hn]

theorem bit_and_one (x : BitVec 32) : (x &&& 1).setWidth 6 &&& 1 = (x &&& 1).setWidth 6 := by
  rcases bit_cases x with hx | hx <;> rw [hx] <;> rfl

theorem pm0_all (c : Core) (h : (c.curInst >>> 20 &&& bitmask 4).toNat = 0) : c.pm0.1.all = c.moved := by
  have hbit := bit_and_one (c.curInst >>> 16)
  simp only [moved, transfers, h, pm0]
  generalize c.calcEa _ = ea
  obtain ⟨address, immediate, c'⟩ := ea
  have hne : (if c.curInst.getLsbD 15 then regY0 else regX0) ≠ regSr := by split <;> decide
  have hnot : ¬isAccu (if c.curInst.getLsbD 15 then regY0 else regX0) := by split <;> decide
  have hword : (Source.reg (if c.curInst.getLsbD 15 then regY0 else regX0)).word c' =
      c'.registers (if c.curInst.getLsbD 15 then regY0 else regX0) := by rw [Source.word, sourceValue, if_neg hnot]
  have hlim : ∀ b, c'.registers.setLimited b (if c.curInst.getLsbD 15 then regY0 else regX0) =
      c'.registers (if c.curInst.getLsbD 15 then regY0 else regX0) := fun b => by
    cases b
    · rfl
    · exact update_of_ne hne _ _
  simp only [Moves.all, pmReadAccu24, signExtend24, hlim, flatMap_cons, flatMap_nil, append_nil, Transfer.stores,
    word_accu _ hbit, hword, whole, BitVec.and_allOnes]
  rw [pmWritereg_eq fun _ => rfl]

theorem word_of_isAccu {n : RegNum} (h : isAccu n) (c : Core) : (Source.reg n).word c = (accu24 n c.registers).1 := by
  rw [Source.word, sourceValue, if_pos h]

theorem word_of_not_isAccu {n : RegNum} (h : ¬isAccu n) (c : Core) : (Source.reg n).word c = c.registers n := by
  rw [Source.word, sourceValue, if_neg h]

theorem pm1_all (c : Core) (h : (c.curInst >>> 20 &&& bitmask 4).toNat = 1) : c.pm1.1.all = c.moved := by
  simp only [moved, transfers, h, pm1]
  generalize c.calcEa _ = ea
  obtain ⟨address, immediate, c'⟩ := ea
  simp only [Moves.all, pmReadAccu24, flatMap_cons, flatMap_nil, append_nil, moveMemory_stores]
  generalize hn : (if c.curInst.getLsbD 14 then pmRegister regY0 (c.curInst >>> 16 &&& bitmask 2)
    else pmRegister regX0 (c.curInst >>> 18 &&& bitmask 2)) = n
  generalize hx : (if c.curInst.getLsbD 14 then c.curInst >>> 19 &&& 1 else c.curInst >>> 17 &&& 1) = x
  generalize hd : (if c.curInst.getLsbD 14 then regX0 + (c.curInst >>> 18 &&& 1).setWidth 6
    else regY0 + (c.curInst >>> 16 &&& 1).setWidth 6) = dest
  have haccu : isAccu (regA + x.setWidth 6) := by
    have hbit : x.setWidth 6 = 0#6 ∨ x.setWidth 6 = 1#6 := by rw [← hx]; split <;> exact bit_cases _
    rcases hbit with hbit | hbit <;> rw [hbit] <;> decide
  have hdest : ¬isAccu dest := by
    rw [← hd]
    split
    · rcases bit_cases (c.curInst >>> 18) with hbit | hbit <;> rw [hbit] <;> decide
    · rcases bit_cases (c.curInst >>> 16) with hbit | hbit <;> rw [hbit] <;> decide
  obtain ⟨b, hb⟩ := moveMemory_registers (xySpace (c.curInst.getLsbD 14)) address immediate n (c.curInst.getLsbD 15) c'
  rw [hb, accu24_setLimited, Transfer.stores, word_of_isAccu haccu, regStores, if_neg hdest]
  rfl

theorem pm22_all (c : Core) : c.pm22.1.all = (Transfer.toReg (.reg ((c.curInst >>> 13 &&& bitmask 5).setWidth 6))
    ((c.curInst >>> 8 &&& bitmask 5).setWidth 6) (if isAccu ((c.curInst >>> 13 &&& bitmask 5).setWidth 6) then whole
      else fits ((c.curInst >>> 13 &&& bitmask 5).setWidth 6))).stores c := by
  unfold pm22
  dsimp only
  generalize (c.curInst >>> 13 &&& bitmask 5).setWidth 6 = source
  split
  · rename_i haccu
    rw [Transfer.stores, word_of_isAccu haccu, whole, BitVec.and_allOnes, Moves.all, append_nil]
    exact pmWritereg_eq fun _ => rfl
  · rename_i haccu
    rw [Transfer.stores, word_of_not_isAccu haccu, Moves.all, append_nil]
    split
    · exact pmWritereg_eq fun _ => rfl
    · rename_i hdest; exact pmWritereg_eq fun h => absurd h hdest

theorem pm3_all (c : Core) : c.pm3.1.all = (shortMove c.curInst).stores c := by
  rw [pm3, shortMove, Transfer.stores, Moves.all, append_nil]
  refine pmWritereg_eq fun haccu => ?_
  have hbit : (bitmask (registersMask ((c.curInst >>> 16 &&& bitmask 5).setWidth 6))).getLsbD 23 = true := by
    rcases haccu with h | h <;> rw [h] <;> decide
  rw [BitVec.getLsbD_and, hbit, Bool.and_true]
  simp only [haccu, true_and]

theorem longMove_table : ∀ k < 8, let regs := registersLmove k
    (k < 4 → regs.1 ≠ regs.2 ∧ ¬isAccu regs.1 ∧ ¬isAccu regs.2) ∧
      (4 ≤ k → k < 6 → regs.1 = regs.2 ∧ isAccu regs.1) ∧
      (6 ≤ k → regs.1 ≠ regs.2 ∧ isAccu regs.1 ∧ isAccu regs.2) ∧ (regs.1 = regs.2 → isAccu regs.1) := by decide

theorem pmWritereg_long {n : RegNum} (h : isAccu n) (x y : BitVec 32) :
    pmWritereg n { moveWords n x with w2 := y &&& bitmask (registersMask n) } =
      accuStores n (x &&& bitmask 24) (y &&& bitmask 24) := by
  have hbit : (x &&& bitmask 24).getLsbD 23 = x.getLsbD 23 := by
    rw [BitVec.getLsbD_and, show (bitmask 24).getLsbD 23 = true by decide, Bool.and_true]
  rw [pmWritereg, if_pos h, accuStores, hbit]
  rcases h with rfl | rfl <;> rfl

theorem longMove_number_lt (inst : BitVec 32) :
    ((inst >>> 16 &&& bitmask 2) ||| (inst >>> 17 &&& 1#32 <<< 2)).toNat < 8 := by
  rw [BitVec.toNat_or]
  refine Nat.or_lt_two_pow (n := 3) ?_ ?_
  · exact (toNat_and_bitmask_lt _ (by decide)).trans (by decide)
  · rw [BitVec.toNat_and]; exact Nat.and_lt_two_pow _ (by decide)

theorem pm4x_all (address : BitVec 32) (c : Core) : (c.pm4x address).1.all =
    (longMove (address &&& bitmask 16) ((c.curInst >>> 16 &&& bitmask 2) ||| (c.curInst >>> 17 &&& 1#32 <<< 2)).toNat
      (c.curInst.getLsbD 15)).flatMap (Transfer.stores c) := by
  have hk := longMove_number_lt c.curInst
  unfold pm4x longMove
  dsimp only
  generalize ((c.curInst >>> 16 &&& bitmask 2) ||| (c.curInst >>> 17 &&& 1#32 <<< 2)).toNat = k at hk ⊢
  have htable := longMove_table k hk
  generalize registersLmove k = regs at htable ⊢
  obtain ⟨high, low⟩ := regs
  obtain ⟨hreg, hlong, hpair, hsame⟩ := htable
  generalize address &&& bitmask 16 = a
  obtain ⟨p, hp⟩ := exists_withHost .x (a.setWidth 16) c
  dsimp only at hreg hlong hpair hsame ⊢
  split
  · rw [hp, readMemory_withHost]
    split
    · rename_i heq
      have haccu := hsame heq
      subst heq
      rw [Moves.all, append_nil, flatMap_cons, flatMap_nil, append_nil]
      exact pmWritereg_long haccu _ _
    · simp only [Moves.all, pmWritereg_moveWords, flatMap_cons, flatMap_nil, append_nil]
      rfl
  · simp only [flatMap_cons, flatMap_nil, append_nil, Moves.all, Transfer.stores]
    split
    · rename_i h4
      obtain ⟨hne, hhigh, hlow⟩ := hreg h4
      rw [if_neg hne, word_of_not_isAccu hhigh, word_of_not_isAccu hlow]
    · rename_i h4
      split
      · rename_i h6
        obtain ⟨heq, hhigh⟩ := hlong (by omega) h6
        rw [if_pos heq, word_of_isAccu hhigh]
        rfl
      · rename_i h6
        obtain ⟨hne, hhigh, hlow⟩ := hpair (by omega)
        rw [if_neg hne, word_of_isAccu hhigh, word_of_isAccu hlow]
        simp only [pmReadAccu24, accu24_setLimited]

theorem pm5_all (c : Core) : c.pm5.1.all = (memoryMove (xySpace (c.curInst.getLsbD 19)) c.pmAddress.1 c.pmAddress.2.1
    (((c.curInst >>> 16 &&& bitmask 3) ||| (c.curInst >>> 17 &&& bitmask 2 <<< 3)).setWidth 6)
    (c.curInst.getLsbD 15)).stores c.pmAddress.2.2 := by
  rw [pm5, Moves.all, append_nil]
  exact moveMemory_stores _ _ _ _ _ _

/-- The words that `dsp_parmove_read` keeps are those of the moves of the instruction. -/
theorem parmoveRead_all (c : Core) : c.parmoveRead.1.all = c.moved := by
  have hone (t : Transfer) (c : Core) : [t].flatMap (Transfer.stores c) = t.stores c := by
    rw [flatMap_cons, flatMap_nil, append_nil]
  unfold parmoveRead
  split
  · rename_i h; exact pm0_all c h
  · rename_i h; exact pm1_all c h
  · rename_i h
    simp only [moved, transfers, h, pm2]
    split
    · rfl
    · split
      · rfl
      · split
        · rw [hone]; exact pm22_all c
        · rw [hone]; exact pm3_all c
  · rename_i h; simp only [moved, transfers, h, hone]; exact pm3_all c
  · rename_i h
    simp only [moved, transfers, h, pm4]
    split
    · have hlong := pm4x_all c.pmAddress.1 c.pmAddress.2.2
      rw [(prepared_pmAddress c).curInst] at hlong; exact hlong
    · rw [hone]; exact pm5_all c
  · rename_i h; simp only [moved, transfers, h, hone]; exact pm5_all c
  · rename_i h; simp only [moved, transfers, h, hone]; exact pm5_all c
  · rename_i h; simp only [moved, transfers, h, hone]; exact pm5_all c
  · rename_i h0 h1 h2 h3 h4 h5 h6 h7
    have hn1 : pmRegister regX0 (c.curInst >>> 18 &&& bitmask 2) ≠ regSr := ne_sr_of_low (pmRegister_low ⟨rfl, rfl⟩ _)
    have hn2 : pmRegister regY0 (c.curInst >>> 16 &&& bitmask 2) ≠ regSr := ne_sr_of_low (pmRegister_low ⟨rfl, rfl⟩ _)
    simp only [moved, transfers, pm8, Moves.all, flatMap_cons, flatMap_nil, append_nil]
    rw [← (moveMemory_comm hn1 hn2 _ _ _ _ _).2.1, moveMemory_stores, moveMemory_stores]

end Core

end Aranym.Dsp
