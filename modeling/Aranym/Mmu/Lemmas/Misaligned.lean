import Aranym.Mmu.Misaligned

/-!
# The first fault of an operand

Every accessor runs the parts of its operand in order, and the `CATCH` blocks rewrite the record the faulting part
left.
-/

namespace Aranym.Mmu

open Aranym.Lib List

variable {δ : Type} (cfg : Config) (hw : Hardware δ)

/-! ## Pages that have let an access through -/

theorem lookupLine_decides (m : Machine δ) (addr : BitVec 32) (super data write : Bool) :
    (m.lookupLine cfg hw addr super data write).decides addr data write = true ∧
      m.refused cfg hw addr super data write = (!(m.lookupLine cfg hw addr super data write).valid data ||
          (write && (m.lookupLine cfg hw addr super data write).writeProtect)) := by
  simp only [Machine.lookupLine, Machine.refused]
  cases hd : (m.atcL2 super (atcL2Index addr)).decides addr data write with
  | true => simp only [if_true, hd, and_self]
  | false =>
    simp only [Bool.false_eq_true, if_false]
    have htag := (filledLine_hw cfg hw m addr super data write (m.atcL2 super (atcL2Index addr))).2
    have hcheck := filledLine_check cfg hw m addr super data write (m.atcL2 super (atcL2Index addr))
    generalize m.filledLine cfg hw addr super data write (m.atcL2 super (atcL2Index addr)) = l at *
    revert hcheck
    unfold AtcLine.decides AtcLine.check
    rw [htag]
    cases m.refusedFresh cfg hw addr super data write <;> cases write <;> cases l.valid data <;>
      cases l.writeProtect <;> cases l.modified <;> simp

def Machine.PageOpen (m : Machine δ) (addr : BitVec 32) (super data write : Bool) : Prop :=
  ∀ a, SamePage4k a addr → (m.access cfg hw a super data write).action.Succeeds

variable {cfg hw} in
theorem AccessDone.pageOpen {m m' addr super data write}
    (h : AccessDone m m' addr super data write (m.access cfg hw addr super data write).slot
      (m.access cfg hw addr super data write).line)
    (hs : (m.access cfg hw addr super data write).action.Succeeds) :
    m'.PageOpen cfg hw addr super data write := by
  intro a ha
  have hslot : m'.l1 (l1Slot super data write a) = (m.access cfg hw addr super data write).slot := by
    rw [ha.l1Slot_eq]; exact h.slot
  by_cases hhit : (m.l1 (l1Slot super data write addr)).tag = atcTag addr
  · rw [access_hit cfg hw hhit] at hslot
    rw [access_hit cfg hw (by rw [hslot, hhit, ha.atcTag_eq])]; simp [Action.Succeeds]
  by_cases hneg : (m.l1 (l1Slot super data write addr)).tag = ~~~atcTag addr
  · rw [access_negative cfg hw hneg] at hslot hs
    rw [access_negative cfg hw (by rw [hslot, hneg, ha.atcTag_eq]), hslot]
    exact (redo_succeeds_iff _ _).mpr ((redo_succeeds_iff _ _).mp hs)
  have hmiss : m.SlotMisses addr super data write := ⟨hhit, hneg⟩
  cases hr : m.refused cfg hw addr super data write with
  | true =>
    -- the line in L2 refuses again, and the slot still says that the access goes to hardware
    have hline := h.line
    rw [access_refused cfg hw hmiss hr] at hslot hs hline
    obtain ⟨hd, hrefused⟩ := lookupLine_decides cfg hw m addr super data write
    have hr' : m'.refused cfg hw a super data write = true := by
      rw [Machine.refused, ha.indices_eq.2, hline, ha.decides_eq, if_pos hd, ← hrefused, hr]
    have hmiss' : m'.SlotMisses a super data write := by
      rw [Machine.SlotMisses, hslot, ha.atcTag_eq]
      exact ⟨fun ht => hneg ((not_eq_atcTag_iff _ _).mp ht), fun ht => hhit (BitVec.not_inj.mp ht)⟩
    rw [access_refused cfg hw hmiss' hr', hslot]
    exact (redo_succeeds_iff _ _).mpr ((redo_succeeds_iff _ _).mp hs)
  | false =>
    obtain ⟨slot, hacc, hfilled⟩ := access_granted cfg hw hmiss hr
    rw [hacc] at hslot hs
    rcases hfilled with ⟨htag, -, -⟩ | ⟨htag, hsome⟩
    · rw [access_hit cfg hw (by rw [hslot, htag, ha.atcTag_eq])]; simp [Action.Succeeds]
    · rw [access_negative cfg hw (by rw [hslot, htag, ha.atcTag_eq]), hslot]
      simp only [AtcLine.grantedAction, hsome] at hs
      exact (redo_succeeds_iff _ _).mpr ((redo_succeeds_iff _ _).mp hs)

/-! ## Accessors as sequences of parts -/

namespace OperandAccess

def runAll (x : OperandAccess) : List Part → MmuM δ Unit
  | [] => pure ()
  | p :: ps => do
    x.runPart cfg hw p
    x.runAll ps

def runGet (x : OperandAccess) : List Part → MmuM δ Unit
  | [] => pure ()
  | p :: ps => do
    x.runPart cfg hw p
    catchGet x.addr (x.runAll cfg hw ps)

def runPut (x : OperandAccess) (ps : List Part) : MmuM δ Unit :=
  if x.caught then catchPut x.addr x.op.val (x.runAll cfg hw ps) else x.runAll cfg hw ps

variable {cfg hw} {x : OperandAccess} {data : Bool} {fc : BitVec 3}

theorem runPart_getCpu (hp : x.port = .cpu data) (hr : x.op.write = false) (p : Part) : x.runPart cfg hw p =
      mmuGet cfg hw p.width p.width.read (x.addr + p.off) data x.op.size >>= fun _ => pure () := by
  simp only [runPart, performPart, mmuGet, hp, hr, Port.super, Port.data, bind_assoc, Bool.false_eq_true,
    if_false]

theorem runPart_putCpu (hp : x.port = .cpu data) (hr : x.op.write = true) (p : Part) : x.runPart cfg hw p =
      mmuPut cfg hw p.width p.width.store (x.addr + p.off) p.val data x.op.size := by
  simp only [runPart, performPart, mmuPut, hp, hr, Port.super, Port.data, if_true]

theorem runPart_getMoves (hp : x.port = .moves fc) (hr : x.op.write = false) (p : Part) : x.runPart cfg hw p =
      mmuGetUser cfg hw p.width p.width.read (x.addr + p.off) (fcSpace fc).1 (fcSpace fc).2 x.op.size >>=
        fun _ => pure () := by
  simp only [runPart, performPart, mmuGetUser, hp, hr, Port.super, Port.data, bind_assoc, Bool.false_eq_true,
    if_false]
  rfl

theorem runPart_putMoves (hp : x.port = .moves fc) (hr : x.op.write = true) (p : Part) : x.runPart cfg hw p =
      mmuPutUser cfg hw p.width p.width.store (x.addr + p.off) p.val (fcSpace fc).1 (fcSpace fc).2
        x.op.size := by
  simp only [runPart, performPart, mmuPutUser, hp, hr, Port.super, Port.data, if_true]
  rfl

end OperandAccess

theorem catchGet_pure (addr : BitVec 32) : catchGet addr (pure ()) = (pure () : MmuM δ Unit) := by
  funext m
  rw [catchGet, tryCatch_apply]
  rfl

theorem catchGet_drop {α : Type} (addr : BitVec 32) (f : MmuM δ α) :
    (catchGet addr f >>= fun _ => pure ()) = catchGet addr (f >>= fun _ => pure ()) := by
  funext m
  simp only [catchGet, bind_apply, tryCatch_apply]
  cases f m <;> rfl

theorem getWordUnaligned_drop (getByte : BitVec 32 → MmuM δ (BitVec 32)) (addr : BitVec 32) :
    (getWordUnaligned getByte addr >>= fun _ => pure ()) = (do
      let _ ← getByte addr
      catchGet addr (do
        let _ ← getByte (addr + 1)) : MmuM δ Unit) := by
  simp only [getWordUnaligned, bind_assoc, catchGet_drop, pure_bind]

theorem getLongUnaligned_drop (getByte getWord : BitVec 32 → MmuM δ (BitVec 32)) (addr : BitVec 32) :
    (getLongUnaligned getByte getWord addr >>= fun _ => pure ()) =
      (if addr &&& 1 = 0 then do
        let _ ← getWord addr
        catchGet addr (do
          let _ ← getWord (addr + 2))
      else do
        let _ ← getByte addr
        catchGet addr (do
          let _ ← getByte (addr + 1)
          let _ ← getByte (addr + 2)
          let _ ← getByte (addr + 3)) : MmuM δ Unit) := by
  unfold getLongUnaligned
  split <;> simp only [bind_assoc, catchGet_drop, pure_bind]

namespace OperandAccess

variable {cfg hw} {x : OperandAccess}

section

variable (read : Sz → BitVec 32 → MmuM δ (BitVec 32)) (write : Sz → BitVec 32 → BitVec 32 → MmuM δ Unit)

theorem add_zero_off (a : BitVec 32) : a + 0 = a := BitVec.add_zero a

theorem runGet_word (hsize : x.op.size = .word) (hbytes : x.op.bytes = 2)
    (hpart : ∀ p, x.runPart cfg hw p = read p.width (x.addr + p.off) >>= fun _ => pure ()) :
    x.runGet cfg hw x.parts =
      (if isUnaligned x.addr 2 then getWordUnaligned (read .byte) x.addr else read .word x.addr) >>=
        fun _ => pure () := by
  rw [parts, hbytes]
  split
  · simp only [split, hsize, runGet, runAll, hpart, getWordUnaligned_drop, add_zero_off, bind_assoc, pure_bind]
  · simp only [hsize, runGet, runAll, hpart, catchGet_pure, add_zero_off, bind_assoc, pure_bind]

theorem runGet_long (hsize : x.op.size = .long) (hbytes : x.op.bytes = 4)
    (hpart : ∀ p, x.runPart cfg hw p = read p.width (x.addr + p.off) >>= fun _ => pure ()) :
    x.runGet cfg hw x.parts =
      (if isUnaligned x.addr 4 then getLongUnaligned (read .byte) (read .word) x.addr else read .long x.addr) >>=
        fun _ => pure () := by
  rw [parts, hbytes]
  split
  · simp only [split, hsize, getLongUnaligned_drop]
    split <;> simp only [runGet, runAll, hpart, add_zero_off, bind_assoc, pure_bind]
  · simp only [hsize, runGet, runAll, hpart, catchGet_pure, add_zero_off, bind_assoc, pure_bind]

theorem runAll_word (hsize : x.op.size = .word) (hbytes : x.op.bytes = 2)
    (hpart : ∀ p, x.runPart cfg hw p = write p.width (x.addr + p.off) p.val) : x.runAll cfg hw x.parts =
      if isUnaligned x.addr 2 then putWordBytes (write .byte) x.addr x.op.val
      else write .word x.addr x.op.val := by
  rw [parts, hbytes]
  split
  · simp only [split, hsize, runAll, hpart, putWordBytes, add_zero_off, bind_pure_unit]
  · simp only [hsize, runAll, hpart, add_zero_off, bind_pure_unit]

theorem runAll_long (hsize : x.op.size = .long) (hbytes : x.op.bytes = 4)
    (hpart : ∀ p, x.runPart cfg hw p = write p.width (x.addr + p.off) p.val) : x.runAll cfg hw x.parts =
      if isUnaligned x.addr 4 then putLongParts (write .byte) (write .word) x.addr x.op.val
      else write .long x.addr x.op.val := by
  rw [parts, hbytes]
  split
  · simp only [split, hsize, putLongParts]
    split <;> simp only [runAll, hpart, add_zero_off, bind_pure_unit]
  · simp only [hsize, runAll, hpart, add_zero_off, bind_pure_unit]

end

theorem run_get (hr : x.op.write = false) : x.run cfg hw = x.runGet cfg hw x.parts := by
  obtain ⟨port, op, addr⟩ := x
  cases port with
  | cpu data =>
    have hpart := @runPart_getCpu δ cfg hw ⟨.cpu data, op, addr⟩ data rfl hr
    cases op with
    | putWord val => cases hr
    | putLong val => cases hr
    | getWord => rw [runGet_word (fun w a => mmuGet cfg hw w w.read a data .word) rfl rfl hpart]; rfl
    | getLong => rw [runGet_long (fun w a => mmuGet cfg hw w w.read a data .long) rfl rfl hpart]; rfl
  | moves fc =>
    have hpart := @runPart_getMoves δ cfg hw ⟨.moves fc, op, addr⟩ fc rfl hr
    cases op with
    | putWord val => cases hr
    | putLong val => cases hr
    | getWord =>
      rw [runGet_word (fun w a => mmuGetUser cfg hw w w.read a (fcSpace fc).1 (fcSpace fc).2 .word) rfl rfl
        hpart]
      rfl
    | getLong =>
      rw [runGet_long (fun w a => mmuGetUser cfg hw w w.read a (fcSpace fc).1 (fcSpace fc).2 .long) rfl rfl
        hpart]
      rfl

theorem run_put (hr : x.op.write = true) : x.run cfg hw = x.runPut cfg hw x.parts := by
  obtain ⟨port, op, addr⟩ := x
  cases port with
  | cpu data =>
    have hpart := @runPart_putCpu δ cfg hw ⟨.cpu data, op, addr⟩ data rfl hr
    cases op with
    | getWord => cases hr
    | getLong => cases hr
    | putWord val =>
      rw [runPut, runAll_word (fun w a v => mmuPut cfg hw w w.store a v data .word) rfl rfl hpart]
      simp only [run, putWord, caught, OperandOp.bytes]
      split <;> rfl
    | putLong val =>
      rw [runPut, runAll_long (fun w a v => mmuPut cfg hw w w.store a v data .long) rfl rfl hpart]
      simp only [run, putLong, caught, OperandOp.bytes]
      split <;> rfl
  | moves fc =>
    have hpart := @runPart_putMoves δ cfg hw ⟨.moves fc, op, addr⟩ fc rfl hr
    cases op with
    | getWord => cases hr
    | getLong => cases hr
    | putWord val =>
      rw [runPut, runAll_word (fun w a v => mmuPutUser cfg hw w w.store a v (fcSpace fc).1 (fcSpace fc).2 .word)
        rfl rfl hpart]
      rfl
    | putLong val =>
      rw [runPut, runAll_long (fun w a v => mmuPutUser cfg hw w w.store a v (fcSpace fc).1 (fcSpace fc).2 .long)
        rfl rfl hpart]
      rfl

/-! ## The record a part leaves -/

def raw (x : OperandAccess) (super : Bool) (f : PartFault) : FaultInfo :=
  match f.register with
  | some phys => { f.old with mmuFaultAddr := phys }
  | none =>
    { f.old with wb3Data := if x.op.write then f.part.val else f.old.wb3Data }.record (x.addr + f.part.off)
      (mmuGetFc super x.port.data) x.op.write x.op.size

variable (x)

variable (cfg hw) in
/-- What the MMU decides for a part. -/
abbrev access (p : Part) (m : Machine δ) := m.access cfg hw (x.addr + p.off) (x.port.super m) x.port.data x.op.write

variable (cfg hw) in
theorem runPart_eq (p : Part) (m : Machine δ) :
    ∃ m₁, mmuAccess cfg hw (x.addr + p.off) (x.port.super m) x.port.data x.op.write m =
        .ok (x.access cfg hw p m).action m₁ ∧
      x.runPart cfg hw p m = x.performPart hw p (x.port.super m)
        (x.access cfg hw p m).action m₁ := by
  obtain ⟨m₁, h, -⟩ := mmuAccess_spec cfg hw m (x.addr + p.off) (x.port.super m) x.port.data x.op.write
  refine ⟨m₁, h, ?_⟩
  rw [runPart, bind_ok (get_apply m), bind_ok h]

variable (cfg hw) in
theorem runPart_spec (p : Part) (m : Machine δ) :
    (∃ m', x.runPart cfg hw p m = .ok () m' ∧ x.partFault cfg hw p m = none) ∨
      ∃ e m' f, x.runPart cfg hw p m = .error e m' ∧ x.partFault cfg hw p m = some f ∧ f.part = p ∧
        m'.fault = x.raw (x.port.super m) f := by
  obtain ⟨m₁, hacc, hrun⟩ := x.runPart_eq cfg hw p m
  rw [hrun, partFault, hacc]
  generalize (x.access cfg hw p m).action = action
  unfold performPart raw deviceThrows
  cases action with
  | ram phys => cases x.op.write <;> exact .inl ⟨_, rfl, rfl⟩
  | busError => cases x.op.write <;> exact .inr ⟨⟨2⟩, _, _, rfl, rfl, rfl, rfl⟩
  | hw phys =>
    cases x.op.write with
    | false =>
      simp only [Bool.false_eq_true, if_false, performGet, logBus, bind_apply, modify_apply, liftDev]
      cases hw.get p.width phys m₁.dev with
      | ok v d => exact .inl ⟨_, rfl, rfl⟩
      | error e d => exact .inr ⟨e, _, _, rfl, rfl, rfl, rfl⟩
    | true =>
      simp only [if_true, performPut, logBus, bind_apply, modify_apply, liftDev]
      cases hw.put p.width phys p.val m₁.dev with
      | ok v d => exact .inl ⟨_, rfl, rfl⟩
      | error e d => exact .inr ⟨e, _, _, rfl, rfl, rfl, rfl⟩

theorem keeps_regs_performPart (p : Part) (super : Bool) (action : Action) :
    Keeps Machine.atc (x.performPart hw p super action) := by
  unfold performPart
  split
  · exact keeps_atc_performPut hw _ _ _ _ _ _ _ _
  · exact .bind (keeps_atc_performGet hw _ _ _ _ _ _ _) fun _ => .pure _

variable (cfg hw) in
theorem runPart_done (p : Part) (m : Machine δ) :
    AccessDone m (final (x.runPart cfg hw p m)) (x.addr + p.off) (x.port.super m) x.port.data x.op.write
      (x.access cfg hw p m).slot
      (x.access cfg hw p m).line := by
  obtain ⟨m₁, hacc, hdone⟩ := mmuAccess_spec cfg hw m (x.addr + p.off) (x.port.super m) x.port.data x.op.write
  rw [runPart, bind_ok (get_apply m), bind_ok hacc]
  exact hdone.perform (x.keeps_regs_performPart p _ _)

variable (cfg hw) in
theorem super_runPart (p : Part) (m : Machine δ) :
    x.port.super (final (x.runPart cfg hw p m)) = x.port.super m := by
  unfold Port.super
  cases x.port with
  | cpu data => exact congrArg MmuRegs.s (x.runPart_done cfg hw p m).regs
  | moves fc => rfl

variable (cfg hw) in
theorem runAll_spec (ps : List Part) (m : Machine δ) :
    (∃ m', x.runAll cfg hw ps m = .ok () m' ∧ x.firstFault cfg hw ps m = none) ∨
      ∃ e m' f, x.runAll cfg hw ps m = .error e m' ∧ x.firstFault cfg hw ps m = some f ∧ f.part ∈ ps ∧
        m'.fault = x.raw (x.port.super m) f := by
  induction ps generalizing m with
  | nil => exact .inl ⟨m, rfl, rfl⟩
  | cons p ps ih =>
    rcases x.runPart_spec cfg hw p m with ⟨m₁, hrun, hnone⟩ | ⟨e, m₁, f, hrun, hsome, hpart, hraw⟩
    · have hsuper : x.port.super m₁ = x.port.super m := by
        simpa only [hrun, final_ok] using x.super_runPart cfg hw p m
      simp only [runAll, bind_ok hrun, firstFault, hnone, hrun, final_ok]
      rcases ih m₁ with h | ⟨e, m', f, h, hf, hmem, hraw⟩
      · exact .inl h
      · exact .inr ⟨e, m', f, h, hf, mem_cons_of_mem _ hmem, hsuper ▸ hraw⟩
    · refine .inr ⟨e, m₁, f, bind_error hrun, ?_, hpart ▸ mem_cons_self, hraw⟩
      simp only [firstFault, hsome]

/-! ## Where the MMU faults -/

theorem partFault_none {p m} (h : x.partFault cfg hw p m = none) :
    (x.access cfg hw p m).action.Succeeds := by
  obtain ⟨m₁, hacc, -⟩ := x.runPart_eq cfg hw p m
  rw [partFault, hacc] at h
  intro hbus
  simp only [hbus, reduceCtorEq] at h

theorem partFault_busError {p m f} (h : x.partFault cfg hw p m = some f) (hr : f.register = none) :
    f.part = p ∧ ¬(x.access cfg hw p m).action.Succeeds := by
  obtain ⟨m₁, hacc, -⟩ := x.runPart_eq cfg hw p m
  rw [partFault, hacc] at h
  revert h
  cases (x.access cfg hw p m).action with
  | ram phys => exact fun h => by cases h
  | hw phys =>
    intro h
    simp only [Option.ite_none_right_eq_some, Option.some.injEq] at h
    rw [← h.2] at hr; cases hr
  | busError => intro h; cases h; exact ⟨rfl, fun h => h rfl⟩

theorem firstFault_mem {ps m f} (hf : x.firstFault cfg hw ps m = some f) : f.part ∈ ps := by
  rcases x.runAll_spec cfg hw ps m with ⟨m', -, h⟩ | ⟨e, m', g, -, h, hmem, -⟩
  · rw [hf] at h; cases h
  · rw [hf] at h; cases h; exact hmem

def InOrder (ps : List Part) : Prop := ps.Pairwise (·.off < ·.off) ∧ ∀ p ∈ ps, p.off ≤ 3

theorem inOrder_parts : InOrder x.parts ∧ ∃ p ps, x.parts = p :: ps ∧ p.off = 0 := by
  unfold parts split
  split_ifs <;> try split
  all_goals exact ⟨⟨by simp, by simp⟩, _, _, rfl, rfl⟩

theorem laterPage_of_open {ps} (hps : InOrder ps) {m f}
    (hopen : m.PageOpen cfg hw x.addr (x.port.super m) x.port.data x.op.write)
    (hf : x.firstFault cfg hw ps m = some f) (hr : f.register = none) : x.LaterPage f := by
  induction ps generalizing m with
  | nil => cases hf
  | cons p ps ih =>
    have hlt := pairwise_cons.mp hps.1
    simp only [firstFault] at hf
    cases hp : x.partFault cfg hw p m with
    | some g =>
      rw [hp] at hf
      cases hf
      obtain ⟨rfl, hbus⟩ := x.partFault_busError hp hr; exact fun hsame => hbus (hopen _ hsame.symm)
    | none =>
      rw [hp] at hf
      by_cases hsame : SamePage4k x.addr (x.addr + p.off)
      · have hopen' := (x.runPart_done cfg hw p m).pageOpen (x.partFault_none hp)
        refine ih ⟨hlt.2, fun q hq => hps.2 q (mem_cons_of_mem _ hq)⟩ (fun a ha => ?_) hf
        rw [x.super_runPart cfg hw]; exact hopen' a (ha.trans hsame)
      · have hmem := x.firstFault_mem hf
        intro hlater
        exact hsame (hlater.of_le (BitVec.le_of_lt (hlt.1 _ hmem)) (hps.2 _ (mem_cons_of_mem _ hmem)))

theorem off_of_busError {m f} (hf : x.firstFault cfg hw x.parts m = some f)
    (hr : f.register = none) : f.part.off = 0 ∨ x.LaterPage f := by
  obtain ⟨hps, p, ps, hparts, hoff⟩ := x.inOrder_parts
  rw [hparts] at hf hps
  simp only [firstFault] at hf
  cases hp : x.partFault cfg hw p m with
  | some g => rw [hp] at hf; cases hf; exact .inl ((x.partFault_busError hp hr).1 ▸ hoff)
  | none =>
    rw [hp] at hf
    have hopen := (x.runPart_done cfg hw p m).pageOpen (x.partFault_none hp)
    rw [hoff, add_zero_off] at hopen
    refine .inr (x.laterPage_of_open ⟨(pairwise_cons.mp hps.1).2,
      fun q hq => hps.2 q (mem_cons_of_mem _ hq)⟩ (fun a ha => ?_) hf hr)
    rw [x.super_runPart cfg hw]; exact hopen a ha

end OperandAccess

/-! ## What the `CATCH` blocks make of a record -/

theorem catchGet_error {α : Type} {addr} {f : MmuM δ α} {m m' : Machine δ} {e : M68kException}
    (h : catchGet addr f m = .error e m') :
    ∃ m₁, f m = .error e m₁ ∧ m'.fault = m₁.fault.misaligned addr := by
  rw [catchGet, tryCatch_apply] at h
  cases hf : f m with
  | ok a m₁ => simp only [hf, reduceCtorEq] at h
  | error e₁ m₁ => simp only [hf] at h; cases h; exact ⟨m₁, rfl, rfl⟩

def FaultInfo.caughtPut (r : FaultInfo) (addr val : BitVec 32) : FaultInfo :=
  if r.mmuFaultAddr ≠ addr then { r with wb3Data := val }.misaligned addr else { r with wb3Data := val }

theorem catchPut_error {addr val} {f : MmuM δ Unit} {m m' : Machine δ} {e : M68kException}
    (h : catchPut addr val f m = .error e m') :
    ∃ m₁, f m = .error e m₁ ∧ m'.fault = m₁.fault.caughtPut addr val := by
  rw [catchPut, tryCatch_apply] at h
  cases hf : f m with
  | ok a m₁ => simp only [hf, reduceCtorEq] at h
  | error e₁ m₁ =>
    simp only [hf, bind_apply, modify_apply] at h
    cases h
    refine ⟨m₁, rfl, ?_⟩
    unfold FaultInfo.caughtPut
    split <;> rfl

theorem misaligned_ma (r : FaultInfo) (addr : BitVec 32) : (r.misaligned addr).Ma := by
  intro h
  have hbit := congrArg (fun b => b.getLsbD 11) h
  simp [FaultInfo.misaligned, mmuSswMa] at hbit

theorem record_spec (r : FaultInfo) (addr : BitVec 32) (super data write : Bool) (size : Sz) :
    ¬(r.record addr (mmuGetFc super data) write size).Ma ∧
      (write = true → size ≠ .byte → (r.record addr (mmuGetFc super data) write size).wb3Status =
        0x80 ||| mmuGetFc super data ||| (if size = .word then 0x40 else 0)) := by
  unfold FaultInfo.Ma FaultInfo.record mmuGetFc
  cases super <;> cases data <;> cases write <;> cases size <;> dsimp only <;> decide

namespace OperandAccess

variable {cfg hw} (x : OperandAccess)

variable (m : Machine δ) (f : PartFault) (r : FaultInfo)

def report : FaultInfo :=
  if x.op.write then if x.caught then r.caughtPut x.addr x.op.val else r
  else if f.part.off = 0 then r else r.misaligned x.addr

theorem runAll_error {ps m m' e} (h : x.runAll cfg hw ps m = .error e m') :
    ∃ f, x.firstFault cfg hw ps m = some f ∧ f.part ∈ ps ∧ m'.fault = x.raw (x.port.super m) f := by
  rcases x.runAll_spec cfg hw ps m with ⟨_, hok, -⟩ | ⟨_, _, f, herr, hf, hmem, hraw⟩
  · rw [h] at hok; cases hok
  · rw [h] at herr; cases herr; exact ⟨f, hf, hmem, hraw⟩

theorem runGet_error {m m'} {e : M68kException} (h : x.runGet cfg hw x.parts m = .error e m') :
    ∃ f, x.firstFault cfg hw x.parts m = some f ∧ m'.fault = if f.part.off = 0 then x.raw (x.port.super m) f
        else (x.raw (x.port.super m) f).misaligned x.addr := by
  obtain ⟨hps, p, ps, hparts, hoff⟩ := x.inOrder_parts
  rw [hparts] at h hps ⊢
  rw [runGet] at h
  simp only [firstFault]
  rcases x.runPart_spec cfg hw p m with ⟨m₁, hrun, hnone⟩ | ⟨e₁, m₁, f, hrun, hsome, rfl, hraw⟩
  · rw [bind_ok hrun] at h
    obtain ⟨m₂, herr, hfault⟩ := catchGet_error h
    obtain ⟨f, hf, hmem, hraw⟩ := x.runAll_error herr
    have hsuper := x.super_runPart cfg hw p m
    rw [hrun, final_ok] at hsuper
    have hpos : f.part.off ≠ 0 := by
      have hlt := (pairwise_cons.mp hps.1).1 _ hmem
      rw [hoff] at hlt; exact fun h0 => BitVec.lt_irrefl _ (h0 ▸ hlt)
    refine ⟨f, by simp only [hnone, hrun, final_ok, hf], ?_⟩
    rw [if_neg hpos, hfault, hraw, hsuper]
  · rw [bind_error hrun] at h; cases h; refine ⟨f, by simp only [hsome], ?_⟩; rw [if_pos hoff, hraw]

theorem run_error {m m'} {e : M68kException} (h : x.run cfg hw m = .error e m') :
    ∃ f, x.firstFault cfg hw x.parts m = some f ∧ m'.fault = x.report f (x.raw (x.port.super m) f) := by
  unfold report
  cases hwr : x.op.write with
  | false => rw [x.run_get hwr] at h; exact x.runGet_error h
  | true =>
    rw [x.run_put hwr, runPut] at h
    cases hc : x.caught with
    | false => rw [hc] at h; obtain ⟨f, hf, -, hraw⟩ := x.runAll_error h; exact ⟨f, hf, hraw⟩
    | true =>
      rw [hc] at h
      obtain ⟨m₁, herr, hfault⟩ := catchPut_error h
      obtain ⟨f, hf, -, hraw⟩ := x.runAll_error herr; exact ⟨f, hf, hraw ▸ hfault⟩

theorem recorded_iff : x.Recorded m f r ↔ r.mmuFaultAddr = x.addr ∧ (r.Ma ↔ x.LaterPage f) ∧
      (x.op.write = true → r.wb3Data = x.op.val ∧ r.wb3Status = x.wb3Status m) :=
  ⟨fun h => ⟨h.addr, h.ma, fun hwr => ⟨h.data hwr, h.status hwr⟩⟩,
    fun h => ⟨h.1, h.2.1, fun hwr => (h.2.2 hwr).1, fun hwr => (h.2.2 hwr).2⟩⟩

theorem recorded_misaligned_iff : x.Recorded m f (r.misaligned x.addr) ↔ x.LaterPage f ∧
      (x.op.write = true → r.wb3Data = x.op.val ∧ r.wb3Status = x.wb3Status m) := by
  have hma := misaligned_ma r x.addr
  rw [recorded_iff, iff_true_left hma]
  exact and_iff_right rfl

theorem recorded_report_iff : x.Recorded m f (x.report f r) ↔
      (if x.rewritten f r.mmuFaultAddr then x.LaterPage f
        else r.mmuFaultAddr = x.addr ∧ (r.Ma ↔ x.LaterPage f)) ∧ (x.op.write = true →
        r.wb3Status = x.wb3Status m ∧ (x.caught = true ∨ r.wb3Data = x.op.val)) := by
  unfold report rewritten
  cases hwr : x.op.write with
  | false =>
    by_cases hoff : f.part.off = 0#32
    · simp [hoff, recorded_iff, hwr]
    · simp [hoff, recorded_misaligned_iff, hwr]
  | true =>
    cases hc : x.caught with
    | false => simp [recorded_iff, hwr, and_assoc, and_comm]
    | true =>
      by_cases haddr : r.mmuFaultAddr = x.addr
      · simp [FaultInfo.caughtPut, FaultInfo.Ma, haddr, recorded_iff, hwr]
      · simp [FaultInfo.caughtPut, haddr, recorded_misaligned_iff, hwr]

theorem size_ne_byte (op : OperandOp) : op.size ≠ .byte := by cases op <;> exact Sz.noConfusion

theorem part_of_not_caught (hc : x.caught = false) {p} (hp : p ∈ x.parts) : p.off = 0 ∧ p.val = x.op.val := by
  unfold caught at hc
  split at hc
  · simp only [parts, hc, Bool.false_eq_true, if_false, mem_singleton] at hp; exact hp ▸ ⟨rfl, rfl⟩
  · cases hc

theorem recorded_of_busError {m f} (hf : x.firstFault cfg hw x.parts m = some f)
    (hr : f.register = none) : x.Recorded m f (x.report f (x.raw (x.port.super m) f)) := by
  rw [recorded_report_iff]
  have hmem := x.firstFault_mem hf
  have hlater := x.off_of_busError hf hr
  obtain ⟨hma, hstatus⟩ := record_spec
    { f.old with wb3Data := if x.op.write then f.part.val else f.old.wb3Data } (x.addr + f.part.off)
    (x.port.super m) x.port.data x.op.write x.op.size
  simp only [raw, hr]
  refine ⟨?_, fun hwr => ⟨hstatus hwr (size_ne_byte _), ?_⟩⟩
  · change (if x.rewritten f (x.addr + f.part.off) then _ else x.addr + f.part.off = x.addr ∧ _)
    by_cases hoff : f.part.off = 0
    · -- the fault is at the operand's address, and no `CATCH` touches its record
      have haddr : x.addr + f.part.off = x.addr := by rw [hoff, add_zero_off]
      have hsame : ¬x.LaterPage f := fun h => h (by rw [haddr]; exact SamePage4k.refl _)
      have hnot : x.rewritten f (x.addr + f.part.off) = false := by rw [haddr]; simp [rewritten, hoff]
      rw [hnot]; exact ⟨haddr, iff_of_false hma hsame⟩
    · have hcaught : x.caught = true := by
        by_contra hc
        exact hoff (x.part_of_not_caught (Bool.not_eq_true _ ▸ hc) hmem).1
      have haddr : x.addr + f.part.off ≠ x.addr := fun h => hoff (BitVec.add_right_eq_self.mp h)
      have hrewritten : x.rewritten f (x.addr + f.part.off) = true := by
        unfold rewritten
        split
        · simpa [hcaught] using haddr
        · simpa using hoff
      rw [hrewritten]; exact hlater.resolve_left hoff
  · cases hc : x.caught with
    | true => exact .inl rfl
    | false => exact .inr (by simp only [FaultInfo.record, hwr, if_true]; exact (x.part_of_not_caught hc hmem).2)

theorem recorded_iff_fits {m f} (hf : x.firstFault cfg hw x.parts m = some f) :
    x.Recorded m f (x.report f (x.raw (x.port.super m) f)) ↔ x.Fits m f := by
  cases hr : f.register with
  | none => refine iff_of_true (x.recorded_of_busError hf hr) fun phys h => ?_; rw [hr] at h; cases h
  | some phys =>
    rw [recorded_report_iff]
    unfold raw Fits
    simp only [hr, Option.some.injEq, forall_eq']; exact Iff.rfl

end OperandAccess

end Aranym.Mmu
