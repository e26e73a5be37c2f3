import Aranym.Mmu.Access

/-!
# What the table search does not look at

The table search reads registers, memory and devices only; neither the ATC nor the bus log nor the transparent
translation registers can influence it.
-/

namespace Aranym.Mmu

open Aranym.Lib

variable {δ : Type} (cfg : Config) (hw : Hardware δ)

def MmuRegs.withoutTtr (r : MmuRegs) : MmuRegs := { r with itt0 := 0, itt1 := 0, dtt0 := 0, dtt1 := 0 }

/-- What `g` leaves out or overwrites is not looked at by the table search. -/
structure Hidden (g : Machine δ → Machine δ) : Prop where
  seen : ∀ {m n : Machine δ}, g m = g n →
    m.regs.withoutTtr = n.regs.withoutTtr ∧ m.ram = n.ram ∧ m.dev = n.dev ∧ m.fault = n.fault
  update : ∀ {m n : Machine δ} {ram : Memory 32} {dev : δ} {fault : FaultInfo}, g m = g n →
    g { m with ram := ram, dev := dev, fault := fault } = g { n with ram := ram, dev := dev, fault := fault }

section TableSearch

variable {g : Machine δ → Machine δ} (hg : Hidden g)

include hg

theorem Hidden.congr {m n r r' d d' f f'} (h : g m = g n) (hr : r = r') (hd : d = d') (hf : f = f') :
    g { m with ram := r, dev := d, fault := f } = g { n with ram := r', dev := d', fault := f' } := by
  subst hr hd hf
  exact hg.update h

theorem respects_liftDev {α : Type} (addr : BitVec 32) (f : EStateM M68kException δ α) :
    Respects g (liftDev addr f) := by
  intro m n h
  obtain ⟨-, hram, hdev, hfault⟩ := hg.seen h
  unfold liftDev
  rw [hdev]
  cases f n.dev with
  | ok a d => exact congrArg (EStateM.Result.ok a) (hg.congr h hram rfl hfault)
  | error e d => exact congrArg (EStateM.Result.error e) (hg.congr h hram rfl (by rw [hfault]))

theorem respects_checkRamBoundary (addr : BitVec 32) (size : Nat) (write : Bool) :
    Respects g (checkRamBoundary cfg addr size write : MmuM δ Unit) := by
  refine .get_bind (fun m n h => ?_) fun _ => .ite (.pure _) ?_
  · have hs : m.regs.s = n.regs.s := (congrArg MmuRegs.s (hg.seen h).1 :)
    rw [hs]
  refine .bind (.modify fun m n h => ?_) fun _ => .throw _
  obtain ⟨-, hram, hdev, hfault⟩ := hg.seen h
  exact hg.congr h hram hdev (by rw [hfault])

theorem respects_physGetLong (addr : BitVec 32) : Respects g (physGetLong cfg hw addr) :=
  .ite (respects_liftDev hg _ _) (.bind (respects_checkRamBoundary cfg hg _ _ _) fun _ =>
    .get_bind (fun m n h => by rw [(hg.seen h).2.1]) fun _ => .pure _)

theorem respects_physPutLong (addr v : BitVec 32) : Respects g (physPutLong cfg hw addr v) := by
  refine .ite (respects_liftDev hg _ _) (.bind (respects_checkRamBoundary cfg hg _ _ _) fun _ =>
    .modify fun m n h => ?_)
  obtain ⟨-, hram, hdev, hfault⟩ := hg.seen h
  exact hg.congr h (by rw [hram]) hdev hfault

theorem respects_markUsed (descAddr desc : BitVec 32) : Respects g (markUsed cfg hw descAddr desc) :=
  .ite (respects_physPutLong cfg hw hg _ _) (.pure _)

theorem respects_fetchPageDesc (pageAddr : BitVec 32) : Respects g (fetchPageDesc cfg hw pageAddr) :=
  .bind (respects_physGetLong cfg hw hg _) fun _ =>
    .ite (.bind (respects_physGetLong cfg hw hg _) fun _ => .pure _) (.pure _)

theorem respects_updatePageDesc (write : Bool) (descAddr desc : BitVec 32) :
    Respects g (updatePageDesc cfg hw write descAddr desc) :=
  .ite (.ite (.bind (respects_physPutLong cfg hw hg _ _) fun _ => .pure _) (.pure _))
    (.ite (.bind (respects_physPutLong cfg hw hg _ _) fun _ => .pure _) (.pure _))

theorem respects_mmuLookupPagetable (addr : BitVec 32) (super write : Bool) :
    Respects g (mmuLookupPagetable cfg hw addr super write) := by
  refine .get_bind (fun m n h => ?_) fun m =>
    .bind (respects_physGetLong cfg hw hg _) fun rootDesc => .ite (.pure _) ?_
  · have hregs := (hg.seen h).1
    have hsrp : m.regs.srp = n.regs.srp := (congrArg MmuRegs.srp hregs :)
    have hurp : m.regs.urp = n.regs.urp := (congrArg MmuRegs.urp hregs :)
    have h8k : m.regs.mmuPagesize8k = n.regs.mmuPagesize8k := (congrArg MmuRegs.mmuPagesize8k hregs :)
    simp only [hsrp, hurp, h8k]
  refine .bind (respects_markUsed cfg hw hg _ _) fun _ =>
    .bind (respects_physGetLong cfg hw hg _) fun ptrDesc => .ite (.pure _) ?_
  refine .bind (respects_markUsed cfg hw hg _ _) fun _ =>
    .bind (respects_fetchPageDesc cfg hw hg _) fun page => ?_
  exact .ite (.pure _) (respects_updatePageDesc cfg hw hg _ _ _)

end TableSearch

variable (w : Sz) (addr : BitVec 32) (super data write : Bool) (cl : L1Slot)

/-! ## The bus log -/

/-- The machine without the record of its bus cycles. -/
def Machine.unlogged (m : Machine δ) : Machine δ := { m with busLog := [] }

theorem unlogged_eq_iff (m n : Machine δ) :
    m.unlogged = n.unlogged ↔ m.regs = n.regs ∧ m.atcL1 = n.atcL1 ∧ m.atcL2 = n.atcL2 ∧ m.ram = n.ram ∧
      m.dev = n.dev ∧ m.fault = n.fault := by simp only [Machine.unlogged, Machine.mk.injEq, and_true]

theorem hidden_unlogged : Hidden (Machine.unlogged : Machine δ → Machine δ) where
  seen h := by
    obtain ⟨hregs, -, -, hram, hdev, hfault⟩ := (unlogged_eq_iff _ _).mp h
    exact ⟨congrArg MmuRegs.withoutTtr hregs, hram, hdev, hfault⟩
  update h := by
    obtain ⟨hregs, hl1, hl2, -, -, -⟩ := (unlogged_eq_iff _ _).mp h
    exact (unlogged_eq_iff _ _).mpr ⟨hregs, hl1, hl2, rfl, rfl, rfl⟩

theorem unlogged_regs {m n : Machine δ} (h : m.unlogged = n.unlogged) : m.regs = n.regs :=
  ((unlogged_eq_iff m n).mp h).1

theorem unlogged_l2 {m n : Machine δ} (h : m.unlogged = n.unlogged) : m.atcL2 = n.atcL2 :=
  ((unlogged_eq_iff m n).mp h).2.2.1

theorem unlogged_l1 {m n : Machine δ} (h : m.unlogged = n.unlogged) (cl : L1Slot) : m.l1 cl = n.l1 cl := by
  rw [Machine.l1, Machine.l1, ((unlogged_eq_iff m n).mp h).2.1]

theorem respects_mmuFillAtcL2 (l : AtcLine) :
    Respects Machine.unlogged (mmuFillAtcL2 cfg hw addr super data write l) := by
  refine .get_bind (fun m n h => by rw [unlogged_regs h]) fun m => ?_
  refine .ite (.pure _) (.ite (.pure _) (.bind ?_ fun _ => .pure _))
  exact .tryCatch (respects_mmuLookupPagetable cfg hw hidden_unlogged _ _ _) fun _ => .pure _

theorem respects_setL2 (i : Fin 4096) (l : AtcLine) :
    Respects Machine.unlogged (modify fun m => m.setL2 super i l : MmuM δ PUnit) :=
  .modify fun _ _ h => congrArg (fun k => Machine.setL2 k super i l) h

theorem respects_setL1 (l : AtcLine) :
    Respects Machine.unlogged (modify fun m => m.setL1 cl l : MmuM δ PUnit) :=
  .modify fun _ _ h => congrArg (fun k => Machine.setL1 k cl l) h

theorem respects_restart (n : Nat) : Respects Machine.unlogged (restart cfg hw addr super data write n) := by
  induction n with
  | zero => exact .pure _
  | succ n ih =>
    refine .get_bind (fun m n h => by rw [unlogged_l2 h]) fun m => ?_
    refine .bind (respects_mmuFillAtcL2 cfg hw _ _ _ _ _) fun r => .bind (respects_setL2 _ _ _) fun _ => ?_
    cases r.2.check data write with
    | fail => exact .pure _
    | pass => exact .pure _
    | restart => exact ih

theorem respects_mmuFillLookup : Respects Machine.unlogged (mmuFillLookup cfg hw addr super data write) := by
  refine .get_bind (fun m n h => by rw [unlogged_l2 h]) fun m => .ite (respects_restart cfg hw _ _ _ _ _) ?_
  cases (m.atcL2 super (atcL2Index addr)).check data write with
  | fail => exact .pure _
  | pass => exact .pure _
  | restart => exact respects_restart cfg hw _ _ _ _ _

theorem respects_mmuFillAtcL1 : Respects Machine.unlogged (mmuFillAtcL1 cfg hw addr super data write cl) := by
  refine .bind (respects_mmuFillLookup cfg hw _ _ _ _) fun granted => ?_
  refine .get_bind (fun m n h => by rw [unlogged_l2 h]) fun m => .ite ?_ ?_
  · dsimp only
    cases (m.atcL2 super (atcL2Index addr)).special cfg addr super write with
    | none => exact .bind (respects_setL1 _ _) fun _ => .pure _
    | some l1 => exact .bind (respects_setL1 _ _) fun _ => .pure _
  · exact .bind (.modify fun _ _ h =>
      congrArg (fun k => Machine.setL1 k cl (k.l1 cl).complement) h) fun _ => .pure _

theorem respects_mmuSlow : Respects Machine.unlogged (mmuSlow cfg hw addr super data write cl) := by
  refine .get_bind (fun m n h => by simp only [Machine.redo, unlogged_l1 h]) fun m => .ite (.pure _) ?_
  refine .bind (respects_mmuFillAtcL1 cfg hw _ _ _ _ _) fun filled => ?_
  exact .get_bind (fun m n h => by simp only [Machine.redo, unlogged_l1 h]) fun m => .ite (.pure _) (.pure _)

theorem respects_mmuAccess : Respects Machine.unlogged (mmuAccess cfg hw addr super data write) := by
  refine .get_bind (fun m n h => ?_) fun _ => .ite (.pure _) (respects_mmuSlow cfg hw _ _ _ _ _)
  have hlookup : mmuUserLookup m super data write addr = mmuUserLookup n super data write addr := by
    rw [mmuUserLookup, mmuUserLookup, unlogged_l1 h]
  dsimp only
  rw [hlookup, unlogged_l1 h]

theorem respects_logBus (op : BusOp) : Respects Machine.unlogged (logBus op : MmuM δ Unit) :=
  .modify fun _ _ h => h

theorem respects_performGet (read : Memory 32 → BitVec 32 → BitVec 32) (addr : BitVec 32)
    (super data : Bool) (size : Sz) (action : Action) :
    Respects Machine.unlogged (performGet hw w read addr super data size action) := by
  cases action with
  | ram phys =>
    exact .bind (respects_logBus _) fun _ =>
      .get_bind (fun m n h => by rw [(hidden_unlogged.seen h).2.1]) fun _ => .pure _
  | hw phys => exact .bind (respects_logBus _) fun _ => respects_liftDev hidden_unlogged _ _
  | busError =>
    exact .bind (.modify fun _ _ h =>
      congrArg (fun k => { k with fault := k.fault.record addr (mmuGetFc super data) false size }) h)
      fun _ => .throw _

theorem respects_performPut (store : Memory 32 → BitVec 32 → BitVec 32 → Memory 32)
    (addr val : BitVec 32) (super data : Bool) (size : Sz) (action : Action) :
    Respects Machine.unlogged (performPut hw w store addr val super data size action) := by
  cases action with
  | ram phys =>
    exact .bind (respects_logBus _) fun _ => .modify fun _ _ h =>
      congrArg (fun k => { k with ram := store k.ram phys val }) h
  | hw phys => exact .bind (respects_logBus _) fun _ => respects_liftDev hidden_unlogged _ _
  | busError =>
    refine .bind (.modify fun _ _ h =>
      congrArg (fun k => { k with fault := { k.fault with wb3Data := val } }) h) fun _ => ?_
    exact .bind (.modify fun _ _ h =>
      congrArg (fun k => { k with fault := k.fault.record addr (mmuGetFc super data) true size }) h)
      fun _ => .throw _

theorem respects_mmuGet (read : Memory 32 → BitVec 32 → BitVec 32) (addr : BitVec 32)
    (data : Bool) (size : Sz) : Respects Machine.unlogged (mmuGet cfg hw w read addr data size) :=
  .get_bind (fun m n h => by rw [unlogged_regs h]) fun m =>
    .bind (respects_mmuAccess cfg hw _ _ _ _) fun _ => respects_performGet hw _ _ _ _ _ _ _

theorem respects_mmuPut (store : Memory 32 → BitVec 32 → BitVec 32 → Memory 32)
    (addr val : BitVec 32) (data : Bool) (size : Sz) :
    Respects Machine.unlogged (mmuPut cfg hw w store addr val data size) :=
  .get_bind (fun m n h => by rw [unlogged_regs h]) fun m =>
    .bind (respects_mmuAccess cfg hw _ _ _ _) fun _ => respects_performPut hw _ _ _ _ _ _ _ _

end Aranym.Mmu
