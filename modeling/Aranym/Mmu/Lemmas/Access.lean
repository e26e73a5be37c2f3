import Aranym.Mmu.Lemmas.Slow

/-!
# One access as a pure function

`Machine.access` says in one expression what an access does (its action) and leaves behind (the L1 slot and the L2
line); `mmuAccess_spec` proves that `mmuAccess` computes it.
-/

namespace Aranym.Mmu

open Aranym.Lib Bool

variable {δ : Type}

def AtcLine.redo (l : AtcLine) (addr : BitVec 32) : Action := if l.hw then .hw (l.phys + addr) else .busError

structure AccessResult where
  action : Action
  slot : AtcLine
  line : AtcLine

section

variable (cfg : Config) (hw : Hardware δ)

def Machine.access (m : Machine δ) (addr : BitVec 32) (super data write : Bool) : AccessResult :=
  let slot := m.l1 (l1Slot super data write addr)
  let line := m.atcL2 super (atcL2Index addr)
  let line' := m.lookupLine cfg hw addr super data write
  if slot.tag = atcTag addr then ⟨.ram (slot.phys + addr), slot, line⟩
  else if slot.tag = ~~~atcTag addr then ⟨slot.redo addr, slot, line⟩
  else if m.refused cfg hw addr super data write then ⟨slot.redo addr, slot.complement, line'⟩
  else match line'.special cfg addr super write with
    | none => ⟨.ram (line'.phys + addr), line', line'⟩
    | some l1 => ⟨l1.redo addr, l1.complement, line'⟩

structure AccessDone (m m' : Machine δ) (addr : BitVec 32) (super data write : Bool)
    (slot line : AtcLine) : Prop where
  regs : m'.regs = m.regs
  slot : m'.l1 (l1Slot super data write addr) = slot
  slots : ∀ cl, cl ≠ l1Slot super data write addr → m'.l1 cl = m.l1 cl
  line : m'.atcL2 super (atcL2Index addr) = line
  lines : ∀ s i, s ≠ super ∨ i ≠ atcL2Index addr → m'.atcL2 s i = m.atcL2 s i

theorem mmuAccess_spec (m : Machine δ) (addr : BitVec 32) (super data write : Bool) :
    ∃ m', mmuAccess cfg hw addr super data write m = .ok (m.access cfg hw addr super data write).action m' ∧
      AccessDone m m' addr super data write (m.access cfg hw addr super data write).slot
        (m.access cfg hw addr super data write).line := by
  unfold Machine.access
  by_cases hhit : (m.l1 (l1Slot super data write addr)).tag = atcTag addr
  · refine ⟨m, ?_, ?_⟩
    · have hlookup : mmuUserLookup m super data write addr = true := beq_iff_eq.mpr hhit
      simp only [mmuAccess, bind_apply, get_apply, hlookup, if_pos hhit, if_true, pure_apply]
    · simp only [if_pos hhit]; exact ⟨rfl, rfl, fun _ _ => rfl, rfl, fun _ _ _ => rfl⟩
  · have hslow : mmuAccess cfg hw addr super data write m =
        mmuSlow cfg hw addr super data write (l1Slot super data write addr) m := by
      simp only [mmuAccess, mmuUserLookup, bind_apply, get_apply, beq_iff_eq, if_neg hhit]
    rw [hslow]
    simp only [if_neg hhit, mmuSlow, bind_apply, get_apply]
    by_cases hneg : (m.l1 (l1Slot super data write addr)).tag = ~~~atcTag addr
    · refine ⟨m, ?_, ?_⟩
      · simp only [if_pos hneg, pure_apply, Machine.redo, AtcLine.redo]
      · simp only [if_pos hneg]; exact ⟨rfl, rfl, fun _ _ => rfl, rfl, fun _ _ _ => rfl⟩
    · obtain ⟨m₁, hdone, hfill⟩ :=
        mmuFillAtcL1_spec cfg hw m addr super data write (l1Slot super data write addr)
      -- in each case the slot is written once, over the machine the lookup left
      have hset (l : AtcLine) : AccessDone m (m₁.setL1 (l1Slot super data write addr) l) addr super data write
          l (m.lookupLine cfg hw addr super data write) :=
        ⟨hdone.regs, l1_setL1_self _ _ _, fun cl h => by
          rw [l1_setL1_of_ne _ _ h]; simp only [Machine.l1, hdone.atcL1], hdone.line, hdone.others⟩
      simp only [if_neg hneg, bind_apply, hfill]
      cases m.refused cfg hw addr super data write with
      | true =>
        refine ⟨_, ?_, hset _⟩
        simp only [if_true, get_apply, false_eq_true, if_false, pure_apply, Machine.redo,
          l1_setL1_self]
        rfl
      | false =>
        simp only [false_eq_true, if_false]
        cases (m.lookupLine cfg hw addr super data write).special cfg addr super write with
        | none => refine ⟨_, ?_, hset _⟩; simp only [get_apply, if_true, pure_apply, l1_setL1_self]
        | some l1 =>
          refine ⟨_, ?_, hset _⟩
          simp only [get_apply, false_eq_true, if_false, pure_apply, Machine.redo, l1_setL1_self]
          rfl

end

/-! ## Accesses of the CPU -/

inductive MemOp where
  | getByte
  | getWord
  | getLong
  | putByte (val : BitVec 32)
  | putWord (val : BitVec 32)
  | putLong (val : BitVec 32)
deriving DecidableEq

structure Access where
  op : MemOp
  addr : BitVec 32
  data : Bool
  size : Sz
deriving DecidableEq

def Access.write (x : Access) : Bool :=
  match x.op with
  | .getByte | .getWord | .getLong => false
  | .putByte _ | .putWord _ | .putLong _ => true

variable (cfg : Config) (hw : Hardware δ)

variable (m : Machine δ) (x : Access)

def Access.run : MmuM δ Unit :=
  match x.op with
  | .getByte => do let _ ← mmuGetByte cfg hw x.addr x.data x.size
  | .getWord => do let _ ← mmuGetWord cfg hw x.addr x.data x.size
  | .getLong => do let _ ← mmuGetLong cfg hw x.addr x.data x.size
  | .putByte val => mmuPutByte cfg hw x.addr val x.data x.size
  | .putWord val => mmuPutWord cfg hw x.addr val x.data x.size
  | .putLong val => mmuPutLong cfg hw x.addr val x.data x.size

def Machine.next : Machine δ := final (x.run cfg hw m)

/-- What the lookup of an access comes to. -/
def Machine.outcome : Action :=
  match mmuAccess cfg hw x.addr m.regs.s x.data x.write m with
  | .ok action _ => action
  | .error _ _ => .busError

theorem outcome_eq : m.outcome cfg hw x = (m.access cfg hw x.addr m.regs.s x.data x.write).action := by
  obtain ⟨m', h, -⟩ := mmuAccess_spec cfg hw m x.addr m.regs.s x.data x.write
  rw [Machine.outcome, h]

def Machine.atc : MmuRegs × (Fin 8 → Fin 256 → AtcLine) × (Bool → Fin 4096 → AtcLine) :=
  (m.regs, m.atcL1, m.atcL2)

theorem keeps_atc_liftDev {α : Type} (addr : BitVec 32) (f : EStateM M68kException δ α) :
    Keeps Machine.atc (liftDev addr f) := by
  intro m
  simp only [liftDev]
  cases f m.dev <;> rfl

theorem keeps_atc_performGet (w : Sz) (read : Memory 32 → BitVec 32 → BitVec 32) (addr : BitVec 32)
    (super data : Bool) (size : Sz) (act : Action) :
    Keeps Machine.atc (performGet hw w read addr super data size act) := by
  cases act with
  | ram phys => exact .bind (.modify fun _ => rfl) fun _ => .bind .get fun _ => .pure _
  | hw phys => exact .bind (.modify fun _ => rfl) fun _ => keeps_atc_liftDev _ _
  | busError => exact .bind (.modify fun _ => rfl) fun _ => .throw _

theorem keeps_atc_performPut (w : Sz) (store : Memory 32 → BitVec 32 → BitVec 32 → Memory 32)
    (addr val : BitVec 32) (super data : Bool) (size : Sz) (act : Action) :
    Keeps Machine.atc (performPut hw w store addr val super data size act) := by
  cases act with
  | ram phys => exact .bind (.modify fun _ => rfl) fun _ => .modify fun _ => rfl
  | hw phys => exact .bind (.modify fun _ => rfl) fun _ => keeps_atc_liftDev _ _
  | busError => exact .bind (.modify fun _ => rfl) fun _ => .bind (.modify fun _ => rfl) fun _ => .throw _

theorem keeps_atc_final {α : Type} {f : MmuM δ α} (hf : Keeps Machine.atc f) (m : Machine δ) :
    (final (f m)).regs = m.regs ∧ (∀ cl, (final (f m)).l1 cl = m.l1 cl) ∧ (final (f m)).atcL2 = m.atcL2 := by
  have h := hf m
  simp only [Machine.atc, Prod.mk.injEq] at h
  obtain ⟨hr, h1, h2⟩ := h
  exact ⟨hr, fun cl => by simp only [Machine.l1, h1], h2⟩

theorem AccessDone.perform {α : Type} {f : MmuM δ α} (hf : Keeps Machine.atc f) {m m' : Machine δ}
    {addr : BitVec 32} {super data write : Bool} {slot line : AtcLine}
    (h : AccessDone m m' addr super data write slot line) :
    AccessDone m (final (f m')) addr super data write slot line := by
  obtain ⟨hr, h1, h2⟩ := keeps_atc_final hf m'
  exact ⟨hr.trans h.regs, (h1 _).trans h.slot, fun cl hcl => (h1 cl).trans (h.slots cl hcl),
    by rw [h2]; exact h.line, fun s i hi => by rw [h2]; exact h.lines s i hi⟩

theorem next_spec : AccessDone m (m.next cfg hw x) x.addr m.regs.s x.data x.write
      (m.access cfg hw x.addr m.regs.s x.data x.write).slot
      (m.access cfg hw x.addr m.regs.s x.data x.write).line := by
  obtain ⟨m', h, hdone⟩ := mmuAccess_spec cfg hw m x.addr m.regs.s x.data x.write
  have hget (w : Sz) (read : Memory 32 → BitVec 32 → BitVec 32) (hx : x.write = false) :
      AccessDone m (final ((mmuGet cfg hw w read x.addr x.data x.size >>= fun _ => pure ()) m)) x.addr
        m.regs.s x.data x.write (m.access cfg hw x.addr m.regs.s x.data x.write).slot
        (m.access cfg hw x.addr m.regs.s x.data x.write).line := by
    have hrun : mmuGet cfg hw w read x.addr x.data x.size m =
        performGet hw w read x.addr m.regs.s x.data x.size
          (m.access cfg hw x.addr m.regs.s x.data x.write).action m' := by
      rw [mmuGet, bind_ok (get_apply m), ← hx, bind_ok h]
    have hperform := hdone.perform (keeps_atc_performGet hw w read x.addr m.regs.s x.data x.size
      (m.access cfg hw x.addr m.regs.s x.data x.write).action)
    rw [← hrun] at hperform
    rw [bind_apply]
    cases hr : mmuGet cfg hw w read x.addr x.data x.size m with
    | ok v m₂ => rw [hr] at hperform; exact hperform
    | error e m₂ => rw [hr] at hperform; exact hperform
  have hput (w : Sz) (store : Memory 32 → BitVec 32 → BitVec 32 → Memory 32) (val : BitVec 32)
      (hx : x.write = true) :
      AccessDone m (final (mmuPut cfg hw w store x.addr val x.data x.size m)) x.addr
        m.regs.s x.data x.write (m.access cfg hw x.addr m.regs.s x.data x.write).slot
        (m.access cfg hw x.addr m.regs.s x.data x.write).line := by
    have hrun : mmuPut cfg hw w store x.addr val x.data x.size m =
        performPut hw w store x.addr val m.regs.s x.data x.size
          (m.access cfg hw x.addr m.regs.s x.data x.write).action m' := by
      rw [mmuPut, bind_ok (get_apply m), ← hx, bind_ok h]
    rw [hrun]; exact hdone.perform (keeps_atc_performPut hw w store _ _ _ _ _ _)
  unfold Machine.next Access.run
  cases hop : x.op with
  | getByte => exact hget .byte readByte (by simp only [Access.write, hop])
  | getWord => exact hget .word readWord (by simp only [Access.write, hop])
  | getLong => exact hget .long readLong (by simp only [Access.write, hop])
  | putByte val => exact hput .byte storeByte val (by simp only [Access.write, hop])
  | putWord val => exact hput .word storeWord val (by simp only [Access.write, hop])
  | putLong val => exact hput .long storeLong val (by simp only [Access.write, hop])

end Aranym.Mmu
