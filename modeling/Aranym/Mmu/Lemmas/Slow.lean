import Aranym.Mmu.Lemmas.Fill

/-!
# The slow paths as a family

`SlowPath` names the eight slow functions.
-/

namespace Aranym.Mmu

open Aranym.Lib List

variable {δ : Type}

inductive SlowPath where
  | getByte
  | getWord
  | getLong
  | getQuad
  | putByte (val : BitVec 32)
  | putWord (val : BitVec 32)
  | putLong (val : BitVec 32)
  | putQuad (val : BitVec 64)
deriving DecidableEq

def SlowPath.write : SlowPath → Bool
  | .getByte | .getWord | .getLong | .getQuad => false
  | .putByte _ | .putWord _ | .putLong _ | .putQuad _ => true

def SlowPath.run (cfg : Config) (hw : Hardware δ) (addr : BitVec 32) (super data : Bool) (size : Sz)
    (cl : L1Slot) : SlowPath → MmuM δ Unit
  | .getByte => do let _ ← mmuGetByteSlow cfg hw addr super data size cl
  | .getWord => do let _ ← mmuGetWordSlow cfg hw addr super data size cl
  | .getLong => do let _ ← mmuGetLongSlow cfg hw addr super data size cl
  | .getQuad => do let _ ← mmuGetQuadSlow cfg hw addr super data cl
  | .putByte val => mmuPutByteSlow cfg hw addr val super data size cl
  | .putWord val => mmuPutWordSlow cfg hw addr val super data size cl
  | .putLong val => mmuPutLongSlow cfg hw addr val super data size cl
  | .putQuad val => mmuPutQuadSlow cfg hw addr val super data cl

variable (cfg : Config) (hw : Hardware δ)

variable (w : Sz) (read : Memory 32 → BitVec 32 → BitVec 32)
  (store : Memory 32 → BitVec 32 → BitVec 32 → Memory 32)

/-! ## Performing an action -/

def SameButFault (m m' : Machine δ) : Prop := m'.busLog = m.busLog ∧ m'.atcL1 = m.atcL1

theorem performGet_busError (addr : BitVec 32) (super data : Bool) (size : Sz) (m : Machine δ) :
    ∃ m', performGet hw w read addr super data size .busError m = .error ⟨2⟩ m' ∧ SameButFault m m' :=
  ⟨_, rfl, rfl, rfl⟩

theorem performPut_busError (addr val : BitVec 32) (super data : Bool) (size : Sz) (m : Machine δ) :
    ∃ m', performPut hw w store addr val super data size .busError m = .error ⟨2⟩ m' ∧ SameButFault m m' :=
  ⟨_, rfl, rfl, rfl⟩

theorem liftDev_busLog {α : Type} (addr : BitVec 32) (f : EStateM M68kException δ α) (m : Machine δ) :
    (final (liftDev addr f m)).busLog = m.busLog := by
  have h := keeps_liftDev addr f m
  simp only [Machine.frame, Prod.mk.injEq] at h
  exact h.2.2.2

theorem performGet_hw_busLog (addr : BitVec 32)
    (super data : Bool) (size : Sz) (phys : BitVec 32) (m : Machine δ) :
    (final (performGet hw w read addr super data size (.hw phys) m)).busLog = m.busLog ++ [.hwGet phys] := by
  simp only [performGet, logBus, bind_apply, modify_apply]
  exact liftDev_busLog _ _ _

theorem performPut_hw_busLog
    (addr val : BitVec 32) (super data : Bool) (size : Sz) (phys : BitVec 32) (m : Machine δ) :
    (final (performPut hw w store addr val super data size (.hw phys) m)).busLog =
      m.busLog ++ [.hwPut phys] := by
  simp only [performPut, logBus, bind_apply, modify_apply]
  exact liftDev_busLog _ _ _

def Appends {α : Type} (f : MmuM δ α) : Prop := ∀ m, ∃ ops, (final (f m)).busLog = m.busLog ++ ops

theorem Appends.of_keeps {α : Type} {f : MmuM δ α} (h : Keeps Machine.busLog f) : Appends f :=
  fun m => ⟨[], by rw [append_nil]; exact h m⟩

theorem Appends.after {α β : Type} {f} {k : α → MmuM δ β} (hk : ∀ a, Appends (k a))
    {m : Machine δ} {log : List BusOp} (hf : (final (f m)).busLog = log) :
    ∃ ops, (final ((f >>= k) m)).busLog = log ++ ops := by
  rw [bind_apply]
  cases h : f m with
  | ok a m' => rw [h] at hf; obtain ⟨ops, hops⟩ := hk a m'; exact ⟨ops, by rw [hops, ← hf]; rfl⟩
  | error e m' => rw [h] at hf; exact ⟨[], by rw [append_nil]; exact hf⟩

theorem Appends.bind {α β : Type} {f} {k : α → MmuM δ β} (hf : Appends f)
    (hk : ∀ a, Appends (k a)) : Appends (f >>= k) := by
  intro m
  obtain ⟨ops, hops⟩ := hf m
  obtain ⟨ops', hops'⟩ := Appends.after hk hops
  exact ⟨ops ++ ops', by rw [hops', append_assoc]⟩

theorem performGet_appends (addr : BitVec 32) (super data : Bool) (size : Sz) (act : Action) :
    Appends (performGet hw w read addr super data size act) := by
  intro m
  cases act with
  | ram phys => exact ⟨[.ramGet phys], rfl⟩
  | hw phys => exact ⟨_, performGet_hw_busLog hw w read addr super data size phys m⟩
  | busError => exact ⟨[], (append_nil _).symm⟩

theorem performPut_appends (addr val : BitVec 32) (super data : Bool) (size : Sz) (act : Action) :
    Appends (performPut hw w store addr val super data size act) := by
  intro m
  cases act with
  | ram phys => exact ⟨[.ramPut phys], rfl⟩
  | hw phys => exact ⟨_, performPut_hw_busLog hw w store addr val super data size phys m⟩
  | busError => exact ⟨[], (append_nil _).symm⟩

/-! ## Deciding on an action -/

theorem keeps_busLog_mmuSlow (addr : BitVec 32) (super data write : Bool) (cl : L1Slot) :
    Keeps Machine.busLog (mmuSlow cfg hw addr super data write cl) := by
  have hlook : Keeps Machine.busLog (mmuFillLookup cfg hw addr super data write) := by
    intro m
    obtain ⟨m', h, hdone⟩ := mmuFillLookup_spec cfg hw m addr super data write
    rw [h]; exact hdone.busLog
  refine .bind .get fun m => .ite (.pure _) (.bind (.bind hlook fun granted => .bind .get fun m₁ => ?_)
    fun filled => .bind .get fun m₂ => .ite (.pure _) (.pure _))
  refine .ite ?_ (.bind (.modify fun _ => rfl) fun _ => .pure _)
  dsimp only
  split <;> exact .bind (.modify fun _ => rfl) fun _ => .pure _

/-- A refused access: the flag of the line found in the slot decides between a bus error and a
hardware access, and the slot keeps its tag only if it was the page's own negative entry. -/
theorem mmuSlow_refused {m addr super data write}
    (h : m.refused cfg hw addr super data write = true) (cl : L1Slot) :
    ∃ m', mmuSlow cfg hw addr super data write cl m = .ok (m.redo addr cl) m' ∧ m'.busLog = m.busLog ∧
      (m'.l1 cl).tag = if (m.l1 cl).tag = ~~~atcTag addr then (m.l1 cl).tag else ~~~(m.l1 cl).tag := by
  by_cases ht : (m.l1 cl).tag = ~~~atcTag addr
  · refine ⟨m, ?_, rfl, by rw [if_pos ht]⟩; simp only [mmuSlow, bind_apply, get_apply, if_pos ht, pure_apply]
  · obtain ⟨m₁, hdone, hfill⟩ := mmuFillAtcL1_spec cfg hw m addr super data write cl
    rw [h, if_pos rfl] at hfill
    refine ⟨m₁.setL1 cl (m.l1 cl).complement, ?_, hdone.busLog, by rw [if_neg ht, l1_setL1_self]; rfl⟩
    have hredo : (m₁.setL1 cl (m.l1 cl).complement).redo addr cl = m.redo addr cl := by
      simp only [Machine.redo, l1_setL1_self, AtcLine.complement]
    simp only [mmuSlow, bind_apply, get_apply, if_neg ht, hfill, pure_apply, hredo, Bool.false_eq_true,
      if_false]

/-! ## Running a slow path -/

theorem mmuGetSlow_appends (addr : BitVec 32) (super data : Bool) (size : Sz) (cl : L1Slot) :
    Appends (mmuGetSlow cfg hw w read addr super data size cl) :=
  .bind (.of_keeps (keeps_busLog_mmuSlow cfg hw addr super data false cl)) fun act =>
    performGet_appends hw w read addr super data size act

theorem mmuPutSlow_appends (addr val : BitVec 32) (super data : Bool) (size : Sz) (cl : L1Slot) :
    Appends (mmuPutSlow cfg hw w store addr val super data size cl) :=
  .bind (.of_keeps (keeps_busLog_mmuSlow cfg hw addr super data true cl)) fun act =>
    performPut_appends hw w store addr val super data size act

variable {addr : BitVec 32} {super data : Bool} {cl : L1Slot} {p : SlowPath} {m m₁ : Machine δ}

theorem SlowPath.run_busError (size : Sz)
    (h : mmuSlow cfg hw addr super data p.write cl m = .ok .busError m₁) :
    ∃ m', p.run cfg hw addr super data size cl m = .error ⟨2⟩ m' ∧ SameButFault m₁ m' := by
  have hget (w : Sz) (read : Memory 32 → BitVec 32 → BitVec 32) (size : Sz)
      (h : mmuSlow cfg hw addr super data false cl m = .ok .busError m₁) :
      ∃ m', mmuGetSlow cfg hw w read addr super data size cl m = .error ⟨2⟩ m' ∧ SameButFault m₁ m' := by
    obtain ⟨m', he, hs⟩ := performGet_busError hw w read addr super data size m₁
    exact ⟨m', by rw [mmuGetSlow, bind_ok h, he], hs⟩
  have hput (w : Sz) (store : Memory 32 → BitVec 32 → BitVec 32 → Memory 32) (val : BitVec 32) (size : Sz)
      (h : mmuSlow cfg hw addr super data true cl m = .ok .busError m₁) :
      ∃ m', mmuPutSlow cfg hw w store addr val super data size cl m = .error ⟨2⟩ m' ∧
        SameButFault m₁ m' := by
    obtain ⟨m', he, hs⟩ := performPut_busError hw w store addr val super data size m₁
    exact ⟨m', by rw [mmuPutSlow, bind_ok h, he], hs⟩
  cases p with
  | getByte => obtain ⟨m', he, hs⟩ := hget .byte readByte size h; exact ⟨m', bind_error he, hs⟩
  | getWord => obtain ⟨m', he, hs⟩ := hget .word readWord size h; exact ⟨m', bind_error he, hs⟩
  | getLong => obtain ⟨m', he, hs⟩ := hget .long readLong size h; exact ⟨m', bind_error he, hs⟩
  | getQuad => obtain ⟨m', he, hs⟩ := hget .long readLong .long h; exact ⟨m', bind_error (bind_error he), hs⟩
  | putByte val => exact hput .byte storeByte val size h
  | putWord val => exact hput .word storeWord val size h
  | putLong val => exact hput .long storeLong val size h
  | putQuad val =>
    obtain ⟨m', he, hs⟩ := hput .long storeLong (val.extractLsb' 32 32) .long h
    exact ⟨m', bind_error he, hs⟩

theorem SlowPath.run_hw (size : Sz) {phys : BitVec 32}
    (h : mmuSlow cfg hw addr super data p.write cl m = .ok (.hw phys) m₁) :
    ∃ op ops, (final (p.run cfg hw addr super data size cl m)).busLog = m₁.busLog ++ [op] ++ ops := by
  have hget (w : Sz) (read : Memory 32 → BitVec 32 → BitVec 32) (size : Sz)
      (h : mmuSlow cfg hw addr super data false cl m = .ok (.hw phys) m₁) :
      (final (mmuGetSlow cfg hw w read addr super data size cl m)).busLog =
        m₁.busLog ++ [.hwGet phys] := by
    rw [mmuGetSlow, bind_ok h, performGet_hw_busLog]
  have hput (w : Sz) (store : Memory 32 → BitVec 32 → BitVec 32 → Memory 32) (val : BitVec 32) (size : Sz)
      (h : mmuSlow cfg hw addr super data true cl m = .ok (.hw phys) m₁) :
      (final (mmuPutSlow cfg hw w store addr val super data size cl m)).busLog =
        m₁.busLog ++ [.hwPut phys] := by
    rw [mmuPutSlow, bind_ok h, performPut_hw_busLog]
  have hpure {α : Type} (a : α) : Appends (pure a : MmuM δ α) := .of_keeps (.pure a)
  cases p with
  | getByte => exact ⟨_, Appends.after (fun _ => hpure ()) (hget .byte readByte size h)⟩
  | getWord => exact ⟨_, Appends.after (fun _ => hpure ()) (hget .word readWord size h)⟩
  | getLong => exact ⟨_, Appends.after (fun _ => hpure ()) (hget .long readLong size h)⟩
  | getQuad =>
    have hrest (v : BitVec 32) : Appends (do
        let l ← mmuGetLongSlow cfg hw (addr + 4) super data .long cl
        pure (v ++ l)) :=
      .bind (mmuGetSlow_appends cfg hw .long readLong _ super data .long cl) fun _ => hpure _
    obtain ⟨ops, hops⟩ := Appends.after hrest (hget .long readLong .long h)
    obtain ⟨ops', hops'⟩ := Appends.after (fun _ => hpure ()) hops
    exact ⟨_, ops ++ ops', by rw [← append_assoc]; exact hops'⟩
  | putByte val => exact ⟨_, [], by rw [append_nil]; exact hput .byte storeByte val size h⟩
  | putWord val => exact ⟨_, [], by rw [append_nil]; exact hput .word storeWord val size h⟩
  | putLong val => exact ⟨_, [], by rw [append_nil]; exact hput .long storeLong val size h⟩
  | putQuad val =>
    exact ⟨_, Appends.after
      (fun _ => mmuPutSlow_appends cfg hw .long storeLong _ _ super data .long cl)
      (hput .long storeLong (val.extractLsb' 32 32) .long h)⟩

end Aranym.Mmu
