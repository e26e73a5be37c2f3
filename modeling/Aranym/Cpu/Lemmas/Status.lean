import Aranym.Cpu.Handlers
import Aranym.Cpu.Lemmas.Fetch

/-!
# Programs and the condition codes

`NoStatus m`: the program neither reads nor changes the condition codes and `regs.sr`.
-/

namespace Aranym.Cpu

open Aranym.Lib Aranym.Mmu

variable {α β : Type}

variable (x : Xlate) (o v : BitVec 32) (mode : AMode) (reg : BitVec 32) (size : Sz) (getv : Getv)
  (addr : BitVec 32)

theorem Flags.get_set (g : Flags) (f f' : Flag) (b : Bool) :
    (g.set f b).get f' = if f' = f then b else g.get f' := by cases f <;> cases f' <;> rfl

structure NoStatus (m : CpuM α) : Prop where
  commutes : ∀ φ ψ, Commutes (setStatus φ ψ) m

/-! ## Programs without the condition codes -/

namespace NoStatus

theorem pure (a : α) : NoStatus (pure a : CpuM α) := ⟨fun _ _ => .pure a⟩

theorem throw (e : Trap) : NoStatus (throw e : CpuM α) := ⟨fun _ _ => .throw e⟩

theorem modify {h} (hg : ∀ {φ ψ s}, h (setStatus φ ψ s) = setStatus φ ψ (h s)) :
    NoStatus (modify h : CpuM PUnit) :=
  ⟨fun _ _ => .modify fun _ => hg⟩

theorem bind {m} {k : α → CpuM β} (hm : NoStatus m) (hk : ∀ a, NoStatus (k a)) : NoStatus (m >>= k) :=
  ⟨fun φ ψ => (hm.commutes φ ψ).bind fun a => (hk a).commutes φ ψ⟩

theorem get_bind {k : CpuState → CpuM β} (hg : ∀ {φ ψ s}, k (setStatus φ ψ s) = k s)
    (hk : ∀ s, NoStatus (k s)) : NoStatus (get >>= k) :=
  ⟨fun φ ψ => .get_bind (fun _ => hg) fun s => (hk s).commutes φ ψ⟩

theorem ite {p : Prop} [Decidable p] {m₁ m₂ : CpuM α} (h₁ : NoStatus m₁) (h₂ : NoStatus m₂) :
    NoStatus (if p then m₁ else m₂) := by split <;> assumption

theorem doIf {p : Prop} [Decidable p] {m : CpuM Unit} (h : NoStatus m) : NoStatus (doIf p m) := ite h (pure _)

theorem run {m} (hm : NoStatus m) {s t : CpuState} {a : α} (h : m s = .ok a t)
    (φ : Flags → Flags) (ψ : BitVec 16 → BitVec 16) : m (setStatus φ ψ s) = .ok a (setStatus φ ψ t) := by
  rw [hm.commutes φ ψ s, h]
  rfl

theorem status_eq {m} (hm : NoStatus m) {s t : CpuState} {a : α} (h : m s = .ok a t) :
    t.flags = s.flags ∧ t.sr = s.sr := by
  have hrun := hm.run h (fun _ => s.flags) fun _ => s.sr
  have hs : setStatus (fun _ => s.flags) (fun _ => s.sr) s = s := rfl
  rw [hs, h] at hrun
  injection hrun with _ ht
  rw [ht]
  exact ⟨rfl, rfl⟩

theorem run_setFlag {m} (hm : NoStatus m) {s t : CpuState} {a : α} (h : m s = .ok a t)
    (f : Flag) (b : Bool) : m (s.setFlag f b) = .ok a (t.setFlag f b) := hm.run h (fun g => g.set f b) id

end NoStatus

/-! ## Programs that keep the condition codes -/

structure KeepsFlags (m : CpuM α) : Prop where
  run : ∀ {s t : CpuState} {a : α}, m s = .ok a t → t.flags = s.flags

theorem NoStatus.keepsFlags {m : CpuM α} (hm : NoStatus m) : KeepsFlags m := ⟨fun h => (hm.status_eq h).1⟩

namespace KeepsFlags

theorem pure (a : α) : KeepsFlags (pure a : CpuM α) := (NoStatus.pure a).keepsFlags

theorem throw (e : Trap) : KeepsFlags (throw e : CpuM α) := (NoStatus.throw e).keepsFlags

theorem modify {h} (hg : ∀ s, (h s).flags = s.flags) : KeepsFlags (modify h : CpuM PUnit) := by
  refine ⟨fun {s t a} hrun => ?_⟩
  rw [modify_apply] at hrun
  cases hrun
  exact hg s

theorem bind {m} {k : α → CpuM β} (hm : KeepsFlags m) (hk : ∀ a, KeepsFlags (k a)) :
    KeepsFlags (m >>= k) := by
  refine ⟨fun {s t b} hrun => ?_⟩
  obtain ⟨a, s', h₁, h₂⟩ := bind_ok_inv hrun
  exact ((hk a).run h₂).trans (hm.run h₁)

theorem get_bind {k : CpuState → CpuM β} (hk : ∀ s, KeepsFlags (k s)) : KeepsFlags (get >>= k) :=
  ⟨fun hrun => (hk _).run hrun⟩

theorem ite {p : Prop} [Decidable p] {m₁ m₂ : CpuM α} (h₁ : KeepsFlags m₁) (h₂ : KeepsFlags m₂) :
    KeepsFlags (if p then m₁ else m₂) := by split <;> assumption

theorem doIf {p : Prop} [Decidable p] {m : CpuM Unit} (h : KeepsFlags m) : KeepsFlags (doIf p m) :=
  ite h (pure _)

end KeepsFlags

/-! ## Accesses -/

theorem busError_noStatus (t : Trap) (a : Access) : NoStatus (busError t a : CpuM α) :=
  .bind (.modify rfl) fun _ => .throw t

theorem memGet_noStatus (t : Trap) (read : Memory 32 → BitVec 32 → α) (size : Sz)
    (addr : BitVec 32) (super data : Bool) : NoStatus (memGet t read size addr super data) :=
  .get_bind rfl fun _ => .ite (busError_noStatus _ _) (.pure _)

theorem memPut_noStatus {w : Nat} (store : Memory 32 → BitVec 32 → BitVec w → Memory 32) (size : Sz)
    (addr : BitVec 32) (v : BitVec w) (super data : Bool) : NoStatus (memPut store size addr v super data) :=
  .get_bind rfl fun _ =>
    .ite (.bind (.modify rfl) fun _ => busError_noStatus _ _)
      (.modify rfl)

theorem syncPc_noStatus : NoStatus syncPc := .modify rfl

theorem genSetFaultPc_noStatus : NoStatus genSetFaultPc := .bind syncPc_noStatus fun _ => .modify rfl

theorem jumpTo_noStatus (newpc : BitVec 32) : NoStatus (jumpTo newpc) := .modify rfl

theorem NoStatus.addressing : Addressing @NoStatus where
  pure := .pure
  bind := .bind
  get_bind := .get_bind
  modify hg _ := .modify hg
  fetch := memGet_noStatus _
  read := memGet_noStatus _

theorem genNextiword_noStatus : NoStatus genNextiword := NoStatus.addressing.genNextiword

theorem getMem_noStatus : NoStatus (getMem x size addr) := NoStatus.addressing.getMem ..

theorem putMem_noStatus (v : BitVec 32) : NoStatus (putMem x size addr v) := by
  refine .get_bind (by intros; cases x <;> rfl) fun s => ?_
  cases size <;> exact memPut_noStatus ..

/-! ## Operands -/

theorem adjustAreg_noStatus (r : Fin 8) (size : Sz) (addr : BitVec 32)
    (fixup : Bool) : NoStatus (adjustAreg mode r size addr fixup) := by
  have hfix : NoStatus (setFixup r) := .modify rfl
  cases mode with
  | aipi => exact .bind (.doIf hfix) fun _ => .modify rfl
  | apdi => exact .bind (.doIf hfix) fun _ => .modify rfl
  | _ => exact .pure _

theorem genamode2_noStatus (movem : Bool) (x : Xlate) (fixup : Bool) :
    NoStatus (genamode2 mode reg size getv movem x fixup) := by
  refine .ite ?_ (NoStatus.addressing.genReg ..)
  refine .bind (NoStatus.addressing.genEa ..) fun _ => ?_
  refine .bind (.ite (getMem_noStatus ..) (.pure _)) fun _ => ?_
  exact .bind (.doIf (adjustAreg_noStatus ..)) fun _ => .pure _

theorem genamode_noStatus : NoStatus (genamode mode reg size getv) := genamode2_noStatus ..

theorem NoStatus.genamode {mode reg size getv} {k : Operand → CpuM β} (hk : ∀ a, NoStatus (k a)) :
    NoStatus (genamode mode reg size getv >>= k) :=
  (genamode_noStatus ..).bind hk

theorem KeepsFlags.genamode {mode reg size getv} {k : Operand → CpuM β} (hk : ∀ a, KeepsFlags (k a)) :
    KeepsFlags (genamode mode reg size getv >>= k) :=
  (genamode_noStatus ..).keepsFlags.bind hk

theorem clearFixup_noStatus : NoStatus (clearFixup mode) := .ite (.modify rfl) (.pure _)

theorem setDregPart_noStatus (r : Fin 8) (v : BitVec 32) : NoStatus (setDregPart size r v) := .modify rfl

theorem genastoreX_noStatus (x : Xlate) : NoStatus (genastoreX v mode reg size addr x) := by
  unfold genastoreX
  split
  · exact setDregPart_noStatus ..
  · exact .modify rfl
  · exact .ite (.bind genSetFaultPc_noStatus fun _ => putMem_noStatus ..) (.pure _)

theorem genastore_noStatus : NoStatus (genastore v mode reg size addr) := genastoreX_noStatus ..

end Aranym.Cpu
