import Aranym.Cpu.Modes

/-!
# The fetch of an operand

What the parts of a fetch have in common holds of all of it: they look at the state but not at the
status, move the program counter, and read memory.
-/

namespace Aranym.Cpu

open Aranym.Lib Aranym.Mmu

def setStatus (φ : Flags → Flags) (ψ : BitVec 16 → BitVec 16) (s : CpuState) : CpuState :=
  { s with flags := φ s.flags, sr := ψ s.sr }

def rest (s : CpuState) : CpuState := { s with pc := 0, pcOffset := 0, fault := ⟨0, 0, 0, 0⟩ }

/-- `P` holds of the words after the opcode. -/
structure Fetching (P : {α : Type} → CpuM α → Prop) : Prop where
  pure : ∀ {α : Type} (a : α), P (pure a : CpuM α)
  bind : ∀ {α β : Type} {m : CpuM α} {k : α → CpuM β}, P m → (∀ a, P (k a)) → P (m >>= k)
  get_bind : ∀ {β : Type} {k : CpuState → CpuM β}, (∀ {φ ψ s}, k (setStatus φ ψ s) = k s) →
    (∀ s, P (k s)) → P (get >>= k)
  modify : ∀ {g}, (∀ {φ ψ s}, g (setStatus φ ψ s) = setStatus φ ψ (g s)) → (∀ {s}, rest (g s) = rest s) →
    P (modify g)
  fetch : ∀ {α : Type} (read : Memory 32 → BitVec 32 → α) size addr super data,
    P (memGet .fetchFault read size addr super data)

/-- `P` holds of reads as well. -/
structure Addressing (P : {α : Type} → CpuM α → Prop) : Prop extends Fetching P where
  read : ∀ {α : Type} (read : Memory 32 → BitVec 32 → α) size addr super data,
    P (memGet .readFault read size addr super data)

variable {P : {α : Type} → CpuM α → Prop} (mode : AMode) (reg : BitVec 32) (size : Sz) (addr : BitVec 32)
  (dp : BitVec 16)

theorem Fetching.ite {α : Type} {p : Prop} [Decidable p] {m₁ m₂ : CpuM α} (_ : Fetching @P) (h₁ : P m₁)
    (h₂ : P m₂) : P (if p then m₁ else m₂) := by split <;> assumption

section

variable (h : Fetching @P)

include h

theorem Fetching.genNextibyte : P genNextibyte :=
  h.get_bind rfl fun _ => h.bind (h.get_bind rfl fun _ => h.fetch ..) fun _ =>
    h.bind (h.modify rfl rfl) fun _ => h.pure _

theorem Fetching.genNextiword : P genNextiword :=
  h.get_bind rfl fun _ => h.bind (h.get_bind rfl fun _ => h.fetch ..) fun _ =>
    h.bind (h.modify rfl rfl) fun _ => h.pure _

theorem Fetching.genNextilong : P genNextilong :=
  h.get_bind rfl fun _ => h.bind (h.get_bind rfl fun _ => h.fetch ..) fun _ =>
    h.bind (h.modify rfl rfl) fun _ => h.pure _

theorem Fetching.nextIword : P nextIword :=
  h.bind (h.get_bind rfl fun _ => h.fetch ..) fun _ => h.bind (h.modify rfl rfl) fun _ => h.pure _

theorem Fetching.nextIlong : P nextIlong :=
  h.bind (h.get_bind rfl fun _ => h.fetch ..) fun _ => h.bind (h.modify rfl rfl) fun _ => h.pure _

theorem Fetching.genReg (getv : Getv) : P (genReg mode reg size getv) := by
  cases mode with
  | dreg | areg => exact h.get_bind rfl fun _ => h.pure _
  | imm =>
    cases size with
    | byte => exact h.bind h.genNextibyte fun _ => h.pure _
    | word => exact h.bind h.genNextiword fun _ => h.pure _
    | long => exact h.bind h.genNextilong fun _ => h.pure _
  | imm0 => exact h.bind h.genNextibyte fun _ => h.pure _
  | imm1 => exact h.bind h.genNextiword fun _ => h.pure _
  | imm2 => exact h.bind h.genNextilong fun _ => h.pure _
  | _ => exact h.pure _

theorem Fetching.dispBase : P (dispBase dp) :=
  h.ite (h.bind h.nextIword fun _ => h.pure _) (h.ite h.nextIlong (h.pure _))

theorem Fetching.dispOuter : P (dispOuter dp) :=
  h.ite (h.bind h.nextIword fun _ => h.pure _) (h.ite h.nextIlong (h.pure _))

end

variable (h : Addressing @P)

include h

theorem Addressing.getMem (x : Xlate) : P (getMem x size addr) := by
  refine h.get_bind (by intros; cases x <;> rfl) fun s => ?_
  cases size with
  | byte | word => exact h.bind (h.read ..) fun _ => h.pure _
  | long => exact h.read ..

theorem Addressing.getDispEa020 (base : BitVec 32) : P (getDispEa020 base dp) := by
  refine h.get_bind rfl fun _ => h.ite (h.bind (h.dispBase dp) fun _ => h.bind (h.dispOuter dp) fun _ => ?_) (h.pure _)
  exact h.bind (h.ite (h.pure _) (h.getMem ..)) fun _ => h.pure _

theorem Addressing.genEa (movem : Bool) : P (genEa mode reg size movem) := by
  cases mode with
  | aind | aipi | apdi => exact h.get_bind rfl fun _ => h.pure _
  | ad16 => exact h.bind h.genNextiword fun _ => h.get_bind rfl fun _ => h.pure _
  | ad8r =>
    refine h.bind (h.modify rfl rfl) fun _ => h.bind h.nextIword fun _ => ?_
    exact h.get_bind rfl fun _ => h.getDispEa020 ..
  | pc16 => exact h.get_bind rfl fun _ => h.bind h.genNextiword fun _ => h.pure _
  | pc8r =>
    refine h.bind (h.modify rfl rfl) fun _ => h.get_bind rfl fun _ => ?_
    exact h.bind h.nextIword fun _ => h.getDispEa020 ..
  | absw => exact h.bind h.genNextiword fun _ => h.pure _
  | absl => exact h.genNextilong
  | _ => exact h.pure _

end Aranym.Cpu
