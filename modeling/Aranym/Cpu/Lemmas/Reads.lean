import Aranym.Cpu.Lemmas.Fetch
import Aranym.Cpu.Restart

/-!
# Operand reads that fault

`view` is what a restarted instruction finds of a state.
-/

namespace Aranym.Cpu

open Aranym.Lib Aranym.Mmu

variable {α β : Type}

variable (x : Xlate) (v : BitVec 32) (mode : AMode) (reg : BitVec 32) (size : Sz) (addr : BitVec 32)
  (s : CpuState)

def view : CpuState :=
  { undoFixup s with pc := 0, pcOffset := 0, sr := 0, fixup := ⟨false, 0, 0⟩, fault := ⟨0, 0, 0, 0⟩ }

theorem view_of_flag {s} (h : s.fixup.flag = false) :
    view s = { s with pc := 0, pcOffset := 0, sr := 0, fixup := ⟨false, 0, 0⟩, fault := ⟨0, 0, 0, 0⟩ } := by
  simp [view, undoFixup, h, Bool.false_eq_true]

theorem view_update (pc pcOffset : BitVec 32) (sr : BitVec 16) (fault : FaultInfo) :
    view { s with pc := pc, pcOffset := pcOffset, sr := sr, fault := fault } = view s := by
  unfold view undoFixup
  dsimp only
  split <;> rfl

theorem view_of_rest {s t} (h : rest t = rest s) : view t = view s := by
  rw [← view_update t 0 0 t.sr ⟨0, 0, 0, 0⟩, ← view_update s 0 0 s.sr ⟨0, 0, 0, 0⟩]
  exact congrArg view h

theorem restart_view (t : CpuState) (bus : Bus) : restart s t bus = { view t with
    pc := (view t).faultPc, pcOffset := s.pcOffset, sr := s.sr, fixup := s.fixup, fault := s.fault,
    bus := bus } := by
  unfold restart view undoFixup
  split <;> rfl

theorem restart_eq {s t} (hpc : s.faultPc = s.pc) (hfix : s.fixup.flag = false)
    (hv : view t = view s) (bus : Bus) : restart s t bus = { s with bus := bus } := by
  rw [restart_view, hv, view_of_flag hfix]
  dsimp only
  rw [hpc]

theorem restartable_of_view {handler s t} (hpc : s.faultPc = s.pc)
    (hfix : s.fixup.flag = false) (hv : view t = view s) : Restartable handler s t where
  aregs := by
    intro r
    have h : (view t).areg r = (view s).areg r := by rw [hv]
    rw [view_of_flag hfix] at h; exact h
  rerun := by
    intro bus u hrun
    rw [restart_eq hpc hfix hv]; exact hrun

/-! ## Programs without a read fault -/

structure NoReadFault (m : CpuM α) : Prop where
  run : ∀ s t, m s ≠ .error .readFault t

namespace NoReadFault

theorem pure (a : α) : NoReadFault (pure a : CpuM α) := ⟨fun _ _ h => by cases h⟩

theorem get : NoReadFault (get : CpuM CpuState) := ⟨fun _ _ h => by cases h⟩

theorem modify (g : CpuState → CpuState) : NoReadFault (modify g : CpuM PUnit) := ⟨fun _ _ h => by cases h⟩

theorem throw {e} (he : e ≠ .readFault) : NoReadFault (throw e : CpuM α) :=
  ⟨fun _ _ h => by cases h; exact he rfl⟩

theorem bind {m} {k : α → CpuM β} (hm : NoReadFault m) (hk : ∀ a, NoReadFault (k a)) :
    NoReadFault (m >>= k) := by
  refine ⟨fun s t h => ?_⟩
  rcases bind_error_inv h with h | ⟨a, s', _, h⟩
  · exact hm.run _ _ h
  · exact (hk a).run _ _ h

theorem ite {p : Prop} [Decidable p] {m₁ m₂ : CpuM α} (h₁ : NoReadFault m₁) (h₂ : NoReadFault m₂) :
    NoReadFault (if p then m₁ else m₂) := by split <;> assumption

theorem doIf {p : Prop} [Decidable p] {m : CpuM Unit} (h : NoReadFault m) :
    NoReadFault (doIf p m) := .ite h (.pure _)

end NoReadFault

/-! ## Programs with safe read faults -/

structure ReadSafe (m : CpuM α) : Prop where
  run : ∀ {s t : CpuState}, m s = .error .readFault t → view t = view s

namespace ReadSafe

theorem of_keeps {m : CpuM α} (hm : Keeps rest m) : ReadSafe m := by
  refine ⟨fun {s t} h => view_of_rest ?_⟩
  have := hm s
  rwa [h] at this

theorem of_noReadFault {m : CpuM α} (hm : NoReadFault m) : ReadSafe m :=
  ⟨fun {_ _} h => absurd h (hm.run _ _)⟩

theorem keeps_bind {m : CpuM α} {k : α → CpuM β} (hm : Keeps rest m) (hk : ∀ a, ReadSafe (k a)) :
    ReadSafe (m >>= k) := by
  refine ⟨fun {s t} h => ?_⟩
  rcases bind_error_inv h with h | ⟨a, s', hr, h⟩
  · exact (of_keeps hm).run h
  · exact ((hk a).run h).trans (view_of_rest (hm.ok hr))

theorem bind_noReadFault {m} {k : α → CpuM β} (hm : ReadSafe m)
    (hk : ∀ a, NoReadFault (k a)) : ReadSafe (m >>= k) := by
  refine ⟨fun {s t} h => ?_⟩
  rcases bind_error_inv h with h | ⟨a, s', _, h⟩
  · exact hm.run h
  · exact absurd h ((hk a).run _ _)

theorem ite {p : Prop} [Decidable p] {m₁ m₂ : CpuM α} (h₁ : ReadSafe m₁) (h₂ : ReadSafe m₂) :
    ReadSafe (if p then m₁ else m₂) := by split <;> assumption

end ReadSafe

/-! ## Accesses -/

theorem keeps_memGet (e : Trap) (read : Memory 32 → BitVec 32 → α) (size : Sz) (addr : BitVec 32)
    (super data : Bool) : Keeps rest (memGet e read size addr super data) :=
  .bind .get fun _ => .ite (.bind (.modify fun _ => rfl) fun _ => .throw e) (.pure _)

theorem rest_addressing : Addressing fun m => Keeps rest m where
  pure := .pure
  bind := .bind
  get_bind _ hk := .bind .get hk
  modify _ hg := .modify fun _ => hg
  fetch := keeps_memGet _
  read := keeps_memGet _

theorem keeps_getMem : Keeps rest (getMem x size addr) := rest_addressing.getMem _ _ _

def recordRead : CpuState :=
  { s with fault := s.fault.record addr (mmuGetFc (x.space s).1 (x.space s).2) false size }

theorem getMem_apply : getMem x size addr s = if s.bus ⟨addr, size, (x.space s).1, (x.space s).2, false⟩ then
        .error .readFault (recordRead x size addr s) else .ok (memVal size s.mem addr) s := by
  have hget : ∀ {β : Type} (read : Memory 32 → BitVec 32 → β) (size : Sz),
      memGet .readFault read size addr (x.space s).1 (x.space s).2 s =
        if s.bus ⟨addr, size, (x.space s).1, (x.space s).2, false⟩ then
          .error .readFault (recordRead x size addr s)
        else .ok (read s.mem addr) s := by
    intro β read size
    rw [memGet, bind_ok (get_apply s)]
    split <;> rfl
  rw [getMem, bind_ok (get_apply s)]
  by_cases hbus : s.bus ⟨addr, size, (x.space s).1, (x.space s).2, false⟩ = true
  · rw [if_pos hbus]
    cases size with
    | byte | word => exact bind_error ((hget _ _).trans (if_pos hbus))
    | long => exact (hget _ _).trans (if_pos hbus)
  · rw [if_neg hbus]
    cases size with
    | byte | word => exact bind_ok ((hget _ _).trans (if_neg hbus))
    | long => exact (hget _ _).trans (if_neg hbus)

theorem getMem_ok {x size addr v s t}
    (h : getMem x size addr s = .ok v t) : t = s ∧ v = memVal size s.mem addr
      ∧ s.bus ⟨addr, size, (x.space s).1, (x.space s).2, false⟩ = false := by
  rw [getMem_apply] at h
  split at h
  · cases h
  · next hbus => cases h; exact ⟨rfl, rfl, by simpa using hbus⟩

theorem keeps_genamode2 {mode reg size getv movem x fixup} (h : mode.isIncDec = false ∨ movem = true) :
    Keeps rest (genamode2 mode reg size getv movem x fixup) := by
  refine .ite (.bind (rest_addressing.genEa _ _ _ _) fun _ => .bind (.ite (keeps_getMem _ _ _) (.pure _)) fun _ => ?_)
    (rest_addressing.genReg _ _ _ _)
  refine .bind ?_ fun _ => .pure _
  rcases h with h | rfl
  · refine .ite ?_ (.pure _)
    cases mode with
    | aipi | apdi => cases h
    | _ => exact .pure _
  · exact .pure _

/-! ## What raises no read fault -/

theorem memGet_noReadFault {e : Trap} (he : e ≠ .readFault) (read : Memory 32 → BitVec 32 → α)
    (size : Sz) (addr : BitVec 32) (super data : Bool) : NoReadFault (memGet e read size addr super data) :=
  .bind .get fun _ => .ite (.bind (.modify _) fun _ => .throw he) (.pure _)

theorem NoReadFault.fetching : Fetching @NoReadFault where
  pure := .pure
  bind := .bind
  get_bind _ hk := .bind .get hk
  modify _ _ := .modify _
  fetch := memGet_noReadFault (by decide)

theorem adjustAreg_noReadFault (r : Fin 8) (size : Sz) (addr : BitVec 32)
    (fixup : Bool) : NoReadFault (adjustAreg mode r size addr fixup) := by
  cases mode with
  | aipi | apdi => exact .bind (.doIf (.modify _)) fun _ => .modify _
  | _ => exact .pure _

theorem genamode2_noReadFault {mode reg size getv movem x fixup} (h : mode.isMem = false) :
    NoReadFault (genamode2 mode reg size getv movem x fixup) := by
  rw [genamode2, h]
  exact NoReadFault.fetching.genReg ..

theorem genamode2_noFetch {mode : AMode} {reg : BitVec 32} {size : Sz} {getv : Getv}
    {movem : Bool} {x : Xlate} {fixup : Bool} (hmode : mode.isIncDec = true) (hgetv : getv ≠ .fetch) :
    NoReadFault (genamode2 mode reg size getv movem x fixup) := by
  simp only [genamode2, if_neg hgetv]
  refine .ite ?_ (NoReadFault.fetching.genReg ..)
  refine .bind ?_ fun _ => .bind (.pure _) fun _ => ?_
  · cases mode with
    | aipi | apdi => exact .bind .get fun _ => .pure _
    | _ => cases hmode
  · exact .bind (.doIf (adjustAreg_noReadFault ..)) fun _ => .pure _

theorem putMem_noReadFault (v : BitVec 32) : NoReadFault (putMem x size addr v) := by
  have hput : ∀ {w : Nat} (store : Memory 32 → BitVec 32 → BitVec w → Memory 32) (size : Sz)
      (addr : BitVec 32) (v : BitVec w) (super data : Bool),
      NoReadFault (memPut store size addr v super data) := by
    intro w store size addr v super data
    refine .bind .get fun _ => .ite ?_ (.modify _)
    exact .bind (.modify _) fun _ => .bind (.modify _) fun _ => .throw (by decide)
  refine .bind .get fun _ => ?_
  cases size with
  | byte => exact hput ..
  | word => exact hput ..
  | long => exact hput ..

theorem genastoreX_noReadFault (x : Xlate) : NoReadFault (genastoreX v mode reg size addr x) := by
  unfold genastoreX
  split
  · exact .modify _
  · exact .modify _
  · refine .ite (.bind ?_ fun _ => putMem_noReadFault ..) (.pure _)
    exact .bind (.modify _) fun _ => .modify _

theorem genastore_noReadFault : NoReadFault (genastore v mode reg size addr) := genastoreX_noReadFault ..

theorem alu_noReadFault (op : FlagOp α) : NoReadFault (alu op) := ⟨fun _ _ h => by cases h⟩

/-! ## Operands -/

theorem genamode2_readSafe {mode : AMode} {reg : BitVec 32} {size : Sz} {getv : Getv} {movem : Bool}
    {x : Xlate} {fixup : Bool} : ReadSafe (genamode2 mode reg size getv movem x fixup) := by
  refine .ite ?_ (.of_keeps (rest_addressing.genReg _ _ _ _))
  refine .keeps_bind (rest_addressing.genEa _ _ _ _) fun _ => .keeps_bind (.ite (keeps_getMem _ _ _) (.pure _)) fun _ => ?_
  exact .of_noReadFault (.bind (.doIf (adjustAreg_noReadFault ..)) fun _ => .pure _)

end Aranym.Cpu
