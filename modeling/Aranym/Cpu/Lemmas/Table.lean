import Aranym.Cpu.Table68k

/-!
# Entries of the table

What an entry has from the line it was built from.
-/

namespace Aranym.Cpu

open Aranym.Mmu List Option

variable {opc : BitVec 16} {d : InstrDef} {i : Instr}

def MnemoDef.mnemos : MnemoDef → List Mnemo
  | .one m => [m]
  | .dir right left => [right, left]

def fieldModes : List AMode :=
  [.dreg, .areg, .aind, .aipi, .apdi, .ad16, .ad8r, .absw, .absl, .pc16, .pc8r, .imm]

def OperandDef.modes : OperandDef → List AMode
  | .none => [.unknown]
  | .dreg _ => [.dreg]
  | .areg _ => [.areg]
  | .apdi _ => [.apdi]
  | .aipi _ => [.aipi]
  | .al => [.absl]
  | .axP => [.aipi]
  | .imm => [.imm]
  | .imm1 => [.imm1]
  | .imm2 => [.imm2]
  | .immi _ => [.immi]
  | .dst r => fieldModes.filterMap fun m => (r.apply m).bind (destMode r)
  | .src r => fieldModes.filterMap r.apply

def OperandDef.stype : OperandDef → Nat
  | .immi b => immType b
  | _ => 0

structure FromLine (d : InstrDef) (i : Instr) : Prop where
  mnemo : i.mnemo ∈ d.mnemo.mnemos
  smode : i.smode ∈ d.src.modes
  dmode : i.dmode ∈ d.dst.modes
  stype : i.stype = d.src.stype
  plev : i.plev = d.plevel
  flagdead : i.flagdead = d.flagsSet
  flaglive : i.flaglive = d.flagsUsed i.mnemo i.cc

theorem mnemoOf_mem (d : InstrDef) (opc : BitVec 16) : d.mnemoOf opc ∈ d.mnemo.mnemos := by
  unfold InstrDef.mnemoOf
  cases d.mnemo with
  | one m => exact mem_singleton.mpr rfl
  | dir right left =>
    dsimp only
    split
    · exact mem_cons_self
    · exact mem_cons_of_mem _ mem_cons_self

theorem modeFromMr_mem {mode reg} (h : modeFromMr mode reg ≠ .illg) : modeFromMr mode reg ∈ fieldModes := by
  revert h
  unfold modeFromMr
  split
  case h_8 => split <;> intro h <;> first | decide | exact absurd rfl h
  all_goals
    intro _; decide

theorem operandMode_mem {od o}
    (h : d.operandMode opc od = some o) : o.mode ∈ od.modes ∧ o.type = od.stype := by
  cases od with
  | dst r =>
    simp only [InstrDef.operandMode] at h
    split at h
    · cases h
    · next hillg =>
      obtain ⟨m, hm, rfl⟩ := map_eq_some_iff.mp h
      exact ⟨mem_filterMap.mpr ⟨_, modeFromMr_mem hillg, hm⟩, rfl⟩
  | src r =>
    simp only [InstrDef.operandMode] at h
    split at h
    · cases h
    · next hillg =>
      obtain ⟨m, hm, rfl⟩ := map_eq_some_iff.mp h
      exact ⟨mem_filterMap.mpr ⟨_, modeFromMr_mem hillg, hm⟩, rfl⟩
  | _ => cases h; exact ⟨mem_singleton.mpr rfl, rfl⟩

theorem operand_mem {size od o} (h : d.operand opc size od = some o) : o.mode ∈ od.modes ∧ o.type = od.stype :=
  operandMode_mem (filter_eq_some_iff.mp h).1

theorem buildInsn_fromLine (h : buildInsn d opc = some i) : FromLine d i := by
  unfold buildInsn at h
  split at h
  · obtain ⟨src, hsrc, h⟩ := bind_eq_some_iff.mp h
    obtain ⟨dst, hdst, h⟩ := bind_eq_some_iff.mp h
    cases h
    exact ⟨mnemoOf_mem d opc, (operand_mem hsrc).1, (operand_mem hdst).1, (operand_mem hsrc).2,
      rfl, rfl, rfl⟩
  · cases h

theorem table68k_fromLine (h : table68k opc = some i) : ∃ d ∈ defs68k, FromLine d i := by
  obtain ⟨d, hd, hi⟩ := mem_filterMap.mp (List.mem_of_getLast? h)
  exact ⟨d, hd, buildInsn_fromLine hi⟩

/-! ## Checks -/

theorem modes_of_check (p : Mnemo → AMode → AMode → Bool)
    (hp : ∀ d ∈ defs68k, ∀ m ∈ d.mnemo.mnemos, ∀ sm ∈ d.src.modes, ∀ dm ∈ d.dst.modes,
      p m sm dm = true) (h : table68k opc = some i) : p i.mnemo i.smode i.dmode = true := by
  obtain ⟨d, hd, hl⟩ := table68k_fromLine h
  exact hp d hd _ hl.mnemo _ hl.smode _ hl.dmode

end Aranym.Cpu
