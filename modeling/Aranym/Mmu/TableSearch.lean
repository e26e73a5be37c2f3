import Aranym.Mmu.Lemmas.Walk
import Aranym.Mmu.Theorems

/-!
# The effect of a table search on memory
-/

namespace Aranym.Mmu

open Aranym.Lib

variable {δ : Type} (cfg : Config) (hw : Hardware δ)

theorem walkMask_wp (m : Machine δ) (addr : BitVec 32) (super write : Bool) (w : BitVec 32) :
    m.walkMask cfg hw addr super write w &&& mmuDesWp = 0 := by
  unfold Machine.walkMask
  split
  · split <;> rfl
  · rfl

/-- A table search sets the used bits of the words on its path, and the modified bit of the page
descriptor for a permitted write, and changes nothing else in memory, unless it comes to an unused page
descriptor that inherits a write protection. -/
theorem mmuLookupPagetable_setsBits_iff (m : Machine δ) (addr : BitVec 32) (super write : Bool) :
    Memory.SetsBits (m.walkMask cfg hw addr super write) m.ram
        (final (mmuLookupPagetable cfg hw addr super write m)).ram ↔
      ∀ f, m.walkFound cfg hw addr super = some f → ¬f.Inherits cfg := by
  refine ⟨fun hsets f hf hinh => ?_, lookup_setsBits cfg hw m addr super write⟩
  rcases walk_cases cfg hw fun x hx => walkMask_used cfg hw write hx with ⟨-, hnone⟩ | ⟨f', hf', hreached⟩
  · cases hf.symm.trans hnone
  · cases hf.symm.trans hf'
    exact hreached.inherits_protects cfg hw write hinh (walkMask_wp cfg hw m addr super write _) hsets

/-- Tables for address 0: the root descriptor is write-protected, the page descriptor is neither
protected nor used. -/
def protectedRoot : Machine Unit :=
  { resetMachine { mmuOnRegs with srp := 0x1000 } with
    ram := Memory.putLong (Memory.putLong (Memory.putLong (fun _ => 0) 0x1000 0x200e) 0x2000 0x300a) 0x3000 0x4001 }

/-- A read of address 0 stores the protection of the root descriptor in the page descriptor. -/
theorem search_protects_page :
    ¬Memory.SetsBits (protectedRoot.walkMask sampleConfig quietHardware 0 true false) protectedRoot.ram
      (final (mmuLookupPagetable sampleConfig quietHardware 0 true false protectedRoot)).ram := by
  intro h
  obtain ⟨b, hb, hv⟩ := h 0x3000 (by decide)
  have hmask : protectedRoot.walkMask sampleConfig quietHardware 0 true false 0x3000 = 8 := by decide
  have hold : protectedRoot.ram.getLong 0x3000 = 0x4001 := by decide
  have hnew : (final (mmuLookupPagetable sampleConfig quietHardware 0 true false protectedRoot)).ram.getLong 0x3000
      = 0x400d := by decide
  rw [hmask] at hb
  rw [hold, hnew] at hv
  have hb2 := congrArg (fun x => x.getLsbD 2) hb
  have hv2 := congrArg (fun x => x.getLsbD 2) hv
  simp at hb2 hv2
  rw [hb2] at hv2
  cases hv2

end Aranym.Mmu
