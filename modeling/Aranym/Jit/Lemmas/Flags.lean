import Aranym.Jit.Flags

/-!
# Live flags

The masks of a block are sound live sets, and an execution of the compiled block leaves the flags
outside them arbitrary at most.
-/

namespace Aranym.Jit

open Aranym.Lib Aranym.Cpu

variable {κ : Type} {i : Flag} {m m' : BitVec 8}

/-! ## Membership in a mask -/

theorem mem_flagSet : i ∈ flagSet m ↔ m.getLsbD (flagBit i) = true := Iff.rfl

theorem flagBit_lt (i : Flag) : flagBit i < 8 := by cases i <;> decide

@[simp] theorem mem_flagSet_and : i ∈ flagSet (m &&& m') ↔ i ∈ flagSet m ∧ i ∈ flagSet m' := by
  simp [mem_flagSet]

@[simp] theorem mem_flagSet_or : i ∈ flagSet (m ||| m') ↔ i ∈ flagSet m ∨ i ∈ flagSet m' := by
  simp [mem_flagSet]

@[simp] theorem mem_flagSet_not : i ∈ flagSet (~~~m) ↔ i ∉ flagSet m := by simp [mem_flagSet, flagBit_lt]

@[simp] theorem mem_flagSet_cznv : i ∈ flagSet FLAG_CZNV ↔ i ≠ .x := by
  cases i <;> simp [mem_flagSet, FLAG_CZNV, flagBit]

@[simp] theorem mem_flagSet_all : i ∈ flagSet FLAG_ALL := by cases i <;> rfl

theorem not_mem_of_and_eq_zero (h : m &&& m' = 0) (hi : i ∈ flagSet m) : i ∉ flagSet m' := by
  intro hi'
  have hmem := mem_flagSet_and.2 ⟨hi, hi'⟩
  rw [h] at hmem
  simp [mem_flagSet] at hmem

/-! ## The pass is sound -/

theorem Entry.MasksCorrect.sound {e : Entry κ} (h : e.MasksCorrect) (next : BitVec 8) :
    Instr.Sound Flags.get e.toInstr (flagSet (liveBefore e.prop next)) (flagSet next) := by
  intro c f g hfg
  by_cases hz : e.prop.isAddx ∧ next &&& FLAG_Z = 0
  · -- `Z` is not live after an `ADDX`, so its use of `Z` does not count
    have hlive : liveBefore e.prop next =
        ((next &&& ~~~e.prop.setFlags) ||| e.prop.useFlags) &&& ~~~FLAG_Z := by
      simp only [liveBefore, hz, and_self, if_true]
    rw [hlive] at hfg
    obtain ⟨hcore, hflags⟩ := h.addx hz.1 c f g fun i hi => by
      simp only [mem_flagSet_and, mem_flagSet_not] at hi
      exact hfg i (by simp only [mem_flagSet_and, mem_flagSet_or, mem_flagSet_not]; exact ⟨.inr hi.1, hi.2⟩)
    refine ⟨hcore, fun i hi => ?_⟩
    have hiz := not_mem_of_and_eq_zero hz.2 hi
    by_cases hset : i ∈ flagSet e.prop.setFlags
    · exact hflags i (by simp only [mem_flagSet_and, mem_flagSet_not]; exact ⟨hset, hiz⟩)
    · rw [h.flags_unset c f i hset, h.flags_unset c g i hset]
      exact hfg i (by simp only [mem_flagSet_and, mem_flagSet_or, mem_flagSet_not]; exact ⟨.inl ⟨hi, hset⟩, hiz⟩)
  · have hlive : liveBefore e.prop next = (next &&& ~~~e.prop.setFlags) ||| e.prop.useFlags := by
      simp only [liveBefore, hz, if_false]
    rw [hlive] at hfg
    have huse : AgreeOn e.prop.useFlags f g := fun i hi =>
      hfg i (mem_flagSet_or.2 (.inr hi))
    refine ⟨h.core_use c f g huse, fun i hi => ?_⟩
    by_cases hset : i ∈ flagSet e.prop.setFlags
    · exact h.flags_use c f g huse i hset
    · rw [h.flags_unset c f i hset, h.flags_unset c g i hset]
      exact hfg i (by simp only [mem_flagSet_and, mem_flagSet_or, mem_flagSet_not]; exact .inl ⟨hi, hset⟩)

theorem agree_compiled {e : Entry κ} (h : e.MasksCorrect) {next : BitVec 8} {c : κ}
    {f f₁ f₂ : Flags} (hvariant : VariantFlags e next c f f₁) (hcare : DontCare next f₁ f₂) :
    AgreeOn next (e.comp c f) f₂ := by
  have h₁ : AgreeOn next (e.comp c f) f₁ := by
    unfold VariantFlags at hvariant
    split at hvariant
    · rename_i hno
      have hdead : next &&& e.prop.setFlags = 0 := by simpa [noFlags] using hno
      intro i hi
      have hset := not_mem_of_and_eq_zero hdead hi
      rw [h.flags_unset c f i hset, hvariant i hset]
    · rw [hvariant]; exact fun i _ => rfl
  have h₂ : AgreeOn next f₁ f₂ := by
    unfold DontCare at hcare
    split at hcare
    · rename_i hdead
      intro i hi
      have hx := not_mem_of_and_eq_zero hdead hi
      simp only [mem_flagSet_cznv, ne_eq, not_not] at hx
      subst hx; exact hcare.symm
    · rw [hcare]; exact fun i _ => rfl
  exact h₁.trans h₂

theorem CompiledRun.relaxed {block : List (Entry κ)} {s t : κ × Flags} {cs : List κ}
    (h : CompiledRun block s cs t) (hmasks : ∀ e ∈ block, e.MasksCorrect) :
    Instr.RelaxedRun Flags.get Entry.toInstr (fun l => flagSet (liveflags (l.map Entry.prop)))
      block s cs t := by
  induction h with
  | nil s => exact .nil s
  | @cons e rest c f f₁ f₂ cs t hvariant hcare _ ih =>
    refine .cons (agree_compiled (hmasks e List.mem_cons_self) hvariant hcare) ?_
    exact ih fun e' he' => hmasks e' (List.mem_cons_of_mem e he')

end Aranym.Jit
