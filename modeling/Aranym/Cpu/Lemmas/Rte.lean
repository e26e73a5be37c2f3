import Aranym.Cpu.Lemmas.Stacks
import Aranym.Cpu.Restart

/-!
# `RTE` that does not complete

`ex_rte` moves the stack pointers only upwards, by the bytes that it reads, and it has moved the one it
started with as soon as its first read succeeds.
-/

namespace Aranym.Cpu

open Aranym.Lib Aranym.Mmu Bool

variable {s t : CpuState} {e : Trap} {fuel : Nat}

/-! ## Reads from the stack -/

theorem popWord_cases (s : CpuState) :
    (ReadFaults s .word (s.areg 7) ∧ ∃ f, popWord s = .error .readFault { s with fault := f }) ∨
      ¬ReadFaults s .word (s.areg 7) ∧ ∃ w, popWord s = .ok w (s.setAreg 7 (s.areg 7 + 2)) := by
  by_cases h : ReadFaults s .word (s.areg 7)
  · refine .inl ⟨h, s.fault.record (s.areg 7) (mmuGetFc s.s true) false .word, ?_⟩
    unfold ReadFaults at h
    simp only [popWord, getWord, memGet, busError, bind_apply, get_apply, h, if_true, modify_apply]
    rfl
  · refine .inr ⟨h, s.mem.getWord (s.areg 7), ?_⟩
    rw [ReadFaults, not_eq_true] at h
    simp only [popWord, getWord, memGet, bind_apply, get_apply, h, false_eq_true, if_false, pure_apply, modify_apply]

theorem popLong_cases (s : CpuState) :
    (∃ f, popLong s = .error .readFault { s with fault := f }) ∨ ∃ l, popLong s = .ok l (s.setAreg 7 (s.areg 7 + 4)) := by
  by_cases h : ReadFaults s .long (s.areg 7)
  · refine .inl ⟨s.fault.record (s.areg 7) (mmuGetFc s.s true) false .long, ?_⟩
    unfold ReadFaults at h
    simp only [popLong, getLong, memGet, busError, bind_apply, get_apply, h, if_true, modify_apply]
    rfl
  · refine .inr ⟨s.mem.getLong (s.areg 7), ?_⟩
    rw [ReadFaults, not_eq_true] at h
    simp only [popLong, getLong, memGet, bind_apply, get_apply, h, false_eq_true, if_false, pure_apply, modify_apply]

def Popped (n : Nat) (s t : CpuState) : Prop :=
  ∃ f, t = { s.setAreg 7 (s.areg 7 + BitVec.ofNat 32 n) with fault := f }

theorem exRte_error_cases (h : exRte (fuel + 1) s = .error e t) :
    (ReadFaults s .word (s.areg 7) ∧ Popped 0 s t) ∨ ¬ReadFaults s .word (s.areg 7) ∧
        ((∃ n, 0 < n ∧ n ≤ 8 ∧ Popped n s t) ∨
          ∃ newsr, exRte fuel (makeFromSR { s.setAreg 7 (s.areg 7 + 8) with sr := newsr }) = .error e t) := by
  rw [exRte] at h
  obtain ⟨hfault, f, hpop⟩ | ⟨hread, newsr, hpop⟩ := popWord_cases s
  · rw [bind_error hpop] at h
    cases h
    exact .inl ⟨hfault, f, by simp [CpuState.setAreg, CpuState.setReg, CpuState.areg]⟩
  refine .inr ⟨hread, ?_⟩
  rw [bind_ok hpop] at h
  obtain ⟨f, hpop⟩ | ⟨newpc, hpop⟩ := popLong_cases (s.setAreg 7 (s.areg 7 + 2))
  · rw [bind_error hpop] at h; cases h; exact .inl ⟨2, by decide, by decide, f, rfl⟩
  rw [bind_ok hpop, CpuState.areg_setAreg_self, CpuState.setAreg_setAreg, BitVec.add_assoc] at h
  obtain ⟨-, f, hpop⟩ | ⟨-, format, hpop⟩ := popWord_cases (s.setAreg 7 (s.areg 7 + (2 + 4)))
  · rw [bind_error hpop] at h; cases h; exact .inl ⟨6, by decide, by decide, f, rfl⟩
  rw [bind_ok hpop, CpuState.areg_setAreg_self, CpuState.setAreg_setAreg, BitVec.add_assoc] at h
  cases hformat : frameFormat format with
  | leave bytes => rw [hformat] at h; cases h
  | throwaway => rw [hformat] at h; exact .inr ⟨newsr, h⟩
  | bad => rw [hformat] at h; cases h; exact .inl ⟨8, by decide, by decide, s.fault, rfl⟩

/-! ## The stack pointers -/

def StackPtrs.Climbs (p q : StackPtrs) (n : Nat) : Prop :=
  ∀ super master, ∃ c ≤ n, q.active super master = p.active super master + BitVec.ofNat 32 c

theorem StackPtrs.Climbs.setActive (p : StackPtrs) (super master : Bool) (n : Nat) :
    p.Climbs (p.setActive super master (p.active super master + BitVec.ofNat 32 n)) n := by
  intro super' master'
  cases super <;> cases master <;> cases super' <;> cases master' <;>
    first
    | exact ⟨n, le_refl n, rfl⟩
    | exact ⟨0, Nat.zero_le n, by simp [StackPtrs.setActive, StackPtrs.active]⟩

theorem StackPtrs.Climbs.mono {p q : StackPtrs} {n k : Nat} (h : p.Climbs q n) (hk : n ≤ k) : p.Climbs q k := by
  intro super master
  obtain ⟨c, hc, hq⟩ := h super master
  exact ⟨c, hc.trans hk, hq⟩

theorem StackPtrs.Climbs.trans {p q r : StackPtrs} {n k : Nat} (h : p.Climbs q n) (h' : q.Climbs r k) :
    p.Climbs r (n + k) := by
  intro super master
  obtain ⟨c, hc, hq⟩ := h super master
  obtain ⟨c', hc', hr⟩ := h' super master
  exact ⟨c + c', by omega, by rw [hr, hq, BitVec.ofNat_add, BitVec.add_assoc]⟩

theorem Popped.stackPtrs {n} (h : Popped n s t) :
    t.stackPtrs = s.stackPtrs.setActive s.s s.m (s.stackPtrs.active s.s s.m + BitVec.ofNat 32 n) := by
  obtain ⟨f, rfl⟩ := h
  rw [← CpuState.areg_seven_eq_active, ← CpuState.stackPtrs_setAreg_seven]
  rfl

theorem Popped.climbs {n} (h : Popped n s t) : s.stackPtrs.Climbs t.stackPtrs n := by
  rw [h.stackPtrs]
  exact .setActive _ _ _ _

theorem stackPtrs_throwaway (s : CpuState) (newsr : BitVec 16) :
    (makeFromSR { s.setAreg 7 (s.areg 7 + 8) with sr := newsr }).stackPtrs =
      s.stackPtrs.setActive s.s s.m (s.stackPtrs.active s.s s.m + BitVec.ofNat 32 8) := by
  rw [stackPtrs_makeFromSR, ← CpuState.areg_seven_eq_active, ← CpuState.stackPtrs_setAreg_seven]
  rfl

theorem exRte_climbs (h : exRte fuel s = .error e t) : s.stackPtrs.Climbs t.stackPtrs (8 * fuel) := by
  induction fuel generalizing s with
  | zero => cases h
  | succ fuel ih =>
    obtain ⟨-, hpopped⟩ | ⟨-, ⟨n, -, hn, hpopped⟩ | ⟨newsr, hrest⟩⟩ := exRte_error_cases h
    · exact hpopped.climbs.mono (Nat.zero_le _)
    · exact hpopped.climbs.mono (by omega)
    · have hframe : s.stackPtrs.Climbs (makeFromSR { s.setAreg 7 (s.areg 7 + 8) with sr := newsr }).stackPtrs 8 := by
        rw [stackPtrs_throwaway]; exact .setActive _ _ _ _
      exact (hframe.trans (ih hrest)).mono (by omega)

theorem exRte_moves (h : exRte fuel s = .error e t) (hread : ¬ReadFaults s .word (s.areg 7)) :
    ∃ c, 0 < c ∧ c ≤ 8 * fuel ∧
      t.stackPtrs.active s.s s.m = s.stackPtrs.active s.s s.m + BitVec.ofNat 32 c := by
  cases fuel with
  | zero => cases h
  | succ fuel =>
    obtain ⟨hfault, -⟩ | ⟨-, ⟨n, hpos, hn, hpopped⟩ | ⟨newsr, hrest⟩⟩ := exRte_error_cases h
    · exact absurd hfault hread
    · refine ⟨n, hpos, by omega, ?_⟩; rw [hpopped.stackPtrs, StackPtrs.active_setActive]
    · obtain ⟨c, hc, hactive⟩ := exRte_climbs hrest s.s s.m
      rw [stackPtrs_throwaway, StackPtrs.active_setActive] at hactive
      exact ⟨8 + c, by omega, by omega, by rw [hactive, BitVec.ofNat_add, BitVec.add_assoc]⟩

theorem sameSR_of_srValue_eq (h : t.srValue = s.srValue) : t.SameSR s := by
  obtain ⟨h1, h2, h3, h4, h5, h6⟩ := loadSR_srValue { s with sr := t.srValue } t rfl
  obtain ⟨g1, g2, g3, g4, g5, g6⟩ := loadSR_srValue { s with sr := t.srValue } s h
  exact ⟨h1.symm.trans g1, h2.symm.trans g2, h3.symm.trans g3, h4.symm.trans g4, h5.symm.trans g5, h6.symm.trans g6⟩

end Aranym.Cpu
