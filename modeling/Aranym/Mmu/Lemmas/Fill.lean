import Aranym.Lib.Bits
import Aranym.Mmu.Lemmas.Tag

/-!
# What the fill functions do

The table search and the fills touch only memory, devices and the fault record, apart from the one L2 line and the one
L1 slot they fill.
-/

namespace Aranym.Mmu

open Aranym.Lib

variable {δ : Type} (cfg : Config) (hw : Hardware δ)

variable (l : AtcLine) (m : Machine δ) (addr : BitVec 32) (super data write : Bool)

/-! ## Frames -/

def Machine.frame : MmuRegs × (Fin 8 → Fin 256 → AtcLine) × (Bool → Fin 4096 → AtcLine) × List BusOp :=
  (m.regs, m.atcL1, m.atcL2, m.busLog)

theorem keeps_liftDev {α : Type} (addr : BitVec 32) (f : EStateM M68kException δ α) :
    Keeps Machine.frame (liftDev addr f) := by
  intro m
  simp only [liftDev]
  cases f m.dev <;> rfl

theorem keeps_checkRamBoundary (size : Nat) (write : Bool) :
    Keeps Machine.frame (checkRamBoundary cfg addr size write : MmuM δ Unit) :=
  .bind .get fun _ => .ite (.pure _) (.bind (.modify fun _ => rfl) fun _ => .throw _)

theorem keeps_physGetLong : Keeps Machine.frame (physGetLong cfg hw addr) :=
  .ite (keeps_liftDev _ _) (.bind (keeps_checkRamBoundary cfg _ _ _) fun _ => .bind .get fun _ => .pure _)

theorem keeps_physPutLong (v : BitVec 32) : Keeps Machine.frame (physPutLong cfg hw addr v) :=
  .ite (keeps_liftDev _ _) (.bind (keeps_checkRamBoundary cfg _ _ _) fun _ => .modify fun _ => rfl)

theorem keeps_markUsed (descAddr desc : BitVec 32) : Keeps Machine.frame (markUsed cfg hw descAddr desc) :=
  .ite (keeps_physPutLong cfg hw _ _) (.pure _)

theorem keeps_fetchPageDesc (pageAddr : BitVec 32) : Keeps Machine.frame (fetchPageDesc cfg hw pageAddr) :=
  .bind (keeps_physGetLong cfg hw _) fun _ =>
    .ite (.bind (keeps_physGetLong cfg hw _) fun _ => .pure _) (.pure _)

theorem keeps_updatePageDesc (descAddr desc : BitVec 32) :
    Keeps Machine.frame (updatePageDesc cfg hw write descAddr desc) :=
  .ite (.ite (.bind (keeps_physPutLong cfg hw _ _) fun _ => .pure _) (.pure _))
    (.ite (.bind (keeps_physPutLong cfg hw _ _) fun _ => .pure _) (.pure _))

theorem keeps_mmuLookupPagetable : Keeps Machine.frame (mmuLookupPagetable cfg hw addr super write) := by
  refine .bind .get fun m => .bind (keeps_physGetLong cfg hw _) fun rootDesc => .ite (.pure _) ?_
  refine .bind (keeps_markUsed cfg hw _ _) fun _ => .bind (keeps_physGetLong cfg hw _) fun ptrDesc =>
    .ite (.pure _) ?_
  refine .bind (keeps_markUsed cfg hw _ _) fun _ => .bind (keeps_fetchPageDesc cfg hw _) fun page => ?_
  exact .ite (.pure _) (keeps_updatePageDesc cfg hw _ _ _)

/-! ## A write search marks the page modified -/

theorem and_four (x : BitVec 32) : x &&& 4 = 0 ↔ x.getLsbD 2 = false :=
  and_twoPow_eq_zero_iff x (by decide : 2 < 32)

theorem and_sixteen (x : BitVec 32) : x &&& 16 = 0 ↔ x.getLsbD 4 = false :=
  and_twoPow_eq_zero_iff x (by decide : 4 < 32)

theorem updatePageDesc_modified {descAddr desc desc' m m'}
    (h : updatePageDesc cfg hw true descAddr desc m = .ok desc' m') (hwp : desc' &&& mmuDesWp = 0) :
    desc' &&& mmuDesModified ≠ 0 := by
  rw [mmuDesWp, and_four] at hwp
  rw [mmuDesModified, Ne, and_sixteen]
  simp only [updatePageDesc, Bool.true_and, beq_iff_eq] at h
  split at h
  · split at h
    · obtain ⟨_, _, _, hr⟩ := bind_ok_inv h; cases hr; simp [mmuDesUsed, mmuDesModified]
    · rename_i hum
      cases h
      have hbit := congrArg (fun d => d.getLsbD 4) (not_not.mp hum)
      simp [mmuDesUsed, mmuDesModified] at hbit
      simp [hbit]
  · rename_i hw4
    rw [mmuDesWp, and_four] at hw4
    split at h
    · obtain ⟨_, _, _, hr⟩ := bind_ok_inv h; cases hr; simp [mmuDesUsed] at hwp hw4; simp [hwp] at hw4
    · cases h; exact absurd hwp hw4

theorem mmuLookupPagetable_modified {addr desc super m m'}
    (h : mmuLookupPagetable cfg hw addr super true m = .ok desc m') (hres : desc &&& 1 ≠ 0)
    (hwp : desc &&& mmuDesWp = 0) : desc &&& mmuDesModified ≠ 0 := by
  obtain ⟨_, _, _, h⟩ := bind_ok_inv h
  obtain ⟨_, _, _, h⟩ := bind_ok_inv h
  split at h
  · cases h; exact absurd rfl hres
  · obtain ⟨_, _, _, h⟩ := bind_ok_inv h
    obtain ⟨_, _, _, h⟩ := bind_ok_inv h
    split at h
    · cases h; exact absurd rfl hres
    · obtain ⟨_, _, _, h⟩ := bind_ok_inv h
      obtain ⟨page, _, _, h⟩ := bind_ok_inv h
      split at h
      · rename_i hpage; cases h; exact absurd hpage hres
      · exact updatePageDesc_modified cfg hw h hwp

/-! ## The L2 fill -/

def Machine.tableSearch : BitVec 32 :=
  match mmuLookupPagetable cfg hw addr super write m with
  | .ok desc _ => desc
  | .error _ _ => 0

theorem tableSearch_modified (hres : m.tableSearch cfg hw addr super true &&& 1 ≠ 0)
    (hwp : m.tableSearch cfg hw addr super true &&& mmuMmusrW = 0) :
    m.tableSearch cfg hw addr super true &&& mmuMmusrM ≠ 0 := by
  unfold Machine.tableSearch at *
  split
  · rename_i desc m' h; rw [h] at hres hwp; exact mmuLookupPagetable_modified cfg hw h hres hwp
  · rename_i e m' h; simp only [h] at hres; exact absurd (by decide) hres

def Machine.filledLine (l : AtcLine) : AtcLine :=
  let l := { l with tag := atcTag addr, hw := false, busFault := false }
  let res := mmuMatchTtr m.regs addr super data
  if res ≠ .noMatch then l.ofTtr data res (mmuMatchTtr m.regs addr super !data)
  else if !m.regs.mmuEnabled then l.ofDisabled
  else l.ofDesc super m.regs.mmuPagesize8k addr (m.tableSearch cfg hw addr super write)

/-- The memory that a fill leaves: it searches the tables where no register decides. -/
def Machine.filledRam : Memory 32 :=
  if mmuMatchTtr m.regs addr super data ≠ .noMatch then m.ram
  else if !m.regs.mmuEnabled then m.ram
  else (final (mmuLookupPagetable cfg hw addr super write m)).ram

theorem mmuFillAtcL2_spec (l : AtcLine) : ∃ desc m', mmuFillAtcL2 cfg hw addr super data write l m =
        .ok (desc, m.filledLine cfg hw addr super data write l) m' ∧ m'.frame = m.frame ∧
      m'.ram = m.filledRam cfg hw addr super data write := by
  simp only [mmuFillAtcL2, Machine.filledLine, Machine.filledRam, bind_apply, get_apply]
  split
  · exact ⟨_, _, rfl, rfl, rfl⟩
  · split
    · exact ⟨_, _, rfl, rfl, rfl⟩
    · have hk := keeps_mmuLookupPagetable cfg hw addr super write m
      rw [bind_apply, tryCatch_apply, Machine.tableSearch]
      cases h : mmuLookupPagetable cfg hw addr super write m with
      | ok desc m' => rw [h] at hk; exact ⟨_, _, rfl, hk, rfl⟩
      | error e m' => rw [h] at hk; exact ⟨_, _, rfl, hk, rfl⟩

/-- What decides a fresh translation: is an access of this kind refused by the transparent
translation registers, or by the page it finds (non-resident, supervisor-only, write-protected)? -/
def Machine.refusedFresh : Bool :=
  match mmuMatchTtr m.regs addr super data with
  | .okMatch => false
  | .noWrite => write
  | .noMatch =>
    let desc := m.tableSearch cfg hw addr super write
    m.regs.mmuEnabled && (desc &&& 1 == 0 || (!super && desc &&& mmuMmusrS != 0) ||
      (write && desc &&& mmuMmusrW != 0))

theorem ofTtr_check (res other : TtrMatch) :
    (l.ofTtr data res other).check data write = if write && res == .noWrite then .fail else .pass := by
  cases data <;> cases write <;> simp [AtcLine.ofTtr, AtcLine.check, AtcLine.valid]

theorem ofDisabled_check : l.ofDisabled.check data write = .pass := by
  cases data <;> cases write <;> simp [AtcLine.ofDisabled, AtcLine.check, AtcLine.valid]

theorem ofDesc_check (pagesize8k : Bool) (addr desc : BitVec 32)
    (hmod : write = true → desc &&& 1 ≠ 0 → desc &&& mmuMmusrW = 0 → desc &&& mmuMmusrM ≠ 0) :
    (l.ofDesc super pagesize8k addr desc).check data write =
      if desc &&& 1 == 0 || (!super && desc &&& mmuMmusrS != 0) || (write && desc &&& mmuMmusrW != 0)
      then .fail else .pass := by
  unfold AtcLine.ofDesc
  by_cases hres : desc &&& 1 = 0 ∨ (!super ∧ desc &&& mmuMmusrS ≠ 0)
  · rw [if_pos hres]
    have hfail : (desc &&& 1 == 0 || (!super && desc &&& mmuMmusrS != 0)) = true := by simpa using hres
    rw [hfail, Bool.true_or, if_pos rfl]; cases data <;> simp [AtcLine.check, AtcLine.valid]
  · rw [if_neg hres]
    have hok : (desc &&& 1 == 0 || (!super && desc &&& mmuMmusrS != 0)) = false := by
      simpa [not_or] using hres
    simp only [hok, Bool.false_or]
    have hmod' := fun hw => hmod hw (fun h => hres (.inl h))
    cases write with
    | false => cases data <;> simp [AtcLine.check, AtcLine.valid]
    | true =>
      by_cases hwp : desc &&& mmuMmusrW = 0#32
      · have hm : desc &&& mmuMmusrM ≠ 0#32 := hmod' rfl hwp
        cases data <;> simp [AtcLine.check, AtcLine.valid, hwp, hm]
      · cases data <;> simp [AtcLine.check, AtcLine.valid, hwp]

theorem ttrMatch_cases (res : TtrMatch) : res = .noMatch ∨ res = .noWrite ∨ res = .okMatch := by
  cases res <;> simp

theorem filledLine_check (l : AtcLine) : (m.filledLine cfg hw addr super data write l).check data write =
      if m.refusedFresh cfg hw addr super data write then .fail else .pass := by
  unfold Machine.filledLine Machine.refusedFresh
  rcases ttrMatch_cases (mmuMatchTtr m.regs addr super data) with hres | hres | hres
  · simp only [hres, ne_eq, not_true_eq_false, if_false]
    cases hen : m.regs.mmuEnabled with
    | false => simp [ofDisabled_check]
    | true =>
      have hmod : write = true → m.tableSearch cfg hw addr super write &&& 1 ≠ 0 →
          m.tableSearch cfg hw addr super write &&& mmuMmusrW = 0 →
          m.tableSearch cfg hw addr super write &&& mmuMmusrM ≠ 0 := by
        rintro rfl; exact tableSearch_modified cfg hw m addr super
      simp [ofDesc_check _ _ _ _ _ _ _ hmod]
  · simp [hres, ofTtr_check]
  · simp [hres, ofTtr_check]

/-! ## The L1 fill -/

/-- Does the L2 line decide the access? Not if it belongs to another page, nor if it has to be searched
again because a first write goes to an unmodified page. -/
def AtcLine.decides : Bool :=
  l.tag == atcTag addr && !(write && l.valid data && !l.writeProtect && !l.modified)

/-- The translation refuses the access. -/
def Machine.refused : Bool :=
  let l := m.atcL2 super (atcL2Index addr)
  if l.decides addr data write then !l.valid data || (write && l.writeProtect)
  else m.refusedFresh cfg hw addr super data write

/-- The second-level line after the lookup. -/
def Machine.lookupLine : AtcLine :=
  let l := m.atcL2 super (atcL2Index addr)
  if l.decides addr data write then l else m.filledLine cfg hw addr super data write l

def Machine.lookupRam : Memory 32 :=
  if (m.atcL2 super (atcL2Index addr)).decides addr data write then m.ram
  else m.filledRam cfg hw addr super data write

/-- What holds after the lookup: only the selected L2 line and what a table search touches may have
changed. -/
structure LookupDone (m m' : Machine δ) (addr : BitVec 32) (super data write : Bool) : Prop where
  regs : m'.regs = m.regs
  atcL1 : m'.atcL1 = m.atcL1
  busLog : m'.busLog = m.busLog
  ram : m'.ram = m.lookupRam cfg hw addr super data write
  line : m'.atcL2 super (atcL2Index addr) = m.lookupLine cfg hw addr super data write
  others : ∀ s i, s ≠ super ∨ i ≠ atcL2Index addr → m'.atcL2 s i = m.atcL2 s i

theorem restart_spec (n : Nat) (hd : (m.atcL2 super (atcL2Index addr)).decides addr data write = false) :
    ∃ m', restart cfg hw addr super data write (n + 1) m =
        .ok (!m.refusedFresh cfg hw addr super data write) m' ∧
      LookupDone cfg hw m m' addr super data write := by
  obtain ⟨desc, m₁, hfill, hframe, hram⟩ :=
    mmuFillAtcL2_spec cfg hw m addr super data write (m.atcL2 super (atcL2Index addr))
  have hcheck := filledLine_check cfg hw m addr super data write (m.atcL2 super (atcL2Index addr))
  simp only [Machine.frame, Prod.mk.injEq] at hframe
  obtain ⟨hregs, hl1, hl2, hlog⟩ := hframe
  refine ⟨m₁.setL2 super (atcL2Index addr)
    (m.filledLine cfg hw addr super data write (m.atcL2 super (atcL2Index addr))), ?_, ?_⟩
  · simp only [restart, bind_apply, get_apply, hfill, modify_apply, hcheck]
    cases m.refusedFresh cfg hw addr super data write <;> rfl
  · refine ⟨hregs, hl1, hlog, ?_, by simp [Machine.lookupLine, hd], fun s i h => ?_⟩
    · rw [Machine.lookupRam, hd]; exact hram
    · rw [atcL2_setL2_of_ne m₁ _ h, hl2]

theorem check_of_decides {l : AtcLine} {addr : BitVec 32} {data write : Bool}
    (h : l.decides addr data write = true) : l.tag = atcTag addr ∧
      l.check data write = if !l.valid data || (write && l.writeProtect) then .fail else .pass := by
  simp only [AtcLine.decides, Bool.and_eq_true, beq_iff_eq] at h
  refine ⟨h.1, ?_⟩
  have hr := h.2
  unfold AtcLine.check
  revert hr
  cases write <;> cases l.valid data <;> cases l.writeProtect <;> cases l.modified <;> simp

theorem restart_of_not_decides {l : AtcLine} {addr : BitVec 32} {data write : Bool}
    (h : l.decides addr data write = false) (ht : l.tag = atcTag addr) : l.check data write = .restart := by
  simp only [AtcLine.decides, ht, beq_self_eq_true, Bool.true_and, Bool.not_eq_false'] at h
  simp only [Bool.and_eq_true, Bool.not_eq_true'] at h
  obtain ⟨⟨⟨rfl, hv⟩, hwp⟩, hm⟩ := h
  simp [AtcLine.check, hv, hwp, hm]

theorem mmuFillLookup_spec : ∃ m', mmuFillLookup cfg hw addr super data write m =
        .ok (!m.refused cfg hw addr super data write) m' ∧ LookupDone cfg hw m m' addr super data write := by
  simp only [mmuFillLookup, Machine.refused, bind_apply, get_apply]
  cases hd : (m.atcL2 super (atcL2Index addr)).decides addr data write with
  | true =>
    obtain ⟨ht, hc⟩ := check_of_decides hd
    refine ⟨m, ?_, ⟨rfl, rfl, rfl, by simp only [Machine.lookupRam, hd, if_true],
      by simp only [Machine.lookupLine, hd, if_true], fun _ _ _ => rfl⟩⟩
    simp only [ht, ne_eq, not_true_eq_false, if_false, hc, if_true]
    cases !(m.atcL2 super (atcL2Index addr)).valid data ||
      (write && (m.atcL2 super (atcL2Index addr)).writeProtect) <;> rfl
  | false =>
    obtain ⟨m', hr, hdone⟩ := restart_spec cfg hw m addr super data write 1 hd
    refine ⟨m', ?_, hdone⟩
    by_cases ht : (m.atcL2 super (atcL2Index addr)).tag = atcTag addr
    · simp only [ht, ne_eq, not_true_eq_false, if_false, restart_of_not_decides hd ht, hr,
        Bool.false_eq_true]
    · simp only [ht, ne_eq, not_false_eq_true, if_true, hr, Bool.false_eq_true, if_false]

theorem mmuFillAtcL1_spec (cl : L1Slot) : ∃ m₁, LookupDone cfg hw m m₁ addr super data write ∧
      mmuFillAtcL1 cfg hw addr super data write cl m =
        if m.refused cfg hw addr super data write then .ok false (m₁.setL1 cl (m.l1 cl).complement)
        else match (m.lookupLine cfg hw addr super data write).special cfg addr super write with
          | none => .ok true (m₁.setL1 cl (m.lookupLine cfg hw addr super data write))
          | some l1 => .ok false (m₁.setL1 cl l1.complement) := by
  obtain ⟨m₁, hlook, hdone⟩ := mmuFillLookup_spec cfg hw m addr super data write
  have hl1 : m₁.l1 cl = m.l1 cl := by simp only [Machine.l1, hdone.atcL1]
  refine ⟨m₁, hdone, ?_⟩
  simp only [mmuFillAtcL1, bind_apply, hlook, get_apply, hdone.line]
  cases m.refused cfg hw addr super data write with
  | true =>
    simp only [Bool.not_true, Bool.false_eq_true, if_false, if_true, bind_apply, modify_apply, pure_apply, hl1]
  | false =>
    simp only [Bool.not_false, Bool.false_eq_true, if_false, if_true]
    cases (m.lookupLine cfg hw addr super data write).special cfg addr super write <;> rfl

end Aranym.Mmu
