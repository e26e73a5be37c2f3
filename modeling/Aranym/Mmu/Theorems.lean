import Aranym.Mmu.Lemmas.Transparency

/-!
# Results about the full MMU emulation

The results on refused accesses, on flushes and on the RAM boundary check.
-/

namespace Aranym.Mmu

open Aranym.Lib

variable {δ : Type} (cfg : Config) (hw : Hardware δ)

/-! ## Concrete machines -/

def resetMachine (regs : MmuRegs) : Machine Unit where
  regs := regs
  atcL1 := fun _ _ => .empty
  atcL2 := fun _ _ => .empty
  ram := fun _ => 0
  dev := ()
  fault := ⟨0, 0, 0, 0⟩
  busLog := []

def quietHardware : Hardware Unit where
  get := fun _ _ => pure 0
  put := fun _ _ _ => pure ()

def sampleConfig : Config := ⟨0x2000000, 0xf0000000, true⟩

def mmuOnRegs : MmuRegs := ⟨0, 0, 0, 0, 0, 0, true, false, true⟩

def mmuOffRegs : MmuRegs := { mmuOnRegs with mmuEnabled := false }

/-! ## Refused accesses -/

/-- The slow path raises a bus error without any operand access, and the slot then hits for no page. -/
def FailsCleanly (m : Machine δ) (p : SlowPath) (addr : BitVec 32) (super data : Bool) (size : Sz) : Prop :=
  ∃ m', p.run cfg hw addr super data size (l1Slot super data p.write addr) m = .error ⟨2⟩ m' ∧
    m'.busLog = m.busLog ∧
    ∀ a, atcL1Index a = atcL1Index addr → mmuUserLookup m' super data p.write a = false

/-- A refused access fails cleanly exactly when the line left in the slot is no hardware line and no
negative entry of another page. -/
theorem slowPath_refused_iff (m : Machine δ) (p : SlowPath) (addr : BitVec 32) (super data : Bool)
    (size : Sz) (h : m.refused cfg hw addr super data p.write = true) :
    FailsCleanly cfg hw m p addr super data size ↔ (m.l1 (l1Slot super data p.write addr)).hw = false ∧
      ∀ a, atcL1Index a = atcL1Index addr →
        (m.l1 (l1Slot super data p.write addr)).tag = ~~~atcTag a → atcTag a = atcTag addr := by
  obtain ⟨m₁, hslow, hlog, htag⟩ := mmuSlow_refused cfg hw h (l1Slot super data p.write addr)
  cases hhw : (m.l1 (l1Slot super data p.write addr)).hw with
  | true =>
    -- the old hardware flag survives: the access reaches a device and shows in the log
    simp only [Machine.redo, hhw, if_true] at hslow
    obtain ⟨op, ops, hops⟩ := SlowPath.run_hw cfg hw size hslow
    refine ⟨?_, fun hc => absurd hc.1 (by decide)⟩
    rintro ⟨m', hrun, hlog', -⟩
    rw [hrun, final_error, hlog', hlog] at hops
    have hlen := congrArg List.length hops; simp at hlen
  | false =>
    simp only [Machine.redo, hhw, Bool.false_eq_true, if_false] at hslow
    obtain ⟨m', hrun, hlog', hl1⟩ := SlowPath.run_busError cfg hw size hslow
    have hmiss (a : BitVec 32) (ha : atcL1Index a = atcL1Index addr) :
        mmuUserLookup m' super data p.write a = false ↔
          (m₁.l1 (l1Slot super data p.write addr)).tag ≠ atcTag a := by
      simp [mmuUserLookup, Machine.l1, l1Slot, ha, hl1]
    constructor
    · rintro ⟨m'', hrun', -, hno⟩
      rw [hrun] at hrun'
      cases hrun'
      refine ⟨rfl, fun a ha ht => ?_⟩
      have hne := (hmiss a ha).mp (hno a ha)
      by_contra hother
      rw [htag, if_neg (fun h' => hother (BitVec.not_inj.mp (ht.symm.trans h')))] at hne
      exact hne ((not_eq_atcTag_iff _ _).mpr ht)
    · rintro ⟨-, hneg⟩
      refine ⟨m', hrun, hlog'.trans hlog, fun a ha => (hmiss a ha).mpr ?_⟩
      rw [htag]
      split
      · rename_i ht; rw [ht]; exact fun h' => atcTag_ne_not a addr h'.symm
      · rename_i ht
        intro h'
        have hta := (not_eq_atcTag_iff _ _).mp h'; exact ht (hta.trans (by rw [hneg a ha hta]))

theorem slowPath_refused_after_reset :
    FailsCleanly sampleConfig quietHardware (resetMachine mmuOnRegs) .getByte 0x200000 true true .byte :=
  (slowPath_refused_iff sampleConfig quietHardware (resetMachine mmuOnRegs) .getByte 0x200000 true true
    .byte (by decide)).mpr ⟨rfl, fun a _ h => absurd h (emptyTag_ne_not a)⟩

/-- L1 holds the hardware line of the page at `0x00f00000`, in the slot address zero shares with it. -/
def staleHwMachine : Machine Unit :=
  (resetMachine mmuOnRegs).setL1 (l1Slot true true false 0)
    { AtcLine.empty with tag := ~~~atcTag 0x00f00000, hw := true }

/-- Addresses that no device claims: `HWget_b` and the others end in `BUS_ERROR`. -/
def unclaimedHardware : Hardware Unit where
  get := fun _ _ => throw ⟨2⟩
  put := fun _ _ _ => throw ⟨2⟩

/-- With the hardware line of another page in the slot, a read of a non-resident page goes to a hardware register
instead of raising a bus error, and the slot then hits the other page as if it were plain memory. -/
theorem refused_read_reaches_hardware :
    staleHwMachine.refused sampleConfig unclaimedHardware 0 true true false = true ∧
      (∃ m', SlowPath.run sampleConfig unclaimedHardware 0 true true .byte (l1Slot true true false 0) .getByte
          staleHwMachine = .error ⟨2⟩ m' ∧ m'.busLog = [.hwGet 0] ∧
        mmuUserLookup m' true true false 0x00f00000 = true) ∧
      ¬FailsCleanly sampleConfig unclaimedHardware staleHwMachine .getByte 0 true true .byte := by
  have hrefused : staleHwMachine.refused sampleConfig unclaimedHardware 0 true true false = true := by decide
  refine ⟨hrefused, ⟨_, rfl, by decide, by decide⟩, fun hclean => ?_⟩
  obtain ⟨m', hrun, -, hmiss⟩ := hclean
  have hhit : mmuUserLookup (final (SlowPath.run sampleConfig unclaimedHardware 0 true true .byte
      (l1Slot true true false 0) .getByte staleHwMachine)) true true false 0x00f00000 = true := by decide
  have hrun' : SlowPath.run sampleConfig unclaimedHardware 0 true true .byte (l1Slot true true false 0)
      .getByte staleHwMachine = .error ⟨2⟩ m' := hrun
  rw [hrun', final_error] at hhit
  exact absurd hhit (by rw [show mmuUserLookup m' true true false 0x00f00000 = false from hmiss _ (by decide)]; decide)

/-! ## Flushes -/

/-- The flush does its work for 4K pages. For 8K pages it never does for the supervisor space, and for
the user space only if the lines its second loop misses and the lines it drops by mistake are empty. -/
theorem mmuFlushAtc_flushesPage_iff (m : Machine δ) (addr : BitVec 32) (super : Bool) :
    FlushesPage m addr super ↔ m.regs.mmuPagesize8k = false ∨ (super = false ∧ (∀ data write,
          (m.atcL1 (l1Row false data write) (xorOne (atcL1Index addr))).tag ≠ atcTag addr) ∧ ∀ data write,
          (m.atcL1 (l1Row true data write) (xorOne (atcL1Index addr))).tag = emptyTag) := by
  cases h8 : m.regs.mmuPagesize8k with
  | false => exact iff_of_true (flushesPage_4k addr super h8) (.inl rfl)
  | true =>
    cases super with
    | true => exact iff_of_false (not_flushesPage_8k_super addr h8) (by simp)
    | false => simpa using flushesPage_8k_user_iff addr h8

/-- The L1 line of the user page half at `0x3000`, cached with 8K pages. -/
def halfCachedMachine : Machine Unit :=
  (resetMachine { mmuOnRegs with mmuPagesize8k := true }).setL1 (l1Slot false true false 0x3000)
    { AtcLine.empty with tag := atcTag 0x3000, validData := true, validInst := true }

/-- A flush of the 8K user page at `0x2000` leaves the cached line of its upper half in place. -/
theorem mmuFlushAtc_misses_half : ¬FlushesPage halfCachedMachine 0x2000 false := by
  rintro ⟨m', hm', hpage, -⟩
  have hstale : (mmuFlushAtc halfCachedMachine 0x2000 false true).map
      (fun m => mmuUserLookup m false true false 0x3000) = some true := by decide
  rw [hm'] at hstale
  have hmiss := (hpage 0x3000 (by decide)).1 true false
  simp only [Option.map_some, Option.some.injEq] at hstale
  rw [hmiss] at hstale
  cases hstale

/-! ## The RAM boundary check -/

/-- For two data accesses of one 4K page whose translation stands, `b` after `a` has the verdict of `b`
alone exactly when they differ in direction, or L1 already knew the page, or the boundary check does
not tell the two physical addresses apart. -/
theorem boundary_verdict_iff (m : Machine δ) (a b : Access) (hplain : m.L2Plain) (ha : a.data = true)
    (hb : b.data = true) (hpage : SamePage4k a.addr b.addr)
    (hgranted : m.refused cfg hw b.addr m.regs.s true b.write = false)
    (hgranted' : (m.next cfg hw a).refused cfg hw b.addr m.regs.s true b.write = false)
    (hphys : ((m.next cfg hw a).lookupLine cfg hw b.addr m.regs.s true b.write).phys =
      (m.lookupLine cfg hw b.addr m.regs.s true b.write).phys) :
    (((m.next cfg hw a).outcome cfg hw b).Succeeds ↔ (m.outcome cfg hw b).Succeeds) ↔
      a.write ≠ b.write ∨ ¬m.SlotMisses b.addr m.regs.s true b.write ∨
      boundaryRefuses cfg (a.addr + (m.lookupLine cfg hw b.addr m.regs.s true b.write).phys) m.regs.s
          b.write =
        boundaryRefuses cfg (b.addr + (m.lookupLine cfg hw b.addr m.regs.s true b.write).phys) m.regs.s
          b.write := by
  have hdata : a.data = b.data := ha.trans hb.symm
  rw [← hb] at *
  by_cases hs : m.SlotMisses b.addr m.regs.s b.data b.write
  · have halone : (m.outcome cfg hw b).Succeeds ↔
        boundaryRefuses cfg (b.addr + (m.lookupLine cfg hw b.addr m.regs.s b.data b.write).phys) m.regs.s
          b.write = false := by
      obtain ⟨slot, hacc, -⟩ := access_granted cfg hw hs hgranted
      rw [outcome_eq, hacc]
      exact grantedAction_succeeds_iff cfg (lookupLine_hw cfg hw hplain _ _ _ _) _ _ _
    rw [halone]
    by_cases hwrite : a.write = b.write
    · rw [succeeds_next_of_same_slot cfg hw hpage hdata hwrite hs hgranted,
        grantedAction_succeeds_iff cfg (lookupLine_hw cfg hw hplain _ _ _ _)]
      simp only [hwrite, ne_eq, not_true_eq_false, hs, false_or]
      cases boundaryRefuses cfg (a.addr + _) m.regs.s b.write <;>
        cases boundaryRefuses cfg (b.addr + _) m.regs.s b.write <;> simp
    · refine iff_of_true ?_ (.inl hwrite)
      have hl1 := slot_kept_of_ne cfg hw (m := m) (a := a) (b := b)
        fun h => hwrite (l1Row_injective (congrArg L1Slot.row h)).2.2.symm
      have hs' : (m.next cfg hw a).SlotMisses b.addr m.regs.s b.data b.write := by
        simpa only [Machine.SlotMisses, hl1] using hs
      obtain ⟨slot, hacc, -⟩ := access_granted cfg hw hs' hgranted'
      rw [outcome_eq, (next_spec cfg hw m a).regs, hacc,
        grantedAction_succeeds_iff cfg (lookupLine_hw cfg hw (hplain.next cfg hw a) _ _ _ _), hphys]
  · refine iff_of_true ?_ (.inr (.inl hs))
    rw [outcome_next_of_slot_kept cfg hw (slot_kept_of_filled cfg hw hpage hdata hs) hs]

theorem boundary_verdict_inside_page :
    (((resetMachine mmuOffRegs).next sampleConfig quietHardware ⟨.putByte 1, 0x1000, true, .byte⟩).outcome
        sampleConfig quietHardware ⟨.putLong 2, 0x1004, true, .long⟩).Succeeds ↔
      ((resetMachine mmuOffRegs).outcome sampleConfig quietHardware
        ⟨.putLong 2, 0x1004, true, .long⟩).Succeeds :=
  (boundary_verdict_iff sampleConfig quietHardware (resetMachine mmuOffRegs)
    ⟨.putByte 1, 0x1000, true, .byte⟩ ⟨.putLong 2, 0x1004, true, .long⟩ (fun _ _ => rfl) rfl rfl
    (by decide) (by decide) (by decide) (by decide)).mpr (.inr (.inr (by decide)))

/-- A write to the protected first longword alone is a bus error; after a write further up in the same
page it goes through. -/
theorem boundary_verdict_differs : ¬((((resetMachine mmuOffRegs).next sampleConfig quietHardware
          ⟨.putByte 1, 0x100, true, .byte⟩).outcome sampleConfig quietHardware
          ⟨.putLong 2, 0, true, .long⟩).Succeeds ↔
        ((resetMachine mmuOffRegs).outcome sampleConfig quietHardware
          ⟨.putLong 2, 0, true, .long⟩).Succeeds) := by decide

/-! ## Transparency of the ATC -/

/-- In a run from a flushed ATC with the tables unchanged, every access does what it would do with both levels empty,
provided accesses of one page agree in the transparent translation registers and in the boundary check, and a refused
access never finds the line of another page in its slot. -/
theorem atc_transparent (m₀ : Machine δ) (xs : List Access) (pages : PageMap) (hempty : m₀.Flushed)
    (htables : ∀ pre post, xs = pre ++ post → (m₀.afterAll cfg hw pre).TablesAre cfg hw xs m₀.regs pages)
    (httr : TtrAgree xs m₀.regs) (hbound : BoundaryUniform cfg xs m₀.regs pages)
    (hsafe : ∀ pre x post, xs = pre ++ x :: post → (m₀.afterAll cfg hw pre).RefusalSafe cfg hw x) :
    ∀ pre x post, xs = pre ++ x :: post →
      (m₀.afterAll cfg hw pre).outcome cfg hw x = (m₀.afterAll cfg hw pre).emptyAtc.outcome cfg hw x := by
  intro pre x post hxs
  have hinv := (hempty.inv rfl).afterAll htables httr hbound hsafe hxs
  have hx : x ∈ xs := by simp [hxs]
  have htab := htables pre (x :: post) hxs
  rw [hinv.outcome htab hx (hsafe pre x post hxs), outcome_emptyAtc hinv.regs htab hx]

/-- The MMU on, no page resident, and a pair of registers that makes every address transparent. -/
def transparentPair : Machine Unit := resetMachine { mmuOnRegs with dtt0 := 0x00ffc000, itt0 := 0x00ffc000 }

def readThenFetch : List Access := [⟨.getLong, 0x1000, true, .long⟩, ⟨.getWord, 0x1004, false, .word⟩]

theorem atc_transparent_read_then_fetch :
    (transparentPair.next sampleConfig quietHardware ⟨.getLong, 0x1000, true, .long⟩).outcome
        sampleConfig quietHardware ⟨.getWord, 0x1004, false, .word⟩ =
      (transparentPair.next sampleConfig quietHardware ⟨.getLong, 0x1000, true, .long⟩).emptyAtc.outcome
        sampleConfig quietHardware ⟨.getWord, 0x1004, false, .word⟩ := by
  have hinits {pre post : List Access} (h : readThenFetch = pre ++ post) : pre ∈ readThenFetch.inits :=
    (List.mem_inits _ _).mpr ⟨post, h.symm⟩
  have htables : ∀ pre ∈ readThenFetch.inits, ∀ y ∈ readThenFetch, ∀ w,
      (transparentPair.afterAll sampleConfig quietHardware pre).pageView sampleConfig quietHardware y.addr true w =
        none := by decide
  have hgranted : ∀ pre ∈ readThenFetch.inits, ∀ x ∈ readThenFetch,
      (transparentPair.afterAll sampleConfig quietHardware pre).refused sampleConfig quietHardware x.addr
        (transparentPair.afterAll sampleConfig quietHardware pre).regs.s x.data x.write = false := by decide
  refine atc_transparent sampleConfig quietHardware transparentPair readThenFetch (fun _ => none)
    ⟨fun _ _ => rfl, fun _ _ => rfl⟩ (fun pre post h => htables pre (hinits h)) (by unfold TtrAgree; decide) ?_ ?_
    [⟨.getLong, 0x1000, true, .long⟩] ⟨.getWord, 0x1004, false, .word⟩ [] rfl
  · -- the two accesses are of different kinds
    have hkind : ∀ x ∈ readThenFetch, ∀ y ∈ readThenFetch, x.data = y.data → x = y := by decide
    intro x hx y hy _ hdata _ p _
    rw [hkind x hx y hy hdata]
  · intro pre x post h href; rw [hgranted pre (hinits h) x (by simp [h])] at href; cases href

/-- One data register that makes every address transparent, none for instructions, and the MMU off. -/
def dataTtrRegs : MmuRegs := { mmuOffRegs with dtt0 := 0x00ffc000 }

/-- After the data read the instruction fetch from the same page is a bus error, which it is not with an
empty ATC. -/
theorem fetch_after_read_differs :
    ((resetMachine dataTtrRegs).next sampleConfig quietHardware ⟨.getLong, 0x1000, true, .long⟩).outcome
        sampleConfig quietHardware ⟨.getWord, 0x1004, false, .word⟩ ≠
      ((resetMachine dataTtrRegs).next sampleConfig quietHardware
        ⟨.getLong, 0x1000, true, .long⟩).emptyAtc.outcome sampleConfig quietHardware
          ⟨.getWord, 0x1004, false, .word⟩ := by decide

end Aranym.Mmu
