import Aranym.Lib.Run
import Aranym.Mmu.Lemmas.Fresh

/-!
# The invariant of a run of accesses

`AtcInv` relates the ATC to the translation of the accesses of a run: an L1 slot serves an access as the empty ATC
would, and an L2 line fits the translation.
-/

namespace Aranym.Mmu

open Aranym.Lib

variable {δ : Type} (cfg : Config) (hw : Hardware δ)

/-- What the tables say of each page: its frame and its write protection. -/
abbrev PageMap := BitVec 32 → Option (BitVec 32 × Bool)

/-- The difference to the physical address, by registers and tables alone. -/
def Access.translation (x : Access) (r : MmuRegs) (pages : PageMap) : Option (BitVec 32) :=
  Mmu.translation r (pages x.addr) x.addr r.s x.data x.write

/-- What the access comes to by registers and tables alone. -/
def Access.freshAction (x : Access) (r : MmuRegs) (pages : PageMap) : Action :=
  match x.translation r pages with
  | none => .busError
  | some p => physAction cfg x.addr p r.s x.write

/-- The page tables in memory are `pages`, for the addresses of `xs`. -/
def Machine.TablesAre (m : Machine δ) (xs : List Access) (r : MmuRegs) (pages : PageMap) : Prop :=
  ∀ y ∈ xs, ∀ w, m.pageView cfg hw y.addr r.s w = pages y.addr

/-- Accesses of one page, data accesses or instruction fetches, match the same way in the transparent
translation registers. -/
def TtrAgree (xs : List Access) (r : MmuRegs) : Prop :=
  ∀ x ∈ xs, ∀ y ∈ xs, SamePage4k x.addr y.addr →
    mmuMatchTtr r x.addr r.s x.data = mmuMatchTtr r y.addr r.s y.data

/-- A page is not partly inside and partly outside of the memory that `phys_get` and `phys_put` grant: accesses of one
kind to it are refused there all alike. -/
def BoundaryUniform (xs : List Access) (r : MmuRegs) (pages : PageMap) : Prop :=
  ∀ x ∈ xs, ∀ y ∈ xs, SamePage4k x.addr y.addr → x.data = y.data → x.write = y.write →
    ∀ p, x.translation r pages = some p →
      boundaryRefuses cfg (x.addr + p) r.s x.write = boundaryRefuses cfg (y.addr + p) r.s y.write

def AtcLine.Vacant (l : AtcLine) : Prop := l.hw = false ∧ (l.tag = emptyTag ∨ l.tag = ~~~emptyTag)

/-- A refused access that misses the entry for it finds this entry empty, and so leaves no translation of another page
behind. -/
def Machine.RefusalSafe (m : Machine δ) (x : Access) : Prop :=
  m.refused cfg hw x.addr m.regs.s x.data x.write = true →
    m.SlotMisses x.addr m.regs.s x.data x.write → (m.l1 (l1Slot m.regs.s x.data x.write x.addr)).Vacant

/-- Both caches hold nothing but what the tables say. -/
structure AtcInv (xs : List Access) (r : MmuRegs) (pages : PageMap) (m : Machine δ) : Prop where
  regs : m.regs = r
  hit : ∀ y ∈ xs, (m.l1 (l1Slot r.s y.data y.write y.addr)).tag = atcTag y.addr →
    y.freshAction cfg r pages = .ram ((m.l1 (l1Slot r.s y.data y.write y.addr)).phys + y.addr)
  negative : ∀ y ∈ xs, (m.l1 (l1Slot r.s y.data y.write y.addr)).tag = ~~~atcTag y.addr →
    y.freshAction cfg r pages = (m.l1 (l1Slot r.s y.data y.write y.addr)).redo y.addr
  line : ∀ y ∈ xs, (m.atcL2 r.s (atcL2Index y.addr)).tag = atcTag y.addr →
    LineFits (m.atcL2 r.s (atcL2Index y.addr)) (y.translation r pages) y.data y.write

variable {cfg hw} {xs : List Access} {r : MmuRegs} {pages : PageMap} {m : Machine δ} {x : Access}

theorem AtcInv.lookup (hinv : AtcInv cfg xs r pages m) (htab : m.TablesAre cfg hw xs r pages) (hx : x ∈ xs) :
    m.refused cfg hw x.addr r.s x.data x.write = (x.translation r pages).isNone ∧
      LineFits (m.lookupLine cfg hw x.addr r.s x.data x.write) (x.translation r pages) x.data x.write := by
  apply lookup_fits cfg hw _ (hinv.line x hx)
  rw [htab x hx, hinv.regs]
  rfl

/-! ## Under the invariant an access does what it does with an empty ATC -/

theorem AtcInv.outcome (hinv : AtcInv cfg xs r pages m) (htab : m.TablesAre cfg hw xs r pages)
    (hx : x ∈ xs) (hsafe : m.RefusalSafe cfg hw x) : m.outcome cfg hw x = x.freshAction cfg r pages := by
  obtain ⟨href, hfits⟩ := hinv.lookup htab hx
  rw [outcome_eq]
  unfold Machine.RefusalSafe at hsafe
  rw [hinv.regs] at hsafe ⊢
  by_cases hs : m.SlotMisses x.addr r.s x.data x.write
  · cases ht : x.translation r pages with
    | none =>
      rw [ht] at href
      rw [access_refused cfg hw hs href, Access.freshAction, ht]
      simp only [AtcLine.redo, (hsafe href hs).1, Bool.false_eq_true, if_false]
    | some p =>
      rw [ht] at href hfits
      obtain ⟨slot, hacc, -⟩ := access_granted cfg hw hs href
      rw [hacc, Access.freshAction, ht]; exact grantedAction_eq_physAction cfg hfits x.addr r.s
  · simp only [Machine.SlotMisses, not_and_or, not_not] at hs
    rcases hs with h | h
    · rw [access_hit cfg hw h, hinv.hit x hx h]
    · rw [access_negative cfg hw h, hinv.negative x hx h]

/-! ## An access keeps the invariant -/

theorem pages_eq_of_samePage {y z} (htab : m.TablesAre cfg hw xs r pages) (hy : y ∈ xs)
    (hz : z ∈ xs) (h : SamePage4k y.addr z.addr) : pages y.addr = pages z.addr := by
  rw [← htab y hy false, ← htab z hz false, h.pageView_eq cfg hw]

theorem AtcInv.line_next (hinv : AtcInv cfg xs r pages m) (htab : m.TablesAre cfg hw xs r pages)
    (httr : TtrAgree xs r) (hx : x ∈ xs) {y} (hy : y ∈ xs) (hidx : atcL2Index y.addr = atcL2Index x.addr)
    (htag : (m.lookupLine cfg hw x.addr r.s x.data x.write).tag = atcTag y.addr) :
    LineFits (m.lookupLine cfg hw x.addr r.s x.data x.write) (y.translation r pages) y.data y.write := by
  rw [lookupLine_tag] at htag
  have hpage : SamePage4k y.addr x.addr := samePage4k_of_l2 htag.symm hidx
  unfold Machine.lookupLine
  cases hd : (m.atcL2 r.s (atcL2Index x.addr)).decides x.addr x.data x.write with
  | true =>
    simp only [hd, if_true]
    have hline := hinv.line y hy
    rw [hidx, ← htag] at hline; exact hline (check_of_decides hd).1
  | false =>
    simp only [hd, Bool.false_eq_true, if_false]
    have hmatch : mmuMatchTtr m.regs y.addr r.s y.data = mmuMatchTtr m.regs x.addr r.s x.data := by
      rw [hinv.regs]; exact httr y hy x hx hpage
    have hfits := filledLine_fits cfg hw m x.write y.write (m.atcL2 r.s (atcL2Index x.addr)) hpage hmatch
    rw [htab x hx, hinv.regs, ← pages_eq_of_samePage htab hy hx hpage] at hfits; exact hfits

theorem special_serves {l : AtcLine} {a b : BitVec 32} {super write : Bool} (hl : l.hw = false)
    (hpage : SamePage4k (a + l.phys) (b + l.phys))
    (hb : boundaryRefuses cfg (a + l.phys) super write = boundaryRefuses cfg (b + l.phys) super write) :
    match l.special cfg a super write with
    | none => physAction cfg b l.phys super write = .ram (l.phys + b)
    | some l1 => physAction cfg b l.phys super write = l1.redo b := by
  have hhw : isHwAddr (a + l.phys) = isHwAddr (b + l.phys) := by
    simp only [isHwAddr, hpage.and_eq 0xfff00000 (by decide)]
  have hmirror : isHwMirror (a + l.phys) = isHwMirror (b + l.phys) := by
    simp only [isHwMirror, hpage.and_eq 0xfff00000 (by decide)]
  unfold boundaryRefuses at hb
  unfold AtcLine.special physAction
  rw [hhw, hmirror] at hb
  simp only [hhw, hmirror]
  cases h1 : isHwAddr (b + l.phys) with
  | true => simp [AtcLine.redo]
  | false =>
    cases h2 : isHwMirror (b + l.phys) with
    | true => simp [AtcLine.redo]
    | false =>
      rw [h1, h2] at hb
      have hb := Bool.not_inj_iff.mp hb
      cases h3 : testRamBoundary cfg (b + l.phys) 1 super write with
      | true => simp [hb.trans h3]
      | false => simp [hb.trans h3, AtcLine.redo, hl]

theorem not_emptyTag_ne (a : BitVec 32) : ~~~emptyTag ≠ atcTag a := by
  rw [Ne, not_eq_atcTag_iff]
  exact emptyTag_ne_not a

theorem AtcLine.Vacant.complement {l : AtcLine} (h : l.Vacant) (a : BitVec 32) :
    l.complement.tag ≠ atcTag a ∧ l.complement.tag ≠ ~~~atcTag a := by
  rcases h.2 with ht | ht
  · simp only [AtcLine.complement, ht]
    refine ⟨not_emptyTag_ne a, fun h' => ?_⟩
    exact atcTag_ne_emptyTag a (BitVec.not_inj.mp h').symm
  · simp only [AtcLine.complement, ht, BitVec.not_not]
    exact ⟨fun h' => atcTag_ne_emptyTag a h'.symm, emptyTag_ne_not a⟩

theorem AtcInv.granted_slot (hinv : AtcInv cfg xs r pages m) (htab : m.TablesAre cfg hw xs r pages)
    (hbound : BoundaryUniform cfg xs r pages) (hx : x ∈ xs) {y : Access} (hy : y ∈ xs)
    (hpage : SamePage4k x.addr y.addr) (hdata : x.data = y.data) (hwrite : x.write = y.write)
    {p : BitVec 32} (ht : x.translation r pages = some p) :
    match (m.lookupLine cfg hw x.addr r.s x.data x.write).special cfg x.addr r.s x.write with
    | none => y.freshAction cfg r pages =
        .ram ((m.lookupLine cfg hw x.addr r.s x.data x.write).phys + y.addr)
    | some l1 => y.freshAction cfg r pages = l1.redo y.addr := by
  obtain ⟨-, hfits⟩ := hinv.lookup htab hx
  have hphys := hfits.phys p ht
  have hty : y.translation r pages = some p := by
    rw [← ht, Access.translation, Access.translation, hdata, hwrite, pages_eq_of_samePage htab hx hy hpage,
      hpage.translation_eq]
  have haligned : p.toNat % 2 ^ 12 = 0 := by
    rw [Access.translation, ← htab x hx false, ← hinv.regs] at ht
    exact translation_aligned cfg hw ht
  have hb := hbound x hx y hy hpage hdata hwrite p ht
  rw [Access.freshAction, hty]
  rw [← hphys] at haligned hb ⊢
  rw [← hwrite] at hb ⊢
  exact special_serves hfits.hw (samePage4k_add hpage haligned) hb

theorem AtcInv.slots_next (hinv : AtcInv cfg xs r pages m) (htab : m.TablesAre cfg hw xs r pages)
    (hbound : BoundaryUniform cfg xs r pages) (hx : x ∈ xs) (hsafe : m.RefusalSafe cfg hw x)
    {y : Access} (hy : y ∈ xs) {l : AtcLine}
    (hl : (m.next cfg hw x).l1 (l1Slot r.s y.data y.write y.addr) = l) :
    (l.tag = atcTag y.addr → y.freshAction cfg r pages = .ram (l.phys + y.addr)) ∧
      (l.tag = ~~~atcTag y.addr → y.freshAction cfg r pages = l.redo y.addr) := by
  have hdone := next_spec cfg hw m x
  unfold Machine.RefusalSafe at hsafe
  rw [hinv.regs] at hdone hsafe
  have hkept (h : l = m.l1 (l1Slot r.s y.data y.write y.addr)) :
      (l.tag = atcTag y.addr → y.freshAction cfg r pages = .ram (l.phys + y.addr)) ∧
        (l.tag = ~~~atcTag y.addr → y.freshAction cfg r pages = l.redo y.addr) := by
    subst h; exact ⟨hinv.hit y hy, hinv.negative y hy⟩
  by_cases hslot : l1Slot r.s y.data y.write y.addr = l1Slot r.s x.data x.write x.addr
  · obtain ⟨-, hdata, hwrite⟩ := l1Row_injective (congrArg L1Slot.row hslot)
    have hidx : atcL1Index y.addr = atcL1Index x.addr := congrArg L1Slot.idx hslot
    rw [hslot, hdone.slot] at hl
    by_cases hs : m.SlotMisses x.addr r.s x.data x.write
    · cases href : m.refused cfg hw x.addr r.s x.data x.write with
      | true =>
        rw [access_refused cfg hw hs href] at hl
        subst hl
        have hvac := (hsafe href hs).complement y.addr
        exact ⟨fun h => absurd h hvac.1, fun h => absurd h hvac.2⟩
      | false =>
        have hsome := (hinv.lookup htab hx).1.symm.trans href
        obtain ⟨p, ht⟩ := Option.isSome_iff_exists.mp (Option.isNone_eq_false_iff.mp hsome)
        obtain ⟨slot, hacc, hslot'⟩ := access_granted cfg hw hs href
        rw [hacc] at hl
        obtain rfl : slot = l := hl
        have hserves (hpage : SamePage4k x.addr y.addr) :=
          hinv.granted_slot htab hbound hx hy hpage hdata.symm hwrite.symm ht
        rcases hslot' with ⟨htag, hnone, rfl⟩ | ⟨htag, hspecial⟩
        · rw [hnone] at hserves
          refine ⟨fun h => hserves (samePage4k_of_l1 (htag.symm.trans h) hidx.symm), fun h => ?_⟩
          exact absurd (htag.symm.trans h) (atcTag_ne_not _ _)
        · rw [hspecial] at hserves
          refine ⟨fun h => absurd (h.symm.trans htag) (atcTag_ne_not _ _), fun h => ?_⟩
          exact hserves (samePage4k_of_l1 (BitVec.not_inj.mp (htag.symm.trans h)) hidx.symm)
    · apply hkept
      rw [← hl, hslot]
      simp only [Machine.SlotMisses, not_and_or, not_not] at hs
      rcases hs with h | h
      · rw [access_hit cfg hw h]
      · rw [access_negative cfg hw h]
  · exact hkept (by rw [← hl, hdone.slots _ hslot])

theorem AtcInv.next (hinv : AtcInv cfg xs r pages m) (htab : m.TablesAre cfg hw xs r pages)
    (httr : TtrAgree xs r) (hbound : BoundaryUniform cfg xs r pages) (hx : x ∈ xs)
    (hsafe : m.RefusalSafe cfg hw x) : AtcInv cfg xs r pages (m.next cfg hw x) := by
  have hdone := next_spec cfg hw m x
  rw [hinv.regs] at hdone
  refine ⟨hdone.regs.trans hinv.regs, fun y hy => (hinv.slots_next htab hbound hx hsafe hy rfl).1,
    fun y hy => (hinv.slots_next htab hbound hx hsafe hy rfl).2, fun y hy => ?_⟩
  by_cases hidx : atcL2Index y.addr = atcL2Index x.addr
  · rw [hidx, hdone.line]
    rcases access_line cfg hw m x.addr r.s x.data x.write with h | h
    · rw [h, ← hidx]; exact hinv.line y hy
    · rw [h]; exact hinv.line_next htab httr hx hy hidx
  · rw [hdone.lines _ _ (.inr hidx)]; exact hinv.line y hy

/-! ## Runs -/

def Machine.emptyAtc (m : Machine δ) : Machine δ := m.withAtc (fun _ _ => .empty) fun _ _ => .empty

/-- The tags of both levels are those that a flush leaves. -/
structure Machine.Flushed (m : Machine δ) : Prop where
  l1 : ∀ row i, (m.atcL1 row i).tag = emptyTag
  l2 : ∀ super i, (m.atcL2 super i).tag = emptyTag

theorem Machine.Flushed.inv (h : m.Flushed) (hr : m.regs = r) : AtcInv cfg xs r pages m where
  regs := hr
  hit y _ ht := absurd (ht.symm.trans (h.l1 _ _)) (atcTag_ne_emptyTag y.addr)
  negative y _ ht := absurd ((h.l1 _ _).symm.trans ht) (emptyTag_ne_not y.addr)
  line y _ ht := absurd (ht.symm.trans (h.l2 _ _)) (atcTag_ne_emptyTag y.addr)

theorem emptyAtc_flushed (m : Machine δ) : m.emptyAtc.Flushed := ⟨fun _ _ => rfl, fun _ _ => rfl⟩

theorem emptyAtc_tablesAre (h : m.TablesAre cfg hw xs r pages) : m.emptyAtc.TablesAre cfg hw xs r pages := by
  intro y hy w
  rw [← h y hy w]
  refine (hidden_withAtc (fun _ _ => .empty) fun _ _ => .empty).pageView_eq cfg hw y.addr ?_ r.s w
  rfl

theorem emptyAtc_refusalSafe : m.emptyAtc.RefusalSafe cfg hw x := fun _ _ => ⟨rfl, .inl rfl⟩

theorem outcome_emptyAtc (hr : m.regs = r) (htab : m.TablesAre cfg hw xs r pages) (hx : x ∈ xs) :
    m.emptyAtc.outcome cfg hw x = x.freshAction cfg r pages :=
  ((emptyAtc_flushed m).inv hr).outcome (emptyAtc_tablesAre htab) hx emptyAtc_refusalSafe

variable (cfg hw)

def Machine.afterAll (m : Machine δ) (xs : List Access) : Machine δ := xs.foldl (Machine.next cfg hw) m

variable {cfg hw}

/-- The invariant holds along a run if it holds at its start. -/
theorem AtcInv.afterAll (hinv : AtcInv cfg xs r pages m)
    (htables : ∀ pre post, xs = pre ++ post → (m.afterAll cfg hw pre).TablesAre cfg hw xs r pages)
    (httr : TtrAgree xs r) (hbound : BoundaryUniform cfg xs r pages)
    (hsafe : ∀ pre x post, xs = pre ++ x :: post → (m.afterAll cfg hw pre).RefusalSafe cfg hw x)
    {pre post : List Access} (hxs : xs = pre ++ post) : AtcInv cfg xs r pages (m.afterAll cfg hw pre) := by
  refine foldl_invariant hinv (fun pre x post h hinv => ?_) hxs
  exact hinv.next (htables pre (x :: post) h) httr hbound (by simp [h]) (hsafe pre x post h)

end Aranym.Mmu
