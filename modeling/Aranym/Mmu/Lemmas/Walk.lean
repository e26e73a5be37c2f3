import Aranym.Mmu.Walk
import Aranym.Mmu.Lemmas.Fill

/-!
# What a table search writes

Each level stores a descriptor back right after it has fetched it, so a store only sets bits in the word as it is.
-/

namespace Aranym.Mmu

open Aranym.Lib List Nat

variable {δ : Type} (cfg : Config) (hw : Hardware δ)

/-! ## The search level by level -/

theorem fetchTableDesc_bind (a : BitVec 32) (k : BitVec 32 → MmuM δ (BitVec 32)) :
    (fetchTableDesc cfg hw a >>= fun r => r.elim (pure 0) k) = (physGetLong cfg hw a >>= fun desc =>
      if desc &&& 2 = 0 then pure 0 else markUsed cfg hw a desc >>= fun _ => k desc) := by
  unfold fetchTableDesc
  rw [bind_assoc]
  refine bind_congr fun desc => ?_
  split
  · rfl
  · rw [bind_assoc]; rfl

theorem mmuLookupPagetable_eq (addr : BitVec 32) (super write : Bool) :
    mmuLookupPagetable cfg hw addr super write = get >>= fun m =>
      fetchTableDesc cfg hw (m.regs.rootAddr addr super) >>= fun r => r.elim (pure 0) fun rootDesc =>
        fetchTableDesc cfg hw (ptrAddr rootDesc addr) >>= fun p => p.elim (pure 0) fun ptrDesc =>
          fetchPageDesc cfg hw (m.regs.pageAddr ptrDesc addr) >>= fun page =>
            if page.2 &&& 1 = 0 then pure page.2 else
            updatePageDesc cfg hw write page.1 (page.2 ||| ((rootDesc ||| ptrDesc) &&& mmuDesWp)) := by
  refine bind_congr fun m => Eq.trans (bind_congr fun rootDesc => ?_) (fetchTableDesc_bind ..).symm
  exact if_congr Iff.rfl rfl (bind_congr fun _ => (fetchTableDesc_bind ..).symm)

/-! ## Memory -/

theorem keeps_ram_liftDev {α : Type} (addr : BitVec 32) (f : EStateM M68kException δ α) :
    Keeps Machine.ram (liftDev addr f) := by
  intro m
  simp only [liftDev]
  cases f m.dev <;> rfl

theorem keeps_ram_checkRamBoundary (addr : BitVec 32) (size : Nat) (write : Bool) :
    Keeps Machine.ram (checkRamBoundary cfg addr size write : MmuM δ Unit) :=
  .bind .get fun _ => .ite (.pure _) (.bind (.modify fun _ => rfl) fun _ => .throw _)

theorem keeps_ram_physGetLong (addr : BitVec 32) : Keeps Machine.ram (physGetLong cfg hw addr) :=
  .ite (keeps_ram_liftDev _ _)
    (.bind (keeps_ram_checkRamBoundary cfg _ _ _) fun _ => .bind .get fun _ => .pure _)

theorem keeps_ram_fetchPageDesc (pageAddr : BitVec 32) : Keeps Machine.ram (fetchPageDesc cfg hw pageAddr) :=
  .bind (keeps_ram_physGetLong cfg hw _) fun _ =>
    .ite (.bind (keeps_ram_physGetLong cfg hw _) fun _ => .pure _) (.pure _)

theorem physGetLong_eq (addr : BitVec 32) : physGetLong cfg hw addr = if isHwAddr (physAddr addr) then
        liftDev (physAddr addr) (hw.get .long (physAddr addr))
      else checkRamBoundary cfg (physAddr addr) 4 false >>= fun _ => get >>= fun m =>
        pure (m.ram.getLong (physAddr addr)) := rfl

theorem physPutLong_eq (addr v : BitVec 32) : physPutLong cfg hw addr v = if isHwAddr (physAddr addr) then
        liftDev (physAddr addr) (hw.put .long (physAddr addr) v)
      else checkRamBoundary cfg (physAddr addr) 4 true >>= fun _ =>
        modify fun m => { m with ram := m.ram.putLong (physAddr addr) v } := rfl

theorem checkRamBoundary_ok {addr} {size : Nat} {write : Bool} {m m' : Machine δ} {u : Unit}
    (h : checkRamBoundary cfg addr size write m = .ok u m') :
    m' = m ∧ testRamBoundary cfg addr size m.regs.s write = true := by
  rw [checkRamBoundary, bind_ok (get_apply m)] at h
  split at h
  · next hb => cases h; exact ⟨rfl, hb⟩
  · cases h

theorem physGetLong_ok {addr v} {m m' : Machine δ} (h : physGetLong cfg hw addr m = .ok v m')
    (hhw : isHwAddr (physAddr addr) = false) : v = m.ram.getLong (physAddr addr) := by
  rw [physGetLong_eq, if_neg (by rw [hhw]; decide)] at h
  obtain ⟨_, m₁, hb, hget⟩ := bind_ok_inv h
  obtain ⟨rfl, -⟩ := checkRamBoundary_ok cfg hb
  cases hget
  rfl

theorem physPutLong_stores {addr m} (h : m.Stores cfg addr) (v : BitVec 32) :
    physPutLong cfg hw addr v m = .ok () { m with ram := m.ram.putLong (physAddr addr) v } := by
  rw [physPutLong_eq, if_neg (by rw [h.1]; decide), checkRamBoundary, bind_assoc, bind_ok (get_apply m), if_pos h.2]
  rfl

theorem physPutLong_ram {addr m} (h : ¬m.Stores cfg addr) (v : BitVec 32) :
    (final (physPutLong cfg hw addr v m)).ram = m.ram := by
  rw [physPutLong_eq]
  cases hhw : isHwAddr (physAddr addr) with
  | true => exact keeps_ram_liftDev _ _ m
  | false =>
    have hb : ¬testRamBoundary cfg (physAddr addr) 4 m.regs.s true = true := fun hb => h ⟨hhw, hb⟩
    rw [if_neg (by decide), checkRamBoundary, bind_assoc, bind_ok (get_apply m), if_neg hb]; rfl

theorem keeps_fetchTableDesc (descAddr : BitVec 32) : Keeps Machine.frame (fetchTableDesc cfg hw descAddr) :=
  .bind (keeps_physGetLong cfg hw _) fun _ =>
    .ite (.pure _) (.bind (keeps_markUsed cfg hw _ _) fun _ => .pure _)

/-! ## Words are aligned -/

theorem physAddr_aligned {addr} (h : addr.toNat % 4 = 0) : (physAddr addr).toNat % 4 = 0 := by
  unfold physAddr
  split
  · exact h
  · rw [BitVec.toNat_and, show (4 : Nat) = 2 ^ 2 from rfl, and_mod_two_pow,
      show addr.toNat % 2 ^ 2 = 0 from h, zero_and]

theorem or_aligned {x y a b : BitVec 32} (ha : a.toNat % 4 = 0) (hb : b.toNat % 4 = 0) :
    ((x &&& a) ||| (y &&& b)).toNat % 4 = 0 := by
  have hand : ∀ {u v : BitVec 32}, v.toNat % 4 = 0 → (u &&& v).toNat % 2 ^ 2 = 0 := by
    intro u v h
    rw [BitVec.toNat_and, and_mod_two_pow, show v.toNat % 2 ^ 2 = 0 from h, and_zero]
  rw [BitVec.toNat_or, show (4 : Nat) = 2 ^ 2 from rfl, or_mod_two_pow, hand ha, hand hb]
  rfl

theorem rootAddr_aligned (r : MmuRegs) (addr : BitVec 32) (super : Bool) :
    (r.rootAddr addr super).toNat % 4 = 0 := or_aligned (by decide) (by decide)

theorem ptrAddr_aligned (rootDesc addr : BitVec 32) : (ptrAddr rootDesc addr).toNat % 4 = 0 :=
  or_aligned (by decide) (by decide)

theorem pageAddr_aligned (r : MmuRegs) (ptrDesc addr : BitVec 32) :
    (r.pageAddr ptrDesc addr).toNat % 4 = 0 := by
  unfold MmuRegs.pageAddr
  split <;> exact or_aligned (by decide) (by decide)

/-! ## What the levels store -/

section

variable {mask : BitVec 32 → BitVec 32} {a desc bits : BitVec 32} {m m' : Machine δ}

theorem put_setsBits (ha : a.toNat % 4 = 0)
    (hdesc : m.Stores cfg a → desc = m.ram.getLong (physAddr a) ||| bits)
    (hbits : bits &&& ~~~mask (physAddr a) = 0) :
    Memory.SetsBits mask m.ram (final (physPutLong cfg hw a desc m)).ram := by
  by_cases hs : m.Stores cfg a
  · rw [physPutLong_stores cfg hw hs]; exact Memory.SetsBits.put (physAddr_aligned ha) (hdesc hs) hbits
  · rw [physPutLong_ram cfg hw hs]; exact Memory.SetsBits.refl _ _

theorem fetchTableDesc_setsBits (ha : a.toNat % 4 = 0) (hmask : mmuDesUsed &&& ~~~mask (physAddr a) = 0) :
    Memory.SetsBits mask m.ram (final (fetchTableDesc cfg hw a m)).ram := by
  have hget := keeps_ram_physGetLong cfg hw a m
  cases hg : physGetLong cfg hw a m with
  | error e m₁ =>
    rw [hg] at hget
    rw [fetchTableDesc, bind_error hg, final_error, show m₁.ram = m.ram from hget]
    exact Memory.SetsBits.refl _ _
  | ok desc m₁ =>
    rw [hg] at hget
    have hram : m₁.ram = m.ram := hget
    rw [fetchTableDesc, bind_ok hg]
    split
    · rw [pure_apply, final_ok, hram]; exact Memory.SetsBits.refl _ _
    · rw [markUsed]
      split
      · have hput : Memory.SetsBits mask m₁.ram
            (final (physPutLong cfg hw a (desc ||| mmuDesUsed) m₁)).ram := by
          refine put_setsBits cfg hw ha (fun hs => ?_) hmask
          rw [physGetLong_ok cfg hw hg hs.1, hram]
        rw [hram] at hput; rwa [final_bind_pure]
      · rw [bind_ok (pure_apply () m₁), pure_apply, final_ok, hram]; exact Memory.SetsBits.refl _ _

theorem fetchPageDesc_ok {page : BitVec 32 × BitVec 32} (ha : a.toNat % 4 = 0)
    (h : fetchPageDesc cfg hw a m = .ok page m') : page.1 ∈ m.pageWords cfg hw a ∧ page.1.toNat % 4 = 0 ∧
      (isHwAddr (physAddr page.1) = false → page.2 = m'.ram.getLong (physAddr page.1)) := by
  have hram : m'.ram = m.ram := (keeps_ram_fetchPageDesc cfg hw a).ok h
  obtain ⟨desc, m₁, hg, h⟩ := bind_ok_inv h
  have hram₁ : m₁.ram = m.ram := (keeps_ram_physGetLong cfg hw a).ok hg
  unfold Machine.pageWords
  rw [hg]
  dsimp only
  split at h
  · next hind =>
    obtain ⟨desc', m₂, hg', h⟩ := bind_ok_inv h
    cases h
    rw [if_pos hind]
    refine ⟨mem_cons_of_mem _ mem_cons_self, ?_, fun hhw => ?_⟩
    · have := or_aligned (x := desc) (a := mmuPageIndirectMask) (y := 0) (b := 0) (by decide) (by decide)
      simpa using this
    · rw [physGetLong_ok cfg hw hg' hhw, hram₁, hram]
  · next hind =>
    cases h
    rw [if_neg hind]
    exact ⟨mem_singleton.mpr rfl, ha, fun hhw => by rw [physGetLong_ok cfg hw hg hhw, hram]⟩

/-! ## The whole search -/

variable {addr : BitVec 32} {super : Bool}

structure Reached (mask : BitVec 32 → BitVec 32) (m : Machine δ) (addr : BitVec 32) (super : Bool)
    (f : Found δ) : Prop where
  word : f.addr ∈ m.walkWords cfg hw addr super
  aligned : f.addr.toNat % 4 = 0
  desc : isHwAddr (physAddr f.addr) = false → f.desc = f.machine.ram.getLong (physAddr f.addr)
  sets : Memory.SetsBits mask m.ram f.machine.ram
  run : ∀ write, mmuLookupPagetable cfg hw addr super write m =
    (if f.desc &&& 1 = 0 then pure f.desc
      else updatePageDesc cfg hw write f.addr (f.desc ||| (f.above &&& mmuDesWp)) : MmuM δ (BitVec 32)) f.machine

theorem walk_cases (hmask : ∀ x ∈ m.walkWords cfg hw addr super, mmuDesUsed &&& ~~~mask (physAddr x) = 0) :
    (∀ write, Memory.SetsBits mask m.ram (final (mmuLookupPagetable cfg hw addr super write m)).ram) ∧
        m.walkFound cfg hw addr super = none ∨
      ∃ f, m.walkFound cfg hw addr super = some f ∧ Reached cfg hw mask m addr super f := by
  have hroot : m.regs.rootAddr addr super ∈ m.walkWords cfg hw addr super := mem_cons_self
  have hsets₁ := fetchTableDesc_setsBits cfg hw (m := m) (rootAddr_aligned m.regs addr super) (hmask _ hroot)
  have hrun := fun write => congrFun (mmuLookupPagetable_eq cfg hw addr super write) m
  unfold Machine.walkFound
  cases h₁ : fetchTableDesc cfg hw (m.regs.rootAddr addr super) m with
  | error e m₁ =>
    rw [h₁] at hsets₁
    refine .inl ⟨fun write => ?_, rfl⟩
    rw [hrun, bind_ok (get_apply m), bind_error h₁]; exact hsets₁
  | ok r m₁ =>
    rw [h₁] at hsets₁
    cases r with
    | none => refine .inl ⟨fun write => ?_, rfl⟩; rw [hrun, bind_ok (get_apply m), bind_ok h₁]; exact hsets₁
    | some rootDesc =>
      have hwords : ∀ x ∈ m₁.ptrWords cfg hw addr rootDesc, x ∈ m.walkWords cfg hw addr super := by
        intro x hx
        rw [Machine.walkWords, h₁]; exact mem_cons_of_mem _ hx
      have hptr : ptrAddr rootDesc addr ∈ m₁.ptrWords cfg hw addr rootDesc := mem_cons_self
      have hsets₂ := hsets₁.trans (fetchTableDesc_setsBits cfg hw (m := m₁) (ptrAddr_aligned rootDesc addr)
        (hmask _ (hwords _ hptr)))
      dsimp only
      cases h₂ : fetchTableDesc cfg hw (ptrAddr rootDesc addr) m₁ with
      | error e m₂ =>
        rw [h₂] at hsets₂
        refine .inl ⟨fun write => ?_, rfl⟩
        rw [hrun, bind_ok (get_apply m), bind_ok h₁, Option.elim_some, bind_error h₂]; exact hsets₂
      | ok p m₂ =>
        rw [h₂] at hsets₂
        cases p with
        | none =>
          refine .inl ⟨fun write => ?_, rfl⟩
          rw [hrun, bind_ok (get_apply m), bind_ok h₁, Option.elim_some, bind_ok h₂]; exact hsets₂
        | some ptrDesc =>
          have hram := keeps_ram_fetchPageDesc cfg hw (m.regs.pageAddr ptrDesc addr) m₂
          have hregs : m₁.regs = m.regs := congrArg Prod.fst ((keeps_fetchTableDesc cfg hw _).ok h₁)
          dsimp only
          cases h₃ : fetchPageDesc cfg hw (m.regs.pageAddr ptrDesc addr) m₂ with
          | error e m₃ =>
            rw [h₃] at hram
            refine .inl ⟨fun write => ?_, rfl⟩
            rw [hrun, bind_ok (get_apply m), bind_ok h₁, Option.elim_some, bind_ok h₂,
              Option.elim_some, bind_error h₃, final_error, show m₃.ram = m₂.ram from hram]
            exact hsets₂
          | ok page m₃ =>
            rw [h₃] at hram
            have hpage := fetchPageDesc_ok cfg hw (pageAddr_aligned _ _ _) h₃
            refine .inr ⟨_, rfl, hwords _ ?_, hpage.2.1, hpage.2.2, ?_, fun write => ?_⟩
            · rw [Machine.ptrWords, h₂, hregs]; exact mem_cons_of_mem _ hpage.1
            · rw [show m₃.ram = m₂.ram from hram]; exact hsets₂
            · rw [hrun, bind_ok (get_apply m), bind_ok h₁, Option.elim_some, bind_ok h₂,
                Option.elim_some, bind_ok h₃]

/-! ## The update of the page descriptor -/

theorem updatePageDesc_final (write : Bool) (a desc : BitVec 32) (m : Machine δ) :
    final (updatePageDesc cfg hw write a desc m) = if write && desc &&& mmuDesWp == 0 then
        if desc &&& (mmuDesUsed ||| mmuDesModified) ≠ (mmuDesUsed ||| mmuDesModified) then
          final (physPutLong cfg hw a (desc ||| (mmuDesUsed ||| mmuDesModified)) m) else m
      else if desc &&& mmuDesUsed = 0 then final (physPutLong cfg hw a (desc ||| mmuDesUsed) m) else m := by
  unfold updatePageDesc
  split
  · split
    · exact final_bind_pure ..
    · rfl
  · split
    · exact final_bind_pure ..
    · rfl

theorem or_wp_eq {desc above} (h : above &&& mmuDesWp = 0 ∨ desc &&& mmuDesWp ≠ 0) :
    desc ||| (above &&& mmuDesWp) = desc := by
  rw [mmuDesWp, and_four, Ne, and_four, Bool.not_eq_false] at h
  exact or_and_twoPow h

theorem Reached.update {f} (h : Reached cfg hw mask m addr super f) (write : Bool)
    (hinh : ¬f.Inherits cfg) (hused : mmuDesUsed &&& ~~~mask (physAddr f.addr) = 0)
    (hmodified : write = true → f.desc &&& 1 ≠ 0 → (f.desc ||| f.above) &&& mmuDesWp = 0 →
      (mmuDesUsed ||| mmuDesModified) &&& ~~~mask (physAddr f.addr) = 0) :
    Memory.SetsBits mask m.ram (final (mmuLookupPagetable cfg hw addr super write m)).ram := by
  refine h.sets.trans ?_
  rw [h.run]
  by_cases hres : f.desc &&& 1 = 0
  · rw [if_pos hres]; exact Memory.SetsBits.refl _ _
  rw [if_neg hres, updatePageDesc_final]
  split
  · next hperm =>
    -- a permitted write: nothing on the path is protected
    rw [Bool.and_eq_true, beq_iff_eq] at hperm
    obtain ⟨hwrite, hwp⟩ := hperm
    rw [mmuDesWp, BitVec.and_or_distrib_right, BitVec.and_assoc, BitVec.and_self] at hwp
    obtain ⟨hdesc, habove⟩ := BitVec.or_eq_zero_iff.mp hwp
    rw [or_wp_eq (.inl habove)]
    split
    · refine put_setsBits cfg hw h.aligned (fun hs => by rw [← h.desc hs.1]) (hmodified hwrite hres ?_)
      rw [mmuDesWp, BitVec.and_or_distrib_right]; exact BitVec.or_eq_zero_iff.mpr ⟨hdesc, habove⟩
    · exact Memory.SetsBits.refl _ _
  · split
    · next hunused =>
      rw [BitVec.and_or_distrib_right] at hunused
      have hu : f.desc &&& mmuDesUsed = 0 := (BitVec.or_eq_zero_iff.mp hunused).1
      by_cases hprot : f.above &&& mmuDesWp = 0 ∨ f.desc &&& mmuDesWp ≠ 0
      · rw [or_wp_eq hprot]; exact put_setsBits cfg hw h.aligned (fun hs => by rw [← h.desc hs.1]) hused
      · rw [not_or, not_not] at hprot
        have hs : ¬f.machine.Stores cfg f.addr := fun hs => hinh ⟨hres, hprot.2, hu, hprot.1, hs⟩
        rw [physPutLong_ram cfg hw hs]; exact Memory.SetsBits.refl _ _
    · exact Memory.SetsBits.refl _ _

theorem Reached.inherits_run {f} (h : Reached cfg hw mask m addr super f) (write : Bool) (hinh : f.Inherits cfg) :
    mmuLookupPagetable cfg hw addr super write m = .ok (f.desc ||| f.above &&& mmuDesWp ||| mmuDesUsed)
      { f.machine with
        ram := f.machine.ram.putLong (physAddr f.addr) (f.desc ||| f.above &&& mmuDesWp ||| mmuDesUsed) } := by
  have hwp : (f.desc ||| f.above &&& mmuDesWp) &&& mmuDesWp ≠ 0 := by
    rw [BitVec.and_or_distrib_right, BitVec.and_assoc, BitVec.and_self]
    exact fun h0 => hinh.above (BitVec.or_eq_zero_iff.mp h0).2
  have hu : (f.desc ||| f.above &&& mmuDesWp) &&& mmuDesUsed = 0 := by
    rw [BitVec.and_or_distrib_right, hinh.unused, BitVec.and_assoc]; simp [mmuDesWp, mmuDesUsed]
  rw [h.run, if_neg hinh.resident, updatePageDesc, if_neg (by simpa using fun _ => hwp), if_pos hu,
    bind_ok (physPutLong_stores cfg hw hinh.stores _)]
  rfl

theorem Reached.inherits_protects {f} (h : Reached cfg hw mask m addr super f) (write : Bool)
    (hinh : f.Inherits cfg) (hmask : mask (physAddr f.addr) &&& mmuDesWp = 0) :
    ¬Memory.SetsBits mask m.ram (final (mmuLookupPagetable cfg hw addr super write m)).ram := by
  intro hsets
  have halign := physAddr_aligned h.aligned
  obtain ⟨b, hb, hv⟩ := hsets _ halign
  obtain ⟨b', -, hv'⟩ := h.sets _ halign
  rw [h.inherits_run cfg hw write hinh, final_ok, Memory.getLong_putLong_self _ _ _ (by decide)] at hv
  -- the protection bit of the word, before and after
  rw [← h.desc hinh.stores.1] at hv'
  have hbit : ∀ {x : BitVec 32}, x &&& mmuDesWp = 0 ↔ x.getLsbD 2 = false := and_four _
  have hdesc := hbit.mp hinh.unprotected
  have habove := hinh.above
  have hfin := congrArg (fun x => x.getLsbD 2) hv
  have hold := congrArg (fun x => x.getLsbD 2) hv'
  have hb2 := congrArg (fun x => x.getLsbD 2) hb
  have hm2 := hbit.mp hmask
  rw [Ne, hbit, Bool.not_eq_false] at habove
  simp only [BitVec.getLsbD_or, BitVec.getLsbD_and, BitVec.getLsbD_not, hdesc, habove, hm2] at hfin hold hb2
  simp [mmuDesWp, mmuDesUsed] at hfin hold hb2
  simp [hold, hb2] at hfin

theorem walkMask_used {x : BitVec 32} (write : Bool) (hx : x ∈ m.walkWords cfg hw addr super) :
    mmuDesUsed &&& ~~~m.walkMask cfg hw addr super write (physAddr x) = 0 := by
  have hany : (m.walkWords cfg hw addr super).any (physAddr · == physAddr x) = true :=
    any_eq_true.mpr ⟨x, hx, beq_self_eq_true _⟩
  rw [Machine.walkMask, if_pos hany]
  exact and_not_or_self _ _

variable (m addr super) in
theorem lookup_setsBits (write : Bool) (hno : ∀ f, m.walkFound cfg hw addr super = some f → ¬f.Inherits cfg) :
    Memory.SetsBits (m.walkMask cfg hw addr super write) m.ram
      (final (mmuLookupPagetable cfg hw addr super write m)).ram := by
  rcases walk_cases cfg hw fun x hx => walkMask_used cfg hw write hx with ⟨hsets, -⟩ | ⟨f, hf, hreached⟩
  · exact hsets write
  · refine hreached.update cfg hw write (hno f hf) (walkMask_used cfg hw write hreached.word) ?_
    intro hwrite hres hwp
    have hany : (m.walkWords cfg hw addr super).any (physAddr · == physAddr f.addr) = true :=
      any_eq_true.mpr ⟨_, hreached.word, beq_self_eq_true _⟩
    have hmod : m.walkModifies cfg hw addr super write (physAddr f.addr) = true := by
      simp only [Machine.walkModifies, hf, hwrite, hwp, Bool.true_and, Bool.and_eq_true, bne_iff_ne, ne_eq, hres,
        not_false_eq_true, beq_self_eq_true, and_self]
    rw [Machine.walkMask, if_pos hany, if_pos hmod]; exact BitVec.and_not_self _

/-- A search that finds the page unprotected has found no protection above it. -/
theorem not_inherits {write : Bool} (h : m.tableSearch cfg hw addr super write &&& mmuMmusrW = 0) {f}
    (hf : m.walkFound cfg hw addr super = some f) : ¬f.Inherits cfg := by
  intro hinh
  rcases walk_cases cfg hw fun x hx => walkMask_used cfg hw write hx with ⟨-, hnone⟩ | ⟨f', hf', hreached⟩
  · cases hf.symm.trans hnone
  · cases hf.symm.trans hf'
    rw [Machine.tableSearch, hreached.inherits_run cfg hw write hinh] at h
    dsimp only at h
    rw [BitVec.and_or_distrib_right, BitVec.and_or_distrib_right, BitVec.and_assoc] at h
    exact hinh.above (BitVec.or_eq_zero_iff.mp (BitVec.or_eq_zero_iff.mp h).1).2

end

end Aranym.Mmu
