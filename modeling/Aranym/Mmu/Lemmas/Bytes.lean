import Aranym.Mmu.Bytes
import Aranym.Mmu.Lemmas.Walk

/-!
# Accesses within a page and across it

Once a byte of a page has been found in RAM its L1 slot holds the page, and the other bytes of the page are at the
same offset.
-/

namespace Aranym.Mmu

open Aranym.Lib Nat

open BitVec hiding setWidth_append

variable {δ : Type} {cfg : Config} {hw : Hardware δ}

variable (w : Sz) (v : BitVec 32)

/-! ## Accesses that go to RAM -/

theorem redo_isRam (l : AtcLine) (addr : BitVec 32) : (l.redo addr).isRam = false := by
  unfold AtcLine.redo
  split <;> rfl

theorem access_isRam {m : Machine δ} {addr : BitVec 32} {super data write : Bool}
    (h : (m.access cfg hw addr super data write).action.isRam = true) :
    (m.access cfg hw addr super data write).slot.tag = atcTag addr ∧
      (m.access cfg hw addr super data write).action =
        .ram ((m.access cfg hw addr super data write).slot.phys + addr) := by
  by_cases hhit : (m.l1 (l1Slot super data write addr)).tag = atcTag addr
  · rw [access_hit cfg hw hhit]; exact ⟨hhit, rfl⟩
  by_cases hneg : (m.l1 (l1Slot super data write addr)).tag = ~~~atcTag addr
  · rw [access_negative cfg hw hneg, redo_isRam] at h; cases h
  cases hr : m.refused cfg hw addr super data write with
  | true => rw [access_refused cfg hw ⟨hhit, hneg⟩ hr, redo_isRam] at h; cases h
  | false =>
    obtain ⟨slot, hacc, ⟨htag, hnone, rfl⟩ | ⟨-, hsome⟩⟩ := access_granted cfg hw ⟨hhit, hneg⟩ hr
    · rw [hacc, AtcLine.grantedAction, hnone]; exact ⟨htag, rfl⟩
    · rw [hacc, AtcLine.grantedAction, hsome, redo_isRam] at h; cases h

theorem mmuAccess_ram {m : Machine δ} {addr : BitVec 32} {data write : Bool}
    (h : (m.access cfg hw addr m.regs.s data write).action.isRam = true) :
    ∃ off m', mmuAccess cfg hw addr m.regs.s data write m = .ok (.ram (off + addr)) m' ∧
      m'.regs = m.regs ∧ m'.Hits addr data write off := by
  obtain ⟨htag, hact⟩ := access_isRam h
  obtain ⟨m', hrun, hdone⟩ := mmuAccess_spec cfg hw m addr m.regs.s data write
  refine ⟨_, m', hact ▸ hrun, hdone.regs, ?_, ?_⟩
  · rw [hdone.regs, hdone.slot, htag]
  · rw [hdone.regs, hdone.slot]

namespace Machine.Hits

variable {m : Machine δ} {addr off : BitVec 32} {data write : Bool}

theorem access (h : m.Hits addr data write off) :
    mmuAccess cfg hw addr m.regs.s data write m = .ok (.ram (off + addr)) m := by
  have hlookup : mmuUserLookup m m.regs.s data write addr = true := beq_iff_eq.mpr h.tag
  simp only [mmuAccess, bind_apply, get_apply, hlookup, if_true, pure_apply, h.phys]

theorem samePage (h : m.Hits addr data write off) {b} (hb : SamePage4k addr b) : m.Hits b data write off := by
  have htag := h.tag
  have hphys := h.phys
  rw [hb.l1Slot_eq] at htag hphys
  exact ⟨htag.trans hb.atcTag_eq, hphys⟩

theorem congr (h : m.Hits addr data write off) {n : Machine δ} (hregs : n.regs = m.regs)
    (hl1 : n.atcL1 = m.atcL1) : n.Hits addr data write off := by
  have htag := h.tag
  have hphys := h.phys
  constructor
  · rw [hregs, Machine.l1, hl1]; exact htag
  · rw [hregs, Machine.l1, hl1]; exact hphys

end Machine.Hits

/-! ## What a search leaves in memory -/

theorem mmuAccess_lookupRam {m : Machine δ} {addr : BitVec 32} {super data write : Bool}
    (hs : m.SlotMisses addr super data write) :
    (final (mmuAccess cfg hw addr super data write m)).ram = m.lookupRam cfg hw addr super data write := by
  obtain ⟨m₁, hdone, hfill⟩ := mmuFillAtcL1_spec cfg hw m addr super data write (l1Slot super data write addr)
  simp only [mmuAccess, mmuUserLookup, mmuSlow, bind_apply, get_apply, beq_iff_eq, if_neg hs.1, if_neg hs.2, hfill,
    ← hdone.ram]
  cases m.refused cfg hw addr super data write with
  | true => rfl
  | false => cases (m.lookupLine cfg hw addr super data write).special cfg addr super write <;> rfl

/-- Where the page is not protected a search sets used and modified bits. -/
theorem filledRam_raised {m : Machine δ} {addr : BitVec 32} {data : Bool}
    (hs : m.SlotMisses addr m.regs.s data true)
    (hd : (m.atcL2 m.regs.s (atcL2Index addr)).decides addr data true = false)
    (hr : m.refusedFresh cfg hw addr m.regs.s data true = false) (q : BitVec 32) :
    Memory.Raised (m.searchBits cfg hw data addr m.regs.s true q) (m.ram q)
      (m.filledRam cfg hw addr m.regs.s data true q) := by
  unfold Machine.filledRam
  split
  · exact .refl _ _
  next htt =>
  split
  · exact .refl _ _
  next hen =>
  rw [Classical.not_not] at htt
  rw [Bool.not_eq_true, Bool.not_eq_false'] at hen
  have hsearch : m.searches data addr m.regs.s true = true := by
    simp [Machine.searches, hs.1, hs.2, hd, htt, hen]
  have hwp : m.tableSearch cfg hw addr m.regs.s true &&& mmuMmusrW = 0 := by
    simp only [Machine.refusedFresh, htt, hen, Bool.true_and, Bool.or_eq_false_iff, bne_eq_false_iff_eq] at hr
    exact hr.2
  rw [Machine.searchBits, if_pos hsearch]
  exact (lookup_setsBits cfg hw m addr m.regs.s true fun f hf => not_inherits cfg hw hwp hf).byte q

theorem access_raised {m : Machine δ} {addr : BitVec 32} {data : Bool}
    (h : (m.access cfg hw addr m.regs.s data true).action.isRam = true) (q : BitVec 32) :
    Memory.Raised (m.searchBits cfg hw data addr m.regs.s true q) (m.ram q)
      ((final (mmuAccess cfg hw addr m.regs.s data true m)).ram q) := by
  by_cases hhit : (m.l1 (l1Slot m.regs.s data true addr)).tag = atcTag addr
  · rw [(Machine.Hits.mk hhit rfl).access]; exact .refl _ _
  by_cases hneg : (m.l1 (l1Slot m.regs.s data true addr)).tag = ~~~atcTag addr
  · rw [access_negative cfg hw hneg, redo_isRam] at h; cases h
  cases hr : m.refused cfg hw addr m.regs.s data true with
  | true => rw [access_refused cfg hw ⟨hhit, hneg⟩ hr, redo_isRam] at h; cases h
  | false =>
    rw [mmuAccess_lookupRam ⟨hhit, hneg⟩, Machine.lookupRam]
    cases hd : (m.atcL2 m.regs.s (atcL2Index addr)).decides addr data true with
    | true => exact .refl _ _
    | false => rw [Machine.refused, hd] at hr; exact filledRam_raised ⟨hhit, hneg⟩ hd hr q

/-! ## Bytes written and read back -/

theorem Machine.ReadsFrom.mmuGet {m : Machine δ} {w : Sz} {addr p : BitVec 32} {data : Bool}
    (h : m.ReadsFrom cfg hw data w addr p) (size : Sz) :
    ∃ m', mmuGet cfg hw w w.read addr data size m = .ok (w.read m.ram p) m' := by
  obtain ⟨m₁, hacc, hram⟩ := h
  rw [Mmu.mmuGet, bind_ok (get_apply m), bind_ok hacc, ← hram]
  exact ⟨_, rfl⟩

theorem mmuPutByte_ram {m : Machine δ} {addr : BitVec 32} {data : Bool}
    (h : (m.access cfg hw addr m.regs.s data true).action.isRam = true) (val : BitVec 32) (size : Sz) :
    ∃ m', mmuPutByte cfg hw addr val data size m = .ok () m' ∧
      m'.ram = storeByte (final (mmuAccess cfg hw addr m.regs.s data true m)).ram
        (m.access cfg hw addr m.regs.s data true).action.phys val := by
  obtain ⟨-, hact⟩ := access_isRam h
  obtain ⟨m₁, hrun, -⟩ := mmuAccess_spec cfg hw m addr m.regs.s data true
  rw [hrun, mmuPutByte, mmuPut, bind_ok (get_apply m), bind_ok hrun, hact]
  exact ⟨_, rfl, rfl⟩

variable (cfg hw) in
/-- The induction follows the bytes. What a byte leaves in memory, the later ones change by the bits that their
searches set, except at their own places. -/
theorem putBytes_memory (data : Bool) (val : BitVec 32) (n : Nat) {addr : BitVec 32} {m : Machine δ}
    (h : RamPuts cfg hw data val n addr m) :
    ∃ m', putBytes cfg hw data val n addr m = .ok () m' ∧
      (∀ q ∉ putPlaces cfg hw data val n addr m,
        Memory.Raised (putBits cfg hw data val n addr m q) (m.ram q) (m'.ram q)) ∧
      ∀ i p, (putPlaces cfg hw data val n addr m)[i]? = some p →
        p ∉ (putPlaces cfg hw data val n addr m).drop (i + 1) → putBits cfg hw data val n addr m p = 0 →
        m'.ram p = (byteArg (val >>> (8 * (n - 1 - i)))).setWidth 8 := by
  induction n generalizing addr m with
  | zero => exact ⟨m, rfl, fun q _ => .refl _ _, fun i p hp => by cases hp⟩
  | succ n ih =>
    obtain ⟨m₁, hput, hram⟩ := mmuPutByte_ram h.1 (byteArg (val >>> (8 * n))) .byte
    have hrest := h.2
    simp only [putPlaces, putBits]
    rw [hput, final_ok] at hrest ⊢
    obtain ⟨m', hrun, hothers, hbytes⟩ := ih hrest
    refine ⟨m', by rw [putBytes, bind_ok hput]; exact hrun, fun q hq => ?_, fun i p hp hlater hbits => ?_⟩
    · have hfirst : m₁.ram q = (final (mmuAccess cfg hw addr m.regs.s data true m)).ram q := by
        rw [hram]; exact Function.update_of_ne (List.ne_of_not_mem_cons hq) ..
      exact (hfirst ▸ access_raised h.1 q).trans (hothers q (List.not_mem_of_not_mem_cons hq))
    · have hlaterBits := (BitVec.or_eq_zero_iff.mp hbits).2
      cases i with
      | zero =>
        cases hp
        have hkept := hothers _ hlater
        rw [hlaterBits] at hkept
        rw [hkept.eq, hram, Nat.sub_zero, Nat.add_sub_cancel]
        exact Function.update_self ..
      | succ i => rw [hbytes i p hp hlater hlaterBits, show n + 1 - 1 - (i + 1) = n - 1 - i by omega]

/-! ## Reads within a page -/

theorem add_one_ofNat (a : BitVec 32) (k : Nat) :
    a + 1 + BitVec.ofNat 32 k = a + BitVec.ofNat 32 (k + 1) := by
  rw [Nat.add_comm, ofNat_add, ← BitVec.add_assoc]
  rfl

theorem mmuGet_hit {m addr off data} (h : m.Hits addr data false off) (w : Sz)
    (read : Memory 32 → BitVec 32 → BitVec 32) (size : Sz) : mmuGet cfg hw w read addr data size m =
      .ok (read m.ram (off + addr)) { m with busLog := m.busLog ++ [.ramGet (off + addr)] } := by
  rw [mmuGet, bind_ok (get_apply m), bind_ok h.access]
  rfl

theorem mmuGet_settle {m m' addr off data} 
    (h : mmuAccess cfg hw addr m.regs.s data false m = .ok (.ram (off + addr)) m') (hregs : m'.regs = m.regs)
    (hits : m'.Hits addr data false off) (w : Sz) (read : Memory 32 → BitVec 32 → BitVec 32) (size : Sz) :
    mmuGet cfg hw w read addr data size m = mmuGet cfg hw w read addr data size m' := by
  rw [mmuGet, bind_ok (get_apply m), bind_ok h, bind_ok (get_apply m'), bind_ok hits.access, hregs]

def bytesAt (ram : Memory 32) : Nat → BitVec 32 → BitVec 32 → BitVec 32
  | 0, _, acc => acc
  | n + 1, p, acc => bytesAt ram n (p + 1) ((acc <<< 8) ||| (ram p).setWidth 32)

theorem read_eq_bytesAt (ram : Memory 32) (w : Sz) (p acc : BitVec 32) :
    (acc <<< (8 * w.bytes)) ||| w.read ram p = bytesAt ram w.bytes p acc := by
  cases w with
  | byte => rfl
  | word =>
    simp only [Sz.bytes, Sz.read, readWord, Memory.getWord, bytesAt, setWidth_append, BitVec.shiftLeft_or_distrib,
      BitVec.or_assoc, ← BitVec.shiftLeft_add]
  | long =>
    have hlong : readLong ram p = ((ram.getWord p).setWidth 32 <<< 16) ||| (ram.getWord (p + 2)).setWidth 32 := by
      rw [← setWidth_append, setWidth_eq]; rfl
    simp only [Sz.bytes, Sz.read, hlong, Memory.getWord, bytesAt, setWidth_append, BitVec.shiftLeft_or_distrib,
      BitVec.or_assoc, ← BitVec.shiftLeft_add, BitVec.add_assoc]
    rfl

variable (cfg hw) in
theorem getBytes_hit {data : Bool} {off : BitVec 32} (n : Nat) {addr : BitVec 32} (acc : BitVec 32) {m : Machine δ}
    (h : ∀ i < n, m.Hits (addr + BitVec.ofNat 32 i) data false off) :
    ∃ m', getBytes cfg hw data n addr acc m = .ok (bytesAt m.ram n (off + addr) acc) m' ∧
      m'.unlogged = m.unlogged := by
  induction n generalizing addr acc m with
  | zero => exact ⟨m, rfl, rfl⟩
  | succ n ih =>
    have h0 := h 0 (succ_pos n)
    rw [BitVec.add_zero] at h0
    have hnext (i : Nat) (hi : i < n) :
        ({ m with busLog := m.busLog ++ [.ramGet (off + addr)] } : Machine δ).Hits
          (addr + 1 + BitVec.ofNat 32 i) data false off := by
      rw [add_one_ofNat]; exact (h (i + 1) (succ_lt_succ hi)).congr rfl rfl
    obtain ⟨m', hrun, hlog⟩ := ih ((acc <<< 8) ||| (m.ram (off + addr)).setWidth 32) hnext
    refine ⟨m', ?_, hlog⟩
    rw [getBytes, mmuGetByte, bind_ok (mmuGet_hit h0 _ _ _), bytesAt, BitVec.add_assoc]; exact hrun

theorem getBytes_add (data : Bool) (k r : Nat) (addr acc : BitVec 32) :
    getBytes cfg hw data (k + r) addr acc =
      getBytes cfg hw data k addr acc >>= fun v => getBytes cfg hw data r (addr + BitVec.ofNat 32 k) v := by
  induction k generalizing addr acc with
  | zero => rw [Nat.zero_add, getBytes, pure_bind, BitVec.add_zero]
  | succ k ih => rw [succ_add]; simp only [getBytes, bind_assoc, ih, add_one_ofNat]

theorem ramGets_add {data k r addr acc v m m'}
    (h : RamGets cfg hw data (k + r) addr m) (hrun : getBytes cfg hw data k addr acc m = .ok v m') :
    RamGets cfg hw data r (addr + BitVec.ofNat 32 k) m' := by
  induction k generalizing addr acc m with
  | zero => cases hrun; rwa [Nat.zero_add, ← BitVec.add_zero addr] at h
  | succ k ih =>
    rw [succ_add] at h
    obtain ⟨b, m₁, hb, hrun⟩ := bind_ok_inv hrun
    have h' := h.2
    rw [hb, final_ok] at h'
    have := ih h' hrun; rwa [add_one_ofNat] at this

/-! ## Reads in parts -/

def total (ws : List Sz) : Nat := (ws.map Sz.bytes).sum

def InPages : List Sz → BitVec 32 → Prop
  | [], _ => True
  | w :: ws, addr =>
    (∀ i < w.bytes, SamePage4k addr (addr + BitVec.ofNat 32 i)) ∧ InPages ws (addr + BitVec.ofNat 32 w.bytes)

variable (cfg hw) in
def getParts (data : Bool) (size : Sz) : List Sz → BitVec 32 → BitVec 32 → MmuM δ (BitVec 32)
  | [], _, acc => pure acc
  | w :: ws, addr, acc => do
    let v ← mmuGet cfg hw w w.read addr data size
    getParts data size ws (addr + BitVec.ofNat 32 w.bytes) ((acc <<< (8 * w.bytes)) ||| v)

theorem Sz.bytes_pos : ∃ k, w.bytes = k + 1 := by cases w <;> exact ⟨_, rfl⟩

theorem getParts_bytewise {data} (size : Sz) {ws addr} (acc : BitVec 32)
    {m n} (hpages : InPages ws addr) (h : RamGets cfg hw data (total ws) addr m) (hmn : m.unlogged = n.unlogged) :
    ∃ v m₁ m₂, getParts cfg hw data size ws addr acc n = .ok v m₁ ∧
      getBytes cfg hw data (total ws) addr acc m = .ok v m₂ ∧ m₁.unlogged = m₂.unlogged := by
  induction ws generalizing addr acc m n with
  | nil => exact ⟨acc, n, m, rfl, rfl, hmn.symm⟩
  | cons w ws ih =>
    have htotal : total (w :: ws) = w.bytes + total ws := rfl
    rw [htotal] at h ⊢
    obtain ⟨k, hk⟩ := w.bytes_pos
    have hram : (m.access cfg hw addr m.regs.s data false).action.isRam = true := by
      rw [hk, succ_add] at h; exact h.1
    -- after the first access the page is in L1, and both read it from there
    obtain ⟨off, m₀, hacc, hregs, hits⟩ := mmuAccess_ram hram
    have hsettle := mmuGet_settle hacc hregs hits
    obtain ⟨m₂, hbytes, hlog₂⟩ := getBytes_hit cfg hw w.bytes acc
      fun i hi => hits.samePage (hpages.1 i hi)
    have hbytes' : getBytes cfg hw data w.bytes addr acc m =
        .ok (bytesAt m₀.ram w.bytes (off + addr) acc) m₂ := by
      rw [← hbytes, hk]; simp only [getBytes, mmuGetByte, bind_apply, hsettle]
    obtain ⟨n₁, hget, hlog₁⟩ := (respects_mmuGet cfg hw w w.read addr data size).ok hmn
      ((hsettle w w.read size).trans (mmuGet_hit hits w w.read size))
    obtain ⟨v, m₃, m₄, hparts, hrest, hlog⟩ := ih (bytesAt m₀.ram w.bytes (off + addr) acc) hpages.2
      (ramGets_add h hbytes') (hlog₂.trans hlog₁)
    refine ⟨v, m₃, m₄, ?_, ?_, hlog⟩
    · rw [getParts, bind_ok hget, read_eq_bytesAt]; exact hparts
    · rw [getBytes_add, bind_ok hbytes']; exact hrest

/-! ## Writes within a page -/

theorem mmuPut_hit {m addr off data} (h : m.Hits addr data true off) (w : Sz)
    (store : Memory 32 → BitVec 32 → BitVec 32 → Memory 32) (val : BitVec 32) (size : Sz) :
    mmuPut cfg hw w store addr val data size m =
      .ok () { m with ram := store m.ram (off + addr) val, busLog := m.busLog ++ [.ramPut (off + addr)] } := by
  rw [mmuPut, bind_ok (get_apply m), bind_ok h.access]
  rfl

theorem mmuPut_settle {m m' addr off data}
    (h : mmuAccess cfg hw addr m.regs.s data true m = .ok (.ram (off + addr)) m') (hregs : m'.regs = m.regs)
    (hits : m'.Hits addr data true off) (w : Sz) (store : Memory 32 → BitVec 32 → BitVec 32 → Memory 32)
    (val : BitVec 32) (size : Sz) :
    mmuPut cfg hw w store addr val data size m = mmuPut cfg hw w store addr val data size m' := by
  rw [mmuPut, bind_ok (get_apply m), bind_ok h, bind_ok (get_apply m'), bind_ok hits.access, hregs]

def storeBytes (val : BitVec 32) : Nat → BitVec 32 → Memory 32 → Memory 32
  | 0, _, ram => ram
  | n + 1, p, ram => storeBytes val n (p + 1) (storeByte ram p (byteArg (val >>> (8 * n))))

def Sz.arg : Sz → BitVec 32 → BitVec 32
  | .byte => byteArg
  | .word => wordArg
  | .long => id

theorem setWidth_and_mask (k : Nat) {n mask}
    (hmask : ∀ i < n, mask.getLsbD i = true) : ((v >>> k) &&& mask).setWidth n = v.extractLsb' k n := by
  apply eq_of_getLsbD_eq
  intro i hi
  simp only [getLsbD_setWidth, getLsbD_and, getLsbD_ushiftRight, hmask i hi, hi,
    getLsbD_extractLsb', decide_true, Bool.true_and, Bool.and_true]

theorem setWidth_byteArg (k : Nat) : (byteArg (v >>> k)).setWidth 8 = v.extractLsb' k 8 :=
  setWidth_and_mask v k (by decide)

theorem setWidth_wordArg : (wordArg v).setWidth 16 = v.extractLsb' 0 16 := by
  have h := setWidth_and_mask v 0 (by decide : ∀ i < 16, (0xffff : BitVec 32).getLsbD i = true)
  rwa [ushiftRight_zero] at h

theorem extractLsb'_byte {a b k} (h : k + 8 ≤ b) :
    (v.extractLsb' a b).extractLsb' k 8 = v.extractLsb' (a + k) 8 := by
  apply eq_of_getLsbD_eq
  intro i hi
  have hb : k + i < b := by omega
  simp only [getLsbD_extractLsb', hi, hb, decide_true, Bool.true_and, Nat.add_assoc]

theorem store_eq_storeBytes (val p : BitVec 32) (ram : Memory 32) :
    w.store ram p (w.arg val) = storeBytes val w.bytes p ram := by
  cases w with
  | byte => rw [Sz.store, Sz.arg, Sz.bytes, storeBytes, Nat.mul_zero, ushiftRight_zero, storeBytes]
  | word =>
    simp only [Sz.store, Sz.arg, Sz.bytes, storeBytes, storeWord, storeByte, Memory.putWord, setWidth_wordArg,
      setWidth_byteArg]
    rw [extractLsb'_byte _ (by decide), extractLsb'_byte _ (by decide)]
  | long =>
    simp only [Sz.store, Sz.arg, Sz.bytes, storeBytes, storeLong, storeByte, Memory.putLong, Memory.putWord,
      setWidth_byteArg, id]
    rw [extractLsb'_byte _ (by decide), extractLsb'_byte _ (by decide), extractLsb'_byte _ (by decide),
      extractLsb'_byte _ (by decide)]
    simp only [BitVec.add_assoc]; rfl

variable (cfg hw) in
theorem putBytes_hit {data : Bool} {off : BitVec 32} (val : BitVec 32) (n : Nat) {addr : BitVec 32} {m : Machine δ}
    (h : ∀ i < n, m.Hits (addr + BitVec.ofNat 32 i) data true off) :
    ∃ m', putBytes cfg hw data val n addr m = .ok () m' ∧
      m'.unlogged = { m with ram := storeBytes val n (off + addr) m.ram }.unlogged := by
  induction n generalizing addr m with
  | zero => exact ⟨m, rfl, rfl⟩
  | succ n ih =>
    have h0 := h 0 (succ_pos n)
    rw [BitVec.add_zero] at h0
    have hnext (i : Nat) (hi : i < n) :
        ({ m with
          ram := storeByte m.ram (off + addr) (byteArg (val >>> (8 * n)))
          busLog := m.busLog ++ [.ramPut (off + addr)] } : Machine δ).Hits
          (addr + 1 + BitVec.ofNat 32 i) data true off := by
      rw [add_one_ofNat]; exact (h (i + 1) (succ_lt_succ hi)).congr rfl rfl
    obtain ⟨m', hrun, hlog⟩ := ih hnext
    refine ⟨m', ?_, ?_⟩
    · rw [putBytes, mmuPutByte, bind_ok (mmuPut_hit h0 _ _ _ _)]; exact hrun
    · rw [hlog, storeBytes, BitVec.add_assoc]; rfl

theorem putBytes_add (data : Bool) (val : BitVec 32) (k r : Nat) (addr : BitVec 32) :
    putBytes cfg hw data val (k + r) addr = putBytes cfg hw data (val >>> (8 * r)) k addr >>= fun _ =>
        putBytes cfg hw data val r (addr + BitVec.ofNat 32 k) := by
  induction k generalizing addr with
  | zero => rw [Nat.zero_add, putBytes, pure_bind, BitVec.add_zero]
  | succ k ih =>
    rw [succ_add]
    simp only [putBytes, bind_assoc, ih, add_one_ofNat, ← BitVec.shiftRight_add]
    rw [← Nat.mul_add, Nat.add_comm k r]

theorem ramPuts_add {data val k r addr m m'} (h : RamPuts cfg hw data val (k + r) addr m)
    (hrun : putBytes cfg hw data (val >>> (8 * r)) k addr m = .ok () m') :
    RamPuts cfg hw data val r (addr + BitVec.ofNat 32 k) m' := by
  induction k generalizing addr m with
  | zero => cases hrun; rwa [Nat.zero_add, ← BitVec.add_zero addr] at h
  | succ k ih =>
    rw [succ_add] at h
    obtain ⟨_, m₁, hb, hrun⟩ := bind_ok_inv hrun
    rw [← BitVec.shiftRight_add, ← Nat.mul_add, Nat.add_comm r k] at hb
    have h' := h.2
    rw [hb, final_ok] at h'
    have := ih h' hrun; rwa [add_one_ofNat] at this

/-! ## Writes in parts -/

variable (cfg hw) in
def putParts (data : Bool) (size : Sz) (val : BitVec 32) : List Sz → BitVec 32 → MmuM δ Unit
  | [], _ => pure ()
  | w :: ws, addr => do
    mmuPut cfg hw w w.store addr (w.arg (val >>> (8 * total ws))) data size
    putParts data size val ws (addr + BitVec.ofNat 32 w.bytes)

theorem putParts_bytewise {data} (size : Sz) {val ws addr m n} (hpages : InPages ws addr)
    (h : RamPuts cfg hw data val (total ws) addr m) (hmn : m.unlogged = n.unlogged) : ∃ m₁ m₂, putParts cfg hw data size val ws addr n = .ok () m₁ ∧
      putBytes cfg hw data val (total ws) addr m = .ok () m₂ ∧ m₁.unlogged = m₂.unlogged := by
  induction ws generalizing addr m n with
  | nil => exact ⟨n, m, rfl, rfl, hmn.symm⟩
  | cons w ws ih =>
    have htotal : total (w :: ws) = w.bytes + total ws := rfl
    rw [htotal] at h ⊢
    obtain ⟨k, hk⟩ := w.bytes_pos
    have hram : (m.access cfg hw addr m.regs.s data true).action.isRam = true := by
      rw [hk, succ_add] at h; exact h.1
    obtain ⟨off, m₀, hacc, hregs, hits⟩ := mmuAccess_ram hram
    have hsettle := mmuPut_settle hacc hregs hits
    obtain ⟨m₂, hbytes, hlog₂⟩ := putBytes_hit cfg hw (val >>> (8 * total ws)) w.bytes
      fun i hi => hits.samePage (hpages.1 i hi)
    have hbytes' : putBytes cfg hw data (val >>> (8 * total ws)) w.bytes addr m = .ok () m₂ := by
      rw [← hbytes, hk]; simp only [putBytes, mmuPutByte, bind_apply, hsettle]
    obtain ⟨n₁, hput, hlog₁⟩ :=
      (respects_mmuPut cfg hw w w.store addr (w.arg (val >>> (8 * total ws))) data size).ok hmn
        ((hsettle w w.store _ size).trans (mmuPut_hit hits w w.store _ size))
    rw [store_eq_storeBytes] at hlog₁
    obtain ⟨m₃, m₄, hparts, hrest, hlog⟩ := ih hpages.2 (ramPuts_add h hbytes') (hlog₂.trans hlog₁)
    refine ⟨m₃, m₄, ?_, ?_, hlog⟩
    · rw [putParts, bind_ok hput]; exact hparts
    · rw [putBytes_add, bind_ok hbytes']; exact hrest

/-! ## Where operands cross a page -/

theorem xor_page_bit (a b : BitVec 32) :
    (a ^^^ b) &&& 0x1000 = 0 ↔ a.toNat / 4096 % 2 = b.toNat / 4096 % 2 := by
  have hbit (x : BitVec 32) : x.getLsbD 12 = decide (x.toNat / 4096 % 2 = 1) := by
    rw [getLsbD, testBit_eq_decide_div_mod_eq]
  rw [show (0x1000 : BitVec 32) = twoPow 32 12 from rfl, and_twoPow_eq_zero_iff _ (by decide),
    getLsbD_xor, hbit, hbit, bne_eq_false_iff_eq, decide_eq_decide]
  omega

theorem and_low (addr : BitVec 32) (k : Nat) (mask : BitVec 32) (hmask : mask.toNat = 2 ^ k - 1) :
    addr &&& mask = 0 ↔ addr.toNat % 2 ^ k = 0 := by
  rw [← toNat_inj, toNat_and, hmask, and_two_pow_sub_one_eq_mod]
  exact Iff.rfl

theorem isUnaligned_iff (addr : BitVec 32) : (isUnaligned addr 2 = true ↔ ¬SamePage4k addr (addr + 1)) ∧
    (isUnaligned addr 4 = true ↔ ¬SamePage4k addr (addr + 3)) := by
  have hword : addr + 2 - 1 = addr + 1 := add_sub_assoc addr _ _
  have hlong : addr + 4 - 1 = addr + 3 := add_sub_assoc addr _ _
  have := addr.isLt
  simp only [isUnaligned, hword, hlong, Bool.and_eq_true, bne_iff_ne, ne_eq, and_low addr 1 (2 - 1) rfl,
    and_low addr 2 (4 - 1) rfl, xor_page_bit, samePage4k_iff, BitVec.toNat_add, show (1 : BitVec 32).toNat = 1 from rfl,
    show (3 : BitVec 32).toNat = 3 from rfl]
  omega

theorem samePage_even {addr} (h : addr &&& 1 = 0) : SamePage4k addr (addr + 1) := by
  have := addr.isLt
  rw [and_low addr 1 1 rfl] at h
  simp only [samePage4k_iff, toNat_add, show (1 : BitVec 32).toNat = 1 from rfl]
  omega

theorem inPages_byte (addr : BitVec 32) {ws} (h : InPages ws (addr + 1)) : InPages (.byte :: ws) addr := by
  refine ⟨fun i hi => ?_, h⟩
  rw [lt_one_iff.mp hi, BitVec.add_zero]
  exact SamePage4k.refl addr

theorem samePage_within {addr k} (hk : k ≤ 3) (h : SamePage4k addr (addr + BitVec.ofNat 32 k))
    (i : Nat) (hi : i < k + 1) : SamePage4k addr (addr + BitVec.ofNat 32 i) := by
  refine h.of_le ?_ ?_
  · rw [BitVec.le_def, toNat_ofNat, toNat_ofNat]; omega
  · rw [BitVec.le_def, toNat_ofNat, show (3 : BitVec 32).toNat = 3 from rfl]; omega

theorem inPages_word {addr} (hpage : SamePage4k addr (addr + 1)) {ws}
    (h : InPages ws (addr + 2)) : InPages (.word :: ws) addr := ⟨samePage_within (by decide) hpage, h⟩

theorem inPages_long {addr} (hpage : SamePage4k addr (addr + 3)) : InPages [.long] addr :=
  ⟨samePage_within (by decide) hpage, trivial⟩

def partsOf (addr : BitVec 32) : List Sz :=
  match w with
  | .byte => [.byte]
  | .word => if isUnaligned addr 2 then [.byte, .byte] else [.word]
  | .long =>
    if isUnaligned addr 4 then if addr &&& 1 = 0 then [.word, .word] else [.byte, .byte, .byte, .byte]
    else [.long]

theorem total_partsOf (addr : BitVec 32) : total (partsOf w addr) = w.bytes := by
  unfold partsOf
  cases w with
  | byte => rfl
  | word => dsimp only; split <;> rfl
  | long =>
    dsimp only
    split
    · split <;> rfl
    · rfl

theorem inPages_partsOf (addr : BitVec 32) : InPages (partsOf w addr) addr := by
  unfold partsOf
  cases w with
  | byte => exact inPages_byte addr trivial
  | word =>
    dsimp only
    split
    · exact inPages_byte addr (inPages_byte _ trivial)
    · next h => exact inPages_word (not_not.mp (mt (isUnaligned_iff addr).1.mpr h)) trivial
  | long =>
    dsimp only
    split
    · split
      · next heven =>
        have heven' : addr + 2 &&& 1 = 0 := by
          rw [and_low _ 1 1 rfl] at heven ⊢
          rw [toNat_add, show (2 : BitVec 32).toNat = 2 from rfl]; omega
        exact inPages_word (samePage_even heven) (inPages_word (samePage_even heven') trivial)
      · exact inPages_byte addr (inPages_byte _ (inPages_byte _ (inPages_byte _ trivial)))
    · next h => exact inPages_long (not_not.mp (mt (isUnaligned_iff addr).2.mpr h))

/-! ## The accessors -/

theorem catchGet_ok {α : Type} {addr} {f : MmuM δ α} {m m' : Machine δ} {v : α}
    (h : f m = .ok v m') : catchGet addr f m = .ok v m' := by rw [catchGet, tryCatch_apply, h]

theorem catchPut_ok {addr val} {f : MmuM δ Unit} {m m' : Machine δ} (h : f m = .ok () m') :
    catchPut addr val f m = .ok () m' := by rw [catchPut, tryCatch_apply, h]

theorem getOperand_of_parts {w} {addr v : BitVec 32} {data : Bool} {m m' : Machine δ}
    (h : getParts cfg hw data w (partsOf w addr) addr 0 m = .ok v m') :
    getOperand cfg hw data w addr m = .ok v m' := by
  have hzero (k : Nat) (x : BitVec 32) : ((0 : BitVec 32) <<< k) ||| x = x := by simp
  unfold partsOf at h
  cases w with
  | byte => simp only [getParts, Sz.bytes, hzero, bind_pure] at h; exact h
  | word =>
    simp only [getOperand, getWord]
    dsimp only at h
    split at h
    · next hu =>
      rw [if_pos hu]
      simp only [getParts, Sz.bytes, hzero] at h
      obtain ⟨b₀, m₀, h₀, h⟩ := bind_ok_inv h; exact (bind_ok h₀).trans (catchGet_ok h)
    · next hu => rw [if_neg hu]; simp only [getParts, Sz.bytes, hzero, bind_pure] at h; exact h
  | long =>
    simp only [getOperand, getLong]
    dsimp only at h
    split at h
    · next hu =>
      rw [if_pos hu, mmuGetLongUnaligned, getLongUnaligned]
      split at h
      · next heven =>
        rw [if_pos heven]
        simp only [getParts, Sz.bytes, hzero] at h
        obtain ⟨b₀, m₀, h₀, h⟩ := bind_ok_inv h; exact (bind_ok h₀).trans (catchGet_ok h)
      · next hodd =>
        rw [if_neg hodd]
        simp only [getParts, Sz.bytes, hzero, BitVec.add_assoc, BitVec.reduceAdd] at h
        obtain ⟨b₀, m₀, h₀, h⟩ := bind_ok_inv h; exact (bind_ok h₀).trans (catchGet_ok h)
    · next hu => rw [if_neg hu]; simp only [getParts, Sz.bytes, hzero, bind_pure] at h; exact h

theorem wordArg_eq_setWidth : (v.setWidth 16).setWidth 32 = wordArg v := by
  have hmask : ∀ i < 32, (0xffff : BitVec 32).getLsbD i = decide (i < 16) := by decide
  apply eq_of_getLsbD_eq
  intro i hi
  rw [wordArg, getLsbD_and, hmask i hi, getLsbD_setWidth, getLsbD_setWidth]
  simp only [hi, decide_true, Bool.true_and]
  exact Bool.and_comm _ _

theorem byteArg_wordArg {k} (hk : k ≤ 8) : byteArg (wordArg v >>> k) = byteArg (v >>> k) := by
  have hbyte : ∀ i < 32, (0xff : BitVec 32).getLsbD i = decide (i < 8) := by decide
  have hword : ∀ i < 32, (0xffff : BitVec 32).getLsbD i = decide (i < 16) := by decide
  apply eq_of_getLsbD_eq
  intro i hi
  simp only [byteArg, wordArg, getLsbD_and, getLsbD_ushiftRight, hbyte i hi]
  by_cases h8 : i < 8
  · rw [hword _ (by omega), decide_eq_true (by omega : k + i < 16), Bool.and_true]
  · simp only [h8, decide_false, Bool.and_false]

theorem putOperand_of_parts {w} {addr val : BitVec 32} {data : Bool} {m m' : Machine δ}
    (h : putParts cfg hw data w val (partsOf w addr) addr m = .ok () m') :
    putOperand cfg hw data w addr val m = .ok () m' := by
  have htotal : total [] = 0 := rfl
  have htotal₁ (w : Sz) : total [w] = w.bytes := rfl
  have htotal₂ : total [.byte, .byte] = 2 := rfl
  have htotal₃ : total [.byte, .byte, .byte] = 3 := rfl
  unfold partsOf at h
  cases w with
  | byte => simp only [putParts, htotal, Nat.mul_zero, ushiftRight_zero, bind_pure_unit] at h; exact h
  | word =>
    simp only [putOperand, putWord, mmuPutWordUnaligned, putWordBytes, wordArg_eq_setWidth,
      byteArg_wordArg val (Nat.le_refl 8)]
    dsimp only at h
    split at h
    · next hu =>
      have hlow := byteArg_wordArg val (Nat.zero_le 8)
      rw [ushiftRight_zero, ushiftRight_zero] at hlow
      rw [if_pos hu, hlow]
      simp only [putParts, htotal, htotal₁, Sz.bytes, Nat.mul_zero, ushiftRight_zero, bind_pure_unit] at h
      exact catchPut_ok h
    · next hu =>
      rw [if_neg hu]
      simp only [putParts, htotal, Nat.mul_zero, ushiftRight_zero, bind_pure_unit] at h
      exact h
  | long =>
    simp only [putOperand, putLong, mmuPutLongUnaligned, putLongParts]
    dsimp only at h
    split at h
    · next hu =>
      rw [if_pos hu]
      split at h
      · next heven =>
        rw [if_pos heven]
        simp only [putParts, htotal, htotal₁, Sz.bytes, Nat.mul_zero, ushiftRight_zero,
          bind_pure_unit] at h
        exact catchPut_ok h
      · next hodd =>
        rw [if_neg hodd]
        simp only [putParts, htotal, htotal₁, htotal₂, htotal₃, Sz.bytes, Nat.mul_zero, ushiftRight_zero,
          bind_pure_unit, BitVec.add_assoc, BitVec.reduceAdd] at h
        exact catchPut_ok h
    · next hu =>
      rw [if_neg hu]
      simp only [putParts, htotal, Nat.mul_zero, ushiftRight_zero, bind_pure_unit] at h
      exact h

theorem setWidth_setWidth_byteArg : ((byteArg v).setWidth 8).setWidth 32 = byteArg v := by
  have hbyte : ∀ i < 32, (0xff : BitVec 32).getLsbD i = decide (i < 8) := by decide
  apply eq_of_getLsbD_eq
  intro i hi
  rw [getLsbD_setWidth, getLsbD_setWidth, byteArg, getLsbD_and, hbyte i hi]
  by_cases h8 : i < 8 <;> simp [hi, h8]

end Aranym.Mmu
