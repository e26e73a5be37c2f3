import Aranym.Jit.Lemmas.Values
import Aranym.Lib.Slots

/-!
# The allocator keeps its tables

`Consistent` is the invariant of `live`.
-/

namespace Aranym.Jit

open Aranym.Lib Function

variable {H : Host} {l l' l₁ l₂ : Live H} {r q : VReg} {n rr : Fin H.nRegs} {E : Abort → Prop}

variable (st : RegStatus H) (f : RegStatus H → RegStatus H)

def Live.slots (l : Live H) : Slots (Fin H.nRegs) VReg where
  slot := fun n => (l.nat n).holds
  size := fun n => (l.nat n).nholds
  loc := fun r => (l.state r).realreg.map fun n => (n, (l.state r).realind)

theorem container_slots : l.slots.container r = (l.state r).realreg := by
  simp only [Slots.container, Live.slots, Option.map_map]
  exact Option.map_id'

structure Sizes (st : RegStatus H) : Prop where
  valid : st.validsize = 1 ∨ st.validsize = 2 ∨ st.validsize = 4
  dirty : st.dirtysize = 0 ∨ st.dirtysize = 1 ∨ st.dirtysize = 2 ∨ st.dirtysize = 4
  le : st.dirtysize ≤ st.validsize
  of_dirty : st.status = .dirty → st.dirtysize ≠ 0

def InReg : Prop := st.status = .clean ∨ st.status = .dirty

theorem isinreg_iff : l.isinreg r = true ↔ InReg (l.state r) := by simp [Live.isinreg, InReg]

structure Placed (nat : Fin H.nRegs → NStatus) (st : RegStatus H) : Prop where
  inreg : InReg st ↔ st.realreg.isSome = true
  sizes : ∀ n, st.realreg = some n → Sizes st
  shared : ∀ n, st.realreg = some n → (nat n).nholds ≠ 1 → st.validsize = 4

structure Consistent (l : Live H) : Prop where
  slots : l.slots.Valid
  placed : ∀ r, Placed l.nat (l.state r)
  touched : ∀ n, (l.nat n).touched < l.touchcnt

namespace Consistent

theorem inreg (hc : Consistent l) (hr : (l.state r).realreg = some n) : InReg (l.state r) := by
  rw [(hc.placed r).inreg, hr]
  rfl

theorem exists_realreg (hc : Consistent l) (hr : l.isinreg r = true) : ∃ n, (l.state r).realreg = some n := by
  rw [isinreg_iff, (hc.placed r).inreg] at hr
  exact Option.isSome_iff_exists.mp hr

theorem ne_isconst (hc : Consistent l) (hr : (l.state r).realreg = some n) :
    (l.state r).status ≠ .isconst := by rcases hc.inreg hr with hs | hs <;> rw [hs] <;> simp

theorem realreg_none (hc : Consistent l) (hr : ¬l.isinreg r = true) : (l.state r).realreg = none := by
  rw [isinreg_iff, (hc.placed r).inreg] at hr
  simpa using hr

theorem not_inreg (hc : Consistent l) (hr : (l.state r).realreg = none) : ¬InReg (l.state r) := by
  rw [(hc.placed r).inreg, hr]
  simp

theorem nholds_pos (hc : Consistent l) (hr : (l.state r).realreg = some n) : 0 < (l.nat n).nholds :=
  hc.slots.size_pos (container_slots.trans hr)

theorem eq_of_nholds (hc : Consistent l) (hn : (l.nat n).nholds = 1)
    (hr : (l.state r).realreg = some n) (hq : (l.state q).realreg = some n) : r = q :=
  hc.slots.eq_of_size_one hn (container_slots.trans hr) (container_slots.trans hq)

theorem realreg_ne_of_free (hc : Consistent l) (hn : (l.nat n).nholds = 0) :
    (l.state r).realreg ≠ some n := by
  intro hr
  have h := hc.nholds_pos hr
  omega

end Consistent

def Pinned (l : Live H) (r : VReg) : Prop :=
  ∃ n, (l.state r).realreg = some n ∧ (l.nat n).locked ≠ 0 ∧ (l.nat n).nholds = 1

def Quiet : Prop := InReg st → st.val = 0 ∧ st.status = .clean

def Calm : Prop := st.val = 0 ∧ (st.status = .inmem ∨ st.status = .clean)

structure Kept (k : Nat) (l l' : Live H) : Prop where
  locked : ∀ n, (l'.nat n).locked = (l.nat n).locked
  touchcnt : l'.touchcnt ≤ l.touchcnt + k
  held : ∀ n, (l.nat n).locked ≠ 0 → (0 < (l'.nat n).nholds ↔ 0 < (l.nat n).nholds)
  needflush : ∀ q, (l'.state q).needflush = (l.state q).needflush
  flagsOnStack : l'.flagsOnStack = l.flagsOnStack
  m68kPcOffset : l'.m68kPcOffset = l.m68kPcOffset

theorem Kept.trans {j k} (h₁ : Kept k l l₁) (h₂ : Kept j l₁ l₂) : Kept (k + j) l l₂ where
  locked := fun n => (h₂.locked n).trans (h₁.locked n)
  touchcnt := by
    have := h₁.touchcnt
    have := h₂.touchcnt; omega
  held := fun n hn => (h₂.held n (by rwa [h₁.locked n])).trans (h₁.held n hn)
  needflush := fun q => (h₂.needflush q).trans (h₁.needflush q)
  flagsOnStack := h₂.flagsOnStack.trans h₁.flagsOnStack
  m68kPcOffset := h₂.m68kPcOffset.trans h₁.m68kPcOffset

structure Moved (r : VReg) (k : Nat) (l l' : Live H) : Prop extends Kept k l l' where
  calm : ∀ q, q ≠ r → Calm (l.state q) → Calm (l'.state q)
  outside : ∀ q, q ≠ r → (l.state q).realreg = none →
    l'.state q = { l.state q with realind := (l'.state q).realind }

theorem Moved.trans {j k} (h₁ : Moved r k l l₁) (h₂ : Moved r j l₁ l₂) : Moved r (k + j) l l₂ where
  toKept := h₁.toKept.trans h₂.toKept
  calm := fun q hq hcalm => h₂.calm q hq (h₁.calm q hq hcalm)
  outside := fun q hq hnone => by
    have hst := h₁.outside q hq hnone
    rw [h₂.outside q hq (by rw [hst]; exact hnone), hst]

theorem Moved.refl (r : VReg) (k : Nat) (l : Live H) : Moved r k l l where
  locked := fun _ => rfl
  touchcnt := Nat.le_add_right ..
  held := fun _ _ => .rfl
  calm := fun _ _ h => h
  outside := fun _ _ _ => rfl
  needflush := fun _ => rfl
  flagsOnStack := rfl
  m68kPcOffset := rfl

/-! ## Updates -/

theorem state_setState : (l.setState r f).state q = if q = r then f (l.state r) else l.state q := by
  simp only [Live.setState, update_apply]

@[simp] theorem state_setState_self : (l.setState r f).state r = f (l.state r) := by
  rw [state_setState, if_pos rfl]

@[simp] theorem nat_setState : (l.setState r f).nat = l.nat := rfl

theorem nat_setNat (f : NStatus → NStatus) (k : Fin H.nRegs) :
    (l.setNat n f).nat k = if k = n then f (l.nat n) else l.nat k := by simp only [Live.setNat, update_apply]

theorem Consistent.setState {f t} (hc : Consistent l) (hreg : (f (l.state r)).realreg = (l.state r).realreg)
    (hind : (f (l.state r)).realind = (l.state r).realind)
    (hf : Placed l.nat (f (l.state r))) : Consistent { l.setState r f with target := t } where
  slots := by
    have heq : (l.setState r f).slots = l.slots := by
      unfold Live.slots
      simp only [nat_setState, Slots.mk.injEq, true_and]
      funext q
      rw [state_setState]
      split
      · next h => rw [hreg, hind, h]
      · rfl
    exact heq ▸ hc.slots
  placed := by
    intro q
    change Placed l.nat ((l.setState r f).state q)
    rw [state_setState]
    split
    · exact hf
    · exact hc.placed q
  touched := hc.touched

theorem Consistent.setNat {f touchcnt} (hc : Consistent l)
    (hf : (f (l.nat n)).holds = (l.nat n).holds ∧ (f (l.nat n)).nholds = (l.nat n).nholds)
    (htouched : ∀ k, ((l.setNat n f).nat k).touched < touchcnt) :
    Consistent { l.setNat n f with touchcnt := touchcnt } := by
  have hnat : ∀ k, ((l.setNat n f).nat k).holds = (l.nat k).holds ∧ ((l.setNat n f).nat k).nholds = (l.nat k).nholds := by
    intro k
    rw [nat_setNat]
    split
    · next hk => rw [hk, hf.1, hf.2]; exact ⟨rfl, rfl⟩
    · exact ⟨rfl, rfl⟩
  have heq : (l.setNat n f).slots = l.slots := by
    unfold Live.slots
    rw [Slots.mk.injEq]; exact ⟨funext fun k => (hnat k).1, funext fun k => (hnat k).2, rfl⟩
  refine ⟨heq ▸ hc.slots, fun q => ⟨(hc.placed q).inreg, (hc.placed q).sizes, fun k hk hne => ?_⟩, htouched⟩
  exact (hc.placed q).shared k hk ((hnat k).2 ▸ hne)

theorem Moved.setState {f t p} (hneed : (f (l.state r)).needflush = (l.state r).needflush)
    (hp : p = r ∨ (l.state r).realreg ≠ none ∧ (Calm (l.state r) → Calm (f (l.state r)))) :
    Moved p 0 l { l.setState r f with target := t } := by
  have hst : ∀ q, ({ l.setState r f with target := t } : Live H).state q = if q = r then f (l.state r) else l.state q :=
    fun _ => state_setState f
  refine ⟨⟨fun _ => rfl, le_refl _, fun _ _ => .rfl, fun q => ?_, rfl, rfl⟩, fun q hq hcalm => ?_, fun q hq hnone => ?_⟩
  all_goals
    rw [hst]
    split
  · next h => rw [h, hneed]
  · rfl
  · next h => subst h; exact (hp.resolve_left (Ne.symm hq)).2 hcalm
  · exact hcalm
  · next h => subst h; exact absurd hnone (hp.resolve_left (Ne.symm hq)).1
  · rfl

theorem moved_setState {f} (hneed : (f (l.state r)).needflush = (l.state r).needflush) :
    Moved r 0 l (l.setState r f) := .setState (t := l.target) hneed (.inl rfl)

/-! ## Writing back -/

theorem realreg_ends {Q} (hr : (l.state r).realreg = some n) (hQ : Q n l) : Ends E (realreg r) l Q := by
  refine .get_bind ?_
  rw [hr]
  exact .pure hQ

structure Stored (r : VReg) (l l' : Live H) : Prop where
  consistent : Consistent l'
  sim : Sim (fun q => Quiet (l.state q)) id l l'
  nat : l'.nat = l.nat
  others : ∀ q, q ≠ r → l'.state q = l.state q
  state : l'.state r
    = { l.state r with val := (l'.state r).val, status := .clean, dirtysize := (l'.state r).dirtysize }
  val : (l.state r).val = 0 → (l'.state r).val = 0
  touchcnt : l'.touchcnt = l.touchcnt
  flagsOnStack : l'.flagsOnStack = l.flagsOnStack
  m68kPcOffset : l'.m68kPcOffset = l.m68kPcOffset

theorem Stored.moved (h : Stored r l l') (hr : (l.state r).realreg = some n) (p : VReg) : Moved p 0 l l' where
  locked := fun _ => by rw [h.nat]
  touchcnt := h.touchcnt.le
  held := fun _ _ => by rw [h.nat]
  calm := by
    intro q _ hcalm
    by_cases hq : q = r
    · subst hq; exact ⟨h.val hcalm.1, .inr (by rw [h.state])⟩
    · rwa [h.others q hq]
  outside := by
    intro q _ hnone
    have hq : q ≠ r := by rintro rfl; rw [hr] at hnone; cases hnone
    rw [h.others q hq]
  needflush := by
    intro q
    by_cases hq : q = r
    · rw [hq, h.state]
    · rw [h.others q hq]
  flagsOnStack := h.flagsOnStack
  m68kPcOffset := h.m68kPcOffset

def Live.adjusted (l : Live H) (r : VReg) (n : Fin H.nRegs) : Live H :=
  { l.setState r fun st => { st with val := 0, dirtysize := 4, status := .dirty } with
    target := l.target ++ [.leaLBrr n n (l.state r).val] }

theorem repAt_of_ne {st m w x}
    (h : RepAt st m r w) (hne : st.realreg ≠ some n) : RepAt st (m.setNat n x) r w := by
  refine h.congr rfl rfl fun k hk => ?_
  have hkn : k ≠ n := by rintro rfl; exact hne hk
  exact update_of_ne hkn ..

theorem sim_adjusted {K} (hc : Consistent l) (hr : (l.state r).realreg = some n)
    (hval : (l.state r).val ≠ 0) (hn : (l.nat n).nholds = 1) (hlock : (l.nat n).locked = 0) :
    Sim K id l (l.adjusted r n) := by
  refine .of_emit rfl (fun v m hm => ⟨_, rfl, fun q => ?_, fun k hk => ?_, fun _ _ => rfl⟩) fun v hv => hv
  · by_cases hq : q = r
    · subst hq
      have hrep := (repAt_inreg (hc.inreg hr) hr).mp (hm.at_reg q)
      have hvalid := hrep.2.2.1 hval
      have hagree := hrep.1
      rw [hvalid, part_four] at hagree
      refine (repAt_inreg (n := n) ?_ ?_).mpr ?_
      · exact .inr (by simp [Live.adjusted])
      · simpa [Live.adjusted] using hr
      · simpa [Live.adjusted, Machine.setNat, hvalid] using hagree
    · have hst : (l.adjusted r n).state q = l.state q := by simp [Live.adjusted, state_setState, hq]
      rw [hst]; exact repAt_of_ne (hm.at_reg q) fun hqn => hq (hc.eq_of_nholds hn hqn hr)
  · have hkn : k ≠ n := by rintro rfl; exact hk hlock
    exact update_of_ne hkn ..

def Live.stored (l : Live H) (r : VReg) (op : Raw H) : Live H :=
  { l.setState r fun st => { st with status := .clean, dirtysize := 0 } with
    target := l.target ++ [op] }

def storeOp (r : VReg) (n : Fin H.nRegs) (size : Nat) : Raw H :=
  match size with
  | 1 => .movBMr r n
  | 2 => .movWMr r n
  | _ => .movLMr r n

theorem storePart_ends {size Q} (hsize : Width size)
    (hQ : Q () { l with target := l.target ++ [storeOp r n size] }) :
    Ends E (storePart r n size) l Q := by
  rcases hsize with rfl | rfl | rfl <;> exact .modify hQ

theorem exec_storeOp {size m} (hsize : Width size)
    (hbyte : size = 1 → H.canByte n) (hword : size = 2 → H.canWord n) :
    (storeOp r n size).exec m = some (m.setMem r (part size (m.nat n) (m.mem r))) := by
  rcases hsize with rfl | rfl | rfl
  · simp [storeOp, Raw.exec, hbyte rfl]
  · simp [storeOp, Raw.exec, hword rfl]
  · simp [storeOp, Raw.exec]

theorem sim_stored (hr : (l.state r).realreg = some n) (hs : (l.state r).status = .dirty)
    (hsize : (l.state r).dirtysize = 1 ∨ (l.state r).dirtysize = 2 ∨ (l.state r).dirtysize = 4)
    (hle : (l.state r).dirtysize ≤ (l.state r).validsize) :
    Sim (fun q => q ≠ r) id l (l.stored r (storeOp r n (l.state r).dirtysize)) := by
  refine .of_emit rfl (fun v m hm => ?_) fun v hv => hv
  obtain ⟨hvalid, hdirty, hval, hbyte, hword, -⟩ := (repAt_inreg (.inr hs) hr).mp (hm.at_reg r)
  refine ⟨_, exec_storeOp hsize hbyte hword, fun q => ?_, fun _ _ => rfl,
    fun q hq => update_of_ne hq ..⟩
  by_cases hq : q = r
  · subst hq
    refine (repAt_inreg (n := n) ?_ ?_).mpr ?_
    · exact .inl (by simp [Live.stored])
    · simpa [Live.stored] using hr
    · simp only [Live.stored, state_setState_self, Machine.setMem, update_self, part_zero,
        part_part_of_le hle]
      exact ⟨hvalid, hdirty, hval, by simp, by simp, fun _ => trivial⟩
  · have hst : (l.stored r (storeOp r n (l.state r).dirtysize)).state q = l.state q := by
      simp [Live.stored, state_setState, hq]
    rw [hst]; exact (hm.at_reg q).congr rfl (update_of_ne hq ..) fun _ _ => rfl

theorem Placed.clean {nat st size} (h : Placed nat st)
    (hr : st.realreg = some n) (hsize : size = 0 ∨ size = st.dirtysize) (val : BitVec 32) :
    Placed nat { st with val := val, status := .clean, dirtysize := size } where
  inreg := by simp [InReg, hr]
  sizes := by
    intro k hk
    have hs := h.sizes k hk
    rcases hsize with rfl | rfl
    · exact ⟨hs.valid, .inl rfl, Nat.zero_le _, by simp⟩
    · exact ⟨hs.valid, hs.dirty, hs.le, by simp⟩
  shared := h.shared

theorem adjustNreg_ends {val Q} (hval : val ≠ 0)
    (hQ : Q () { l with target := l.target ++ [.leaLBrr n n val] }) :
    Ends E (adjustNreg n val) l Q :=
  .doIf (fun _ => .modify hQ) fun h => absurd hval h

theorem Stored.of_sim {size} (val : BitVec 32) (ops : List (Raw H)) (hc : Consistent l)
    (hr : (l.state r).realreg = some n) (hval : (l.state r).val = 0 → val = 0)
    (hsize : size = 0 ∨ size = (l.state r).dirtysize)
    (hl' : l' = { l.setState r fun st => { st with val := val, status := .clean, dirtysize := size } with
      target := l.target ++ ops })
    (hsim : Sim (fun q => Quiet (l.state q)) id l l') : Stored r l l' where
  consistent := by
    rw [hl']; exact hc.setState rfl rfl ((hc.placed r).clean hr hsize val)
  sim := hsim
  nat := by rw [hl']; rfl
  others := by
    intro q hq
    subst hl'; simp [state_setState, hq]
  state := by
    subst hl'; simp
  val := by
    subst hl'; simpa using hval
  touchcnt := by rw [hl']; rfl
  flagsOnStack := by rw [hl']; rfl
  m68kPcOffset := by rw [hl']; rfl

theorem sim_adjusted_stored (hc : Consistent l) (hr : (l.state r).realreg = some n)
    (hval : (l.state r).val ≠ 0) (hn : (l.nat n).nholds = 1) (hlock : (l.nat n).locked = 0) :
    Sim (fun q => q ≠ r) id l ((l.adjusted r n).stored r (storeOp r n 4)) := by
  intro v m hm
  -- a register with an offset is valid as a whole
  have hvalid := ((repAt_inreg (hc.inreg hr) hr).mp (hm.at_reg r)).2.2.1 hval
  have hstore := sim_stored (l := l.adjusted r n) (r := r) (n := n)
    (by simpa [Live.adjusted] using hr) (by simp [Live.adjusted]) (by simp [Live.adjusted])
    (by simp [Live.adjusted, hvalid])
  have hsize : ((l.adjusted r n).state r).dirtysize = 4 := by simp [Live.adjusted]
  rw [hsize] at hstore
  have hadj := sim_adjusted (K := fun q => q ≠ r) hc hr hval hn hlock
  exact hadj.trans (fun k hk => hk) hstore (fun q hq => ⟨hq, hq⟩) v m hm

theorem tomem_ends (hc : Consistent l) (hr : (l.state r).realreg = some n) :
    Ends E (tomem r) l fun _ l' => Stored r l l' := by
  have hin := hc.inreg hr
  have hsizes := (hc.placed r).sizes n hr
  refine .get_bind (.bind (.doIf (fun _ => ?_) fun hnot => absurd (isinreg_iff.mpr hin) hnot))
  refine .get_bind (.bind (realreg_ends hr (.doIf (fun ⟨hval, hn, hlock⟩ => ?_) fun _ => ?_)))
  · -- the offset is added first, and then all four bytes are stored
    refine .bind (adjustNreg_ends hval (.modify (.get_bind (.doIf (fun _ => ?_) fun hnot => ?_))))
    · refine .bind (realreg_ends (n := n) (by simpa [Live.setState] using hr) ?_)
      refine .bind (storePart_ends (by simp [Live.setState]) (.modify ?_))
      refine Stored.of_sim 0 [.leaLBrr n n (l.state r).val, storeOp r n 4] hc hr
        (fun _ => rfl) (.inl rfl) ?_ ?_
      · simp [Live.setState]
      · have hsim : Sim (fun q => Quiet (l.state q)) id l _ :=
          (sim_adjusted_stored hc hr hval hn hlock).mono ?_
        · convert hsim using 1; simp [Live.stored, Live.adjusted, Live.setState]
        · rintro q hq rfl; exact hval (hq hin).1
    · simp [Live.setState] at hnot
  · refine .get_bind (.doIf (fun hs => ?_) fun hs => ?_)
    · have hsize := hsizes.dirty.resolve_left (hsizes.of_dirty hs)
      have hstore := sim_stored hr hs hsize hsizes.le
      refine .bind (realreg_ends hr (.bind (storePart_ends hsize (.modify ?_))))
      refine Stored.of_sim (l.state r).val _ hc hr (fun h => h) (.inl rfl) rfl (hstore.mono ?_)
      rintro q hq rfl; cases hs.symm.trans (hq hin).2
    · have hclean : (l.state r).status = .clean := hin.resolve_right hs
      refine Stored.of_sim (l.state r).val [] hc hr (fun h => h) (.inr rfl) ?_ ?_
      · simp only [Live.setState, ← hclean, update_eq_self, List.append_nil]
      · exact .of_state rfl (fun v m hm q => hm.at_reg q) fun _ hv => hv

/-! ## Eviction -/

def Live.unheld (l : Live H) (r : VReg) (n : Fin H.nRegs) : Live H :=
  let ind := (l.state r).realind
  let last := (l.nat n).nholds - 1
  let top := (l.nat n).holds last
  { l with
    nat := update l.nat n
      { l.nat n with nholds := last, holds := update (l.nat n).holds ind top }
    state := update (update l.state top { l.state top with realind := ind }) r
      { l.state r with realreg := none, status := .inmem } }

theorem slot_of_realreg (hv : l.slots.Valid) (hr : (l.state r).realreg = some n) :
    (l.state r).realind < (l.nat n).nholds ∧ (l.nat n).holds (l.state r).realind = r :=
  (hv r n _).mp (by simp [Live.slots, hr])

theorem top_eq_iff (hv : l.slots.Valid) (hr : (l.state r).realreg = some n) :
    (l.nat n).holds ((l.nat n).nholds - 1) = r ↔ (l.nat n).nholds - 1 = (l.state r).realind := by
  obtain ⟨hlt, hslot⟩ := slot_of_realreg hv hr
  constructor
  · intro htop
    have h := (hv r n ((l.nat n).nholds - 1)).mpr ⟨Nat.sub_lt (by omega) Nat.one_pos, htop⟩
    simp only [Live.slots, hr, Option.map_some, Option.some.injEq, Prod.mk.injEq, true_and] at h
    exact h.symm
  · intro h; rw [h, hslot]

theorem unhold_apply (hv : l.slots.Valid) (hr : (l.state r).realreg = some n) :
    unhold r n l = .ok () (l.unheld r n) := by
  have htop := top_eq_iff hv hr
  obtain ⟨hlt, hslot⟩ := slot_of_realreg hv hr
  rw [unhold, setNat, bind_ok (modify_apply ..), bind_ok (get_apply _)]
  by_cases hlast : (l.nat n).nholds - 1 = (l.state r).realind
  · rw [doIf, if_neg (by simpa [Live.setNat] using hlast), bind_ok (pure_apply ..)]
    have hself : update (l.nat n).holds (l.state r).realind r = (l.nat n).holds := by
      have h := update_eq_self (l.state r).realind (l.nat n).holds; rwa [hslot] at h
    rw [setState, modify_apply]
    congr 1
    simp only [Live.unheld, Live.setState, Live.setNat, hlast, hslot, hself, update_eq_self]
  · have hne : (l.nat n).holds ((l.nat n).nholds - 1) ≠ r := fun h => hlast (htop.mp h)
    rw [doIf, if_pos (by simpa [Live.setNat] using hlast)]
    simp only [bind_apply, setNat, setState, modify_apply]
    congr 1
    simp [Live.unheld, Live.setState, Live.setNat, update_of_ne hne.symm]

theorem slots_unheld (hv : l.slots.Valid) (hr : (l.state r).realreg = some n) :
    (l.unheld r n).slots = l.slots.remove r n (l.state r).realind := by
  have hlt := (slot_of_realreg hv hr).1
  have htop : (l.state ((l.nat n).holds ((l.nat n).nholds - 1))).realreg = some n := by
    rw [← container_slots]; exact hv.container_slot (Nat.sub_lt (Nat.zero_lt_of_lt hlt) Nat.one_pos)
  unfold Live.slots Slots.remove
  rw [Slots.mk.injEq]
  refine ⟨?_, ?_, ?_⟩
  · funext k
    by_cases hk : k = n <;> simp [Live.unheld, hk]
  · funext k
    by_cases hk : k = n <;> simp [Live.unheld, hk]
  · funext q
    by_cases hq : q = r
    · subst hq; simp [Live.unheld]
    · by_cases hqt : q = (l.nat n).holds ((l.nat n).nholds - 1)
      · subst hqt; simp [Live.unheld, hq, htop]
      · simp [Live.unheld, hq, hqt]

theorem state_unheld_self : (l.unheld r n).state r
    = { l.state r with realreg := none, status := .inmem } := by simp [Live.unheld]

theorem state_unheld_of_ne (hq : q ≠ r) : (l.unheld r n).state q
    = { l.state q with realind := ((l.unheld r n).state q).realind } := by
  simp only [Live.unheld, update_of_ne hq]
  by_cases hqt : q = (l.nat n).holds ((l.nat n).nholds - 1)
  · subst hqt; simp
  · simp [update_of_ne hqt]

theorem nholds_unheld (k : Fin H.nRegs) : ((l.unheld r n).nat k).nholds
    = if k = n then (l.nat n).nholds - 1 else (l.nat k).nholds := by
  by_cases hk : k = n <;> simp [Live.unheld, hk]

theorem locked_unheld (k : Fin H.nRegs) : ((l.unheld r n).nat k).locked = (l.nat k).locked
    ∧ ((l.unheld r n).nat k).touched = (l.nat k).touched := by
  by_cases hk : k = n <;> simp [Live.unheld, hk]

theorem Placed.realind {nat} {st : RegStatus H} (h : Placed nat st)
    (i : Nat) : Placed nat { st with realind := i } where
  inreg := h.inreg
  sizes := fun n hn => ⟨(h.sizes n hn).valid, (h.sizes n hn).dirty, (h.sizes n hn).le,
    (h.sizes n hn).of_dirty⟩
  shared := h.shared

theorem consistent_unheld (hc : Consistent l) (hr : (l.state r).realreg = some n) :
    Consistent (l.unheld r n) where
  slots := by
    rw [slots_unheld hc.slots hr]; exact hc.slots.remove (by simp [Live.slots, hr])
  placed := by
    intro q
    by_cases hq : q = r
    · subst hq; rw [state_unheld_self]; exact ⟨by simp [InReg], by simp, by simp⟩
    · rw [state_unheld_of_ne hq]
      refine Placed.realind ⟨(hc.placed q).inreg, (hc.placed q).sizes, fun k hk hne => ?_⟩ _
      by_cases hsh : (l.nat k).nholds = 1
      · -- the last one of its register leaves nobody behind
        rw [nholds_unheld] at hne
        split at hne
        · next hkn => subst hkn; exact absurd (hc.eq_of_nholds hsh hk hr) hq
        · exact absurd hsh hne
      · exact (hc.placed q).shared k hk hsh
  touched := by
    intro k
    rw [(locked_unheld k).2]; exact hc.touched k

theorem sim_unheld {K} (hr : (l.state r).realreg = some n)
    (hs : (l.state r).status = .clean) : Sim K id l (l.unheld r n) := by
  refine .of_state rfl (fun v m hm q => ?_) fun v hv => hv
  by_cases hq : q = r
  · subst hq
    obtain ⟨-, hrep, -, -, -, hclean⟩ := (repAt_inreg (.inl hs) hr).mp (hm.at_reg q)
    rw [hclean hs, part_zero] at hrep
    rw [state_unheld_self]; exact hrep
  · exact (hm.at_reg q).congr (state_unheld_of_ne hq) rfl fun _ _ => rfl

structure Evicted (r : VReg) (l l' : Live H) : Prop where
  consistent : Consistent l'
  sim : Sim (fun q => Quiet (l.state q)) id l l'
  moved : ∀ p, Moved p 0 l l'
  realreg : (l'.state r).realreg = none
  status : (l'.state r).status = .inmem
  val : (l.state r).val = 0 → (l'.state r).val = 0
  others : ∀ q, q ≠ r → l'.state q = { l.state q with realind := (l'.state q).realind }
  nholds : ∀ n, (l.state r).realreg = some n →
    ∀ k, (l'.nat k).nholds = if k = n then (l.nat n).nholds - 1 else (l.nat k).nholds
  holds : ∀ n, (l.state r).realreg = some n →
    ∀ j, j < (l.state r).realind → (l'.nat n).holds j = (l.nat n).holds j

theorem Evicted.of_unheld (h : Stored r l l₁) (hr : (l.state r).realreg = some n)
    (hlock : (l.nat n).locked ≠ 0 → (l.nat n).nholds ≠ 1) : Evicted r l (l₁.unheld r n) := by
  have hr₁ : (l₁.state r).realreg = some n := by rw [h.state]; exact hr
  have hs₁ : (l₁.state r).status = .clean := by rw [h.state]
  have hmoved : ∀ p, Moved p 0 l₁ (l₁.unheld r n) := fun p =>
    { locked := fun k => (locked_unheld k).1
      touchcnt := le_refl _
      held := by
        intro k hk
        rw [nholds_unheld]
        split
        · next hkn =>
          subst hkn
          have hpos := h.consistent.nholds_pos hr₁
          rw [h.nat] at hk hpos ⊢
          have := hlock hk; omega
        · rfl
      calm := by
        intro q _ hcalm
        by_cases hq : q = r
        · subst hq; rw [state_unheld_self]; exact ⟨hcalm.1, .inl rfl⟩
        · rw [state_unheld_of_ne hq]; exact hcalm
      outside := by
        intro q _ hnone
        refine state_unheld_of_ne ?_
        rintro rfl
        rw [hr₁] at hnone; cases hnone
      needflush := by
        intro q
        by_cases hq : q = r
        · subst hq; rw [state_unheld_self]
        · rw [state_unheld_of_ne hq]
      flagsOnStack := rfl
      m68kPcOffset := rfl }
  exact
    { consistent := consistent_unheld h.consistent hr₁
      sim := h.sim.trans (fun k hk => by rwa [h.nat])
        (sim_unheld (K := fun _ => True) hr₁ hs₁) fun q hq => ⟨hq, trivial⟩
      moved := fun p => (h.moved hr p).trans (hmoved p)
      realreg := by rw [state_unheld_self]
      status := by rw [state_unheld_self]
      val := fun hval => by
        rw [state_unheld_self]; exact h.val hval
      others := fun q hq => by
        rw [state_unheld_of_ne hq, h.others q hq]
      nholds := by
        intro k hk j
        rw [hr, Option.some.injEq] at hk
        subst hk
        rw [nholds_unheld, h.nat]
      holds := by
        intro k hk j hj
        rw [hr, Option.some.injEq] at hk
        subst hk
        have hind : (l₁.state r).realind = (l.state r).realind := by rw [h.state]
        simp only [Live.unheld, update_self, hind, update_of_ne hj.ne, h.nat] }

theorem Evicted.quiet (h : Evicted r l l') (hq : Quiet (l.state q)) : Quiet (l'.state q) := by
  by_cases hqr : q = r
  · subst hqr; intro hin; rcases hin with hs | hs <;> cases hs.symm.trans h.status
  · rw [h.others q hqr]; exact hq

theorem evict_ends (hc : Consistent l) (hr : (l.state r).realreg = some n)
    (hlock : (l.nat n).locked ≠ 0 → (l.nat n).nholds ≠ 1) :
    Ends E (evict r) l fun _ l' => Evicted r l l' := by
  have hin := isinreg_iff.mpr (hc.inreg hr)
  refine .get_bind (.doIf (fun _ => .bind ((tomem_ends hc hr).mono fun _ l₁ h => ?_))
    fun hnot => absurd hin hnot)
  have hr₁ : (l₁.state r).realreg = some n := by rw [h.state]; exact hr
  refine .bind (realreg_ends hr₁ (.get_bind (.bind (.doIf ?_ fun _ => ?_))))
  · rintro ⟨hne, hone⟩; rw [h.nat] at hne hone; exact absurd hone (hlock hne)
  · unfold Ends; rw [unhold_apply h.consistent.slots hr₁]; exact .of_unheld h hr hlock

theorem evict_none (hc : Consistent l) (hr : (l.state r).realreg = none) : evict r l = .ok () l := by
  have hin : ¬l.isinreg r = true := fun h => hc.not_inreg hr (isinreg_iff.mp h)
  rw [evict, bind_ok (get_apply l), doIf, if_neg hin]
  rfl

/-! ## Freeing a native register -/

structure Freed (n : Fin H.nRegs) (l l' : Live H) : Prop where
  consistent : Consistent l'
  sim : Sim (fun q => Quiet (l.state q)) id l l'
  moved : ∀ p, Moved p 0 l l'
  inside : ∀ q, (l.state q).realreg = some n →
    (l'.state q).realreg = none ∧ (l'.state q).status = .inmem
      ∧ ((l.state q).val = 0 → (l'.state q).val = 0)
  outside : ∀ q, (l.state q).realreg ≠ some n →
    l'.state q = { l.state q with realind := (l'.state q).realind }
  nholds : ∀ k, k ≠ n → (l'.nat k).nholds = (l.nat k).nholds

theorem freeLoop_ends (hc : Consistent l) (hlock : (l.nat n).locked = 0) :
    Ends E (freeLoop n (l.nat n).nholds) l fun _ l' => Freed n l l' ∧ (l'.nat n).nholds = 0 := by
  generalize hi : (l.nat n).nholds = i
  induction i generalizing l with
  | zero =>
    refine .pure ⟨⟨hc, .of_state rfl (fun v m hm q => hm.at_reg q) fun _ hv => hv,
      fun p => .refl p 0 l, fun q hq => ?_, fun q _ => rfl, fun _ _ => rfl⟩, hi⟩
    exact absurd hq (hc.realreg_ne_of_free hi)
  | succ i ih =>
    have htop : (l.state ((l.nat n).holds i)).realreg = some n := by
      rw [← container_slots]
      refine hc.slots.container_slot ?_
      change i < (l.nat n).nholds; omega
    refine .get_bind (.bind ((evict_ends hc htop fun h => absurd hlock h).mono fun _ l₁ h => ?_))
    have hn₁ : (l₁.nat n).nholds = i := by rw [h.nholds n htop n, if_pos rfl, hi]; rfl
    have hlock₁ : (l₁.nat n).locked = 0 := by rw [(h.moved 0).locked, hlock]
    refine (ih h.consistent hlock₁ hn₁).mono fun _ l₂ ⟨hf, hz⟩ => ⟨?_, hz⟩
    exact
      { consistent := hf.consistent
        sim := h.sim.trans (fun k hk => by rwa [(h.moved 0).locked]) hf.sim
          fun q hq => ⟨hq, h.quiet hq⟩
        moved := fun p => (h.moved p).trans (hf.moved p)
        inside := by
          intro q hq
          by_cases hqt : q = (l.nat n).holds i
          · have hout : (l₁.state q).realreg ≠ some n := by rw [hqt, h.realreg]; simp
            rw [hf.outside q hout, hqt]; exact ⟨h.realreg, h.status, h.val⟩
          · have hq₁ : (l₁.state q).realreg = some n := by rw [h.others q hqt]; exact hq
            obtain ⟨hreg, hs, hv⟩ := hf.inside q hq₁
            rw [h.others q hqt] at hv; exact ⟨hreg, hs, hv⟩
        outside := by
          intro q hq
          have hqt : q ≠ (l.nat n).holds i := by rintro rfl; exact hq htop
          have hq₁ : (l₁.state q).realreg ≠ some n := by rw [h.others q hqt]; exact hq
          rw [hf.outside q hq₁, h.others q hqt]
        nholds := by
          intro k hk
          rw [hf.nholds k hk, h.nholds n htop k, if_neg hk] }

theorem freeNreg_ends (hc : Consistent l) (hlock : (l.nat n).locked = 0) :
    Ends E (freeNreg n) l fun _ l' => Freed n l l' ∧ (l'.nat n).nholds = 0 := by
  refine .get_bind (.bind ((freeLoop_ends hc hlock).mono fun _ l₁ h => ?_))
  exact .get_bind (.doIf (fun hne => absurd h.2 hne) fun _ => h)

/-! ## Dropping a value -/

structure Dropped (r : VReg) (l l' : Live H) : Prop where
  consistent : Consistent l'
  sim : Sim (fun q => q = r ∨ Quiet (l.state q)) (forgetReg r) l l'
  moved : ∀ p, Moved p 0 l l'
  realreg : (l'.state r).realreg = none
  inside : InReg (l.state r) → (l'.state r).status = .inmem ∧ (l'.state r).val = 0
  others : ∀ q, q ≠ r → l'.state q = { l.state q with realind := (l'.state q).realind }

def cleaned : RegStatus H := { st with validsize := 4, dirtysize := 0, val := 0, status := .clean }

theorem consistent_cleaned (hc : Consistent l) (hr : (l.state r).realreg = some n) :
    Consistent (l.setState r cleaned) := by
  refine hc.setState rfl rfl ⟨by simp [InReg, cleaned, hr], fun k hk => ?_, fun _ _ _ => rfl⟩
  exact ⟨.inr (.inr rfl), .inl rfl, Nat.zero_le _, by simp [cleaned]⟩

theorem sim_cleaned {K} : Sim K (forgetReg r) l (l.setState r cleaned) := by
  refine .of_state rfl (fun v m hm q => ?_) fun v hv => known_update hv fun _ => rfl
  by_cases hq : q = r
  · subst hq
    simp only [forgetReg, update_self, state_setState_self, cleaned, RepAt]
    exact fun k _ => ⟨Word.agree_unknown, Word.agree_unknown, by simp, (by simp), by simp, fun _ => trivial⟩
  · rw [forgetReg, update_of_ne hq, state_setState, if_neg hq]; exact hm.at_reg q

theorem disassociate_ends (hc : Consistent l)
    (hlock : ∀ n, (l.state r).realreg = some n → (l.nat n).locked ≠ 0 → (l.nat n).nholds ≠ 1) :
    Ends E (disassociate r) l fun _ l' => Dropped r l l' := by
  refine .bind (.get_bind (.doIf (fun hin => .modify ?_) fun hin => ?_))
  · obtain ⟨n, hr⟩ := hc.exists_realreg hin
    have hr₁ : ((l.setState r cleaned).state r).realreg = some n := by simpa [cleaned] using hr
    refine (evict_ends (consistent_cleaned hc hr) hr₁ (hlock n hr)).mono fun _ l' h => ?_
    refine
      { consistent := h.consistent
        sim := (sim_cleaned (K := fun _ => True)).trans (fun _ hk => hk) h.sim fun q hq => ⟨trivial, ?_⟩
        moved := fun p => (Moved.setState rfl (.inr ⟨by simp [hr], fun _ => ⟨rfl, .inr rfl⟩⟩)).trans (h.moved p)
        realreg := h.realreg
        inside := fun _ => ⟨h.status, h.val (by simp [cleaned])⟩
        others := fun q hq => by
          rw [h.others q hq, state_setState, if_neg hq] }
    rw [state_setState]
    split
    · exact fun _ => ⟨rfl, rfl⟩
    · next hqr => exact hq.resolve_left hqr
  · have hr := hc.realreg_none hin
    unfold Ends
    rw [evict_none hc hr]
    exact
      { consistent := hc
        sim := .of_state rfl (fun v m hm => (hm.forget r).at_reg) fun v hv => known_update hv fun _ => rfl
        moved := fun p => .refl p 0 l
        realreg := hr
        inside := fun h => absurd (isinreg_iff.mpr h) hin
        others := fun _ _ => rfl }

end Aranym.Jit
