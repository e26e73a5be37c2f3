import Aranym.Jit.Lemmas.Alloc

/-!
# Registers of one's own

`make_exclusive` takes a virtual register out of company, and `remove_offset` settles its lazy offset.
-/

namespace Aranym.Jit

open Aranym.Lib Function Option Nat

variable {H : Host} {l l' l₁ l₂ : Live H} {r q : VReg} {n rr : Fin H.nRegs} {E : Abort → Prop}
  {size k b : Nat} {spec : Option (Fin H.nRegs)} {st : RegStatus H}

/-! ## Locks -/

def Live.lock (l : Live H) (n : Fin H.nRegs) : Live H := l.setNat n fun x => { x with locked := x.locked + 1 }

def Live.unlock (l : Live H) (n : Fin H.nRegs) : Live H :=
  l.setNat n fun x => { x with locked := x.locked - 1 }

theorem nat_lock (k : Fin H.nRegs) : ((l.lock n).nat k).locked
    = (if k = n then (l.nat n).locked + 1 else (l.nat k).locked)
      ∧ ((l.lock n).nat k).nholds = (l.nat k).nholds := by
  by_cases hk : k = n <;> simp [Live.lock, Live.setNat, hk]

theorem nat_unlock (k : Fin H.nRegs) : ((l.unlock n).nat k).locked
    = (if k = n then (l.nat n).locked - 1 else (l.nat k).locked)
      ∧ ((l.unlock n).nat k).nholds = (l.nat k).nholds := by
  by_cases hk : k = n <;> simp [Live.unlock, Live.setNat, hk]

theorem Consistent.setLocked (hc : Consistent l) (f : Nat → Nat) :
    Consistent (l.setNat n fun x => { x with locked := f x.locked }) := by
  refine hc.setNat (f := fun x => { x with locked := f x.locked }) (n := n) ⟨rfl, rfl⟩ fun k => ?_
  rw [nat_setNat]
  split
  · exact hc.touched n
  · exact hc.touched k

theorem Room.lock (h : Room E (k + 1) b l) (n : Fin H.nRegs) : Room E k b (l.lock n) := by
  refine h.imp_right fun hs => ⟨hs.touchcnt, ?_⟩
  have hsub : ((Finset.univ.filter fun i => H.canByte i ∧ H.canWord i ∧ (l.nat i).locked = 0).erase n)
      ⊆ Finset.univ.filter fun i => H.canByte i ∧ H.canWord i ∧ ((l.lock n).nat i).locked = 0 := by
    intro i hi
    simp only [Finset.mem_erase, Finset.mem_filter, Finset.mem_univ, true_and] at hi ⊢
    rw [(nat_lock i).1, if_neg hi.1]; exact hi.2
  have hcard := Finset.card_le_card hsub
  have herase := Finset.pred_card_le_card_erase
    (s := Finset.univ.filter fun i => H.canByte i ∧ H.canWord i ∧ (l.nat i).locked = 0) (a := n)
  have := hs.free
  omega

theorem Kept.unlock (h : Kept k (l.lock n) l₁) : Kept k l (l₁.unlock n) where
  locked := by
    intro i
    have hi := h.locked i
    rw [(nat_lock i).1] at hi
    rw [(nat_unlock i).1]
    split at hi
    · next hin => subst hin; rw [if_pos rfl]; omega
    · next hin => rw [if_neg hin, hi]
  touchcnt := h.touchcnt
  held := by
    intro i hi
    rw [(nat_unlock i).2, ← (nat_lock (l := l) (n := n) i).2]
    refine h.held i ?_
    rw [(nat_lock i).1]
    split
    · exact succ_ne_zero _
    · exact hi
  needflush := h.needflush
  flagsOnStack := h.flagsOnStack
  m68kPcOffset := h.m68kPcOffset

theorem Moved.unlock (h : Moved r k (l.lock n) l₁) : Moved r k l (l₁.unlock n) :=
  ⟨h.toKept.unlock, h.calm, h.outside⟩

theorem Sim.unlock {K} : Sim K id l (l.unlock n) := .of_state rfl (fun _ _ hm => hm.at_reg) fun _ hv => hv

theorem locked_lock_ne_zero {k} (hk : (l.nat k).locked ≠ 0) : ((l.lock n).nat k).locked ≠ 0 := by
  rw [(nat_lock k).1]
  split
  · exact succ_ne_zero _
  · exact hk

theorem unlock2_ends {Q} (h : (l.nat n).locked ≠ 0) (hQ : Q () (l.unlock n)) : Ends E (unlock2 n) l Q :=
  .get_bind (.bind (.doIf (fun h0 => absurd h0 h) fun _ => .modify hQ))

/-! ## Splitting a native register -/

def Live.restored (l : Live H) (r : VReg) (st : RegStatus H) (ops : List (Raw H)) : Live H :=
  { l.setState r fun _ => st with target := l.target ++ ops }

theorem consistent_restored (ops : List (Raw H)) (hc : Consistent l)
    (hr : (l.state r).realreg = some n) (hone : (l.nat n).nholds = 1)
    (hreg : st.realreg = some n) (hind : st.realind = (l.state r).realind) (hin : InReg st)
    (hsizes : Sizes st) : Consistent (l.restored r st ops) := by
  refine hc.setState (hreg.trans hr.symm) hind ⟨by simp [hin, hreg], fun _ _ => hsizes, fun k hk hne => ?_⟩
  rw [hreg, Option.some.injEq] at hk
  subst hk
  exact absurd hone hne

theorem moved_restored (ops : List (Raw H)) (hneed : st.needflush = (l.state r).needflush) :
    Moved r 0 l (l.restored r st ops) := .setState hneed (.inl rfl)

/-- `r` is not in company any more. With `size` bytes to be overwritten, its value need not be kept
if these are all. -/
structure Exclusive (size : Nat) (r : VReg) (l l' : Live H) : Prop where
  consistent : Consistent l'
  moved : Moved r 1 l l'
  sim : Sim (fun _ => False) (if size < 4 then id else forgetReg r) l l'
  alone : ∀ n, (l'.state r).realreg = some n → (l'.nat n).nholds = 1
  isSome : (l'.state r).realreg.isSome = (l.state r).realreg.isSome
  unlocked : ¬Pinned l r → ∀ n, (l'.state r).realreg = some n → (l.nat n).locked = 0
  pinned : Pinned l r → l'.state r = l.state r
  validsize : (l'.state r).validsize = (l.state r).validsize
  val : (l.state r).val = 0 → (l'.state r).val = 0
  outside : (l.state r).realreg = none → l'.state r = l.state r

def splitStatus (st : RegStatus H) (size : Nat) (n : Fin H.nRegs) (ind : Nat) : RegStatus H :=
  if size < st.validsize ∧ st.val ≠ 0 then
    { st with realreg := some n, realind := ind, val := 0, dirtysize := 4, status := .dirty }
  else { st with realreg := some n, realind := ind }

def splitOps (st : RegStatus H) (size : Nat) (n rr : Fin H.nRegs) : List (Raw H) :=
  if size < st.validsize then
    if st.val ≠ 0 then [.leaLBrr n rr st.val] else [.movLRr n rr]
  else []

theorem repAt_split {m w} (size : Nat) (n : Fin H.nRegs) (ind : Nat) (m₂ : Machine H) (hin : InReg st)
    (hreg : st.realreg = some rr) (hvalid : st.validsize = 4)
    (hcap : st.status = .dirty → sizeOk st.dirtysize n = true) (hw : RepAt st m r w)
    (hnat : m₂.nat rr = m.nat rr) (hmem : m₂.mem r = m.mem r) :
    ∃ x, exec (splitOps st size n rr) m₂ = some (m₂.setNat n x)
      ∧ RepAt (splitStatus st size n ind) (m₂.setNat n x) r (if size < 4 then w else .unknown) := by
  obtain ⟨hv, hd, -, -, -, hclean⟩ := (repAt_inreg hin hreg).mp hw
  rw [hvalid, part_four] at hv
  have hbyte : st.dirtysize = 1 → H.canByte n = true := by
    intro h1
    refine sizeOk_byte (hcap (hin.resolve_left fun hs => ?_)) h1
    have := hclean hs; omega
  have hword : st.dirtysize = 2 → H.canWord n = true := by
    intro h2
    refine sizeOk_word (hcap (hin.resolve_left fun hs => ?_)) h2
    have := hclean hs; omega
  unfold splitOps splitStatus
  by_cases hsize : size < 4
  · have hlt : size < st.validsize := by rwa [hvalid]
    rw [if_pos hlt, if_pos hsize]
    by_cases hval : st.val = 0
    · rw [if_neg (not_not.mpr hval), if_neg fun h => h.2 hval]
      rw [hval, plus_zero] at hv hd
      refine ⟨m.nat rr, by rw [← hnat]; rfl, (repAt_inreg (n := n) ?_ rfl).mpr ?_⟩
      · exact hin
      · simp only [Machine.setNat, update_self, hval, plus_zero, hvalid, part_four, hmem]
        exact ⟨hv, hd, fun _ => trivial, hbyte, hword, hclean⟩
    · rw [if_pos hval, if_pos ⟨hlt, hval⟩]
      refine ⟨m.nat rr + st.val, by rw [← hnat]; rfl, (repAt_inreg (n := n) (.inr rfl) rfl).mpr ?_⟩
      simpa [Machine.setNat, hvalid] using hv
  · have hlt : ¬size < st.validsize := by rwa [hvalid]
    rw [if_neg hlt, if_neg hsize, if_neg fun h => hlt h.1]
    refine ⟨m₂.nat n, by rw [setNat_self]; rfl, (repAt_inreg (n := n) ?_ rfl).mpr ?_⟩
    · exact hin
    · exact ⟨Word.agree_unknown, Word.agree_unknown, fun _ => hvalid, hbyte, hword, hclean⟩

theorem sizes_splitStatus {ind} (hsizes : Sizes st) (hvalid : st.validsize = 4) :
    Sizes (splitStatus st size n ind) := by
  unfold splitStatus
  split
  · exact ⟨.inr (.inr hvalid), .inr (.inr (.inr rfl)), hvalid.ge, by simp⟩
  · exact ⟨hsizes.valid, hsizes.dirty, hsizes.le, hsizes.of_dirty⟩

theorem splitStatus_fields (size : Nat) (n : Fin H.nRegs) (ind : Nat) (hin : InReg st) :
    (splitStatus st size n ind).realreg = some n ∧ (splitStatus st size n ind).realind = ind
      ∧ InReg (splitStatus st size n ind) ∧ (splitStatus st size n ind).needflush = st.needflush
      ∧ (splitStatus st size n ind).validsize = st.validsize
      ∧ (st.val = 0 → (splitStatus st size n ind).val = 0) := by
  unfold splitStatus
  split
  · exact ⟨rfl, rfl, .inr rfl, rfl, rfl, fun _ => rfl⟩
  · exact ⟨rfl, rfl, hin, rfl, rfl, fun h => h⟩

theorem sim_split {l₀ size'} (size ind : Nat) (hc : Consistent l)
    (hr : (l.state r).realreg = some rr) (hvalid : (l.state r).validsize = 4)
    (hl₀ : l₀ = l.lock rr) (hd : Dropped r l₀ l₁) (ha : AllocClobber size' r l₁ n l₂)
    (hcap : (l.state r).status = .dirty → sizeOk (l.state r).dirtysize n = true) :
    Sim (fun _ => False) (if size < 4 then id else forgetReg r) l
      (l₂.restored r (splitStatus (l.state r) size n ind) (splitOps (l.state r) size n rr)) := by
  have hin := hc.inreg hr
  have hsizes := (hc.placed r).sizes rr hr
  have hlock₀ : (l₀.nat rr).locked ≠ 0 := by rw [hl₀, (nat_lock rr).1, if_pos rfl]; exact succ_ne_zero _
  have hlock₁ : (l₁.nat rr).locked ≠ 0 := by rwa [(hd.moved r).locked]
  have hin₀ : InReg (l₀.state r) := by rw [hl₀]; exact hin
  intro v m hm
  have hm₀ : Rep l₀ m v := by rw [hl₀]; exact ⟨hm.at_reg, hm.flagX⟩
  obtain ⟨ops₁, m₁, ht₁, he₁, hr₁, hn₁, hk₁⟩ := hd.sim v m hm₀
  obtain ⟨ops₂, m₂, ht₂, he₂, hr₂, hn₂, hk₂⟩ := ha.sim (.inr (.inr (hd.inside hin₀).2)) _ m₁ hr₁
  have hquiet : Quiet (l₁.state r) := by
    intro h
    rcases h with h | h <;> cases h.symm.trans (hd.inside hin₀).1
  obtain ⟨x, hx, hrep⟩ := repAt_split size n ind m₂ hin hr hvalid
    hcap (hm.at_reg r) ((hn₂ rr hlock₁).trans (hn₁ rr hlock₀)) ((hk₂ r hquiet).trans (hk₁ r (.inl rfl)))
  refine ⟨ops₁ ++ ops₂ ++ splitOps (l.state r) size n rr, m₂.setNat n x, ?_, ?_, ⟨fun q => ?_, ?_⟩,
    fun k hk => ?_, by simp⟩
  · rw [Live.restored]; simp only [ht₂, ht₁, hl₀, List.append_assoc]; rfl
  · rw [exec_append, exec_append, he₁, bind_some, he₂, bind_some, hx]
  · by_cases hq : q = r
    · subst hq
      have hst : (l₂.restored q (splitStatus (l.state q) size n ind) (splitOps (l.state q) size n rr)).state q
          = splitStatus (l.state q) size n ind := by simp [Live.restored]
      rw [hst]
      split at hrep <;> rename_i hs <;> simpa [hs, forgetReg] using hrep
    · have hst : (l₂.restored r (splitStatus (l.state r) size n ind) (splitOps (l.state r) size n rr)).state q
          = l₂.state q := by simp [Live.restored, state_setState, hq]
      rw [hst]
      have hq₂ := hr₂.at_reg q
      simp only [forgetLow, forgetReg, update_of_ne hq] at hq₂
      have hv : (if size < 4 then id else forgetReg r) v q = v q := by
        split
        · rfl
        · simp [forgetReg, hq]
      rw [hv]; exact repAt_of_ne hq₂ fun h => hq (ha.consistent.eq_of_nholds ha.nholds h ha.realreg)
  · split
    · exact hm.flagX
    · exact known_update hm.flagX fun _ => rfl
  · have hk₀ : (l₀.nat k).locked ≠ 0 := by rw [hl₀]; exact locked_lock_ne_zero hk
    have hk₁' : (l₁.nat k).locked ≠ 0 := by rwa [(hd.moved r).locked]
    have hkn : k ≠ n := by rintro rfl; exact hk₁' ha.locked
    have hset : (m₂.setNat n x).nat k = m₂.nat k := update_of_ne hkn ..
    rw [hset, hn₂ k hk₁', hn₁ k hk₀]

theorem splitReg_ends (hc : Consistent l) (hr : (l.state r).realreg = some rr)
    (hne : (l.nat rr).nholds ≠ 1) (hroom : Room E 2 1 l) :
    Ends E (splitReg r size spec rr) l fun _ l' => Exclusive size r l l' := by
  have hin := hc.inreg hr
  have hsizes := (hc.placed r).sizes rr hr
  have hvalid := (hc.placed r).shared rr hr hne
  have hc₀ : Consistent (l.lock rr) := hc.setLocked (· + 1)
  refine .get_bind (.modify_bind (.bind ((disassociate_ends hc₀ ?_).mono fun _ l₁ hd => ?_)))
  · intro k hk _
    have hkr : rr = k := by rw [← Option.some.injEq, ← hr]; exact hk
    subst hkr; rwa [(nat_lock rr).2]
  have hsize : (if (l.state r).status = .dirty then (l.state r).dirtysize else 4) = 1
      ∨ (if (l.state r).status = .dirty then (l.state r).dirtysize else 4) = 2
      ∨ (if (l.state r).status = .dirty then (l.state r).dirtysize else 4) = 4 := by
    split
    · next hs => exact hsizes.dirty.resolve_left (hsizes.of_dirty hs)
    · exact .inr (.inr rfl)
  have hroom₁ : Room E 1 1 l₁ := (hroom.lock rr).moved (hd.moved r) (by omega)
  refine .bind ((allocRegHinted_clobber hd.consistent hroom₁ hsize hd.realreg).mono fun n l₂ ha => ?_)
  have hlock₂ : (l₂.nat rr).locked ≠ 0 := by
    rw [ha.moved.locked, (hd.moved r).locked, (nat_lock rr).1, if_pos rfl]; exact succ_ne_zero _
  have hcap : (l.state r).status = .dirty → sizeOk (l.state r).dirtysize n = true := by
    intro hs
    have h := ha.sizeOk; rwa [if_pos hs] at h
  obtain ⟨hreg, hind, hin', hneed, hvalid', hval'⟩ :=
    splitStatus_fields size n (l₂.state r).realind hin
  have hsim := sim_split size (l₂.state r).realind hc hr hvalid rfl hd ha hcap
  have hcons := consistent_restored (splitOps (l.state r) size n rr) ha.consistent ha.realreg
    ha.nholds hreg hind hin' (sizes_splitStatus hsizes hvalid)
  have hneed₂ : (l₂.state r).needflush = (l.state r).needflush :=
    (ha.moved.needflush r).trans ((hd.moved r).needflush r)
  have hmoved := ((hd.moved r).trans ha.moved).trans
    (moved_restored (splitOps (l.state r) size n rr) (hneed.trans hneed₂.symm))
  have hst : ((l₂.restored r (splitStatus (l.state r) size n (l₂.state r).realind)
      (splitOps (l.state r) size n rr)).unlock rr).state r
      = splitStatus (l.state r) size n (l₂.state r).realind := by
    simp [Live.unlock, Live.setNat, Live.restored]
  have hfinal : Exclusive size r l ((l₂.restored r (splitStatus (l.state r) size n (l₂.state r).realind)
      (splitOps (l.state r) size n rr)).unlock rr) :=
    { consistent := hcons.setLocked (· - 1)
      moved := by simpa using hmoved.unlock
      sim := hsim.trans (fun k hk => by
          rw [Live.restored]
          dsimp only [nat_setState]
          rw [ha.moved.locked, (hd.moved r).locked]
          exact locked_lock_ne_zero hk) (Sim.unlock (K := fun _ => False)) (by simp)
      alone := by
        intro k hk
        rw [hst, hreg, Option.some.injEq] at hk
        subst hk
        rw [(nat_unlock n).2]; exact ha.nholds
      isSome := by rw [hst, hreg, hr]; rfl
      unlocked := by
        intro _ k hk
        rw [hst, hreg, Option.some.injEq] at hk
        subst hk
        have h := ha.locked
        rw [(hd.moved r).locked, (nat_lock n).1] at h
        split at h
        · cases h
        · exact h
      pinned := by
        rintro ⟨k, hk, -, hone⟩
        rw [hr, Option.some.injEq] at hk
        subst hk; exact absurd hone hne
      validsize := by rw [hst, hvalid']
      val := by rw [hst]; exact hval'
      outside := by rw [hr]; simp }
  refine .get_bind (.modify_bind (.bind ?_))
  have hend : ∀ t, t = l₂.restored r (splitStatus (l.state r) size n (l₂.state r).realind)
      (splitOps (l.state r) size n rr) → Ends E (unlock2 rr) t fun _ l' => Exclusive size r l l' := by
    rintro t rfl; exact unlock2_ends hlock₂ hfinal
  refine .doIf (fun hs => .ite (fun hval => .modify_bind (.modify (hend _ ?_)))
    fun hval => .modify (hend _ ?_)) fun hs => hend _ ?_
  · simp only [splitStatus, splitOps, if_pos (And.intro hs hval), if_pos hs, if_pos hval]
    simp [Live.restored, Live.setState]
  · simp only [splitStatus, splitOps, if_neg fun h : _ ∧ _ => hval h.2, if_pos hs, if_neg hval]
    simp [Live.restored, Live.setState]
  · simp only [splitStatus, splitOps, if_neg fun h : _ ∧ _ => hs h.1, if_neg hs]
    simp [Live.restored, Live.setState]

/-! ## Keeping a native register -/

structure Cleared (r : VReg) (n : Fin H.nRegs) (l l' : Live H) : Prop where
  consistent : Consistent l'
  sim : Sim (fun _ => False) id l l'
  moved : Moved r 0 l l'
  state : l'.state r = { l.state r with realind := (l'.state r).realind }
  nholds : (l'.nat n).nholds = 1

theorem nholds_of_slots {i} (hc : Consistent l) (hr : (l.state r).realreg = some n)
    (hslots : ∀ j, j < i → (l.nat n).holds j = r) (hi : (l.nat n).nholds = i) : (l.nat n).nholds = 1 := by
  have hpos := hc.nholds_pos hr
  have hlast := hslots (i - 1) (by omega)
  have hfirst := hslots 0 (by omega)
  have h₁ := (hc.slots r n (i - 1)).mpr ⟨by change i - 1 < (l.nat n).nholds; omega, hlast⟩
  have h₀ := (hc.slots r n 0).mpr ⟨hpos, hfirst⟩
  have h := h₁.symm.trans h₀
  simp only [Option.some.injEq, Prod.mk.injEq, true_and] at h
  omega

theorem evictOthers_ends {c i} (hc : Consistent l) (hr : (l.state r).realreg = some n)
    (hlock : (l.nat n).locked = 0) (hn : (l.nat n).nholds = c + i)
    (hslots : ∀ j, j < i → (l.nat n).holds j = r) :
    Ends E (evictOthers r n c i) l fun _ l' => Cleared r n l l' := by
  induction c generalizing l i with
  | zero =>
    have hone := nholds_of_slots hc hr hslots (by omega)
    exact .pure ⟨hc, .of_state rfl (fun _ _ hm => hm.at_reg) fun _ hv => hv, .refl r 0 l, rfl, hone⟩
  | succ c ih =>
    refine .get_bind (.doIf (fun hi => .ite (fun hne => ?_) fun heq => ?_) fun hi => ?_)
    · -- another one is evicted; the last of the list takes its place
      have hloc := (hc.slots _ n i).mpr ⟨hi, rfl⟩
      have hq : (l.state ((l.nat n).holds i)).realreg = some n := by
        rw [← container_slots]; exact Slots.container_eq_some.mpr ⟨i, hloc⟩
      have hind : (l.state ((l.nat n).holds i)).realind = i := by
        simp only [Live.slots, hq, map_some, Option.some.injEq, Prod.mk.injEq, true_and] at hloc
        exact hloc
      refine .bind ((evict_ends hc hq fun h => absurd hlock h).mono fun _ l₁ h => ?_)
      have hst := h.others r (Ne.symm hne)
      have hn₁ : (l₁.nat n).nholds = c + i := by rw [h.nholds n hq n, if_pos rfl]; omega
      have hslots₁ : ∀ j, j < i → (l₁.nat n).holds j = r := by
        intro j hj
        rw [h.holds n hq j (by rwa [hind])]; exact hslots j hj
      refine (ih h.consistent (by rw [hst]; exact hr) (by rw [(h.moved r).locked, hlock]) hn₁
        hslots₁).mono fun _ l' hl' => ?_
      exact ⟨hl'.consistent, h.sim.andThen (h.moved r).locked hl'.sim,
        (h.moved r).trans hl'.moved, by rw [hl'.state, hst], hl'.nholds⟩
    · refine ih hc hr hlock (by omega) fun j hj => ?_
      rcases Nat.lt_succ_iff_lt_or_eq.mp hj with hj | rfl
      · exact hslots j hj
      · exact not_not.mp heq
    · omega

/-! ## `make_exclusive` -/

theorem Exclusive.refl (hc : Consistent l)
    (halone : ∀ n, (l.state r).realreg = some n → (l.nat n).nholds = 1) : Exclusive size r l l where
  consistent := hc
  moved := .refl r 1 l
  sim := by
    refine .of_state rfl (fun v m hm q => ?_) fun v hv => ?_
    · split
      · exact hm.at_reg q
      · exact (hm.forget r).at_reg q
    · split
      · exact hv
      · exact known_update hv fun _ => rfl
  alone := halone
  isSome := rfl
  unlocked := fun hp n hn => by
    by_contra hlock
    exact hp ⟨n, hn, hlock, halone n hn⟩
  pinned := fun _ => rfl
  validsize := rfl
  val := fun h => h
  outside := fun _ => rfl

theorem makeExclusive_ends (hc : Consistent l) (hroom : Room E 2 1 l) :
    Ends E (makeExclusive r size spec) l fun _ l' => Exclusive size r l l' := by
  refine .get_bind (.doIf (fun hin => ?_) fun hin => ?_)
  · obtain ⟨n, hr⟩ := hc.exists_realreg hin
    refine .bind (realreg_ends hr (.doIf (fun hne => .ite (fun hkeep => ?_) fun _ => ?_) fun hone => ?_))
    · obtain ⟨-, hsize, hlock⟩ := hkeep
      refine .bind ((evictOthers_ends (c := (l.nat n).nholds) (i := 0) hc hr hlock rfl (by simp)).mono
        fun _ l₁ h => ?_)
      refine .get_bind (.doIf (fun hnot => absurd h.nholds hnot) fun _ => ?_)
      have hvalid := (hc.placed r).shared n hr hne
      have hr₁ : (l₁.state r).realreg = some n := by rw [h.state]; exact hr
      exact
        { consistent := h.consistent
          moved := h.moved.trans (.refl r 1 l₁)
          sim := by
            rw [if_pos (by omega)]; exact h.sim
          alone := by
            intro k hk
            rw [hr₁, Option.some.injEq] at hk
            subst hk; exact h.nholds
          isSome := by rw [hr₁, hr]
          unlocked := by
            intro _ k hk
            rw [hr₁, Option.some.injEq] at hk
            subst hk; exact hlock
          pinned := by
            rintro ⟨k, hk, -, hone⟩
            rw [hr, Option.some.injEq] at hk
            subst hk; exact absurd hone hne
          validsize := by rw [h.state]
          val := by rw [h.state]; exact fun h => h
          outside := by rw [hr]; simp }
    · exact splitReg_ends hc hr hne hroom
    · refine .refl hc fun k hk => ?_; rw [hr, Option.some.injEq] at hk; subst hk; exact not_not.mp hone
  · refine .refl hc fun k hk => ?_; rw [hc.realreg_none hin] at hk; cases hk

/-! ## `remove_offset` -/

structure Settled (r : VReg) (l l' : Live H) : Prop where
  consistent : Consistent l'
  moved : Moved r 2 l l'
  sim : Sim (fun _ => False) id l l'
  val : (l'.state r).val = 0 ∨ (l'.state r).status = .isconst
  pinned : Pinned l r → l' = l
  unpinned : ¬Pinned l r → ¬Pinned l' r
  unlocked : (∀ n, (l.state r).realreg = some n → (l.nat n).locked = 0) →
    ∀ n, (l'.state r).realreg = some n → (l'.nat n).locked = 0
  isSome : (l.state r).realreg.isSome = true → (l'.state r).realreg.isSome = true

theorem Sim.refl {K} (l : Live H) : Sim K id l l := .of_state rfl (fun _ _ hm => hm.at_reg) fun _ hv => hv

theorem consistent_adjusted (hc : Consistent l) (hr : (l.state r).realreg = some n)
    (hvalid : (l.state r).validsize = 4) : Consistent (l.adjusted r n) :=
  hc.setState rfl rfl ⟨by simp [InReg, hr], fun _ _ =>
    ⟨.inr (.inr hvalid), .inr (.inr (.inr rfl)), hvalid.ge, by simp⟩, (hc.placed r).shared⟩

structure Whole (r : VReg) (l l' : Live H) : Prop where
  consistent : Consistent l'
  moved : Moved r 1 l l'
  sim : Sim (fun _ => False) id l l'
  isSome : (l'.state r).realreg.isSome = true
  validsize : (l'.state r).validsize = 4
  unpinned : ¬Pinned l' r

theorem AllocRead.whole (h : AllocRead size r l n l') : Whole r l l' where
  consistent := h.consistent
  moved := h.moved
  sim := h.sim
  isSome := by rw [h.realreg]; rfl
  validsize := h.validsize
  unpinned := by
    rintro ⟨k, hk, hlock, -⟩
    rw [h.realreg, Option.some.injEq] at hk
    subst hk
    rw [h.moved.locked] at hlock; exact hlock h.locked

theorem makeWhole_ends {Q} (hc : Consistent l) (hroom : Room E 1 1 l)
    (hp : ¬Pinned l r) {m : Alloc H Unit} (hQ : ∀ l₁, Whole r l l₁ → Ends E m l₁ Q) :
    Ends E (do
      doIf (l.isinreg r ∧ (l.state r).validsize < 4) (evict r)
      let l ← get
      doIf (l.isinreg r = false) (do
        let _ ← allocRegHinted r 4 false spec)
      m) l Q := by
  refine .bind (.doIf (fun ⟨hin, hlt⟩ => ?_) fun hnot => .get_bind (.bind (.doIf (fun hin => ?_) fun hin => ?_)))
  · obtain ⟨n, hr⟩ := hc.exists_realreg hin
    refine (evict_ends hc hr fun hlock hone => hp ⟨n, hr, hlock, hone⟩).mono fun _ l₁ h => ?_
    have hin₁ : l₁.isinreg r = false := by
      rw [← Bool.not_eq_true, isinreg_iff, (h.consistent.placed r).inreg, h.realreg]; simp
    refine .get_bind (.bind (.doIf (fun _ => .bind ?_) fun hnot => absurd hin₁ hnot))
    refine (allocRegHinted_read h.consistent (hroom.moved (h.moved r) (by omega)) (.inr (.inr rfl)) ?_).mono
      fun n l₂ ha => hQ l₂ ?_
    · intro k hk; rw [h.realreg] at hk; cases hk
    · have hw := ha.whole
      exact ⟨hw.consistent, by simpa using (h.moved r).trans hw.moved,
        h.sim.andThen (h.moved r).locked hw.sim, hw.isSome,
        hw.validsize, hw.unpinned⟩
  · refine .bind ((allocRegHinted_read hc hroom (.inr (.inr rfl)) ?_).mono fun n l₁ ha => hQ l₁ ha.whole)
    intro k hk
    rw [hc.realreg_none (by rw [hin]; simp)] at hk; cases hk
  · have hin' : l.isinreg r = true := by simpa using hin
    obtain ⟨n, hr⟩ := hc.exists_realreg hin'
    have hvalid := ((hc.placed r).sizes n hr).valid
    refine hQ l ⟨hc, .refl r 1 l, .refl l, by rw [hr]; rfl, ?_, hp⟩
    have hge : ¬(l.state r).validsize < 4 := fun h => hnot ⟨hin', h⟩; omega

theorem removeOffset_ends (hc : Consistent l) (hroom : Room E 2 2 l) (hp : Pinned l r → (l.state r).val = 0) :
    Ends E (removeOffset r spec) l fun _ l' => Settled r l l' := by
  refine .get_bind (.doIf (fun ⟨hconst, hval⟩ => ?_) fun hnot => ?_)
  · have hpin : ¬Pinned l r := fun h => hval (hp h)
    refine makeWhole_ends hc (hroom.mono (by omega) (by omega)) hpin fun l₁ hw => ?_
    refine .get_bind (.bind (.doIf (fun hne => absurd hw.validsize hne) fun _ => .bind ?_))
    refine (makeExclusive_ends hw.consistent (hroom.moved hw.moved (by omega))).mono fun _ l₂ hx => ?_
    have hsim : Sim (fun _ => False) id l l₂ := by
      have h := hx.sim
      rw [if_pos (by omega)] at h; exact hw.sim.andThen hw.moved.locked h
    have hpin₂ : ¬Pinned l₂ r := by
      rintro ⟨k, hk, hlock, -⟩
      rw [hx.moved.locked] at hlock; exact hlock (hx.unlocked hw.unpinned k hk)
    have hlock : ∀ n, (l₂.state r).realreg = some n → (l₂.nat n).locked = 0 := by
      intro n hr
      by_contra h
      exact hpin₂ ⟨n, hr, h, hx.alone n hr⟩
    refine .get_bind (.doIf (fun hval₂ => ?_) fun hval₂ => ?_)
    · obtain ⟨n, hr⟩ := isSome_iff_exists.mp (hx.isSome.trans hw.isSome)
      refine .bind (realreg_ends hr (.bind (.doIf (fun hne => absurd (hx.alone n hr) hne) fun _ => ?_)))
      refine .bind (adjustNreg_ends hval₂ (.modify ?_))
      have hadj := sim_adjusted (K := fun _ => False) hx.consistent hr hval₂ (hx.alone n hr) (hlock n hr)
      have hfinal : Settled r l (l₂.adjusted r n) :=
        { consistent := consistent_adjusted hx.consistent hr (hx.validsize.trans hw.validsize)
          moved := (hw.moved.trans hx.moved).trans (.setState rfl (.inl rfl))
          sim := hsim.andThen (hw.moved.trans hx.moved).locked hadj
          val := .inl (by simp [Live.adjusted])
          pinned := fun h => absurd h hpin
          unpinned := fun _ => by
            rintro ⟨k, hk, hk', hone⟩
            refine hpin₂ ⟨k, ?_, hk', hone⟩
            simpa [Live.adjusted] using hk
          unlocked := by
            intro _ k hk
            have hk₂ : (l₂.state r).realreg = some k := by simpa [Live.adjusted] using hk
            exact hlock k hk₂
          isSome := fun _ => by simpa [Live.adjusted] using hx.isSome.trans hw.isSome }
      exact hfinal
    · exact ⟨hx.consistent, hw.moved.trans hx.moved, hsim, .inl (not_not.mp hval₂),
        fun h => absurd h hpin, fun _ => hpin₂, fun _ => hlock, fun _ => hx.isSome.trans hw.isSome⟩
  · refine ⟨hc, .refl r 2 l, .refl l, ?_, fun _ => rfl, fun h => h, fun h => h, fun h => h⟩
    by_cases hval : (l.state r).val = 0
    · exact .inl hval
    · have hc' : ¬l.isconst r = false := fun h => hnot ⟨h, hval⟩
      exact .inr (by simpa [Live.isconst] using hc')

end Aranym.Jit
