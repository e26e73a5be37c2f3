import Aranym.Jit.Lemmas.Exclusive

/-!
# Registers for an operation

`readreg`, `writereg` and `rmw` find the native register for an operation, lock it, and move the
content to the register that the operation insists on.
-/

namespace Aranym.Jit

open Aranym.Lib Function

variable {H : Host} {l l' l₁ l₂ : Live H} {r q : VReg} {n d s : Fin H.nRegs} {E : Abort → Prop}
  {size k b : Nat} {spec : Option (Fin H.nRegs)} {Q : Fin H.nRegs → Live H → Prop}

/-! ## Moving the content of a native register -/

def Live.moving (l : Live H) (d s : Fin H.nRegs) (a : Nat) : Live H :=
  { l with
    state := fun q => if (l.state q).realreg = some s ∧ (l.state q).realind < a
      then { l.state q with realreg := some d } else l.state q
    nat := update l.nat d
      { l.nat d with holds := fun j => if j < a then (l.nat s).holds j else (l.nat d).holds j } }

theorem moving_zero : l.moving d s 0 = l := by simp [Live.moving]

theorem moveHolds_apply {c a} (hv : l.slots.Valid) (hne : s ≠ d) (hn : a + c ≤ (l.nat s).nholds) :
    moveHolds d s c a (l.moving d s a) = .ok () (l.moving d s (a + c)) := by
  induction c generalizing a with
  | zero => rfl
  | succ c ih =>
    have hslot : a < (l.nat s).nholds := by omega
    have hloc := (hv ((l.nat s).holds a) s a).mpr ⟨hslot, rfl⟩
    have hreg : (l.state ((l.nat s).holds a)).realreg = some s := by
      rw [← container_slots]; exact Slots.container_eq_some.mpr ⟨a, hloc⟩
    have hind : (l.state ((l.nat s).holds a)).realind = a := by
      simp only [Live.slots, hreg, Option.map_some, Option.some.injEq, Prod.mk.injEq, true_and] at hloc
      exact hloc
    have hs : ((l.moving d s a).nat s) = l.nat s := by simp [Live.moving, hne]
    have hstep : ((l.moving d s a).setState ((l.nat s).holds a)
        fun st => { st with realreg := some d, realind := a }).setNat d
          (fun n => { n with holds := update n.holds a ((l.nat s).holds a) })
        = l.moving d s (a + 1) := by
      simp only [Live.setNat, Live.setState, Live.moving, update_self,
        update_idem, Live.mk.injEq, and_true]
      refine ⟨?_, ?_⟩
      · funext q
        by_cases hq : q = (l.nat s).holds a
        · subst hq; simp [hreg, hind]
        · rw [update_of_ne hq]
          have hqa : (l.state q).realreg = some s → (l.state q).realind ≠ a := by
            intro hqs h
            have hq' := (hv q s a).mp (by simp [Live.slots, hqs, h]); exact hq hq'.2.symm
          by_cases hqs : (l.state q).realreg = some s
          · have := hqa hqs; simp only [hqs, true_and]; congr 1; simp only [eq_iff_iff]; omega
          · simp [hqs]
      · congr 2
        funext j
        by_cases hj : j = a
        · subst hj; simp
        · rw [update_of_ne hj]
          have : j < a + 1 ↔ j < a := by omega
          simp [this]
    rw [moveHolds, bind_ok (get_apply _), hs, setState, bind_ok (modify_apply ..), setNat,
      bind_ok (modify_apply ..), hstep, ih (by omega)]
    congr 2
    omega

def Live.transferred (l : Live H) (d s : Fin H.nRegs) : Live H :=
  ((l.moving d s (l.nat s).nholds).setNat d fun n => { n with nholds := (l.nat s).nholds }).setNat s
    fun n => { n with nholds := 0 }

theorem state_transferred (hv : l.slots.Valid) (q : VReg) : (l.transferred d s).state q
    = if (l.state q).realreg = some s then { l.state q with realreg := some d } else l.state q := by
  have hst : (l.transferred d s).state q = (l.moving d s (l.nat s).nholds).state q := rfl
  rw [hst, Live.moving]
  by_cases hq : (l.state q).realreg = some s
  · have hlt := (slot_of_realreg hv hq).1; simp [hq, hlt]
  · simp [hq]

theorem nat_transferred (hne : s ≠ d) (k : Fin H.nRegs) : ((l.transferred d s).nat k).nholds
      = (if k = s then 0 else if k = d then (l.nat s).nholds else (l.nat k).nholds)
    ∧ ((l.transferred d s).nat k).locked = (l.nat k).locked
    ∧ ((l.transferred d s).nat k).touched = (l.nat k).touched := by
  by_cases hks : k = s
  · subst hks; simp [Live.transferred, Live.setNat, Live.moving, hne]
  · by_cases hkd : k = d <;> simp [Live.transferred, Live.setNat, Live.moving, hks, hkd, hne.symm]

theorem slots_transferred (hv : l.slots.Valid) (hne : s ≠ d) :
    (l.transferred d s).slots = l.slots.moveAll d s := by
  unfold Live.slots Slots.moveAll
  rw [Slots.mk.injEq]
  refine ⟨?_, ?_, ?_⟩
  · funext k j
    by_cases hks : k = s
    · subst hks; simp [Live.transferred, Live.setNat, Live.moving, hne]
    · by_cases hkd : k = d <;> simp [Live.transferred, Live.setNat, Live.moving, hks, hkd, hne.symm]
  · funext k; rw [(nat_transferred hne k).1]; simp only [update_apply]
  · funext q
    rw [state_transferred hv]
    by_cases hq : (l.state q).realreg = some s
    · simp [hq]
    · cases hreg : (l.state q).realreg with
      | none => simp [hreg]
      | some k => rw [hreg, Option.some.injEq] at hq; simp [hreg, hq]

theorem consistent_transferred (hc : Consistent l) (hne : s ≠ d) (hfree : (l.nat d).nholds = 0) :
    Consistent (l.transferred d s) where
  slots := by
    rw [slots_transferred hc.slots hne]; exact hc.slots.moveAll hne hfree
  placed := by
    intro q
    rw [state_transferred hc.slots]
    have hp := hc.placed q
    by_cases hq : (l.state q).realreg = some s
    · rw [if_pos hq]
      refine ⟨by simpa [InReg] using hc.inreg hq, fun k _ => ?_, fun k hk hk1 => ?_⟩
      · have h := hp.sizes s hq; exact ⟨h.valid, h.dirty, h.le, h.of_dirty⟩
      · simp only [Option.some.injEq] at hk
        subst hk
        rw [(nat_transferred hne d).1, if_neg hne.symm, if_pos rfl] at hk1; exact hp.shared s hq hk1
    · rw [if_neg hq]
      refine ⟨hp.inreg, hp.sizes, fun k hk hk1 => hp.shared k hk ?_⟩
      rw [(nat_transferred hne k).1] at hk1
      have hks : k ≠ s := by rintro rfl; exact hq hk
      have hkd : k ≠ d := by rintro rfl; exact hc.realreg_ne_of_free hfree hk
      rwa [if_neg hks, if_neg hkd] at hk1
  touched := by
    intro k
    rw [(nat_transferred hne k).2.2]; exact hc.touched k

structure Transferred (d s : Fin H.nRegs) (l l' : Live H) : Prop where
  consistent : Consistent l'
  moved : ∀ p, Moved p 0 l l'
  state : ∀ q, (l.state q).realreg = some s →
    l'.state q = { l.state q with realreg := some d, realind := (l'.state q).realind }
  nholds : (l'.nat d).nholds = (l.nat s).nholds

theorem moved_transferred (hv : l.slots.Valid) (hne : s ≠ d) (hd : (l.nat d).locked = 0)
    (hs : (l.nat s).locked = 0) (p : VReg) : Moved p 0 l (l.transferred d s) where
  locked := fun k => (nat_transferred hne k).2.1
  touchcnt := le_refl _
  held := by
    intro k hk
    have hks : k ≠ s := by rintro rfl; exact hk hs
    have hkd : k ≠ d := by rintro rfl; exact hk hd
    rw [(nat_transferred hne k).1, if_neg hks, if_neg hkd]
  calm := by
    intro q _ hcalm
    rw [state_transferred hv]
    split <;> exact hcalm
  outside := by
    intro q _ hnone
    rw [state_transferred hv, if_neg (by simp [hnone])]
  needflush := by
    intro q
    rw [state_transferred hv]
    split <;> rfl
  flagsOnStack := rfl
  m68kPcOffset := rfl

theorem movNregs_ends (hc : Consistent l) (hne : s ≠ d) (hd : (l.nat d).locked = 0)
    (hs : (l.nat s).locked = 0) : Ends E (movNregs d s) l fun _ l' => Transferred d s l l' := by
  refine .get_bind (.doIf (fun _ => .bind ?_) fun h => absurd hne h)
  refine (doFree_ends hc hd).mono fun _ l₁ ⟨hf, hfree⟩ => .modify_bind (.get_bind (.bind ?_))
  have hc₂ : Consistent ({ l₁ with target := l₁.target ++ [.movLRr d s] } : Live H) :=
    ⟨hf.consistent.slots, hf.consistent.placed, hf.consistent.touched⟩
  have hmove := moveHolds_apply (d := d) (c := (l₁.nat s).nholds) (a := 0) hc₂.slots hne (by simp)
  rw [moving_zero, Nat.zero_add] at hmove
  refine .of_ok hmove (.modify_bind (.modify ?_))
  have hmoved (p : VReg) := moved_transferred hc₂.slots hne (((hf.moved p).locked d).trans hd)
    (((hf.moved p).locked s).trans hs) p
  exact
    { consistent := consistent_transferred hc₂ hne hfree
      moved := fun p => (hf.moved p).trans { hmoved p with }
      state := by
        intro q hq
        have hst := state_transferred (d := d) (s := s) hc₂.slots q
        dsimp only at hst
        rw [hf.outside q (by rw [hq]; simpa using hne)] at hst
        dsimp only at hst
        rw [if_pos hq] at hst
        refine hst.trans ?_
        congr 1
        exact (congrArg RegStatus.realind hst).symm
      nholds := by
        refine (nat_transferred hne d).1.trans ?_
        rw [if_neg hne.symm, if_pos rfl]
        exact hf.nholds s hne }

/-! ## Finding the register -/

def Able (size : Nat) (spec : Option (Fin H.nRegs)) (n : Fin H.nRegs) : Prop :=
  sizeOk size n = true ∨ spec.isSome = true

/-- What the operations keep to when they ask for `r`. A register that they hold alone already is asked
for again only where it need not move, and a native register that they insist on is not in use. -/
structure MayUse (l : Live H) (r : VReg) (size : Nat) (spec : Option (Fin H.nRegs)) : Prop where
  width : size = 1 ∨ size = 2 ∨ size = 4
  pinned : Pinned l r → ∀ n, (l.state r).realreg = some n → Able size spec n ∧ ∀ k ∈ spec, k = n
  spec : ∀ n ∈ spec, ¬Pinned l r → (l.nat n).locked = 0
    ∧ ∀ k, (l.state r).realreg = some k → (l.nat k).locked = 0

theorem MayUse.settled (hm : MayUse l r size spec) (h : Settled r l l') : MayUse l' r size spec := by
  by_cases hp : Pinned l r
  · rwa [h.pinned hp]
  · refine ⟨hm.width, fun hp' => absurd hp' (h.unpinned hp), fun n hn _ => ?_⟩
    obtain ⟨hfree, hr⟩ := hm.spec n hn hp; exact ⟨by rw [h.moved.locked, hfree], h.unlocked hr⟩

theorem Exclusive.pinned_iff (h : Exclusive b r l l') : Pinned l' r ↔ Pinned l r := by
  constructor
  · rintro ⟨n, hr, hlock, -⟩; by_contra hp; rw [h.moved.locked] at hlock; exact hlock (h.unlocked hp n hr)
  · rintro ⟨n, hr, hlock, hone⟩
    have hr' : (l'.state r).realreg = some n := by rwa [h.pinned ⟨n, hr, hlock, hone⟩]
    exact ⟨n, hr', by rwa [h.moved.locked], h.alone n hr'⟩

theorem Exclusive.val_or_isconst (h : Exclusive b r l l') (hc : Consistent l)
    (hv : (l.state r).val = 0 ∨ (l.state r).status = .isconst) :
    (l'.state r).val = 0 ∨ (l'.state r).status = .isconst := by
  rcases hv with hv | hv
  · exact .inl (h.val hv)
  · have hr : (l.state r).realreg = none := hc.realreg_none fun hin => by
      rcases isinreg_iff.mp hin with hs | hs <;> cases hs.symm.trans hv
    rw [h.outside hr]; exact .inr hv

theorem MayUse.exclusive (hm : MayUse l r size spec) (h : Exclusive b r l l') : MayUse l' r size spec := by
  refine ⟨hm.width, fun hp n hr => ?_, fun n hn hp => ?_⟩
  · rw [h.pinned_iff] at hp; rw [h.pinned hp] at hr; exact hm.pinned hp n hr
  · rw [h.pinned_iff] at hp
    refine ⟨by rw [h.moved.locked, (hm.spec n hn hp).1], fun k hk => ?_⟩
    rw [h.moved.locked, h.unlocked hp k hk]

theorem serves_ends {Q} (hsize : Width size)
    (hQ : ∀ b, (b = true ↔ Able size spec n) → Q b l) : Ends E (serves size spec n) l Q := by
  rcases hsize with rfl | rfl | rfl <;> exact .pure (hQ _ (by simp [Able, sizeOk]))

theorem mem_settle (hm : MayUse l r size spec) (hlock : (l.nat n).locked = 0 ∨ (l.state r).realreg = some n)
    {k} (hk : k ∈ spec) (hkn : k ≠ n) (hpin : Pinned l r → (l.state r).realreg = some n) :
    (l.nat k).locked = 0 ∧ (l.nat n).locked = 0 := by
  have hp : ¬Pinned l r := fun hp => hkn ((hm.pinned hp n (hpin hp)).2 k hk)
  obtain ⟨hfree, hr⟩ := hm.spec k hk hp
  exact ⟨hfree, hlock.elim id (hr n)⟩

theorem settle_ends (hc : Consistent l₁) (hlock : ∀ k, (l₁.nat k).locked = (l.nat k).locked)
    (hspec : ∀ k ∈ spec, k ≠ n → (l.nat k).locked = 0 ∧ (l.nat n).locked = 0) (hsame : Q n l₁)
    (hmove : ∀ d l', spec = some d → Transferred d n l₁ l' → Q d l') : Ends E (settle spec n) l₁ Q := by
  cases spec with
  | none => exact .pure hsame
  | some k =>
    refine .bind (.doIf (fun hkn => ?_) fun hkn => ?_)
    · obtain ⟨hk, hn⟩ := hspec k rfl hkn
      rw [← hlock] at hk hn
      exact (movNregs_ends hc (Ne.symm hkn) hk hn).mono fun _ l' ht => .pure (hmove k l' rfl ht)
    · obtain rfl : k = n := not_not.mp hkn; exact .pure hsame

structure Got (k size : Nat) (spec : Option (Fin H.nRegs)) (r : VReg) (l : Live H)
    (n : Fin H.nRegs) (l' : Live H) : Prop where
  consistent : Consistent l'
  moved : Moved r k l l'
  realreg : (l'.state r).realreg = some n
  validsize : size ≤ (l'.state r).validsize
  able : Able size spec n
  sim : spec = none → Sim (fun _ => False) id l l'

structure Acquired (size : Nat) (spec : Option (Fin H.nRegs)) (r : VReg) (l : Live H)
    (n : Fin H.nRegs) (l' : Live H) : Prop extends Got 1 size spec r l n l' where
  val : (l.state r).val = 0 ∨ (l.state r).status = .isconst → (l'.state r).val = 0
  alone : (∀ k, (l.state r).realreg = some k → (l.nat k).nholds = 1) → (l'.nat n).nholds = 1

theorem Acquired.transferred (h : Acquired size spec r l n l₁) (hspec : spec = some d)
    (ht : Transferred d n l₁ l') : Acquired size spec r l d l' := by
  have hst := ht.state r h.realreg
  exact
    { consistent := ht.consistent
      moved := h.moved.trans (ht.moved r)
      realreg := by rw [hst]
      validsize := by rw [hst]; exact h.validsize
      able := .inr (by rw [hspec]; rfl)
      sim := fun hnone => by
        rw [hspec] at hnone; cases hnone
      val := fun hv => by rw [hst]; exact h.val hv
      alone := fun hal => by rw [ht.nholds]; exact h.alone hal }

theorem Acquired.settle (h : Acquired size spec r l n l₁)
    (hspec : ∀ k ∈ spec, k ≠ n → (l.nat k).locked = 0 ∧ (l.nat n).locked = 0) :
    Ends E (settle spec n) l₁ fun a l' => Acquired size spec r l a l' :=
  settle_ends h.consistent h.moved.locked hspec h fun _ _ => h.transferred

theorem alloc_settle_ends (hc : Consistent l₁) (hroom : Room E 1 1 l) (hm : MayUse l r size spec)
    (hmoved : Moved r 0 l l₁) (hsim : Sim (fun _ => False) id l l₁)
    (hval : (l.state r).val = 0 ∨ (l.state r).status = .isconst →
      (l₁.state r).val = 0 ∨ (l₁.state r).status = .isconst)
    (hgrow : Growable l₁ r (if spec.isSome then 4 else size)) (hpin : ¬Pinned l r) :
    Ends E (allocRegHinted r (if spec.isSome then 4 else size) false spec >>= settle spec) l₁
      fun a l' => Acquired size spec r l a l' := by
  have hsize : (if spec.isSome then 4 else size) = 1 ∨ (if spec.isSome then 4 else size) = 2
      ∨ (if spec.isSome then 4 else size) = 4 := by
    split
    · exact .inr (.inr rfl)
    · exact hm.width
  refine .bind ((allocRegHinted_read hc (hroom.moved hmoved (by omega)) hsize hgrow).mono
    fun n l₂ h => ?_)
  have hlock : (l.nat n).locked = 0 := by rw [← hmoved.locked]; exact h.locked
  have hacq : Acquired size spec r l n l₂ :=
    { consistent := h.consistent
      moved := by simpa using hmoved.trans h.moved
      realreg := h.realreg
      validsize := by
        rw [h.validsize]
        have := hm.width; omega
      able := by
        have hok := h.sizeOk
        by_cases hs : spec.isSome
        · exact .inr hs
        · rw [if_neg hs] at hok; exact .inl hok
      sim := fun _ => hsim.andThen hmoved.locked h.sim
      val := fun hv => h.val (hval hv)
      alone := fun _ => h.nholds }
  exact hacq.settle fun k hk hkn => mem_settle hm (.inl hlock) hk hkn fun hp => absurd hp hpin

theorem acquire_ends (hc : Consistent l) (hroom : Room E 1 1 l) (hm : MayUse l r size spec)
    (hfit : Pinned l r → size ≤ (l.state r).validsize) :
    Ends E (acquire r size spec) l fun a l' => Acquired size spec r l a l' := by
  refine .get_bind (.bind (.ite (fun ⟨hin, hle⟩ => ?_) fun hnot => .pure ?_))
  · obtain ⟨n, hr⟩ := hc.exists_realreg hin
    refine .bind (realreg_ends hr (.bind (serves_ends hm.width fun b hb =>
      .ite (fun ht => .pure ?_) fun hf => ?_)))
    · have hacq : Acquired size spec r l n l :=
        { consistent := hc
          moved := .refl r 1 l
          realreg := hr
          validsize := hle
          able := hb.mp ht
          sim := fun _ => .refl l
          val := fun hv => hv.resolve_right (hc.ne_isconst hr)
          alone := fun hal => hal n hr }
      exact .bind (.pure (hacq.settle fun k hk hkn => mem_settle hm (.inr hr) hk hkn fun _ => hr))
    · have hpin : ¬Pinned l r := fun hp => hf (hb.mpr (hm.pinned hp n hr).1)
      refine .bind ((evict_ends hc hr fun hlock hone => hpin ⟨n, hr, hlock, hone⟩).mono
        fun _ l₁ h => .pure (alloc_settle_ends h.consistent hroom hm (h.moved r)
          (h.sim.mono (by simp)) ?_ ?_ hpin))
      · exact fun hv => .inl (h.val (hv.resolve_right (hc.ne_isconst hr)))
      · intro k hk; rw [h.realreg] at hk; cases hk
  · have hshort : ∀ n, (l.state r).realreg = some n → (l.state r).validsize < size := by
      intro n hr
      by_contra h
      exact hnot ⟨isinreg_iff.mpr (hc.inreg hr), by omega⟩
    have hpin : ¬Pinned l r := by
      intro hp
      have hle := hfit hp
      obtain ⟨n, hr, -, -⟩ := hp
      have := hshort n hr; omega
    refine alloc_settle_ends hc hroom hm (.refl r 0 l) (.refl l) (fun hv => hv) ?_ hpin
    intro k hk
    have hlt := hshort k hk
    have hone := nholds_of_short hc hk hlt hm.width
    refine ⟨?_, ?_⟩
    · split
      · have := hm.width; omega
      · exact hlt
    · by_contra hlock; exact hpin ⟨k, hk, hlock, hone⟩

/-! ## Reading -/

theorem lock_touch : (l.lock n).touch n = (l.touch n).lock n := by simp [Live.lock, Live.touch, Live.setNat]

theorem lockTouch_apply : lockTouch n l = .ok () ((l.touch n).lock n) := by
  rw [← lock_touch]
  rfl

structure Prepared (p : Prop) (size : Nat) (spec : Option (Fin H.nRegs)) (r : VReg) (l l' : Live H) :
    Prop where
  consistent : Consistent l'
  moved : Moved r 2 l l'
  sim : Sim (fun _ => False) id l l'
  mayUse : MayUse l' r size spec
  val : p → (l'.state r).val = 0 ∨ (l'.state r).status = .isconst
  pinned : Pinned l' r → Pinned l r ∧ l' = l

theorem Settled.prepared {p : Prop} (h : Settled r l l') (hm : MayUse l r size spec) :
    Prepared p size spec r l l' where
  consistent := h.consistent
  moved := h.moved
  sim := h.sim
  mayUse := hm.settled h
  val := fun _ => h.val
  pinned := fun hp => by
    by_cases hp₀ : Pinned l r
    · exact ⟨hp₀, h.pinned hp₀⟩
    · exact absurd hp (h.unpinned hp₀)

theorem prepare_ends {p : Prop} [Decidable p] (hc : Consistent l) (hroom : Room E 2 2 l)
    (hm : MayUse l r size spec) (hval : p → Pinned l r → (l.state r).val = 0) :
    Ends E (doIf p (removeOffset r spec)) l fun _ l' => Prepared p size spec r l l' := by
  refine .doIf (fun hp => (removeOffset_ends hc hroom (hval hp)).mono fun _ l' h => h.prepared hm)
    fun hp => ?_
  exact ⟨hc, .refl r 2 l, .refl l, hm, fun h => absurd h hp, fun h => ⟨h, rfl⟩⟩

theorem readregGeneral_ends {canOffset} (hc : Consistent l) (hroom : Room E 2 3 l) (hm : MayUse l r size spec)
    (hfit : Pinned l r → size ≤ (l.state r).validsize)
    (hval : canOffset = false → Pinned l r → (l.state r).val = 0)
    (hQ : ∀ n l', Got 3 size spec r l n l' → (canOffset = false → (l'.state r).val = 0) →
      Q n ((l'.touch n).lock n)) : Ends E (readregGeneral r size spec canOffset) l Q := by
  refine .bind ((prepare_ends hc (hroom.mono (le_refl 2) (by omega)) hm hval).mono fun _ l₁ hp => ?_)
  have hroom₁ : Room E 1 1 l₁ := (hroom.moved hp.moved (Nat.le_refl 3)).mono (by omega) (le_refl 1)
  have hfit₁ : Pinned l₁ r → size ≤ (l₁.state r).validsize := by
    intro hpin
    obtain ⟨hpin₀, heq⟩ := hp.pinned hpin
    rw [heq]; exact hfit hpin₀
  refine .bind ((acquire_ends hp.consistent hroom₁ hp.mayUse hfit₁).mono fun n l₂ h =>
    .bind (.of_ok lockTouch_apply (.pure (hQ n l₂ ?_ fun hcan => h.val (hp.val hcan)))))
  exact
    { consistent := h.consistent
      moved := hp.moved.trans h.moved
      realreg := h.realreg
      validsize := h.validsize
      able := h.able
      sim := fun hs => hp.sim.andThen hp.moved.locked (h.sim hs) }

/-! ## Writing -/

def grown (size : Nat) (st : RegStatus H) : RegStatus H :=
  { st with dirtysize := max size st.dirtysize, validsize := max size st.validsize }

def written (size : Nat) (st : RegStatus H) : RegStatus H := { grown size st with val := 0, status := .dirty }

theorem sizes_grown {st : RegStatus H} {s : Status} {val : BitVec 32}
    (hsize : Width size) (h : Sizes st) :
    Sizes { grown size st with val := val, status := s } := by
  have hv := h.valid
  have hd := h.dirty
  have hle := h.le
  refine ⟨?_, ?_, ?_, fun _ => ?_⟩
  all_goals
    dsimp only [grown]; omega

theorem consistent_grown {s : Status} {val : BitVec 32} {f : RegStatus H → RegStatus H}
    (hc : Consistent l) (hr : (l.state r).realreg = some n) (hone : (l.nat n).nholds = 1)
    (hsize : Width size) (hs : s = .clean ∨ s = .dirty)
    (hf : f (l.state r) = { grown size (l.state r) with val := val, status := s }) :
    Consistent (l.setState r f) := by
  refine hc.setState (by rw [hf]; rfl) (by rw [hf]; rfl) ?_
  rw [hf]
  refine ⟨by simp [InReg, grown, hr, hs], fun k hk => sizes_grown hsize ((hc.placed r).sizes k hk),
    fun k hk hne => ?_⟩
  simp only [grown, hr, Option.some.injEq] at hk
  subst hk
  exact absurd hone hne

structure Ready (size : Nat) (spec : Option (Fin H.nRegs)) (r : VReg) (l : Live H)
    (n : Fin H.nRegs) (l' : Live H) : Prop where
  consistent : Consistent l'
  moved : Moved r 1 l l'
  realreg : (l'.state r).realreg = some n
  nholds : (l'.nat n).nholds = 1
  able : Able size spec n
  val : size < 4 → (l'.state r).val = 0
  sim : spec = none → Sim (fun _ => False) (forgetLow r size) l (l'.setState r (written size))

theorem Ready.transferred (h : Ready size spec r l n l₁) (hspec : spec = some d)
    (ht : Transferred d n l₁ l') : Ready size spec r l d l' := by
  have hst := ht.state r h.realreg
  exact
    { consistent := ht.consistent
      moved := h.moved.trans (ht.moved r)
      realreg := by rw [hst]
      nholds := by rw [ht.nholds, h.nholds]
      able := .inr (by rw [hspec]; rfl)
      val := fun hs => by rw [hst]; exact h.val hs
      sim := fun hnone => by
        rw [hspec] at hnone
        cases hnone }

theorem Ready.settle (h : Ready size spec r l n l₁)
    (hspec : ∀ k ∈ spec, k ≠ n → (l.nat k).locked = 0 ∧ (l.nat n).locked = 0) :
    Ends E (settle spec n) l₁ fun a l' => Ready size spec r l a l' :=
  settle_ends h.consistent h.moved.locked hspec h fun _ _ => h.transferred

theorem repAt_written {st m w} (hin : InReg st)
    (hr : st.realreg = some n) (hsize : Width size) (hok : sizeOk size n = true)
    (hval : size < 4 → st.val = 0) (h : RepAt st m r w) : RepAt (written size st) m r (w.forget size) := by
  obtain ⟨hv, hd, -, hbyte, hword, -⟩ := (repAt_inreg hin hr).mp h
  have hin' : InReg (written size st) := .inr rfl
  have hr' : (written size st).realreg = some n := hr
  refine (repAt_inreg hin' hr').mpr ?_
  dsimp only [written, grown]
  rw [plus_zero, plus_zero]
  refine ⟨?_, ?_, by simp, fun h1 => ?_, fun h2 => ?_, by simp⟩
  · by_cases h4 : size = 4
    · subst h4; exact .of_known_zero Word.known_forget_four
    · rw [hval (by omega), plus_zero] at hv; exact hv.forget_max size
  · by_cases h4 : size = 4
    · subst h4; exact .of_known_zero Word.known_forget_four
    · rw [hval (by omega), plus_zero] at hd; exact hd.forget_max size
  · exact sizeOk_byte hok (by omega)
  · by_cases hs2 : size = 2
    · exact sizeOk_word hok hs2
    · exact hword (by omega)

theorem sim_written {K} (hc : Consistent l) (hr : (l.state r).realreg = some n)
    (hsize : Width size) (hok : sizeOk size n = true)
    (hval : size < 4 → (l.state r).val = 0) : Sim K (forgetLow r size) l (l.setState r (written size)) := by
  refine .of_state rfl (fun v m hm q => ?_) fun v hv => known_update hv fun h => ?_
  · by_cases hq : q = r
    · subst hq
      rw [state_setState_self, forgetLow, update_self]
      exact repAt_written (hc.inreg hr) hr hsize hok hval (hm.at_reg q)
    · rw [state_setState, if_neg hq, forgetLow, update_of_ne hq]; exact hm.at_reg q
  · rw [h]; exact Word.known_forget_zero hv

theorem setState_written (hd : size ≤ (l.state r).dirtysize)
    (hle : (l.state r).dirtysize ≤ (l.state r).validsize) (hval : (l.state r).val = 0)
    (hs : (l.state r).status = .dirty) : l.setState r (written size) = l := by
  have hst : written size (l.state r) = l.state r := by
    unfold written grown
    rw [max_eq_right hd, max_eq_right (hd.trans hle), ← hval, ← hs]
  rw [Live.setState, hst, update_eq_self]

theorem clobber_settle_ends (hc : Consistent l₁) (hroom : Room E 1 1 l) (hm : MayUse l r size spec)
    (hmoved : Moved r 0 l l₁) (hsim : Sim (fun _ => False) id l l₁) (hr : (l₁.state r).realreg = none)
    (hval : size = 4 ∨ (l₁.state r).status = .isconst ∨ (l₁.state r).val = 0) (hpin : ¬Pinned l r) :
    Ends E (allocRegHinted r size true spec >>= settle spec) l₁ fun a l' => Ready size spec r l a l' := by
  refine .bind ((allocRegHinted_clobber hc (hroom.moved hmoved (by omega)) hm.width hr).mono
    fun n l₂ h => ?_)
  have hlock : (l.nat n).locked = 0 := by rw [← hmoved.locked]; exact h.locked
  have hready : Ready size spec r l n l₂ :=
    { consistent := h.consistent
      moved := by simpa using hmoved.trans h.moved
      realreg := h.realreg
      nholds := h.nholds
      able := .inl h.sizeOk
      val := fun _ => h.val
      sim := fun _ => by
        rw [setState_written h.dirtysize ((h.consistent.placed r).sizes n h.realreg).le h.val h.status]
        exact hsim.andThen hmoved.locked (h.sim hval) }
  exact hready.settle fun k hk hkn => mem_settle hm (.inl hlock) hk hkn fun hp => absurd hp hpin

theorem writeHere_ends (hc : Consistent l) (hroom : Room E 1 1 l) (hm : MayUse l r size spec)
    (halone : ∀ n, (l.state r).realreg = some n → (l.nat n).nholds = 1)
    (hval : size < 4 → (l.state r).val = 0 ∨ (l.state r).status = .isconst) :
    Ends E (do
      let answer ← (if l.isinreg r then writeInPlace r size spec else pure none)
      let answer ← (match answer with
        | some n => pure n
        | none => allocRegHinted r size true spec)
      settle spec answer) l fun a l' => Ready size spec r l a l' := by
  have hsize := hm.width
  refine .bind (.ite (fun hin => ?_) fun hin => .pure ?_)
  · obtain ⟨n, hr⟩ := hc.exists_realreg hin
    have hval' : size < 4 → (l.state r).val = 0 := fun hs =>
      (hval hs).resolve_right (hc.ne_isconst hr)
    refine .bind (realreg_ends hr (.get_bind (.bind (.doIf (fun hne => absurd (halone n hr) hne)
      fun _ => .bind (serves_ends hsize fun b hb => .ite (fun ht => .modify_bind (.pure ?_)) fun hf => ?_)))))
    · have hready : Ready size spec r l n (l.setState r (grown size)) :=
        { consistent := consistent_grown hc hr (halone n hr) hsize (hc.inreg hr) rfl
          moved := (moved_setState rfl).trans (.refl r 1 _)
          realreg := by simpa [grown] using hr
          nholds := halone n hr
          able := hb.mp ht
          val := fun hs => by simpa [grown] using hval' hs
          sim := fun hnone => by
            have hok : sizeOk size n = true := (hb.mp ht).resolve_right (by rw [hnone]; simp)
            have hfin : (l.setState r (grown size)).setState r (written size)
                = l.setState r (written size) := by
              simp [Live.setState, written, grown]
            rw [hfin]
            exact sim_written hc hr hsize hok hval' }
      exact .bind (.pure (hready.settle fun k hk hkn => mem_settle hm (.inr hr) hk hkn fun _ => hr))
    · have hpin : ¬Pinned l r := fun hp => hf (hb.mpr (hm.pinned hp n hr).1)
      refine .bind ((evict_ends hc hr fun hlock hone => hpin ⟨n, hr, hlock, hone⟩).mono
        fun _ l₁ h => .pure (clobber_settle_ends h.consistent hroom hm (h.moved r) (h.sim.mono (by simp))
          h.realreg ?_ hpin))
      by_cases h4 : size = 4
      · exact .inl h4
      · exact .inr (.inr (h.val (hval' (by omega))))
  · have hr := hc.realreg_none hin
    refine clobber_settle_ends hc hroom hm (.refl r 0 l) (.refl l) hr ?_ ?_
    · by_cases h4 : size = 4
      · exact .inl h4
      · exact .inr (hval (by omega)).symm
    · rintro ⟨n, hn, -, -⟩; rw [hr] at hn; cases hn

structure Owned (k size : Nat) (spec : Option (Fin H.nRegs)) (r : VReg) (l : Live H)
    (n : Fin H.nRegs) (l' : Live H) : Prop where
  consistent : Consistent l'
  moved : Moved r k l l'
  realreg : (l'.state r).realreg = some n
  nholds : (l'.nat n).nholds = 1
  dirtysize : size ≤ (l'.state r).dirtysize
  status : (l'.state r).status = .dirty
  val : (l'.state r).val = 0
  able : Able size spec n

theorem owned_written {wsize} (hc : Consistent l₁) (hm : Moved r k l l₁) (hr : (l₁.state r).realreg = some n)
    (hone : (l₁.nat n).nholds = 1) (hable : Able size spec n) (hwsize : Width wsize) (hle : size ≤ wsize) :
    Owned k size spec r l n (l₁.setState r (written wsize)) where
  consistent := consistent_grown hc hr hone hwsize (.inr rfl) rfl
  moved := hm.trans (moved_setState rfl)
  realreg := by simpa [written, grown] using hr
  nholds := hone
  dirtysize := by rw [state_setState_self]; exact hle.trans (Nat.le_max_left ..)
  status := by simp [written]
  val := by simp [written]
  able := hable

theorem finishWrite_ends (h : Ready size spec r l n l₁)
    (hsize : Width size)
    (hQ : Q n (((l₁.setState r (written size)).touch n).lock n)) :
    Ends E (do
      setState r fun st => { st with validsize := if st.status = .undef then 4 else st.validsize }
      setState r fun st =>
        { st with dirtysize := max size st.dirtysize, validsize := max size st.validsize }
      lockTouch n
      let l ← get
      (if size = 4 then setState r fun st => { st with val := 0 }
        else doIf ((l.state r).val ≠ 0) (throw .offset))
      setState r fun st => { st with status := .dirty }
      pure n) l₁ Q := by
  have hin := h.consistent.inreg h.realreg
  have hundef : (l₁.state r).status ≠ .undef := by rcases hin with hs | hs <;> rw [hs] <;> simp
  have hfirst : l₁.setState r (fun st =>
      { st with validsize := if st.status = .undef then 4 else st.validsize }) = l₁ := by
    simp only [Live.setState, if_neg hundef, update_eq_self]
  refine .modify_bind ?_
  rw [hfirst]
  refine .modify_bind (.bind (.of_ok lockTouch_apply (.get_bind (.bind (.ite (fun h4 => .modify ?_)
    fun h4 => .doIf (fun hne => ?_) fun _ => ?_)))))
  · refine .modify_bind (.pure ?_)
    convert hQ using 1
    simp [Live.setState, Live.touch, Live.lock, Live.setNat, written, grown]
  · refine absurd ?_ hne; simpa [Live.lock, Live.touch, Live.setNat] using h.val (by omega)
  · refine .modify_bind (.pure ?_)
    convert hQ using 1
    simp [Live.setState, Live.touch, Live.lock, Live.setNat, written, grown, h.val (by omega)]

theorem forgetLow_forgetReg (v : VFile) (hsize : Width size) :
    forgetLow r size ((if size < 4 then id else forgetReg r) v) = forgetLow r size v := by
  split
  · rfl
  · have h4 : size = 4 := by omega
    subst h4; simp [forgetLow, forgetReg, Word.forget, Word.part]

theorem writeregGeneral_ends (hc : Consistent l) (hroom : Room E 2 4 l) (hm : MayUse l r size spec)
    (hval : size < 4 → Pinned l r → (l.state r).val = 0) (hQ : ∀ n l', Owned 4 size spec r l n l' →
      (spec = none → Sim (fun _ => False) (forgetLow r size) l l') → Q n ((l'.touch n).lock n)) :
    Ends E (writeregGeneral r size spec) l Q := by
  refine .bind ((prepare_ends hc (hroom.mono (le_refl 2) (by omega)) hm hval).mono fun _ l₁ hp => ?_)
  have hroom₁ : Room E 2 1 l₁ := (hroom.moved hp.moved (Nat.le_refl 4)).mono (le_refl 2) (by omega)
  refine .bind ((makeExclusive_ends hp.consistent hroom₁).mono fun _ l₂ hx => .get_bind ?_)
  have hmoved := hp.moved.trans hx.moved
  have hroom₂ : Room E 1 1 l₂ := (hroom.moved hmoved (Nat.le_refl 4)).mono (by omega) (le_refl 1)
  have hhere := writeHere_ends hx.consistent hroom₂ (hp.mayUse.exclusive hx) hx.alone fun hs =>
    hx.val_or_isconst hp.consistent (hp.val hs)
  have hrest := Ends.bind (hhere.mono fun n l₃ hr => finishWrite_ends hr hm.width (Q := Q) ?_)
  · simp only [bind_assoc] at hrest; exact hrest
  · refine hQ n _ (owned_written hr.consistent (hmoved.trans hr.moved) hr.realreg hr.nholds hr.able hm.width le_rfl)
      fun hnone v m hv => ?_
    have hsim := (hp.sim.andThen hp.moved.locked hx.sim).andThen hmoved.locked
      (hr.sim hnone)
    have h := hsim v m hv
    simp only [id_eq, forgetLow_forgetReg v hm.width] at h; exact h

theorem sim_dirtied {K} (hc : Consistent l) (hr : (l.state r).realreg = some n)
    (hsize : Width size) (hok : sizeOk size n = true)
    (hval : (l.state r).val = 0) (hle : size ≤ (l.state r).validsize) :
    Sim K id l (l.setState r (written size)) := by
  refine .of_state rfl (fun v m hm q => ?_) fun v hv => hv
  by_cases hq : q = r
  · subst hq
    obtain ⟨hv, hd, -, -, hword, -⟩ := (repAt_inreg (hc.inreg hr) hr).mp (hm.at_reg q)
    have hin' : InReg (written size (l.state q)) := .inr rfl
    have hr' : (written size (l.state q)).realreg = some n := hr
    rw [hval, plus_zero] at hv hd
    rw [state_setState_self]
    refine (repAt_inreg hin' hr').mpr ?_
    dsimp only [written, grown]
    rw [plus_zero, plus_zero, max_eq_right hle]
    refine ⟨hv, ?_, by simp, fun h1 => sizeOk_byte hok (by omega), fun h2 => ?_, by simp⟩
    · have hdv := ((hc.placed q).sizes n hr).le; exact .part_between (Nat.le_max_right ..) (by omega) hd hv
    · by_cases hs2 : size = 2
      · exact sizeOk_word hok hs2
      · exact hword (by omega)
  · rw [state_setState, if_neg hq]; exact hm.at_reg q

theorem rmwGeneral_ends {wsize} (hc : Consistent l)
    (hroom : Room E 2 4 l) (hm : MayUse l r size spec) (hle : size ≤ wsize)
    (hwsize : Width wsize)
    (hfit : Pinned l r → size ≤ (l.state r).validsize) (hval : Pinned l r → (l.state r).val = 0)
    (hQ : ∀ n l', Owned 4 size spec r l n l' → wsize ≤ (l'.state r).dirtysize →
      (spec = none → wsize = size → Sim (fun _ => False) id l l') → Q n ((l'.touch n).lock n)) :
    Ends E (rmwGeneral r wsize size spec) l Q := by
  refine .bind ((removeOffset_ends hc (hroom.mono (le_refl 2) (by omega)) hval).mono fun _ l₁ hs => ?_)
  have hp : Prepared True size spec r l l₁ := hs.prepared hm
  have hroom₁ : Room E 2 1 l₁ := (hroom.moved hp.moved (Nat.le_refl 4)).mono (le_refl 2) (by omega)
  refine .bind ((makeExclusive_ends hp.consistent hroom₁).mono fun _ l₂ hx => ?_)
  have hmoved := hp.moved.trans hx.moved
  have hroom₂ : Room E 1 1 l₂ := (hroom.moved hmoved (Nat.le_refl 4)).mono (by omega) (le_refl 1)
  have hfit₂ : Pinned l₂ r → size ≤ (l₂.state r).validsize := by
    intro hpin
    obtain ⟨hpin₀, heq⟩ := hp.pinned (hx.pinned_iff.mp hpin)
    rw [hx.validsize, heq]; exact hfit hpin₀
  have hguard : Ends E (doIf (l₂.isinreg r ∧ size ≤ (l₂.state r).validsize) (do
      let n ← realreg r
      doIf ((l₂.nat n).nholds ≠ 1) (throw .shared))) l₂ fun _ t => t = l₂ := by
    refine .doIf (fun h => ?_) fun _ => rfl
    obtain ⟨n, hr⟩ := hx.consistent.exists_realreg h.1
    exact .bind (realreg_ends hr (.doIf (fun hne => absurd (hx.alone n hr) hne) fun _ => rfl))
  refine .bind (.doIf (fun h => absurd h (by omega)) fun _ => .get_bind (.bind (hguard.mono ?_)))
  rintro _ _ rfl
  refine .bind ((acquire_ends hx.consistent hroom₂ (hp.mayUse.exclusive hx) hfit₂).mono
    fun n l₃ h => .modify_bind ?_)
  have hone := h.alone hx.alone
  have hzero := h.val (hx.val_or_isconst hp.consistent (hp.val trivial))
  have hst : l₃.setState r (fun st => { st with
      dirtysize := max wsize st.dirtysize, validsize := max wsize st.validsize, status := .dirty })
      = l₃.setState r (written wsize) := by
    simp [Live.setState, written, grown, hzero]
  rw [hst]
  refine .bind (.of_ok lockTouch_apply (.get_bind (.bind (.doIf (fun hne => ?_) fun _ => .pure ?_))))
  · refine absurd ?_ hne; simp [Live.lock, Live.touch, Live.setNat, written]
  refine hQ n _ ?_ (by simp [written, grown]) fun hnone hw => ?_
  · exact owned_written h.consistent (hmoved.trans h.moved) h.realreg hone h.able hwsize hle
  · have hsim := (hp.sim.andThen hp.moved.locked hx.sim).andThen hmoved.locked
      (h.sim hnone)
    subst hw
    have hok : sizeOk wsize n = true := h.able.resolve_right (by rw [hnone]; simp)
    have hdirty := sim_dirtied (K := fun _ => False) h.consistent h.realreg hwsize hok hzero h.validsize
    have hall := hsim.andThen (hmoved.trans h.moved).locked hdirty
    rwa [if_pos (by omega)] at hall

end Aranym.Jit
