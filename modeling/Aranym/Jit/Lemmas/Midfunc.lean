import Aranym.Jit.Lemmas.Acquire

/-!
# The middle layer keeps the values

Each operation emits code that does to the machine what the operation means for the register file.
-/

namespace Aranym.Jit

open Aranym.Lib List Function Nat

variable {H : Host} {l l' l₁ l₂ : Live H} {r q d s : VReg} {n : Fin H.nRegs} {E : Abort → Prop}
  {size k b : Nat} {f : VFile → VFile} {i : BitVec 32}

structure Does (k : Nat) (f : VFile → VFile) (l l' : Live H) : Prop where
  consistent : Consistent l'
  kept : Kept k l l'
  sim : Sim (fun _ => False) f l l'

theorem Kept.mono {j} (h : Kept k l l') (hk : k ≤ j) : Kept j l l' :=
  ⟨h.locked, h.touchcnt.trans (by omega), h.held, h.needflush, h.flagsOnStack, h.m68kPcOffset⟩

theorem Does.mono {j} (h : Does k f l l') (hk : k ≤ j) : Does j f l l' :=
  ⟨h.consistent, h.kept.mono hk, h.sim⟩

theorem Room.kept {j} (h : Room E k (b + j) l) (hm : Kept j l l') : Room E k b l' := by
  refine h.imp_right fun hs => ⟨?_, ?_⟩
  · have := hs.touchcnt; have := hm.touchcnt; omega
  · simp only [hm.locked]; exact hs.free

/-! ## A constant, and no value -/

theorem Kept.setState {g}
    (hneed : (g (l.state r)).needflush = (l.state r).needflush) : Kept 0 l (l.setState r g) :=
  (moved_setState hneed).toKept

theorem consistent_out {g} (hc : Consistent l)
    (hr : (l.state r).realreg = none) (hreg : (g (l.state r)).realreg = none)
    (hind : (g (l.state r)).realind = (l.state r).realind) (hin : ¬InReg (g (l.state r))) :
    Consistent (l.setState r g) := by
  refine hc.setState (hreg.trans hr.symm) hind ⟨?_, ?_, ?_⟩
  · simp [hin, hreg]
  · simp [hreg]
  · simp [hreg]

theorem setConst_ends {val} (hc : Consistent l) (hp : ¬Pinned l r) :
    Ends E (setConst r val) l fun _ l' => Consistent l' ∧ Moved r 0 l l'
      ∧ (r ≠ flagX → Sim (fun _ => False) (fun v => update v r (.ofValue val)) l l') := by
  refine .bind ((disassociate_ends hc fun n hr hlock hone => hp ⟨n, hr, hlock, hone⟩).mono
    fun _ l₁ h => .modify ⟨?_, ?_, fun hx => ?_⟩)
  · exact consistent_out h.consistent h.realreg h.realreg rfl (by simp [InReg])
  · exact (h.moved r).trans (moved_setState rfl)
  · have hset : Sim (fun _ => False) (fun v => update v r (.ofValue val)) l₁
        (l₁.setState r fun st => { st with val := val, status := .isconst }) := by
      refine .of_state rfl (fun v m hm q => ?_) fun v hv => known_update hv fun h => absurd h hx
      by_cases hq : q = r
      · subst hq; rw [state_setState_self, update_self]; exact Word.agree_ofValue.mpr rfl
      · rw [state_setState, if_neg hq, update_of_ne hq]; exact hm.at_reg q
    have hall := h.sim.andThen (h.moved r).locked hset
    simpa only [forgetReg, update_idem] using hall

theorem sim_of_const {c} {w : VFile → Word} (hx : r ≠ flagX)
    (h : Sim (fun _ => False) (fun v => update v r (.ofValue c)) l l')
    (hw : ∀ v m, Rep l m v → (w v).Agree c) :
    Sim (fun _ => False) (fun v => update v r (w v)) l l' := by
  intro v m hm
  obtain ⟨ops, m', ht, he, hr, hrest⟩ := h v m hm
  refine ⟨ops, m', ht, he, ⟨fun q => ?_, known_update hm.flagX fun h => absurd h hx⟩, hrest⟩
  have hat := hr.at_reg q
  by_cases hq : q = r
  · subst hq
    simp only [update_self] at hat ⊢
    refine hat.weaken (fun x hx => ?_) fun h0 => ?_
    · rw [Word.agree_ofValue.mp hx]; exact hw v m hm
    · simp [Word.ofValue] at h0
  · simpa only [update_of_ne hq] using hat

theorem agree_of_const {m v} (hs : l.isconst s = true) (hm : Rep l m v) : (v s).Agree (l.state s).val := by
  have hst : (l.state s).status = .isconst := by simpa [Live.isconst] using hs
  simpa only [RepAt, hst] using hm.at_reg s

theorem forgetAbout_ends (hc : Consistent l) (hp : ¬Pinned l r) :
    Ends E (forgetAbout r) l fun _ l' => Consistent l' ∧ Moved r 0 l l'
      ∧ Sim (fun _ => False) (forgetReg r) l l' := by
  have hfin : ∀ l₁, Consistent l₁ → Moved r 0 l l₁ → (l₁.state r).realreg = none →
      Sim (fun _ => False) (forgetReg r) l l₁ →
      Ends E (setState r fun st => { st with val := 0, status := .undef }) l₁ fun _ l' =>
        Consistent l' ∧ Moved r 0 l l' ∧ Sim (fun _ => False) (forgetReg r) l l' := by
    intro l₁ hc₁ hmoved hr hsim
    refine .modify ⟨consistent_out hc₁ hr hr rfl (by simp [InReg]), hmoved.trans (moved_setState rfl), ?_⟩
    have hset : Sim (fun _ => False) (forgetReg r) l₁
        (l₁.setState r fun st => { st with val := 0, status := .undef }) := by
      refine .of_state rfl (fun v m hm q => ?_) fun v hv => known_update hv fun _ => rfl
      by_cases hq : q = r
      · subst hq; rw [state_setState_self, forgetReg, update_self]; rfl
      · rw [state_setState, if_neg hq, forgetReg, update_of_ne hq]; exact hm.at_reg q
    have hall := hsim.andThen hmoved.locked hset
    simp only [forgetReg, update_idem] at hall; exact hall
  refine .get_bind (.bind (.doIf (fun _ => ?_) fun hin => ?_))
  · exact (disassociate_ends hc fun n hr hlock hone => hp ⟨n, hr, hlock, hone⟩).mono
      fun _ l₁ h => hfin l₁ h.consistent (h.moved r) h.realreg (h.sim.mono (by simp))
  · exact hfin l hc (.refl r 0 l) (hc.realreg_none hin)
      (.of_state rfl (fun v m hm => (hm.forget r).at_reg) fun v hv => known_update hv fun _ => rfl)

/-! ## Two registers in one -/

theorem Kept.touch : Kept 1 l (l.touch n) where
  locked := by
    intro k
    by_cases hk : k = n <;> simp [Live.touch, Live.setNat, hk]
  touchcnt := le_refl _
  held := by
    intro k _
    by_cases hk : k = n <;> simp [Live.touch, Live.setNat, hk]
  needflush := fun _ => rfl
  flagsOnStack := rfl
  m68kPcOffset := rfl

theorem mayUse_four (l : Live H) (r : VReg) : MayUse l r 4 none where
  width := .inr (.inr rfl)
  pinned := fun _ _ _ => ⟨.inl (by simp [sizeOk]), by simp⟩
  spec := by simp

def joined (val : BitVec 32) (st : RegStatus H) : RegStatus H :=
  { st with val := val, validsize := 4, dirtysize := 4, status := .dirty }

theorem consistent_joined {val} (hc : Consistent l) (hs : (l.state s).realreg = some n)
    (hvalid : 4 ≤ (l.state s).validsize) (hd : (l.state d).realreg = none) :
    Consistent (l.placed d n (joined val (l.state d))) := by
  refine consistent_placed hc hd (.inr rfl) ⟨.inr (.inr rfl), .inr (.inr (.inr rfl)), le_refl _, by simp [joined]⟩
    (.inr ⟨rfl, fun q hq => ?_⟩)
  by_cases hone : (l.nat n).nholds = 1
  · have hqs := hc.eq_of_nholds hone hq hs; have := ((hc.placed s).sizes n hs).valid; rw [hqs]; omega
  · exact (hc.placed q).shared n hq hone

theorem kept_joined {st} (hc : Consistent l) (hs : (l.state s).realreg = some n)
    (hneed : st.needflush = (l.state d).needflush) : Kept 0 l (l.placed d n st) where
  locked := fun k => (nat_placed k).2.1
  touchcnt := le_refl _
  held := by
    intro k _
    rw [(nat_placed k).1]
    split
    · next hk => subst hk; have := hc.nholds_pos hs; omega
    · rfl
  needflush := by
    intro q
    by_cases hq : q = d
    · subst hq; rw [state_placed_self]; exact hneed
    · rw [state_placed_of_ne hq]
  flagsOnStack := rfl
  m68kPcOffset := rfl

theorem sim_joined (hc : Consistent l) (hs : (l.state s).realreg = some n)
    (hvalid : 4 ≤ (l.state s).validsize) (hx : d ≠ flagX) :
    Sim (fun _ => False) (fun v => update v d (v s)) l
      (l.placed d n (joined (l.state s).val (l.state d))) := by
  refine .of_state rfl (fun v m hm q => ?_) fun v hv => known_update hv fun h => absurd h hx
  by_cases hq : q = d
  · subst hq
    have h4 : (l.state s).validsize = 4 := by have := ((hc.placed s).sizes n hs).valid; omega
    obtain ⟨hv, -⟩ := (repAt_inreg (hc.inreg hs) hs).mp (hm.at_reg s)
    rw [h4, part_four] at hv
    rw [state_placed_self, update_self]
    refine (repAt_inreg (n := n) (.inr rfl) rfl).mpr ?_
    simp only [joined, part_four]; exact ⟨hv, hv, fun _ => trivial, by simp, (by simp), by simp⟩
  · rw [state_placed_of_ne hq, update_of_ne hq]; exact hm.at_reg q

theorem Dropped.pinned (h : Dropped d l l₁) (hc : Consistent l) (hds : s ≠ d)
    (hfit : Pinned l s → (l.state s).validsize = 4) : Pinned l₁ s → 4 ≤ (l₁.state s).validsize := by
  rintro ⟨n, hr, hlock, -⟩
  have hst := h.others s hds
  rw [hst] at hr ⊢
  by_cases hone : (l.nat n).nholds = 1
  · rw [(h.moved s).locked] at hlock; exact (hfit ⟨n, hr, hlock, hone⟩).ge
  · exact ((hc.placed s).shared n hr hone).ge

theorem movLRr_ends (hc : Consistent l) (hroom : Room E 2 3 l) (hp : d ≠ s → ¬Pinned l d)
    (hfit : Pinned l s → (l.state s).validsize = 4) :
    Ends E (movLRr d s) l fun _ l' => Consistent l' ∧ Kept 4 l l'
      ∧ (d ≠ flagX → Sim (fun _ => False) (fun v => update v d (v s)) l l') := by
  refine .get_bind (.doIf (fun hds => .ite (fun hconst => ?_) fun hconst => ?_) fun hds => ?_)
  · refine (setConst_ends hc (hp hds)).mono fun _ l' ⟨hc', hm, hsim⟩ =>
      ⟨hc', hm.toKept.mono (by omega), fun hx => sim_of_const hx (hsim hx) fun v m hv => ?_⟩
    exact agree_of_const hconst hv
  · refine .bind ((disassociate_ends hc fun n hr hlock hone => hp hds ⟨n, hr, hlock, hone⟩).mono
      fun _ l₁ h => ?_)
    refine .bind (readregGeneral_ends h.consistent (hroom.kept (h.moved d).toKept) (mayUse_four l₁ s)
      (h.pinned hc (Ne.symm hds) hfit) (by simp) fun n l₂ hg _ => ?_)
    refine .get_bind (.modify_bind (.bind (.of_ok hold_apply (unlock2_ends ?_ ?_))))
    · rw [(nat_placed n).2.1, nat_setState, (nat_lock n).1, if_pos rfl]; exact succ_ne_zero _
    have hfinal : ∀ t, t = (l₂.touch n).placed d n (joined (l₂.state s).val (l₂.state d)) →
        Consistent t ∧ Kept 4 l t
          ∧ (d ≠ flagX → Sim (fun _ => False) (fun v => update v d (v s)) l t) := by
      rintro t rfl
      have hd : (l₂.state d).realreg = none := by rw [hg.moved.outside d hds h.realreg]; exact h.realreg
      have hc₂ := consistent_touch hg.consistent n
      have hk := ((h.moved s).trans hg.moved).toKept.trans (Kept.touch (n := n))
      refine ⟨consistent_joined hc₂ hg.realreg hg.validsize hd, ?_, fun hx => ?_⟩
      · have hj : Kept 0 (l₂.touch n) ((l₂.touch n).placed d n (joined (l₂.state s).val (l₂.state d))) :=
          kept_joined hc₂ hg.realreg (by rfl)
        exact hk.trans hj
      · have h₁ := h.sim.andThen (h.moved d).locked (hg.sim rfl)
        have h₂ : Sim (fun _ => False) id l₂ (l₂.touch n) :=
          .of_state rfl (fun _ _ hm => hm.at_reg) fun _ hv => hv
        have h₃ := sim_joined (n := n) hc₂ hg.realreg hg.validsize hx
        have h₁₂ := h₁.andThen (fun k => (hg.moved.locked k).trans ((h.moved d).locked k)) h₂
        have hall := h₁₂.andThen hk.locked h₃
        simp only [forgetReg, id_eq, update_idem, update_of_ne (Ne.symm hds)] at hall
        exact hall
    refine hfinal _ ?_
    simp [Live.placed, Live.setState, Live.lock, Live.unlock, Live.touch, Live.setNat, joined]
  · have heq : d = s := not_not.mp hds
    subst heq
    refine ⟨hc, (Moved.refl d 4 l).toKept, fun _ => ?_⟩
    have hid : (fun v : VFile => update v d (v d)) = id := by funext v; simp
    rw [hid]; exact .refl l

/-! ## Writing a register -/

def Live.did (l : Live H) (n : Fin H.nRegs) (op : Raw H) : Live H :=
  { l.touch n with target := l.target ++ [op] }

theorem emit_unlock_ends {op Q} (hQ : Q () (l.did n op)) :
    Ends E (do emit op; unlock2 n) ((l.touch n).lock n) Q := by
  refine .modify_bind (unlock2_ends ?_ ?_)
  · have h := (nat_lock (l := l.touch n) (n := n) n).1
    rw [if_pos rfl] at h
    intro h0; exact succ_ne_zero _ (h.symm.trans h0)
  · convert hQ using 1; simp [Live.did, Live.lock, Live.unlock, Live.setNat, Live.touch]

theorem consistent_did {op} (hc : Consistent l) : Consistent (l.did n op) :=
  ⟨(consistent_touch hc n).slots, (consistent_touch hc n).placed, (consistent_touch hc n).touched⟩

theorem kept_did {op} : Kept 1 l (l.did n op) :=
  ⟨(Kept.touch (l := l)).locked, le_refl _, (Kept.touch (l := l)).held, fun _ => rfl, rfl, rfl⟩

theorem rep_write {spec m v z w} (op : Raw H) (h : Owned k size spec r l n l₁) (hm : Rep l₁ m (forgetLow r size v))
    (hz : (w.low size).Agree z) (hx : r ≠ flagX) : Rep (l₁.did n op) (m.setNat n (part size z (m.nat n)))
      (update v r (.part size w (v r))) := by
  have hflag : (v flagX).known = 0 := by
    have hf := hm.flagX; rwa [forgetLow, update_of_ne (Ne.symm hx)] at hf
  refine ⟨fun q => ?_, known_update hflag fun h => absurd h hx⟩
  by_cases hq : q = r
  · subst hq
    have hat := hm.at_reg q
    rw [forgetLow, update_self] at hat
    obtain ⟨hv, hd, -, hbyte, hword, hclean⟩ := (repAt_inreg (.inr h.status) h.realreg).mp hat
    rw [h.val, plus_zero] at hv hd
    rw [update_self]
    refine (repAt_inreg (.inr h.status) h.realreg).mpr ?_
    have hnat : (m.setNat n (part size z (m.nat n))).nat n = part size z (m.nat n) :=
      update_self ..
    rw [h.val, plus_zero, plus_zero, hnat]
    have hle := ((h.consistent.placed q).sizes n h.realreg).le
    exact ⟨hv.write hz (h.dirtysize.trans hle), hd.write hz h.dirtysize, by simp, hbyte, hword, hclean⟩
  · have hat := hm.at_reg q
    rw [forgetLow, update_of_ne hq] at hat
    rw [update_of_ne hq]
    exact repAt_of_ne hat fun hqn => hq (h.consistent.eq_of_nholds h.nholds hqn h.realreg)

def Resting (l : Live H) : Prop := ∀ n, (l.nat n).locked ≠ 0 → (l.nat n).nholds = 0

theorem Resting.not_pinned (h : Resting l) : ¬Pinned l r := by
  rintro ⟨n, -, hlock, hone⟩
  have := h n hlock
  omega

theorem Resting.kept (h : Resting l) (hk : Kept k l l') : Resting l' := by
  intro n hn
  rw [hk.locked] at hn
  have hz := h n hn
  have hiff := hk.held n hn
  omega

theorem Resting.ne {j} (h : Resting l) (hk : Kept k l l') (hn : (l'.nat n).nholds = 1)
    (hj : (l.nat j).locked ≠ 0) : j ≠ n := by
  rintro rfl
  have hz := h.kept hk j (by rwa [hk.locked])
  omega

theorem Resting.mayUse (h : Resting l) (hsize : Width size) (r : VReg) :
    MayUse l r size none := ⟨hsize, fun hp => absurd hp h.not_pinned, by simp⟩

theorem writereg_emit_ends {op : Fin H.nRegs → Raw H} {c : BitVec 32} {w : VFile → Word}
    (hc : Consistent l) (hroom : Room E 2 4 l) (hrest : Resting l)
    (hsize : Width size) (hx : d ≠ flagX)
    (hop : ∀ n m, sizeOk size n = true → (op n).exec m = some (m.setNat n (part size c (m.nat n))))
    (hw : ∀ v m, Rep l m v → ((w v).low size).Agree c) :
    Ends E (do let n ← writereg d size; emit (op n); unlock2 n) l fun _ l' =>
      Does 5 (fun v => update v d (.part size (w v) (v d))) l l' := by
  refine .bind (writeregGeneral_ends hc hroom (hrest.mayUse hsize d)
    (fun _ hp => absurd hp hrest.not_pinned) fun n l₁ ho hsim => emit_unlock_ends ?_)
  refine ⟨consistent_did ho.consistent, ho.moved.toKept.trans kept_did, fun v m hm => ?_⟩
  obtain ⟨ops, m₁, ht, he, hr, hn, -⟩ := hsim rfl v m hm
  have hok : sizeOk size n = true := ho.able.resolve_right (by simp)
  refine ⟨ops ++ [op n], _, ?_, ?_, rep_write (op n) ho hr (hw v m hm) hx, fun j hj => ?_, by simp⟩
  · simp only [Live.did, ht, append_assoc]
  · rw [exec_append, he, Option.bind_some, exec, hop n m₁ hok]; rfl
  · have hjn := hrest.ne ho.moved.toKept ho.nholds hj; rw [← hn j hj]; exact update_of_ne hjn ..

theorem rmw_emit_ends {op : Fin H.nRegs → Raw H} (hc : Consistent l) (hroom : Room E 2 4 l)
    (hrest : Resting l) (hx : d ≠ flagX) (hop : ∀ n m, (op n).exec m = some (m.setNat n (m.nat n + i))) :
    Ends E (do let n ← rmw d 4 4; emit (op n); unlock2 n) l fun _ l' =>
      Does 5 (fun v => update v d ((v d).add i)) l l' := by
  refine .bind (rmwGeneral_ends hc hroom (mayUse_four l d) (le_refl 4) (.inr (.inr rfl))
    (fun hp => absurd hp hrest.not_pinned) (fun hp => absurd hp hrest.not_pinned)
    fun n l₁ ho _ hsim => emit_unlock_ends ?_)
  refine ⟨consistent_did ho.consistent, ho.moved.toKept.trans kept_did, fun v m hm => ?_⟩
  obtain ⟨ops, m₁, ht, he, hr, hn, -⟩ := hsim rfl rfl v m hm
  have hsizes := (ho.consistent.placed d).sizes n ho.realreg
  have h4 : (l₁.state d).validsize = 4 := by
    have := hsizes.valid
    have := hsizes.le
    have := ho.dirtysize; omega
  have hagree : ((v d).add i).Agree (m₁.nat n + i) := by
    obtain ⟨hv, -⟩ := (repAt_inreg (.inr ho.status) ho.realreg).mp (hr.at_reg d)
    rw [h4, part_four, ho.val] at hv
    rw [plus_zero] at hv; exact hv.add i
  have hforget : Rep l₁ m₁ (forgetLow d 4 v) := by
    have h := hr.forget d
    have heq : forgetLow d 4 v = forgetReg d v := by simp [forgetLow, forgetReg, Word.forget, Word.part]
    rwa [heq]
  have hwrite := rep_write (w := (v d).add i) (op n) ho hforget (by rwa [Word.low_four]) hx
  rw [part_four] at hwrite
  have hpart : Word.part 4 ((v d).add i) (v d) = (v d).add i := by simp [Word.part]
  rw [hpart] at hwrite
  refine ⟨ops ++ [op n], _, ?_, ?_, hwrite, fun j hj => ?_, by simp⟩
  · simp only [Live.did, ht, append_assoc]
  · rw [exec_append, he, Option.bind_some, exec, hop n m₁]; rfl
  · have hjn := hrest.ne ho.moved.toKept ho.nholds hj; rw [← hn j hj]; exact update_of_ne hjn ..

theorem binary_ends (op : Fin H.nRegs → Fin H.nRegs → Raw H) {F : BitVec 32 → BitVec 32}
    {G : Word → Word} (hc : Consistent l) (hroom : Room E 3 8 l) (hrest : Resting l)
    (hsize : Width size) (hds : d ≠ s) (hx : d ≠ flagX)
    (hop : ∀ n j m, sizeOk size n = true → sizeOk size j = true →
      (op n j).exec m = some (m.setNat n (part size (F (m.nat j)) (m.nat n))))
    (hG : ∀ w z, (Word.low size w).Agree z → ((G w).low size).Agree (F z)) :
    Ends E (do
      let j ← readreg s size
      let n ← writereg d size
      emit (op n j)
      unlock2 n
      unlock2 j) l fun _ l' =>
      Does 9 (fun v => update v d (.part size (G (v s)) (v d))) l l' := by
  have hp : ∀ r, ¬Pinned l r := fun r => hrest.not_pinned
  refine .bind (readregGeneral_ends hc (hroom.mono (by omega) (by omega)) (hrest.mayUse hsize s)
    (fun h => absurd h (hp s)) (fun _ h => absurd h (hp s)) fun j l₁ hg hval => ?_)
  have hk₁ : Kept 4 l (l₁.touch j) := hg.moved.toKept.trans Kept.touch
  have hc₁ : Consistent ((l₁.touch j).lock j) := (consistent_touch hg.consistent j).setLocked (· + 1)
  have hroom₁ : Room E 2 4 ((l₁.touch j).lock j) := (hroom.kept (b := 4) hk₁).lock j
  have hpd : ¬Pinned ((l₁.touch j).lock j) d := by
    rintro ⟨n, hr, hlock, hone⟩
    rw [(nat_lock n).1] at hlock
    rw [(nat_lock n).2] at hone
    split at hlock
    · next hn => subst hn; exact hds ((consistent_touch hg.consistent n).eq_of_nholds hone hr hg.realreg)
    · have := hrest.kept hk₁ n hlock; omega
  refine .bind (writeregGeneral_ends hc₁ hroom₁ ⟨hsize, fun h => absurd h hpd, by simp⟩
    (fun _ h => absurd h hpd) fun n l₂ ho hsim => ?_)
  have hk₂ : Kept 5 ((l₁.touch j).lock j) (l₂.did n (op n j)) := ho.moved.toKept.trans kept_did
  have hlock : ((l₂.did n (op n j)).nat j).locked ≠ 0 := by
    rw [hk₂.locked, (nat_lock j).1, if_pos rfl]; exact succ_ne_zero _
  have hdone : Does 9 (fun v => update v d (.part size (G (v s)) (v d))) l
      ((l₂.did n (op n j)).unlock j) := by
    refine ⟨(consistent_did ho.consistent).setLocked (· - 1), hk₁.trans hk₂.unlock, fun v m hm => ?_⟩
    obtain ⟨ops₁, m₁, ht₁, he₁, hr₁, hn₁, -⟩ := hg.sim rfl v m hm
    obtain ⟨ops₂, m₂, ht₂, he₂, hr₂, hn₂, -⟩ := hsim rfl v m₁ ⟨hr₁.at_reg, hr₁.flagX⟩
    -- the source is locked, so that it keeps its value
    have hsame : m₂.nat j = m₁.nat j := hn₂ j (by
      rw [(nat_lock j).1, if_pos rfl]
      exact succ_ne_zero _)
    have hagree : ((v s).low size).Agree (m₂.nat j) := by
      obtain ⟨hv, -⟩ := (repAt_inreg (hg.consistent.inreg hg.realreg) hg.realreg).mp (hr₁.at_reg s)
      rw [hval rfl, plus_zero] at hv
      rw [hsame]; exact hv.low hg.validsize
    have hwrite := rep_write (op n j) ho hr₂ (hG _ _ hagree) hx
    refine ⟨ops₁ ++ ops₂ ++ [op n j], _, ?_, ?_, ⟨hwrite.at_reg, hwrite.flagX⟩, fun k hk => ?_, by simp⟩
    · have ht₂' : l₂.target = l₁.target ++ ops₂ := ht₂
      simp only [Live.unlock, Live.setNat, Live.did, ht₂', ht₁, append_assoc]
    · rw [exec_append, exec_append, he₁, Option.bind_some, he₂, Option.bind_some, exec,
        hop n j m₂ (ho.able.resolve_right (by simp)) (hg.able.resolve_right (by simp))]
      rfl
    · have hk' : (((l₁.touch j).lock j).nat k).locked ≠ 0 :=
        locked_lock_ne_zero (by rwa [hk₁.locked])
      have hkn : k ≠ n := by
        rintro rfl
        have hz := hrest.kept hk₁ k (by rwa [hk₁.locked])
        have hheld := ho.moved.held k hk'
        rw [(nat_lock k).2] at hheld
        have := ho.nholds; omega
      rw [← hn₁ k hk, ← hn₂ k hk']; exact update_of_ne hkn ..
  have hend : Ends E ((do emit (op n j); unlock2 n) >>= fun _ => unlock2 j) ((l₂.touch n).lock n)
      fun _ l' => Does 9 (fun v => update v d (.part size (G (v s)) (v d))) l l' :=
    .bind (emit_unlock_ends (unlock2_ends hlock hdone))
  simp only [bind_assoc] at hend
  exact hend

/-! ## The operations -/

theorem GReg.ne_flagX (r : GReg) : r.1 ≠ flagX := by
  intro h
  have hr := r.2
  rw [h] at hr
  exact absurd hr (by decide)

theorem Consistent.addVal (hc : Consistent l) : Consistent (l.setState d fun st => { st with val := st.val + i }) := by
  have hp := hc.placed d
  refine hc.setState (r := d) (f := fun st => { st with val := st.val + i }) rfl rfl ⟨hp.inreg, fun n hn => ?_, hp.shared⟩
  exact ⟨(hp.sizes n hn).valid, (hp.sizes n hn).dirty, (hp.sizes n hn).le, (hp.sizes n hn).of_dirty⟩

theorem addOffset_ends (hc : Consistent l) (hx : d ≠ flagX)
    (hsafe : i ≠ 0 → l.isinreg d = true → (l.state d).validsize = 4) :
    Ends E (addOffset d i) l fun _ l' => Does 0 (fun v => update v d ((v d).add i)) l l' := by
  refine .modify ⟨hc.addVal, Kept.setState rfl, ?_⟩
  refine .of_state rfl (fun v m hm q => ?_) fun v hv => known_update hv fun h => absurd h hx
  by_cases hq : q = d
  · subst hq
    rw [state_setState_self, update_self]
    have hat := hm.at_reg q
    unfold RepAt at hat ⊢
    cases hs : (l.state q).status with
    | undef =>
      simp only [hs] at hat ⊢
      rw [Word.add, if_neg]
      · rfl
      · rw [hat]; decide
    | inmem => simp only [hs, ← BitVec.add_assoc] at hat ⊢; exact hat.add i
    | isconst => simp only [hs] at hat ⊢; exact hat.add i
    | clean | dirty =>
      simp only [hs, ← BitVec.add_assoc] at hat ⊢
      intro n hn
      obtain ⟨hv, hd, hfull, hrest⟩ := hat n hn
      refine ⟨hv.add i, hd.add i, fun hval => ?_, hrest⟩
      by_cases hi : i = 0
      · exact hfull (by simpa [hi] using hval)
      · exact hsafe hi (by simp [Live.isinreg, hs])
  · rw [state_setState, if_neg hq, update_of_ne hq]; exact hm.at_reg q

theorem clobberFlags_apply (h : l.flagsOnStack = .valid) :
    (clobberFlags : Alloc H Unit) l = .ok () { l with flagsInFlags := .trash } := by
  rw [clobberFlags, bind_ok (get_apply l), doIf, if_neg fun hn => hn.2 h]
  rfl

theorem addImmediate_ends {op : Fin H.nRegs → Raw H} {j : BitVec 32} (needflags : Bool)
    (hc : Consistent l) (hroom : Room E 2 4 l) (hrest : Resting l) (hflags : l.flagsOnStack = .valid)
    (hx : d ≠ flagX) (hj : j = 0 → i = 0)
    (hsafe : needflags = false → j ≠ 0 → l.isinreg d = true → (l.state d).validsize = 4)
    (hop : ∀ n m, (op n).exec m = some (m.setNat n (m.nat n + i))) :
    Ends E (if needflags then (do
        clobberFlags
        let d ← rmw d 4 4
        emit (op d)
        unlock2 d)
      else doIf (j ≠ 0) (addOffset d i)) l fun _ l' =>
      Does 9 (fun v => update v d ((v d).add i)) l l' := by
  refine .ite (fun _ => .bind (.of_ok (clobberFlags_apply hflags) ?_)) fun hf => .doIf (fun hne => ?_) fun hne => ?_
  · have hc' : Consistent ({ l with flagsInFlags := .trash } : Live H) := ⟨hc.slots, hc.placed, hc.touched⟩
    have hroom' : Room E 2 4 ({ l with flagsInFlags := .trash } : Live H) :=
      hroom.imp_right fun h => ⟨h.touchcnt, h.free⟩
    refine (rmw_emit_ends hc' hroom' hrest hx hop).mono fun _ l' h => ⟨h.consistent, ?_, ?_⟩
    · have hk := h.kept.mono (j := 9) (by omega)
      exact ⟨hk.locked, hk.touchcnt, hk.held, hk.needflush, hk.flagsOnStack, hk.m68kPcOffset⟩
    · exact fun v m hm => h.sim v m ⟨hm.at_reg, hm.flagX⟩
  · exact (addOffset_ends hc hx fun _ => hsafe (by simpa using hf) hne).mono fun _ l' h => h.mono (by omega)
  · have h0 : i = 0 := hj (not_not.mp hne)
    subst h0
    refine ⟨hc, (Moved.refl d 9 l).toKept, .of_state rfl (fun v m hm q => ?_) fun v hv => ?_⟩
    · by_cases hq : q = d
      · subst hq
        rw [update_self]
        refine (hm.at_reg q).weaken (fun x hx => ?_) fun hk => ?_
        · have h := hx.add 0; rwa [plus_zero] at h
        · rw [Word.add, if_neg]
          · rfl
          · rw [hk]; decide
      · rw [update_of_ne hq]; exact hm.at_reg q
    · exact known_update hv fun h => absurd h hx

theorem movPart_ends {op : Fin H.nRegs → Fin H.nRegs → Raw H} {c : Fin H.nRegs → Raw H} {z : BitVec 32}
    (hc : Consistent l) (hroom : Room E 3 8 l) (hrest : Resting l)
    (hsize : Width size) (hx : d ≠ flagX)
    (hz : part size z (l.state s).val = (l.state s).val)
    (hop : ∀ n j m, sizeOk size n = true → sizeOk size j = true →
      (op n j).exec m = some (m.setNat n (part size (m.nat j) (m.nat n))))
    (hci : ∀ n m, sizeOk size n = true → (c n).exec m = some (m.setNat n (part size z (m.nat n)))) :
    Ends E (doIf (d ≠ s) (
      if l.isconst s then (do let n ← writereg d size; emit (c n); unlock2 n)
      else (do
        let j ← readreg s size
        let n ← writereg d size
        emit (op n j)
        unlock2 n
        unlock2 j))) l fun _ l' =>
      Does 9 (fun v => update v d (.part size (v s) (v d))) l l' := by
  refine .doIf (fun hds => .ite (fun hconst => ?_) fun _ => ?_) fun hds => ?_
  · refine (writereg_emit_ends (w := fun v => v s) hc (hroom.mono (by omega) (by omega)) hrest hsize hx hci
      fun v m hm => ?_).mono fun _ l' h => h.mono (by omega)
    have h := agree_of_const hconst hm
    rw [← hz] at h; exact h.low (le_refl size)
  · exact binary_ends op (F := id) (G := id) hc hroom hrest hsize hds hx hop fun _ _ h => h
  · have heq : d = s := not_not.mp hds
    subst heq
    have hid : (fun v : VFile => update v d (.part size (v d) (v d))) = id := by
      funext v
      simp [Word.part, part_self]
    rw [hid]; exact ⟨hc, (Moved.refl d 9 l).toKept, .refl l⟩

theorem compile_ends (op : MidOp) (hc : Consistent l) (hroom : Room E 3 8 l) (hrest : Resting l)
    (hflags : l.flagsOnStack = .valid) (hsafe : op.Safe l) :
    Ends E op.compile l fun _ l' => Does 9 op.interp l l' := by
  have hroom₂ : Room E 2 4 l := hroom.mono (by omega) (by omega)
  cases op with
  | movLRr d s =>
    refine (movLRr_ends hc (hroom₂.mono (le_refl 2) (by omega)) (fun _ => hrest.not_pinned)
      fun h => absurd h hrest.not_pinned).mono fun _ l' h => ?_
    exact ⟨h.1, h.2.1.mono (by omega), h.2.2 d.ne_flagX⟩
  | movLRi d i =>
    refine (setConst_ends hc hrest.not_pinned).mono fun _ l' h => ?_
    exact ⟨h.1, h.2.1.toKept.mono (by omega), h.2.2 d.ne_flagX⟩
  | movWRr d s =>
    refine .get_bind (movPart_ends (z := ((l.state s.1).val.setWidth 16).setWidth 32) hc hroom hrest
      (.inr (.inl rfl)) d.ne_flagX part_setWidth_two (fun n j m hn hj => ?_) fun n m hn => ?_)
    · simp [Raw.exec, sizeOk_word hn rfl, sizeOk_word hj rfl]
    · simp [Raw.exec, sizeOk_word hn rfl]
  | movBRr d s =>
    refine .get_bind (movPart_ends (z := ((l.state s.1).val.setWidth 8).setWidth 32) hc hroom hrest
      (.inl rfl) d.ne_flagX part_setWidth_one (fun n j m hn hj => ?_) fun n m hn => ?_)
    · simp [Raw.exec, sizeOk_byte hn rfl, sizeOk_byte hj rfl]
    · simp [Raw.exec, sizeOk_byte hn rfl]
  | addLRi needflags d i =>
    refine addImmediate_ends needflags hc hroom₂ hrest hflags d.ne_flagX (fun h => h) (fun hf hi => ?_)
      fun _ _ => rfl
    exact hsafe d.1 (by rw [hf]; simp only [MidOp.offsetReg, if_neg hi, Option.mem_def])
  | subLRi needflags d i =>
    refine addImmediate_ends needflags hc hroom₂ hrest hflags d.ne_flagX (fun h => by rw [h]; rfl)
      (fun hf hi => ?_) fun n m => by rw [Raw.exec, BitVec.sub_eq_add_neg]
    exact hsafe d.1 (by rw [hf]; simp only [MidOp.offsetReg, if_neg hi, Option.mem_def])
  | leaLBrr d s offset =>
    refine .get_bind (.ite (fun hconst => ?_) fun hconst => .ite (fun hds => ?_) fun hds => ?_)
    · refine (setConst_ends hc hrest.not_pinned).mono fun _ l' h => ?_
      refine ⟨h.1, h.2.1.toKept.mono (by omega), sim_of_const d.ne_flagX (h.2.2 d.ne_flagX) fun v m hv => ?_⟩
      exact (agree_of_const hconst hv).add offset
    · have heq : d = s := Subtype.ext hds
      subst heq
      refine (addOffset_ends hc d.ne_flagX ?_).mono fun _ l' h => h.mono (by omega)
      exact fun hne => hsafe d.1 (by simp only [MidOp.offsetReg, hne, and_self, not_false_eq_true, if_true, ne_eq,
        Option.mem_def])
    · have h := binary_ends (E := E) (fun n j => .leaLBrr n j offset) (F := (· + offset))
        (G := (Word.add · offset)) hc hroom hrest (.inr (.inr rfl)) hds d.ne_flagX
        (fun n j m _ _ => by simp [Raw.exec]) fun w z hw => by
          rw [Word.low_four] at hw ⊢; exact hw.add offset
      simp only [Word.part, part_four] at h; exact h
  | forgetAbout r =>
    refine (forgetAbout_ends hc hrest.not_pinned).mono fun _ l' h => ?_
    exact ⟨h.1, h.2.1.toKept.mono (by omega), h.2.2⟩

end Aranym.Jit
