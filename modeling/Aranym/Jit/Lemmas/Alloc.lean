import Aranym.Jit.Lemmas.Live

/-!
# Allocation of native registers

`alloc_reg_hinted` frees a native register that is not locked and puts the virtual register there.
-/

namespace Aranym.Jit

open Aranym.Lib Function

variable {H : Host} {l l' l₁ l₂ : Live H} {r q : VReg} {n rr : Fin H.nRegs} {E : Abort → Prop}
  {size k b : Nat} {hint : Option (Fin H.nRegs)} {st : RegStatus H} {ops : List (Raw H)}

/-! ## The search -/

theorem findReg_some {is best when} (h : findReg l size hint is best when = some n) :
    best = some n ∨ (l.nat n).locked = 0 ∧ sizeOk size n = true := by
  induction is generalizing best when with
  | nil => exact .inl h
  | cons i is ih =>
    simp only [findReg] at h
    split at h
    · next hi =>
      split at h
      · cases h; exact .inr ⟨hi.1, hi.2.2⟩
      · rcases ih h with hbest | hn
        · cases hbest; exact .inr ⟨hi.1, hi.2.2⟩
        · exact .inr hn
    · exact ih h

theorem findReg_isSome {is best when} (h : best.isSome ∨ ∃ i ∈ is, (l.nat i).locked = 0 ∧ sizeOk size i = true
      ∧ ((l.nat i).touched : Int) < when ∧ 0 < when) : (findReg l size hint is best when).isSome := by
  induction is generalizing best when with
  | nil =>
    rcases h with h | ⟨i, hi, -⟩
    · exact h
    · cases hi
  | cons j is ih =>
    simp only [findReg]
    split
    · split
      · rfl
      · exact ih (.inl rfl)
    · next hj =>
      refine ih ?_
      rcases h with h | ⟨i, hi, hlock, hok, htouch, hpos⟩
      · exact .inl h
      · rcases List.mem_cons.mp hi with rfl | hi
        · refine absurd ⟨hlock, ?_, hok⟩ hj
          unfold badness
          split <;> split <;> omega
        · exact .inr ⟨i, hi, hlock, hok, htouch, hpos⟩

/-- At least `k` registers that can do everything are not locked, and there are `b` marks of time
before the search would take all registers for too recent. -/
structure Spare (k b : Nat) (l : Live H) : Prop where
  touchcnt : l.touchcnt + b ≤ 2000000000
  free : k ≤ (Finset.univ.filter fun n => H.canByte n ∧ H.canWord n ∧ (l.nat n).locked = 0).card

def Room (E : Abort → Prop) (k b : Nat) (l : Live H) : Prop := E .noReg ∨ Spare k b l

theorem Room.moved {b' j} (h : Room E k b l) (hm : Moved r j l l') (hb : b' + j ≤ b) : Room E k b' l' := by
  refine h.imp_right fun hs => ⟨?_, ?_⟩
  · have := hs.touchcnt; have := hm.touchcnt; omega
  · simp only [hm.locked]; exact hs.free

theorem Room.mono {b' k'} (h : Room E k b l) (hk : k' ≤ k) (hb : b' ≤ b) : Room E k' b' l :=
  h.imp_right fun hs => ⟨by have := hs.touchcnt; omega, hk.trans hs.free⟩

theorem Spare.findReg (hint : Option (Fin H.nRegs)) (hc : Consistent l) (h : Spare (k + 1) b l)
    (hsize : Width size) :
    (findReg l size hint (List.finRange H.nRegs) none 2000000000).isSome := by
  obtain ⟨n, hn⟩ := Finset.card_pos.mp (Nat.lt_of_lt_of_le (Nat.succ_pos k) h.free)
  simp only [Finset.mem_filter, Finset.mem_univ, true_and] at hn
  refine findReg_isSome (.inr ⟨n, List.mem_finRange n, hn.2.2, ?_, ?_, by decide⟩)
  · rcases hsize with rfl | rfl | rfl <;> simp [sizeOk, hn.1, hn.2.1]
  · have := hc.touched n; have := h.touchcnt; omega

/-! ## A new place -/

theorem consistent_touch (hc : Consistent l) (n : Fin H.nRegs) : Consistent (l.touch n) := by
  refine hc.setNat ⟨rfl, rfl⟩ fun k => ?_
  rw [nat_setNat]
  split
  · exact Nat.lt_succ_self _
  · exact Nat.lt_succ_of_lt (hc.touched k)

def Live.placed (l : Live H) (r : VReg) (n : Fin H.nRegs) (st : RegStatus H) : Live H :=
  { l with
    state := update l.state r { st with realreg := some n, realind := (l.nat n).nholds }
    nat := update l.nat n
      { l.nat n with holds := update (l.nat n).holds (l.nat n).nholds r,
                     nholds := (l.nat n).nholds + 1 } }

theorem state_placed_self : (l.placed r n st).state r
    = { st with realreg := some n, realind := (l.nat n).nholds } := by simp [Live.placed]

theorem state_placed_of_ne (hq : q ≠ r) : (l.placed r n st).state q = l.state q := by simp [Live.placed, hq]

theorem nat_placed {t} (k : Fin H.nRegs) :
    ((l.placed r n t).nat k).nholds = (if k = n then (l.nat n).nholds + 1 else (l.nat k).nholds)
      ∧ ((l.placed r n t).nat k).locked = (l.nat k).locked
      ∧ ((l.placed r n t).nat k).touched = (l.nat k).touched := by
  by_cases hk : k = n <;> simp [Live.placed, hk]

theorem consistent_placed {t} (hc : Consistent l) (hr : (l.state r).realreg = none)
    (hin : InReg t) (hsizes : Sizes t) (hshare : (l.nat n).nholds = 0 ∨ t.validsize = 4
      ∧ ∀ q, (l.state q).realreg = some n → (l.state q).validsize = 4) : Consistent (l.placed r n t) where
  slots := by
    have heq : (l.placed r n t).slots = l.slots.push r n := by
      unfold Live.slots Slots.push
      rw [Slots.mk.injEq]
      refine ⟨funext fun k => ?_, funext fun k => ?_, funext fun q => ?_⟩
      · by_cases hk : k = n <;> simp [Live.placed, hk]
      · by_cases hk : k = n <;> simp [Live.placed, hk]
      · by_cases hq : q = r <;> simp [Live.placed, hq]
    rw [heq]; exact hc.slots.push (by simp [Live.slots, hr])
  placed := by
    intro q
    by_cases hq : q = r
    · subst hq
      rw [state_placed_self]
      refine ⟨by simpa [InReg] using hin, fun k hk => ?_, fun k hk hne => ?_⟩
      · exact ⟨hsizes.valid, hsizes.dirty, hsizes.le, hsizes.of_dirty⟩
      · simp only [Option.some.injEq] at hk
        subst hk
        rw [(nat_placed n).1, if_pos rfl] at hne; exact (hshare.resolve_left (by omega)).1
    · rw [state_placed_of_ne hq]
      refine ⟨(hc.placed q).inreg, (hc.placed q).sizes, fun k hk hne => ?_⟩
      rw [(nat_placed k).1] at hne
      split at hne
      · next hkn => subst hkn; have hpos := hc.nholds_pos hk; exact (hshare.resolve_left (by omega)).2 q hk
      · exact (hc.placed q).shared k hk hne
  touched := by
    intro k
    rw [(nat_placed k).2.2]; exact hc.touched k

theorem sim_place {K} {g : Word → Word} {t : Live H} (hc : Consistent l)
    (hfree : (l.nat n).nholds = 0) (hlock : (l.nat n).locked = 0)
    (ht : t.target = l.target ++ ops) (hothers : ∀ q, q ≠ r → t.state q = l.state q)
    (hg : ∀ w : Word, w.known = 0 → (g w).known = 0)
    (hops : ∀ m w, RepAt (l.state r) m r w → (r = flagX → w.known = 0) →
      ∃ x, exec ops m = some (m.setNat n x) ∧ RepAt (t.state r) (m.setNat n x) r (g w)) :
    Sim K (fun v => update v r (g (v r))) l t := by
  intro v m hm
  obtain ⟨x, hexec, hrep⟩ := hops m (v r) (hm.at_reg r) fun h => by rw [h]; exact hm.flagX
  refine ⟨ops, _, ht, hexec, ⟨fun q => ?_, ?_⟩, fun k hk => ?_, fun _ _ => rfl⟩
  · by_cases hq : q = r
    · subst hq; simpa using hrep
    · rw [hothers q hq]
      simp only [update_of_ne hq]
      exact repAt_of_ne (hm.at_reg q) (hc.realreg_ne_of_free hfree)
  · exact known_update hm.flagX fun h => hg _ (by rw [h]; exact hm.flagX)
  · have hkn : k ≠ n := by rintro rfl; exact hk hlock
    exact update_of_ne hkn ..

theorem setNat_self (m : Machine H) (n : Fin H.nRegs) : m.setNat n (m.nat n) = m := by simp [Machine.setNat]

structure Allocated (r : VReg) (l : Live H) (n : Fin H.nRegs) (l' : Live H) : Prop where
  consistent : Consistent l'
  moved : Moved r 1 l l'
  realreg : (l'.state r).realreg = some n
  nholds : (l'.nat n).nholds = 1
  locked : (l.nat n).locked = 0

theorem hold_apply : hold r n l = .ok () (l.placed r n (l.state r)) := rfl

def Live.allocated (l : Live H) (r : VReg) (n : Fin H.nRegs) (st : RegStatus H) (ops : List (Raw H)) :
    Live H := { (l.touch n).placed r n st with target := l.target ++ ops }

theorem state_allocated {t x} (hfree : (l.nat n).nholds = 0) :
    (l.allocated r n t x).state r = { t with realreg := some n, realind := 0 } := by
  refine state_placed_self.trans ?_
  simp [Live.touch, Live.setNat, hfree]

theorem state_allocated_of_ne (hq : q ≠ r) : (l.allocated r n st ops).state q = l.state q := state_placed_of_ne hq

theorem hold_ends {f Q t o} (ht : t = { l.setState r f with target := l.target ++ o })
    (h : Q n (l.allocated r n (f (l.state r)) o)) : Ends E (do touch n; hold r n; pure n) t Q := by
  subst ht
  refine .modify_bind (.bind (.of_ok hold_apply (.pure ?_)))
  convert h using 1
  simp [Live.allocated, Live.placed, Live.touch, Live.setNat, Live.setState]

theorem allocated_moved (hlock : (l.nat n).locked = 0)
    (hneed : st.needflush = (l.state r).needflush) : Moved r 1 l (l.allocated r n st ops) where
  locked := by
    intro k
    have h := (nat_placed (l := l.touch n) (r := r) (n := n) (t := st) k).2.1
    refine h.trans ?_
    by_cases hk : k = n <;> simp [Live.touch, Live.setNat, hk]
  touchcnt := le_refl _
  held := by
    intro k hk
    have h := (nat_placed (l := l.touch n) (r := r) (n := n) (t := st) k).1
    have hkn : k ≠ n := by rintro rfl; exact hk hlock
    have hsame : ((l.allocated r n st ops).nat k).nholds = (l.nat k).nholds := by
      refine h.trans ?_
      simp [Live.touch, Live.setNat, hkn]
    rw [hsame]
  calm := by
    intro q hq hcalm
    rwa [state_allocated_of_ne hq]
  outside := by
    intro q hq _
    rw [state_allocated_of_ne hq]
  needflush := by
    intro q
    by_cases hq : q = r
    · subst hq; have h : (l.allocated q n st ops).state q = _ := state_placed_self; rw [h]; exact hneed
    · rw [state_allocated_of_ne hq]
  flagsOnStack := rfl
  m68kPcOffset := rfl

def loadOp (n : Fin H.nRegs) (r : VReg) : Raw H := if r = flagX then .loadFlagx n else .movLRm n r

theorem doLoadReg_ends {Q}
    (hQ : Q () { l with target := l.target ++ [loadOp n r] }) : Ends E (doLoadReg n r) l Q := by
  unfold doLoadReg loadOp at *
  split
  · next h => exact .modify (by simpa [h] using hQ)
  · next h => exact .modify (by simpa [h] using hQ)

theorem exec_loadOp (n : Fin H.nRegs) (r : VReg) (m : Machine H) :
    ∃ x, exec [loadOp n r] m = some (m.setNat n x) := by
  unfold loadOp
  split <;> exact ⟨_, rfl⟩

theorem sizeOk_byte (h : sizeOk size n = true) (hs : size = 1) : H.canByte n = true := by
  subst hs
  simpa [sizeOk] using h

theorem sizeOk_word (h : sizeOk size n = true) (hs : size = 2) : H.canWord n = true := by
  subst hs
  simpa [sizeOk] using h

section

variable (hc : Consistent l) (hr : (l.state r).realreg = none) (hfree : (l.nat n).nholds = 0)
  (hlock : (l.nat n).locked = 0)

include hc hr hfree hlock

theorem Allocated.of_place (hin : InReg st) (hsizes : Sizes st) (hneed : st.needflush = (l.state r).needflush) :
    Allocated r l n (l.allocated r n st ops) where
  consistent := by
    have h := consistent_placed (n := n) (consistent_touch hc n) (r := r) (t := st) hr hin hsizes
      (.inl (by simpa [Live.touch, Live.setNat] using hfree))
    exact ⟨h.slots, h.placed, h.touched⟩
  moved := allocated_moved hlock hneed
  realreg := by
    have h : (l.allocated r n st ops).state r = _ := state_placed_self
    rw [h]
  nholds := by
    have h := (nat_placed (l := l.touch n) (r := r) (n := n) (t := st) n).1
    rw [if_pos rfl] at h
    refine h.trans ?_
    simp [Live.touch, Live.setNat, hfree]
  locked := hlock

structure AllocRead (size : Nat) (r : VReg) (l : Live H) (n : Fin H.nRegs) (l' : Live H) : Prop
    extends Allocated r l n l' where
  sim : Sim (fun _ => False) id l l'
  validsize : (l'.state r).validsize = 4
  val : (l.state r).val = 0 ∨ (l.state r).status = .isconst → (l'.state r).val = 0
  sizeOk : sizeOk size n = true

def forgetLow (r : VReg) (size : Nat) (v : VFile) : VFile := update v r ((v r).forget size)

structure AllocClobber (size : Nat) (r : VReg) (l : Live H) (n : Fin H.nRegs) (l' : Live H) : Prop
    extends Allocated r l n l' where
  sim : size = 4 ∨ (l.state r).status = .isconst ∨ (l.state r).val = 0 →
    Sim (fun q => Quiet (l.state q)) (forgetLow r size) l l'
  dirtysize : size ≤ (l'.state r).dirtysize
  status : (l'.state r).status = .dirty
  val : (l'.state r).val = 0
  sizeOk : Jit.sizeOk size n = true

theorem AllocRead.of_place (hin : InReg st) (hsizes : Sizes st) (hneed : st.needflush = (l.state r).needflush)
    (hvalid : st.validsize = 4) (hval : (l.state r).val = 0 ∨ (l.state r).status = .isconst → st.val = 0)
    (hops : ∀ m w, RepAt (l.state r) m r w → (r = flagX → w.known = 0) → ∃ x, exec ops m = some (m.setNat n x)
        ∧ RepAt { st with realreg := some n, realind := 0 } (m.setNat n x) r w)
    (hok : Jit.sizeOk size n = true) : AllocRead size r l n (l.allocated r n st ops) := by
  have hst := state_allocated (r := r) (t := st) (x := ops) hfree
  refine
    { toAllocated := .of_place hc hr hfree hlock hin hsizes hneed
      sim := ?_
      validsize := by rw [hst]; exact hvalid
      val := by rw [hst]; exact hval
      sizeOk := hok }
  have hsim := sim_place (K := fun _ => False) (t := l.allocated r n st ops) (g := id) (r := r) hc hfree hlock rfl
    (fun _ => state_allocated_of_ne) (fun _ h => h) (by rw [hst]; exact hops)
  have hid : (fun v : VFile => update v r (id (v r))) = id := by funext v; simp
  rwa [hid] at hsim

theorem allocRead_ends (hok : sizeOk size n = true) :
    Ends E (do allocRead r n; touch n; hold r n; pure n) l fun a l' => AllocRead size r l a l' := by
  have hnot := hc.not_inreg hr
  refine .bind (.get_bind (.bind ?_))
  cases hs : (l.state r).status with
  | undef =>
    refine .modify (.modify ?_)
    refine hold_ends (f := fun st => { st with val := 0, dirtysize := 0, status := .clean, validsize := 4 })
      (o := []) (by simp [Live.setState]) (.of_place hc hr hfree hlock (.inl rfl)
        ⟨.inr (.inr rfl), .inl rfl, Nat.zero_le _, by simp⟩ rfl rfl (fun _ => rfl)
        (fun m w hw _ => ?_) hok)
    have hk : w.known = 0 := by simpa only [RepAt, hs] using hw
    refine ⟨m.nat n, by rw [setNat_self]; rfl, fun k _ => ?_⟩
    exact ⟨.of_known_zero hk, .of_known_zero hk, by simp, (by simp), by simp, fun _ => rfl⟩
  | isconst =>
    refine .modify_bind (.modify (.modify ?_))
    refine hold_ends (f := fun st => { st with val := 0, dirtysize := 4, status := .dirty, validsize := 4 })
      (by simp [Live.setState]; rfl) (.of_place hc hr hfree hlock (.inr rfl)
        ⟨.inr (.inr rfl), .inr (.inr (.inr rfl)), le_refl _, by simp⟩ rfl rfl (fun _ => rfl)
        (fun m w hw _ => ?_) hok)
    have hagree : w.Agree (l.state r).val := by simpa only [RepAt, hs] using hw
    refine ⟨(l.state r).val, rfl, (repAt_inreg (n := n) (.inr rfl) rfl).mpr ?_⟩
    simpa [Machine.setNat] using hagree
  | inmem =>
    refine .bind (doLoadReg_ends (.modify (.modify ?_)))
    refine hold_ends (f := fun st => { st with dirtysize := 0, status := .clean, validsize := 4 })
      (by simp [Live.setState]; rfl) (.of_place hc hr hfree hlock (.inl rfl)
        ⟨.inr (.inr rfl), .inl rfl, Nat.zero_le _, by simp⟩ rfl rfl ?_
        (fun m w hw hx => ?_) hok)
    · rintro (h | h)
      · exact h
      · cases hs.symm.trans h
    · have hagree : w.Agree (m.mem r + (l.state r).val) := by simpa only [RepAt, hs] using hw
      by_cases hrx : r = flagX
      · obtain ⟨x, hx'⟩ := exec_loadOp n r m
        refine ⟨x, hx', fun k _ => ?_⟩
        exact ⟨.of_known_zero (hx hrx), .of_known_zero (hx hrx), fun _ => rfl, by simp, (by simp), fun _ => rfl⟩
      · refine ⟨m.mem r, by simp [loadOp, hrx, exec, Raw.exec],
          (repAt_inreg (n := n) (.inl rfl) rfl).mpr ?_⟩
        simpa [Machine.setNat] using hagree
  | clean => exact absurd (.inl hs) hnot
  | dirty => exact absurd (.inr hs) hnot

theorem AllocClobber.of_place (hs : st.status = .dirty) (hsizes : Sizes st) (hneed : st.needflush = (l.state r).needflush)
    (hdirty : size ≤ st.dirtysize) (hval : st.val = 0)
    (hops : size = 4 ∨ (l.state r).status = .isconst ∨ (l.state r).val = 0 → ∀ m w, RepAt (l.state r) m r w →
      ∃ x, exec ops m = some (m.setNat n x)
        ∧ RepAt { st with realreg := some n, realind := 0 } (m.setNat n x) r (w.forget size))
    (hok : Jit.sizeOk size n = true) : AllocClobber size r l n (l.allocated r n st ops) := by
  have hst := state_allocated (r := r) (t := st) (x := ops) hfree
  refine
    { toAllocated := .of_place hc hr hfree hlock (.inr hs) hsizes hneed
      sim := fun hcond => ?_
      dirtysize := by rw [hst]; exact hdirty
      status := by rw [hst]; exact hs
      val := by rw [hst]; exact hval
      sizeOk := hok }
  refine sim_place (t := l.allocated r n st ops) (g := Word.forget size) (r := r) hc hfree hlock rfl
    (fun _ => state_allocated_of_ne) (fun w hw => ?_) fun m w hw _ => ?_
  · exact Word.known_forget_zero hw
  · rw [hst]; exact hops hcond m w hw

theorem allocClobber_ends (hok : sizeOk size n = true)
    (hsize : Width size) : Ends E (do allocClobber r size n; touch n; hold r n; pure n) l
      fun a l' => AllocClobber size r l a l' := by
  have hnot := hc.not_inreg hr
  refine .bind (.get_bind (.ite (fun hcond => .modify ?_) fun hcond => .modify_bind (.modify ?_)))
  · refine hold_ends (f := fun st => { st with validsize := size, dirtysize := size, val := 0, status := .dirty })
      (o := []) (by simp [Live.setState]) (.of_place hc hr hfree hlock rfl ?_ rfl (le_refl _) rfl ?_ hok)
    · refine ⟨hsize, .inr hsize, le_refl _, fun _ => ?_⟩; change size ≠ 0; omega
    · intro hnoval m w hw
      refine ⟨m.nat n, by rw [setNat_self]; rfl, (repAt_inreg (n := n) (.inr rfl) rfl).mpr ?_⟩
      have hagree : (w.forget size).Agree (part size (m.nat n) (m.mem r)) := by
        by_cases h4 : size = 4
        · subst h4; exact .of_known_zero Word.known_forget_four
        · have hconst : (l.state r).status ≠ .isconst := by simpa [Live.isconst] using hcond.resolve_right h4
          have hval := (hnoval.resolve_left h4).resolve_left hconst
          cases hs : (l.state r).status with
          | undef => exact .of_known_zero (Word.known_forget_zero (by simpa only [RepAt, hs] using hw))
          | isconst => exact absurd hs hconst
          | clean => exact absurd (.inl hs) hnot
          | dirty => exact absurd (.inr hs) hnot
          | inmem =>
            have hmem : w.Agree (part 0 (m.nat n) (m.mem r)) := by simpa [RepAt, hs, hval] using hw
            simpa using hmem.forget_max size
      rw [setNat_self, plus_zero]
      exact ⟨hagree, hagree, by simp, sizeOk_byte hok, sizeOk_word hok, by simp⟩
  · have hconst : (l.state r).status = .isconst := by simpa [Live.isconst] using (not_or.mp hcond).1
    refine hold_ends (f := fun st => { st with val := 0, validsize := 4, dirtysize := 4, status := .dirty })
      (by simp [Live.setState]; rfl) (.of_place hc hr hfree hlock rfl
        ⟨.inr (.inr rfl), .inr (.inr (.inr rfl)), le_refl _, by simp⟩ rfl ?_ rfl ?_ hok)
    · change size ≤ 4; omega
    · intro _ m w hw
      have hagree : w.Agree (part 4 (l.state r).val (m.mem r)) := by
        simpa only [RepAt, hconst, part_four] using hw
      refine ⟨(l.state r).val, rfl, (repAt_inreg (n := n) (.inr rfl) rfl).mpr ?_⟩
      have hle : size ≤ 4 := by omega
      have hforget := hagree.forget_max size
      rw [max_eq_right hle] at hforget; simpa [Machine.setNat] using hforget

end

/-! ## The whole allocation -/

def mergeOps (r : VReg) (rr n : Fin H.nRegs) : List (Raw H) :=
  [.movLRm n r, .bswap32 n, .zeroExtend16Rr rr rr, .zeroExtend16Rr n n, .bswap32 n,
    .leaLRrIndexed rr rr n]

theorem exec_mergeOps (m : Machine H) (hne : n ≠ rr) : ∃ x, exec (mergeOps r rr n) m
      = some ((m.setNat n x).setNat rr (part 2 (m.nat rr) (m.mem r))) := by
  refine ⟨bswap (bswap (m.mem r) &&& 0xffff), ?_⟩
  simp only [mergeOps, exec, Raw.exec, Option.bind_some, Machine.setNat, update_self,
    update_of_ne hne, update_of_ne hne.symm, ← merge_upper, Option.some.injEq,
    Machine.mk.injEq, and_true]
  funext k
  by_cases hk : k = rr
  · subst hk; simp
  · by_cases hkn : k = n
    · subst hkn; simp [hk]
    · simp [hk, hkn]

def Live.merged (l : Live H) (r : VReg) (rr n : Fin H.nRegs) : Live H :=
  { (l.setState r fun st => { st with validsize := 4 }).touch rr with
    target := l.target ++ mergeOps r rr n }

theorem state_merged (q : VReg) : (l.merged r rr n).state q
    = if q = r then { l.state r with validsize := 4 } else l.state q := by
  simp [Live.merged, Live.touch, Live.setNat, state_setState]

theorem sim_merged (hc : Consistent l) (hr : (l.state r).realreg = some rr)
    (hone : (l.nat rr).nholds = 1) (hlock : (l.nat rr).locked = 0) (hvalid : (l.state r).validsize = 2)
    (hfree : (l.nat n).nholds = 0) (hlockn : (l.nat n).locked = 0) : Sim (fun _ => False) id l (l.merged r rr n) := by
  have hne : n ≠ rr := by rintro rfl; omega
  intro v m hm
  obtain ⟨x, hx⟩ := exec_mergeOps (r := r) m hne
  refine ⟨_, _, rfl, hx, ⟨fun q => ?_, hm.flagX⟩, fun k hk => ?_, by simp⟩
  · by_cases hq : q = r
    · subst hq
      obtain ⟨hv, hd, hval, hbyte, hword, hclean⟩ := (repAt_inreg (hc.inreg hr) hr).mp (hm.at_reg q)
      rw [hvalid] at hv hval
      have hle : (l.state q).dirtysize ≤ 2 := hvalid ▸ ((hc.placed q).sizes rr hr).le
      rw [state_merged, if_pos rfl]
      refine (repAt_inreg (n := rr) (t := { l.state q with validsize := 4 }) (hc.inreg hr) hr).mpr ?_
      have hmem : ((m.setNat n x).setNat rr (part 2 (m.nat rr) (m.mem q))).mem q = m.mem q := rfl
      have hnat : ((m.setNat n x).setNat rr (part 2 (m.nat rr) (m.mem q))).nat rr
          = part 2 (m.nat rr) (m.mem q) := update_self ..
      simp only [hmem, hnat, part_four, part_part_left hle]
      exact ⟨hv, hd, fun _ => trivial, hbyte, hword, hclean⟩
    · rw [state_merged, if_neg hq]
      refine repAt_of_ne (repAt_of_ne (hm.at_reg q) (hc.realreg_ne_of_free hfree)) fun h => ?_
      exact hq (hc.eq_of_nholds hone h hr)
  · have hkr : k ≠ rr := by rintro rfl; exact hk hlock
    have hkn : k ≠ n := by rintro rfl; exact hk hlockn
    simp [Machine.setNat, hkr, hkn]

theorem mergeUpper_ends (hc : Consistent l) (hr : (l.state r).realreg = some rr)
    (hone : (l.nat rr).nholds = 1) (hlock : (l.nat rr).locked = 0) (hvalid : (l.state r).validsize = 2)
    (hfree : (l.nat n).nholds = 0) (hlockn : (l.nat n).locked = 0) :
    Ends E (mergeUpper r rr n) l fun _ l' => AllocRead 4 r l rr l' := by
  have heq : mergeUpper r rr n l = .ok () (l.merged r rr n) := by
    simp [mergeUpper, bind_apply, emit, setState, touch, Live.merged, mergeOps, Live.setState,
      Live.touch, Live.setNat]
  have hsizes := (hc.placed r).sizes rr hr
  have hcons : Consistent (l.merged r rr n) := by
    refine consistent_touch (hc.setState (f := fun st => { st with validsize := 4 }) (t := l.target ++ mergeOps r rr n)
      rfl rfl ⟨(hc.placed r).inreg, fun k hk => ⟨.inr (.inr rfl), hsizes.dirty, ?_, hsizes.of_dirty⟩, fun _ _ _ => rfl⟩) rr
    change (l.state r).dirtysize ≤ 4
    have := hsizes.le; omega
  have hnat : ∀ k, ((l.merged r rr n).nat k).nholds = (l.nat k).nholds
      ∧ ((l.merged r rr n).nat k).locked = (l.nat k).locked := by
    intro k
    by_cases hk : k = rr <;> simp [Live.merged, Live.touch, Live.setNat, hk]
  refine .of_ok heq
    { consistent := hcons
      moved := ⟨⟨fun k => (hnat k).2, le_refl _, fun k _ => by rw [(hnat k).1], ?_, rfl, rfl⟩, ?_, ?_⟩
      realreg := by rw [state_merged, if_pos rfl]; exact hr
      nholds := by rw [(hnat rr).1, hone]
      locked := hlock
      sim := sim_merged hc hr hone hlock hvalid hfree hlockn
      validsize := by rw [state_merged, if_pos rfl]
      val := ?_
      sizeOk := by simp [sizeOk] }
  · intro q
    rw [state_merged]
    split
    · next h => rw [h]
    · rfl
  · intro q hq hcalm; rwa [state_merged, if_neg hq]
  · intro q hq _; rw [state_merged, if_neg hq]
  · rw [state_merged, if_pos rfl]
    rintro (h | h)
    · exact h
    · exact absurd h (hc.ne_isconst hr)

theorem Freed.refl (hc : Consistent l) (hfree : (l.nat n).nholds = 0) : Freed n l l where
  consistent := hc
  sim := .of_state rfl (fun _ _ hm => hm.at_reg) fun _ hv => hv
  moved := fun p => .refl p 0 l
  inside := fun _ hq => absurd hq (hc.realreg_ne_of_free hfree)
  outside := fun _ _ => rfl
  nholds := fun _ _ => rfl

theorem Freed.quiet (h : Freed n l l') (hq : Quiet (l.state q)) : Quiet (l'.state q) := by
  by_cases hr : (l.state q).realreg = some n
  · intro hin; rcases hin with hs | hs <;> cases hs.symm.trans (h.inside q hr).2.1
  · rw [h.outside q hr]; exact hq

theorem Freed.val_or_isconst (h : Freed n l l') (hc : Consistent l)
    (hv : (l.state r).val = 0 ∨ (l.state r).status = .isconst) :
    (l'.state r).val = 0 ∨ (l'.state r).status = .isconst := by
  by_cases hr : (l.state r).realreg = some n
  · exact .inl ((h.inside r hr).2.2 (hv.resolve_right (hc.ne_isconst hr)))
  · rw [h.outside r hr]; exact hv

theorem doFree_ends (hc : Consistent l) (hlock : (l.nat n).locked = 0) :
    Ends E (doIf (0 < (l.nat n).nholds) (freeNreg n)) l fun _ l' => Freed n l l' ∧ (l'.nat n).nholds = 0 := by
  refine .doIf (fun _ => freeNreg_ends hc hlock) fun h => ?_
  have hfree : (l.nat n).nholds = 0 := by omega
  exact ⟨.refl hc hfree, hfree⟩

theorem Allocated.after (hm : Moved r 0 l l₁) (h : Allocated r l₁ n l') : Allocated r l n l' where
  consistent := h.consistent
  moved := by simpa using hm.trans h.moved
  realreg := h.realreg
  nholds := h.nholds
  locked := by rw [← hm.locked]; exact h.locked

theorem AllocRead.after {K} (hm : Moved r 0 l l₁) (hsim : Sim K id l l₁)
    (hval : (l.state r).val = 0 ∨ (l.state r).status = .isconst →
      (l₁.state r).val = 0 ∨ (l₁.state r).status = .isconst)
    (h : AllocRead size r l₁ n l') : AllocRead size r l n l' where
  toAllocated := h.toAllocated.after hm
  sim := hsim.andThen hm.locked h.sim
  validsize := h.validsize
  val := fun hv => h.val (hval hv)
  sizeOk := h.sizeOk

def Growable (l : Live H) (r : VReg) (size : Nat) : Prop :=
  ∀ n, (l.state r).realreg = some n → (l.state r).validsize < size ∧ (l.nat n).locked = 0

theorem nholds_of_short (hc : Consistent l) (hr : (l.state r).realreg = some n)
    (hlt : (l.state r).validsize < size) (hsize : Width size) : (l.nat n).nholds = 1 := by
  by_contra hne
  have := (hc.placed r).shared n hr hne
  omega

theorem allocPartial_ends (hc : Consistent l) (hr : (l.state r).realreg = some rr)
    (hsize : Width size) (hgrow : Growable l r size)
    (hfree : (l.nat n).nholds = 0) (hlock : (l.nat n).locked = 0) :
    Ends E (allocPartial r size false n) l fun a l' =>
      (∃ k, a = some k ∧ AllocRead size r l k l') ∨ (a = none ∧ Evicted r l l') := by
  obtain ⟨hlt, hlockr⟩ := hgrow rr hr
  have hone := nholds_of_short hc hr hlt hsize
  refine .get_bind (.bind (realreg_ends hr (.ite (fun h => ?_) fun _ => .ite (fun h => ?_) fun _ => ?_)))
  · exact absurd hlt (by simpa using h)
  · exact absurd hone h
  · refine .ite (fun ⟨h4, h2⟩ => .bind ?_) fun _ => .bind ?_
    · subst h4; exact (mergeUpper_ends hc hr hone hlockr h2 hfree hlock).mono fun _ l' h => .inl ⟨rr, rfl, h⟩
    · exact (evict_ends hc hr fun h => absurd hlockr h).mono fun _ l' h => .inr ⟨rfl, h⟩

theorem allocRegHinted_read (hc : Consistent l) (hroom : Room E 1 1 l)
    (hsize : Width size) (hgrow : Growable l r size) :
    Ends E (allocRegHinted r size false hint) l fun a l' => AllocRead size r l a l' := by
  refine .get_bind ?_
  cases hfind : findReg l size hint (List.finRange H.nRegs) none 2000000000 with
  | none =>
    refine .throw (hroom.resolve_right fun hspare => ?_)
    have h := hspare.findReg (k := 0) hint hc hsize
    rw [hfind] at h; cases h
  | some n =>
    obtain ⟨hlock, hok⟩ := (findReg_some hfind).resolve_left (by simp)
    refine .bind ((doFree_ends hc hlock).mono fun _ l₁ ⟨hf, hfree⟩ => ?_)
    have hlock₁ : (l₁.nat n).locked = 0 := by rw [(hf.moved r).locked, hlock]
    have hval := hf.val_or_isconst hc (r := r)
    refine .get_bind (.bind (.ite (fun hin => ?_) fun hin => ?_))
    · obtain ⟨rr, hr₁⟩ := hf.consistent.exists_realreg hin
      have hout : (l.state r).realreg ≠ some n := by intro h; rw [(hf.inside r h).1] at hr₁; cases hr₁
      have hst := hf.outside r hout
      have hgrow₁ : Growable l₁ r size := by
        intro k hk
        rw [(hf.moved r).locked, hst]
        rw [hst] at hk; exact hgrow k hk
      refine (allocPartial_ends hf.consistent hr₁ hsize hgrow₁ hfree hlock₁).mono ?_
      rintro _ l₂ (⟨k, rfl, h⟩ | ⟨rfl, h⟩)
      · exact .pure (h.after (hf.moved r) hf.sim hval)
      · have hfree₂ : (l₂.nat n).nholds = 0 := by
          rw [h.nholds rr hr₁]
          split
          · next hn => rw [← hn, hfree]
          · exact hfree
        have hlock₂ : (l₂.nat n).locked = 0 := by rw [(h.moved r).locked, hlock₁]
        refine (allocRead_ends h.consistent h.realreg hfree₂ hlock₂ hok).mono fun a l' hl' => ?_
        have h2 := hl'.after (h.moved r) h.sim fun hv => ?_
        · exact h2.after (hf.moved r) hf.sim hval
        · exact .inl (h.val (hv.resolve_right (hf.consistent.ne_isconst hr₁)))
    · refine .pure ?_
      have hr₁ := hf.consistent.realreg_none hin
      refine (allocRead_ends hf.consistent hr₁ hfree hlock₁ hok).mono fun a l' hl' => ?_
      exact hl'.after (hf.moved r) hf.sim hval

theorem allocRegHinted_clobber (hc : Consistent l) (hroom : Room E 1 1 l)
    (hsize : Width size) (hr : (l.state r).realreg = none) :
    Ends E (allocRegHinted r size true hint) l fun a l' => AllocClobber size r l a l' := by
  refine .get_bind ?_
  cases hfind : findReg l size hint (List.finRange H.nRegs) none 2000000000 with
  | none =>
    refine .throw (hroom.resolve_right fun hspare => ?_)
    have h := hspare.findReg (k := 0) hint hc hsize
    rw [hfind] at h; cases h
  | some n =>
    obtain ⟨hlock, hok⟩ := (findReg_some hfind).resolve_left (by simp)
    refine .bind ((doFree_ends hc hlock).mono fun _ l₁ ⟨hf, hfree⟩ => ?_)
    have hlock₁ : (l₁.nat n).locked = 0 := by rw [(hf.moved r).locked, hlock]
    have hst := hf.outside r (by rw [hr]; simp)
    have hr₁ : (l₁.state r).realreg = none := by rw [hst]; exact hr
    refine .get_bind (.bind (.ite (fun hin => ?_) fun _ => .pure ?_))
    · obtain ⟨k, hk⟩ := hf.consistent.exists_realreg hin; rw [hr₁] at hk; cases hk
    · refine (allocClobber_ends hf.consistent hr₁ hfree hlock₁ hok hsize).mono fun a l' h => ?_
      exact
        { toAllocated := h.toAllocated.after (hf.moved r)
          sim := fun hcond => hf.sim.trans (fun k hk => by rwa [(hf.moved r).locked])
            (h.sim (by rw [hst]; exact hcond)) fun q hq => ⟨hq, hf.quiet hq⟩
          dirtysize := h.dirtysize
          status := h.status
          val := h.val
          sizeOk := h.sizeOk }

end Aranym.Jit
