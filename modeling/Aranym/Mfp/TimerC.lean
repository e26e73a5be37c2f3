import Aranym.Mfp.Signals

/-!
# Ticks of timer C

Ticks of timer C that come faster than they are served are counted in `timerCounter`, and the interrupt stays
pending until all were served. Cancelling the interrupt leaves the counter as it is.

Source: `mfp.cpp`.
-/

namespace Aranym.Mfp

open Aranym.Lib State List Option

variable {m : State} {base : Base}

/-! ## Counting -/

/-- The low bits of a vector name its source. -/
def State.PassesTimerC (m : State) : Prop := m.doInterrupt.1 &&& 0x0f = 5

instance decidablePassesTimerC (m : State) : Decidable m.PassesTimerC := inferInstanceAs (Decidable (_ = _))

def Op.deliveries (m : State) : Op → Int
  | .doInterrupt => if m.PassesTimerC then 1 else 0
  | _ => 0

def Op.ticks (m : State) : Op → Int
  | .irq level count => if level = 5 ∧ m.irqEnable.getLsbD 5 = true then count else 0
  | _ => 0

/-- How many interrupts of timer C a run delivers. -/
def delivered (base : Base) : State → List Op → Int
  | _, [] => 0
  | m, op :: ops => op.deliveries m + delivered base (op.run base m) ops

/-- How many ticks of timer C a run asks for. -/
def requested (base : Base) : State → List Op → Int
  | _, [] => 0
  | m, op :: ops => op.ticks m + requested base (op.run base m) ops

/-- A request is for at least one tick. -/
def Ticking (ops : List Op) : Prop := ∀ n, Op.irq 5 n ∈ ops → 0 < n

/-- A write that clears the bit of timer C in its enable register or in its pending register. -/
def Op.Cancels (base : Base) (op : Op) : Prop :=
  ∃ addr value, op = .write addr value ∧ addr - base.hwOffset ≤ base.hwSize ∧
    (addr - base.hwOffset = 0x09 ∨ addr - base.hwOffset = 0x0d) ∧ value.getLsbD 5 = false

/-! ## The source of a vector -/

theorem low_of_vector (x : BitVec 32) {j} (hj : j < 16) :
    ((x &&& vrVector) + BitVec.ofNat 32 j) &&& 0x0f = BitVec.ofNat 32 j := by
  have hand : ∀ y : BitVec 32, (y &&& 0x0f).toNat = y.toNat % 16 := by
    intro y
    rw [BitVec.toNat_and]; exact Nat.and_two_pow_sub_one_eq_mod y.toNat 4
  have hvec : (x &&& vrVector).toNat % 16 = 0 := by
    rw [← hand, BitVec.and_assoc, show vrVector &&& 0x0f = 0#32 by decide, BitVec.and_zero]; rfl
  refine BitVec.eq_of_toNat_eq ?_
  rw [hand, BitVec.toNat_add, BitVec.toNat_ofNat]
  omega

def State.top (m : State) : Option Nat :=
  (highest m.unmasked 16).filter fun j => m.irqInservice < BitVec.twoPow 16 j

theorem top_eq_some {j} (h : m.top = some j) :
    highest m.unmasked 16 = some j ∧ ¬ m.irqInservice ≥ BitVec.twoPow 16 j := by
  obtain ⟨hj, hlt⟩ := filter_eq_some_iff.mp h
  exact ⟨hj, BitVec.not_le.mpr (of_decide_eq_true hlt)⟩

theorem top_lt {j} (h : m.top = some j) : j < 16 ∧ m.irqPending.getLsbD j = true := by
  have hbit := (highest_some (top_eq_some h).1).1
  rw [unmasked, BitVec.getLsbD_and, Bool.and_eq_true] at hbit
  exact ⟨BitVec.lt_of_getLsbD hbit.1, hbit.1⟩

def State.served (m : State) (j : Nat) : State :=
  let m := if j = 5 then { m with timerCounter := m.timerCounter - 1 } else m
  if j ≠ 5 ∨ m.timerCounter ≤ 0
  then { m with irqPending := m.irqPending &&& ~~~BitVec.twoPow 16 j }.triggerMFP false else m

def State.begun (m : State) (j : Nat) : State :=
  if m.vr &&& vrSei ≠ 0 then { m with irqInservice := m.irqInservice ||| BitVec.twoPow 16 j }
  else if m.unmasked ≠ 0 then m.triggerMFP true
  else m

theorem doInterrupt_of_top {j} (h : m.top = some j) :
    m.doInterrupt = ((m.vr &&& vrVector) + BitVec.ofNat 32 j, (m.served j).begun j) := by
  obtain ⟨hj, hserv⟩ := top_eq_some h
  rw [State.doInterrupt, hj]
  dsimp only
  rw [if_neg hserv]
  change (if (m.served j).vr &&& vrSei ≠ 0 then _ else if (m.served j).unmasked ≠ 0 then _ else _) = _
  unfold State.begun
  split
  · rfl
  · split <;> rfl

theorem doInterrupt_of_none (h : m.top = none) : m.doInterrupt = (0, m.triggerMFP false) := by
  rw [State.doInterrupt]
  cases hj : highest m.unmasked 16 with
  | none => rfl
  | some j =>
    have hge : m.irqInservice ≥ BitVec.twoPow 16 j := by
      rw [State.top, hj] at h; simpa [Option.filter] using h
    exact if_pos hge

theorem passesTimerC_iff : m.PassesTimerC ↔ m.top = some 5 := by
  unfold State.PassesTimerC
  cases h : m.top with
  | none =>
    rw [doInterrupt_of_none h]
    exact iff_of_false (show ¬ (0 : BitVec 32) &&& 0x0f = 5 by decide) (some_ne_none 5).symm
  | some j =>
    have hj := (top_lt h).1
    rw [doInterrupt_of_top h, low_of_vector m.vr hj, some_inj]
    constructor
    · intro heq
      have hnat := congrArg BitVec.toNat heq
      rwa [BitVec.toNat_ofNat, Nat.mod_eq_of_lt (by omega)] at hnat
    · rintro rfl; rfl

/-! ## The counter -/

def State.timer (m : State) : Int × Bool × Bool :=
  (m.timerCounter, m.irqPending.getLsbD 5, m.irqEnable.getLsbD 5)

theorem timer_request (m : State) {level} (h : level ≠ 5) :
    (m.request (BitVec.twoPow 16 level)).timer = m.timer := by
  have hbit : (m.irqPending ||| BitVec.twoPow 16 level).getLsbD 5 = m.irqPending.getLsbD 5 := by
    rw [BitVec.getLsbD_or, BitVec.getLsbD_twoPow, decide_eq_false h, Bool.and_false, Bool.or_false]
  simp only [State.request]
  split
  · simp only [timer, hbit]
  · split <;> simp only [timer, triggerMFP, hbit]

theorem timer_irq (m : State) {level} (h : level ≠ 5) (count : Int) :
    (m.irq level count).timer = m.timer := by
  simp only [State.irq, if_neg h]
  split
  · rfl
  · split
    · rfl
    · exact timer_request m h

theorem timer_irq_self (m : State) (count : Int) : (m.irq 5 count).timer
    = if m.irqEnable.getLsbD 5 then (m.timerCounter + count, true, true) else m.timer := by
  have hzero := and_twoPow_eq_zero_iff m.irqEnable (show 5 < 16 by decide)
  simp only [State.irq, if_true]
  by_cases hen : m.irqEnable.getLsbD 5 = true
  · have hne : ¬ m.irqEnable &&& BitVec.twoPow 16 5 = 0 := by rw [hzero, hen]; decide
    rw [if_pos hen, if_neg hne]
    split
    · next hpend =>
      have hbit : m.irqPending.getLsbD 5 = true := by
        rw [ne_eq, and_twoPow_eq_zero_iff m.irqPending (show 5 < 16 by decide)] at hpend
        simpa using hpend
      simp only [timer, hbit, hen]
    · simp only [State.request]
      split
      · simp [timer, hen]
      · split <;> simp [timer, triggerMFP, hen]
  · rw [if_neg hen, if_pos (hzero.mpr (by simpa using hen))]; rfl

theorem timer_irqs (f : State → Nat × Nat → State) (lines : List (Nat × Nat)) (hlines : ∀ l ∈ lines, l.2 ≠ 5)
    (hf : ∀ m l, f m l = m.irq l.2 1 ∨ f m l = m) (m : State) : (lines.foldl f m).timer = m.timer := by
  induction lines generalizing m with
  | nil => rfl
  | cons l lines ih =>
    have hl := hlines l mem_cons_self
    rw [foldl_cons, ih fun l' h => hlines l' (mem_cons_of_mem _ h)]
    rcases hf m l with heq | heq
    · rw [heq, timer_irq m hl]
    · rw [heq]

theorem mapGpipToIer_ne : ∀ l ∈ mapGpipToIer, l.2 ≠ 5 := by decide

theorem timer_setGPIPbit (m : State) (mask value : BitVec 32) : (m.setGPIPbit mask value).timer = m.timer := by
  simp only [State.setGPIPbit]
  refine (timer_irqs _ mapGpipToIer mapGpipToIer_ne (fun m' l => ?_) _).trans rfl
  split
  · exact .inr rfl
  · split
    · split
      · exact .inr rfl
      · exact .inl rfl
    · split
      · exact .inr rfl
      · exact .inl rfl

theorem timer_setActiveEdge (m : State) (value : BitVec 8) : (m.setActiveEdge value).timer = m.timer := by
  simp only [State.setActiveEdge]
  refine (timer_irqs _ mapGpipToIer mapGpipToIer_ne (fun m' l => ?_) m)
  split
  · exact .inl rfl
  · exact .inr rfl

theorem timer_begun (m : State) (j : Nat) : (m.begun j).timer = m.timer := by
  simp only [State.begun]
  split
  · rfl
  · split <;> rfl

theorem timer_served (m : State) {j} (h : j ≠ 5) : (m.served j).timer = m.timer := by
  have hbit : (m.irqPending &&& ~~~BitVec.twoPow 16 j).getLsbD 5 = m.irqPending.getLsbD 5 := by
    rw [BitVec.getLsbD_and, BitVec.getLsbD_not, BitVec.getLsbD_twoPow, decide_eq_false h]; simp
  rw [State.served, if_neg h, if_pos (.inl h)]
  simp only [timer, triggerMFP, hbit]

theorem timer_served_self (m : State) : (m.served 5).timer = (m.timerCounter - 1,
    decide (0 < m.timerCounter - 1) && m.irqPending.getLsbD 5, m.irqEnable.getLsbD 5) := by
  simp only [State.served, if_true, ne_eq, not_true_eq_false, false_or]
  by_cases hc : m.timerCounter - 1 ≤ 0
  · rw [if_pos hc, decide_eq_false (not_lt.mpr hc)]; simp [timer, triggerMFP]
  · rw [if_neg hc, decide_eq_true (not_le.mp hc)]; simp [timer]

/-! ## Steps -/

/-- The counter is not negative, and positive while the interrupt is pending. -/
def State.Owing (m : State) : Prop := 0 ≤ m.timerCounter ∧ (m.irqPending.getLsbD 5 = true → 0 < m.timerCounter)

structure State.Idle (m m' : State) : Prop where
  counter : m'.timerCounter = m.timerCounter
  pending : m'.irqPending.getLsbD 5 = true → m.irqPending.getLsbD 5 = true

theorem idle_of_timer {m'} (h : m'.timer = m.timer) : m.Idle m' := by
  simp only [timer, Prod.mk.injEq] at h
  exact ⟨h.1, fun hp => h.2.1 ▸ hp⟩

theorem State.Idle.owing {m'} (h : m.Idle m') (ho : m.Owing) : m'.Owing := by
  rw [State.Owing, h.counter]
  exact ⟨ho.1, fun hp => ho.2 (h.pending hp)⟩

theorem idle_writeReg (m : State) (addr : Nat) (value : BitVec 8) : m.Idle (m.writeReg addr value) := by
  have hand : ∀ {x y : BitVec 16}, (x &&& y).getLsbD 5 = true → x.getLsbD 5 = true := by
    intro x y h
    rw [BitVec.getLsbD_and, Bool.and_eq_true] at h; exact h.1
  unfold State.writeReg
  split
  case h_2 => exact idle_of_timer (timer_setActiveEdge m value)
  case h_4 | h_5 => exact ⟨rfl, hand⟩
  case h_6 | h_7 =>
    simp only [State.setPending]
    split <;> exact ⟨rfl, hand⟩
  case h_8 | h_9 =>
    simp only [State.setInservice]
    split <;> exact ⟨rfl, id⟩
  case h_12 =>
    simp only [State.setVr]
    split <;> exact ⟨rfl, id⟩
  all_goals exact ⟨rfl, id⟩

theorem idle_read (m : State) (busy : BitVec 8) (addr : BitVec 32) : m.Idle (m.handleRead base busy addr).2 := by
  simp only [State.handleRead]
  split
  · exact ⟨rfl, id⟩
  · unfold State.readReg
    split <;> exact ⟨rfl, id⟩

theorem idle_write (m : State) (addr : BitVec 32) (value : BitVec 8) : m.Idle (m.handleWrite base addr value) := by
  simp only [State.handleWrite]
  split
  · exact ⟨rfl, id⟩
  · exact idle_writeReg m _ value

theorem doInterrupt_counter (m : State) : m.doInterrupt.2.timerCounter
    = m.timerCounter - if m.PassesTimerC then 1 else 0 := by
  cases h : m.top with
  | none =>
    have hpass : ¬ m.PassesTimerC := by rw [passesTimerC_iff, h]; exact (some_ne_none 5).symm
    rw [doInterrupt_of_none h, if_neg hpass, sub_zero]; rfl
  | some j =>
    rw [doInterrupt_of_top h]
    have hbegun := congrArg Prod.fst (timer_begun (m.served j) j)
    by_cases hj : j = 5
    · subst hj
      rw [if_pos (passesTimerC_iff.mpr h)]
      exact hbegun.trans (congrArg Prod.fst (timer_served_self m))
    · have hpass : ¬ m.PassesTimerC := by rw [passesTimerC_iff, h, some_inj]; exact hj
      rw [if_neg hpass, sub_zero]; exact hbegun.trans (congrArg Prod.fst (timer_served m hj))

theorem run_counter (op : Op) : (op.run base m).timerCounter = m.timerCounter + op.ticks m - op.deliveries m := by
  cases op with
  | read busy addr =>
    simp only [Op.ticks, Op.deliveries, add_zero, sub_zero]; exact (idle_read m busy addr).counter
  | write addr value =>
    simp only [Op.ticks, Op.deliveries, add_zero, sub_zero]; exact (idle_write m addr value).counter
  | irq level count =>
    simp only [Op.ticks, Op.deliveries, sub_zero]
    by_cases h : level = 5
    · subst h
      have htimer := congrArg Prod.fst (timer_irq_self m count)
      by_cases hen : m.irqEnable.getLsbD 5 = true
      · rw [if_pos hen] at htimer; rw [if_pos ⟨rfl, hen⟩]; exact htimer
      · rw [if_neg hen] at htimer; rw [if_neg fun h => hen h.2, add_zero]; exact htimer
    · rw [if_neg fun h' => h h'.1, add_zero]; exact congrArg Prod.fst (timer_irq m h count)
  | setGPIPbit mask value =>
    simp only [Op.ticks, Op.deliveries, add_zero, sub_zero]
    exact congrArg Prod.fst (timer_setGPIPbit m mask value)
  | doInterrupt => simp only [Op.ticks, Op.deliveries, add_zero]; exact doInterrupt_counter m

theorem State.Owing.doInterrupt (h : m.Owing) : m.doInterrupt.2.Owing := by
  cases htop : m.top with
  | none => rw [doInterrupt_of_none htop]; exact h
  | some j =>
    rw [doInterrupt_of_top htop]
    refine (idle_of_timer (timer_begun (m.served j) j)).owing ?_
    by_cases hj : j = 5
    · subst hj
      have hpos := h.2 (top_lt htop).2
      have htimer := timer_served_self m
      simp only [timer, Prod.mk.injEq] at htimer
      refine ⟨by rw [htimer.1]; omega, fun hp => ?_⟩
      rw [htimer.2.1, Bool.and_eq_true, decide_eq_true_eq] at hp
      rw [htimer.1]; exact hp.1
    · exact (idle_of_timer (timer_served m hj)).owing h

theorem State.Owing.run (h : m.Owing) {op : Op} (hop : ∀ n, op = .irq 5 n → 0 < n) : (op.run base m).Owing := by
  cases op with
  | read busy addr => exact (idle_read m busy addr).owing h
  | write addr value => exact (idle_write m addr value).owing h
  | irq level count =>
    by_cases hl : level = 5
    · subst hl
      have hpos := hop count rfl
      have hsum : 0 < m.timerCounter + count := Int.add_pos_of_nonneg_of_pos h.1 hpos
      have htimer := timer_irq_self m count
      by_cases hen : m.irqEnable.getLsbD 5 = true
      · rw [if_pos hen] at htimer
        have hcounter : (m.irq 5 count).timerCounter = _ := congrArg Prod.fst htimer
        exact ⟨hcounter ▸ Int.le_of_lt hsum, fun _ => hcounter ▸ hsum⟩
      · rw [if_neg hen] at htimer; exact (idle_of_timer htimer).owing h
    · exact (idle_of_timer (timer_irq m hl count)).owing h
  | setGPIPbit mask value => exact (idle_of_timer (timer_setGPIPbit m mask value)).owing h
  | doInterrupt => exact h.doInterrupt

/-! ## Runs -/

theorem Ticking.tail {op ops} (h : Ticking (op :: ops)) : Ticking ops :=
  fun n hn => h n (mem_cons_of_mem _ hn)

theorem owing_runOps {ops : List Op} (h : m.Owing) (hops : Ticking ops) : (runOps base m ops).Owing := by
  induction ops generalizing m with
  | nil => exact h
  | cons op ops ih => exact ih (h.run fun n hn => hops n (hn ▸ mem_cons_self)) hops.tail

theorem delivered_append (xs ys : List Op) :
    delivered base m (xs ++ ys) = delivered base m xs + delivered base (runOps base m xs) ys := by
  induction xs generalizing m with
  | nil => simp [delivered, runOps]
  | cons op xs ih => rw [cons_append, delivered, ih, delivered, add_assoc]; rfl

theorem requested_append (xs ys : List Op) :
    requested base m (xs ++ ys) = requested base m xs + requested base (runOps base m xs) ys := by
  induction xs generalizing m with
  | nil => simp [requested, runOps]
  | cons op xs ih => rw [cons_append, requested, ih, requested, add_assoc]; rfl

theorem delivered_add_counter (ops : List Op) :
    delivered base m ops + (runOps base m ops).timerCounter = m.timerCounter + requested base m ops := by
  induction ops generalizing m with
  | nil => simp [delivered, requested, runOps]
  | cons op ops ih =>
    have hrest := ih (m := op.run base m)
    have hstep : (op.run base m).timerCounter = _ := run_counter op
    simp only [delivered, requested, runOps, foldl_cons] at hrest ⊢; omega

/-! ## What is left of cancelled ticks -/

structure State.Ready (m : State) : Prop where
  mask : m.irqMask = 0x20
  inservice : m.irqInservice = 0
  automatic : m.vr &&& vrSei = 0
  pending : m.irqPending.getLsbD 5 = true

theorem State.Ready.top (h : m.Ready) : m.top = some 5 := by
  have hun : m.unmasked = 0x20 := by
    rw [unmasked, h.mask]
    refine BitVec.eq_of_getLsbD_eq fun k hk => ?_
    rw [BitVec.getLsbD_and, show (0x20 : BitVec 16) = BitVec.twoPow 16 5 by decide, BitVec.getLsbD_twoPow]
    by_cases hk5 : 5 = k
    · subst hk5; rw [h.pending]; rfl
    · simp [hk5]
  rw [State.top, hun, h.inservice]
  decide

theorem State.Ready.doInterrupt (h : m.Ready) (hc : 1 < m.timerCounter) : m.doInterrupt.2.Ready := by
  have hserved : m.served 5 = { m with timerCounter := m.timerCounter - 1 } := by
    rw [State.served, if_pos rfl]
    refine if_neg fun hor => ?_
    rcases hor with hne | hle
    · exact hne rfl
    · change m.timerCounter - 1 ≤ 0 at hle; omega
  rw [doInterrupt_of_top h.top, hserved]
  simp only [State.begun, h.automatic, ne_eq, not_true_eq_false, if_false]
  split <;> exact ⟨h.mask, h.inservice, h.automatic, h.pending⟩

def timerCAlone (base : Base) : List Op :=
  [.write (base.hwOffset + 0x13) 0, .write (base.hwOffset + 0x15) 0x20, .write (base.hwOffset + 0x17) 0x40,
    .write (base.hwOffset + 0x09) 0x20]

theorem write_reg (m : State) {r} (hr : r ≤ base.hwSize) (value : BitVec 8) :
    Op.run base m (.write (base.hwOffset + r) value) = m.writeReg r.toNat value := by
  have hsub : base.hwOffset + r - base.hwOffset = r := by rw [BitVec.add_comm, BitVec.add_sub_cancel]
  simp only [Op.run, State.handleWrite, hsub]
  exact if_neg (BitVec.not_lt.mpr hr)

theorem setLow_setHigh (x : BitVec 16) : setLow (setHigh x 0) 0x20 = 0x20 := by
  have hlow : setHigh x 0 = x &&& 0x00ff := by rw [setHigh]; exact BitVec.or_zero
  rw [setLow, hlow, BitVec.and_assoc, show (0x00ff : BitVec 16) &&& 0xff00 = 0#16 by decide, BitVec.and_zero,
    BitVec.zero_or]
  rfl

theorem setLow_bit (x : BitVec 16) : (setLow x 0x20).getLsbD 5 = true := by simp [setLow]

theorem setVr_automatic (m : State) : ∃ f, m.setVr 0x40 = { m with vr := 0x40, irqInservice := 0, flag := f } :=
  ⟨_, if_neg (show ¬ BitVec.setWidth 32 (0x40 : BitVec 8) &&& vrSei ≠ 0 by decide)⟩

theorem timerCAlone_run (hsize : 0x2f ≤ base.hwSize) (m : State) :
    (runOps base m (timerCAlone base)).irqMask = 0x20 ∧ (runOps base m (timerCAlone base)).irqInservice = 0 ∧
      (runOps base m (timerCAlone base)).vr &&& vrSei = 0 ∧
      (runOps base m (timerCAlone base)).irqEnable.getLsbD 5 = true ∧
      (runOps base m (timerCAlone base)).timerCounter = m.timerCounter := by
  have hle : ∀ r : BitVec 32, r ≤ 0x2f → r ≤ base.hwSize := fun r hr => BitVec.le_trans hr hsize
  let v := ((m.setMask (setHigh m.irqMask 0)).setMask (setLow (setHigh m.irqMask 0) 0x20)).setVr 0x40
  have hrun : runOps base m (timerCAlone base) = v.setEnable (setLow v.irqEnable 0x20) := by
    simp only [runOps, timerCAlone, foldl_cons, foldl_nil]
    rw [write_reg m (hle 0x13 (by decide)), write_reg _ (hle 0x15 (by decide)), write_reg _ (hle 0x17 (by decide)),
      write_reg _ (hle 0x09 (by decide))]
    rfl
  obtain ⟨f, hvr⟩ := setVr_automatic ((m.setMask (setHigh m.irqMask 0)).setMask (setLow (setHigh m.irqMask 0) 0x20))
  rw [hrun, show v = _ from hvr]
  exact ⟨setLow_setHigh m.irqMask, rfl, show (0x40 : BitVec 32) &&& vrSei = 0 by decide, setLow_bit m.irqEnable, rfl⟩

theorem ready_of_tick (h : m.irqMask = 0x20) (hserv : m.irqInservice = 0) (hvr : m.vr &&& vrSei = 0)
    (hen : m.irqEnable.getLsbD 5 = true) (count : Int) : (m.irq 5 count).Ready := by
  have htimer := timer_irq_self m count
  rw [if_pos hen] at htimer
  have hsame : (m.irq 5 count).irqMask = m.irqMask ∧ (m.irq 5 count).irqInservice = m.irqInservice ∧
      (m.irq 5 count).vr = m.vr := by
    simp only [State.irq, if_true]
    split
    · exact ⟨rfl, rfl, rfl⟩
    · split
      · exact ⟨rfl, rfl, rfl⟩
      · simp only [State.request]
        split
        · exact ⟨rfl, rfl, rfl⟩
        · split <;> exact ⟨rfl, rfl, rfl⟩
  refine ⟨hsame.1.trans h, hsame.2.1.trans hserv, by rw [hsame.2.2, hvr], ?_⟩
  exact congrArg (fun t => t.2.1) htimer

theorem surplus_delivered (hsize : 0x2f ≤ base.hwSize) (hc : 0 < m.timerCounter) :
    ∃ ops, Ticking ops ∧ requested base m ops < delivered base m ops := by
  obtain ⟨hmask, hserv, hvr, hen, hcounter⟩ := timerCAlone_run hsize m
  refine ⟨timerCAlone base ++ [.irq 5 1, .doInterrupt, .doInterrupt], fun n hn => ?_, ?_⟩
  · have hn1 : n = 1 := by simpa [timerCAlone] using hn
    rw [hn1]; decide
  · generalize hm' : runOps base m (timerCAlone base) = m' at hmask hserv hvr hen hcounter
    have hready := ready_of_tick hmask hserv hvr hen 1
    have hcount : (m'.irq 5 1).timerCounter = m.timerCounter + 1 := by
      have htimer := congrArg Prod.fst (timer_irq_self m' 1)
      rw [if_pos hen] at htimer; exact htimer.trans (by rw [hcounter])
    have hready' := hready.doInterrupt (by omega)
    have hfirst := passesTimerC_iff.mpr hready.top
    have hsecond := passesTimerC_iff.mpr hready'.top
    rw [delivered_append, requested_append, hm']
    simp only [timerCAlone, delivered, requested, Op.deliveries, Op.ticks, hen, and_self, if_true]
    rw [if_pos (show (Op.run base m' (.irq 5 1)).PassesTimerC from hfirst),
      if_pos (show (Op.run base (Op.run base m' (.irq 5 1)) .doInterrupt).PassesTimerC from hsecond)]
    decide

/-- After timer C was cancelled, whatever the guest and the devices do, no more of its vectors are delivered than
ticks were requested, exactly if no tick was left in the counter. -/
theorem timerC_conserved_iff (base : Base) (hsize : 0x2f ≤ base.hwSize) (m₀ : State) (before : List Op) (cancel : Op)
    (hticks : Ticking before) (hcancel : cancel.Cancels base) : (∀ after, Ticking after →
      delivered base (cancel.run base (runOps base m₀.reset before)) after
        ≤ requested base (cancel.run base (runOps base m₀.reset before)) after) ↔
    (runOps base m₀.reset before).timerCounter = 0 := by
  have howing : (runOps base m₀.reset before).Owing := by
    refine owing_runOps ⟨le_refl 0, fun h => ?_⟩ hticks
    simp [State.reset] at h
  obtain ⟨addr, value, rfl, -⟩ := hcancel
  have hidle : State.Idle _ (State.handleWrite _ base addr value) := idle_write (runOps base m₀.reset before) addr value
  have howing' := hidle.owing howing
  constructor
  · intro h
    by_contra hne
    have hpos : 0 < (Op.run base (runOps base m₀.reset before) (.write addr value)).timerCounter := by
      have := howing.1
      rw [show (Op.run base (runOps base m₀.reset before) (.write addr value)).timerCounter = _ from hidle.counter]
      omega
    obtain ⟨ops, hops, hlt⟩ := surplus_delivered hsize hpos
    exact absurd (h ops hops) (not_le.mpr hlt)
  · intro h after hafter
    have hsum : delivered base (Op.run base (runOps base m₀.reset before) (.write addr value)) after + _ = _ :=
      delivered_add_counter after
    have hend : 0 ≤ (runOps base (Op.run base _ (.write addr value)) after).timerCounter := (owing_runOps howing' hafter).1
    rw [show (Op.run base (runOps base m₀.reset before) (.write addr value)).timerCounter = _ from hidle.counter, h]
      at hsum
    omega

def servedAgain : List Op := [.write 0xfffa09 0x20, .irq 5 3, .doInterrupt]

theorem timerC_conserved_served :
    let m := Op.run chip (runOps chip powerOn.reset (timerCAlone chip ++ [.irq 5 1, .doInterrupt])) (.write 0xfffa09 0)
    delivered chip m servedAgain ≤ requested chip m servedAgain := by
  have hticks : Ticking (timerCAlone chip ++ [.irq 5 1, .doInterrupt]) := by
    intro n hn
    have hn1 : n = 1 := by simpa [timerCAlone] using hn
    rw [hn1]; decide
  have hafter : Ticking servedAgain := by
    intro n hn
    have hn3 : n = 3 := by simpa [servedAgain] using hn
    rw [hn3]; decide
  have hcancel : (Op.write 0xfffa09 0).Cancels chip := ⟨0xfffa09, 0, rfl, by decide, .inl (by decide), by decide⟩
  exact (timerC_conserved_iff chip (by decide) powerOn _ _ hticks hcancel).mpr (by decide) servedAgain hafter

/-- Two ticks are requested and timer C is disabled before it is served. After the next tick it is served twice. -/
theorem timerC_surplus :
    let m := Op.run chip (runOps chip powerOn.reset [.write 0xfffa09 0x20, .irq 5 2]) (.write 0xfffa09 0)
    let after := timerCAlone chip ++ [.irq 5 1, .doInterrupt, .doInterrupt]
    requested chip m after = 1 ∧ delivered chip m after = 2 := by
  decide

end Aranym.Mfp
