import Aranym.Ethernet.Defs
import Aranym.Lib.Run

/-!
# The acknowledge

`pthread_cond_wait` is called without a condition to check, the guest signals without the lock, and the pending bit
stays set after the acknowledge until the thread clears it. So the handshake works as long as the guest acknowledges
only while the thread is blocked, does not ask again before the bit is cleared, and nothing else wakes the thread; and
any other step can break it.
-/

namespace Aranym.Ethernet

open Aranym.Lib List Option

variable {ethX : Nat} {s s' : State} {a : Action} {as bs : List Action}

def Overwrites (s : State) : Action → Prop
  | .receive _ => s.served ≠ s.packet
  | _ => False

def LosesAck (s : State) : Action → Prop
  | .wait => s.served = s.packet
  | _ => False

/-- The thread is not woken without a signal, the guest acknowledges only while the thread is blocked, and it is not
shown the bit again between its acknowledge and the clearing of the bit. -/
def InTime (ethX : Nat) (s : State) : Action → Prop
  | .spurious => False
  | .xifIrq devBit => (deviceOf devBit = some ethX → s.pc = .waiting) ∧
      (devBit = 0 → s.pendingInterrupts &&& bit ethX ≠ 0 → s.pc ≠ .waking ∧ s.pc ≠ .clear)
  | _ => True

abbrev Next (ethX : Nat) (s : State) (a : Action) (s' : State) : Prop := step ethX s a = some s'

/-- No packet is replaced before it is served, and the thread never waits for an acknowledge it has missed. -/
def Safe (ethX : Nat) : State → List Action → Prop :=
  AtEach (Next ethX) fun s a => ¬ Overwrites s a ∧ ¬ LosesAck s a

/-- Every step of the run is in time. -/
def AllInTime (ethX : Nat) : State → List Action → Prop := AtEach (Next ethX) (InTime ethX)

instance decidableOverwrites (s : State) (a : Action) : Decidable (Overwrites s a) := by
  cases a <;> unfold Overwrites <;> infer_instance

instance decidableLosesAck (s : State) (a : Action) : Decidable (LosesAck s a) := by
  cases a <;> unfold LosesAck <;> infer_instance

instance decidableInTime (ethX : Nat) (s : State) (a : Action) : Decidable (InTime ethX s a) := by
  cases a <;> unfold InTime <;> infer_instance

instance decidableNext (ethX : Nat) (p : State → Action → Prop) [∀ s a, Decidable (p s a)] (s : State)
    (as : List Action) : Decidable (AtEach (Next ethX) p s as) :=
  decidableAtEach (step ethX) (fun _ _ _ => Iff.rfl) p s as

/-! ## Runs in time -/

def Pc.Announced (pc : Pc) : Prop := pc = .trigger ∨ pc = .wait ∨ pc = .waiting

def Pc.Raised (pc : Pc) : Prop := pc.Announced ∨ pc = .waking ∨ pc = .clear

def Pc.Done (pc : Pc) : Prop := pc = .waking ∨ pc = .clear ∨ pc = .unlock ∨ pc = .receive

structure Inv (ethX : Nat) (s : State) : Prop where
  unlocked : s.pc = .waiting ∨ s.pc = .waking → s.locked = false
  served : s.served = s.packet ↔ s.pc.Done
  shown : ∀ p, s.shown = some p → p = s.packet ∧ s.pc.Announced
  pending : s.pendingInterrupts &&& bit ethX ≠ 0 → s.pc.Raised

theorem inv_initial (ethX : Nat) : Inv ethX initial where
  unlocked h := by simp [initial] at h
  served := by simp [initial, Pc.Done]
  shown p h := by simp [initial] at h
  pending h := by simp [initial] at h

theorem clear_bit (x : BitVec 32) (ethX : Nat) : (x &&& ~~~bit ethX) &&& bit ethX = 0 := by
  rw [BitVec.and_assoc, BitVec.and_comm (~~~bit ethX)]
  simp

theorem Inv.call (hi : Inv ethX s) {devBit} (ht : InTime ethX s (.xifIrq devBit))
    (h : xifIrq ethX s devBit = some s') : Inv ethX s' := by
  obtain ⟨hunlocked, hserved, hshown, hpending⟩ := hi
  unfold Ethernet.xifIrq at h
  split at h
  · next hzero =>
    cases h
    split
    · next hset =>
      have hannounced : s.pc.Announced := (hpending hset).resolve_right fun hpc =>
        hpc.elim (ht.2 hzero hset).1 (ht.2 hzero hset).2
      exact ⟨hunlocked, hserved, fun p hp => ⟨(Option.some.inj hp).symm, hannounced⟩, hpending⟩
    · exact ⟨hunlocked, hserved, hshown, hpending⟩
  · split at h
    · next hdev =>
      obtain ⟨p, hp, rfl⟩ := map_eq_some_iff.mp h
      obtain ⟨rfl, -⟩ := hshown p hp
      have hpc := ht.1 hdev
      simp only [condSignal, hpc, ↓reduceIte]
      exact ⟨fun _ => hunlocked (.inl hpc), by simp [Pc.Done], by simp, fun _ => .inr (.inl rfl)⟩
    · cases h; exact ⟨hunlocked, hserved, hshown, hpending⟩

theorem Inv.next (hi : Inv ethX s) (ht : InTime ethX s a) (h : step ethX s a = some s') : Inv ethX s' := by
  cases a with
  | spurious => exact ht.elim
  | xifIrq devBit => exact hi.call ht h
  | _ =>
    obtain ⟨hunlocked, hserved, hshown, hpending⟩ := hi
    obtain ⟨hpc, heq⟩ := ite_none_right_eq_some.mp h
    cases heq
    constructor <;> simp_all [Pc.Done, Pc.Announced, Pc.Raised, clear_bit]

theorem Inv.safe_step (hi : Inv ethX s) (h : step ethX s a = some s') : ¬ Overwrites s a ∧ ¬ LosesAck s a := by
  constructor
  · cases a with
    | receive result =>
      obtain ⟨hpc, -⟩ := ite_none_right_eq_some.mp h
      exact not_not.mpr (hi.served.mpr (by simp [Pc.Done, hpc]))
    | _ => exact id
  · cases a with
    | wait =>
      obtain ⟨hpc, -⟩ := ite_none_right_eq_some.mp h
      intro heq
      have hdone := hi.served.mp heq; simp [Pc.Done, hpc] at hdone
    | _ => exact id

theorem Inv.safe_run (hi : Inv ethX s) (hrun : run ethX s as = some s') (ht : AllInTime ethX s as) :
    Safe ethX s as ∧ Inv ethX s' := by
  induction as generalizing s with
  | nil => cases hrun; exact ⟨trivial, hi⟩
  | cons a as ih =>
    obtain ⟨s₁, hstep, hrest⟩ := bind_eq_some_iff.mp hrun
    obtain ⟨hsafe, hi'⟩ := ih (hi.next ht.1 hstep) hrest (ht.2 s₁ hstep)
    refine ⟨⟨hi.safe_step hstep, fun s₂ hs₂ => ?_⟩, hi'⟩
    rw [Next, hstep] at hs₂
    cases hs₂
    exact hsafe

theorem run_append (as bs : List Action) : run ethX s (as ++ bs) = (run ethX s as).bind (run ethX · bs) := by
  induction as generalizing s with
  | nil => rfl
  | cons a as ih => rw [cons_append, run, run, bind_assoc]; exact Option.bind_congr fun s₁ _ => ih

variable {p : State → Action → Prop}

theorem atEach_append (hrun : run ethX s as = some s') :
    AtEach (Next ethX) p s (as ++ bs) ↔ AtEach (Next ethX) p s as ∧ AtEach (Next ethX) p s' bs := by
  induction as generalizing s with
  | nil => cases hrun; exact (and_iff_right trivial).symm
  | cons a as ih =>
    obtain ⟨s₁, hstep, hrest⟩ := bind_eq_some_iff.mp hrun
    rw [cons_append, AtEach, AtEach, and_assoc]
    simp only [Next, hstep, Option.some.injEq, forall_eq', ih hrest]

/-! ## Steps out of time -/

def Action.OfThread (a : Action) : Prop := a ≠ .spurious ∧ ∀ devBit, a ≠ .xifIrq devBit

theorem inTime_ofThread (h : a.OfThread) (s : State) : InTime ethX s a := by
  cases a with
  | spurious => exact absurd rfl h.1
  | xifIrq devBit => exact absurd rfl (h.2 devBit)
  | _ => trivial

theorem allInTime_ofThread (h : ∀ a ∈ as, a.OfThread) (s : State) : AllInTime ethX s as := by
  induction as generalizing s with
  | nil => trivial
  | cons a as ih => rw [forall_mem_cons] at h; exact ⟨inTime_ofThread h.1 s, fun s' _ => ih h.2 s'⟩

/-- The runs that go on in time from `s` are not all safe. -/
def Breaks (ethX : Nat) (s : State) : Prop :=
  ∃ bs t, run ethX s bs = some t ∧ AllInTime ethX s bs ∧ ¬ Safe ethX s bs

theorem Inv.spurious_breaks (hi : Inv ethX s) (h : step ethX s .spurious = some s') : Breaks ethX s' := by
  obtain ⟨hpc, heq⟩ := ite_none_right_eq_some.mp h
  cases heq
  have hfree : s.locked = false := hi.unlocked (.inl hpc)
  have hne : s.served ≠ s.packet := fun heq => by
    have hdone := hi.served.mp heq; simp [Pc.Done, hpc] at hdone
  refine ⟨[.relock, .clear, .unlock, .receive 0], _, by simp [run, step, hfree]; rfl,
    allInTime_ofThread (by simp [Action.OfThread]) _, fun hsafe => ?_⟩
  have hreceive := ((hsafe.2 _ (by simp [hfree]; rfl)).2 _ rfl).2 _ rfl
  exact hreceive.1.1 hne

theorem Inv.ack_breaks (hi : Inv ethX s) {devBit} (hdev : deviceOf devBit = some ethX)
    (hpc : s.pc ≠ .waiting) (h : step ethX s (.xifIrq devBit) = some s') : Breaks ethX s' := by
  have hne : devBit ≠ 0 := by rintro rfl; cases hdev
  rw [step, xifIrq, if_neg hne, if_pos hdev] at h
  obtain ⟨p, hp, rfl⟩ := map_eq_some_iff.mp h
  obtain ⟨rfl, hannounced⟩ := hi.shown p hp
  simp only [condSignal, hpc, ↓reduceIte]
  rcases hannounced with hpc' | hpc' | hpc'
  · refine ⟨[.trigger, .wait], _, by simp [run, step, hpc']; rfl,
      allInTime_ofThread (by simp [Action.OfThread]) _, fun hsafe => ?_⟩
    have hwait := hsafe.2 _ (by simp [hpc']; rfl); exact hwait.1.2 rfl
  · refine ⟨[.wait], _, by simp [run, step, hpc']; rfl,
      allInTime_ofThread (by simp [Action.OfThread]) _, fun hsafe => ?_⟩
    exact hsafe.1.2 rfl
  · exact absurd hpc' hpc

theorem deviceOf_bit : ∀ ethX < 8, deviceOf (bit ethX) = some ethX := by decide

/-- The bit is shown once more after the acknowledge: the guest then acknowledges the next packet by it, which it has
not been shown. -/
theorem shown_breaks (hX : ethX < 8) (hpc : s.pc = .clear) (hshown : s.shown = some s.packet) : Breaks ethX s := by
  have hdev := deviceOf_bit ethX hX
  have hne : ¬ bit ethX = 0#32 := fun h => by rw [h] at hdev; cases hdev
  refine ⟨[.clear, .unlock, .receive 0, .lock, .setPending, .trigger, .wait, .xifIrq (bit ethX), .relock, .clear,
    .unlock, .receive 0], _, by simp [run, step, xifIrq, condSignal, hpc, hshown, hdev, hne]; rfl, ?_, ?_⟩
  · simp [AllInTime, AtEach, Next, InTime, step, xifIrq, condSignal, hpc, hshown, hdev, hne]
  · simp [Safe, AtEach, Next, Overwrites, LosesAck, step, xifIrq, condSignal, hpc, hshown, hdev, hne]

theorem Breaks.of_step (h : step ethX s a = some s') (ht : InTime ethX s a) (hb : Breaks ethX s') :
    Breaks ethX s := by
  obtain ⟨bs, t, hrun, hin, hnot⟩ := hb
  refine ⟨a :: bs, t, by rw [run, h]; exact hrun, ⟨ht, fun s₁ h₁ => ?_⟩, fun hsafe => hnot (hsafe.2 s' h)⟩
  cases h.symm.trans h₁
  exact hin

theorem Inv.poll_breaks (hi : Inv ethX s) (hX : ethX < 8) (hset : s.pendingInterrupts &&& bit ethX ≠ 0)
    (hpc : s.pc = .waking ∨ s.pc = .clear) (h : step ethX s (.xifIrq 0) = some s') : Breaks ethX s' := by
  rw [step, xifIrq, if_pos rfl, if_pos hset, Option.some.injEq] at h
  subst h
  rcases hpc with hpc | hpc
  · have hfree : s.locked = false := hi.unlocked (.inr hpc)
    exact .of_step (a := .relock) (by simp [step, hpc, hfree]; rfl) trivial (shown_breaks hX rfl rfl)
  · exact shown_breaks hX hpc rfl

theorem Inv.step_breaks (hi : Inv ethX s) (hX : ethX < 8) (h : step ethX s a = some s') (ht : ¬ InTime ethX s a) :
    Breaks ethX s' := by
  cases a with
  | spurious => exact hi.spurious_breaks h
  | xifIrq devBit =>
    rcases not_and_or.mp ht with ht | ht
    · obtain ⟨hdev, hpc⟩ := Classical.not_imp.mp ht; exact hi.ack_breaks hdev hpc h
    · obtain ⟨rfl, hshow⟩ := Classical.not_imp.mp ht
      obtain ⟨hset, hpc⟩ := Classical.not_imp.mp hshow
      exact hi.poll_breaks hX hset (or_iff_not_and_not.mpr hpc) h
  | _ => exact absurd trivial ht

/-- Runs whose steps are all in time are safe. A step after such a run is in time exactly if all runs that go on in
time after it are safe. -/
theorem handshake_safe (hX : ethX < 8) (hrun : run ethX initial as = some s) (ht : AllInTime ethX initial as) :
    Safe ethX initial as ∧ ∀ a s', step ethX s a = some s' →
      (InTime ethX s a ↔ ∀ bs t, run ethX s' bs = some t → AllInTime ethX s' bs →
        Safe ethX initial (as ++ a :: bs)) := by
  obtain ⟨hsafe, hi⟩ := (inv_initial ethX).safe_run hrun ht
  refine ⟨hsafe, fun a s' hstep => ?_⟩
  have hnext : run ethX s [a] = some s' := by rw [run, hstep]; rfl
  constructor
  · intro hin bs t hbs htbs
    have hrun' : run ethX initial (as ++ a :: bs) = some t := by
      rw [run_append, hrun, bind_some, run, hstep, bind_some, hbs]
    have ht' : AllInTime ethX initial (as ++ a :: bs) :=
      (atEach_append hrun).mpr ⟨ht, (atEach_append hnext).mpr ⟨⟨hin, fun _ _ => trivial⟩, htbs⟩⟩
    exact ((inv_initial ethX).safe_run hrun' ht').1
  · intro hall
    by_contra hin
    obtain ⟨bs, t, hbs, htbs, hnot⟩ := hi.step_breaks hX hstep hin
    have hafter := ((atEach_append hrun).mp (hall bs t hbs htbs)).2
    exact hnot ((atEach_append hnext).mp hafter).2

theorem handshake_two_packets :
    Safe 0 initial [.receive 60, .lock, .setPending, .trigger, .wait, .xifIrq 0, .xifIrq 1, .relock, .clear,
      .unlock, .receive 60] :=
  (handshake_safe (s := ⟨.lock, 2, 60, false, 0, true, none, 1⟩) (by decide) (by decide) (by unfold AllInTime; decide)).1

/-- An acknowledge before the thread is blocked, a wake-up without a signal, and an interrupt that is shown again after
its acknowledge and acknowledged twice. -/
theorem handshake_broken :
    let early := [.receive 60, .lock, .setPending, .trigger, .xifIrq 0, .xifIrq 1, .wait]
    let woken := [.receive 60, .lock, .setPending, .trigger, .wait, .spurious, .relock, .clear, .unlock,
      .receive 60]
    let twice := [.receive 60, .lock, .setPending, .trigger, .wait, .xifIrq 0, .xifIrq 1, .xifIrq 0, .relock, .clear,
      .unlock, .receive 60, .lock, .setPending, .trigger, .wait, .xifIrq 1, .relock, .clear, .unlock, .receive 60]
    (run 0 initial early).isSome ∧ ¬ Safe 0 initial early ∧
      (run 0 initial woken).isSome ∧ ¬ Safe 0 initial woken ∧
      (run 0 initial twice).isSome ∧ ¬ Safe 0 initial twice := by
  unfold Safe
  decide

end Aranym.Ethernet
