import Aranym.Fdc.Defs
import Mathlib.Tactic.Ring

/-!
# The head and the sectors of the floppy

`STEP` and `STEP-IN` can move the head behind the last track.
-/

namespace Aranym.Fdc

open Aranym.Lib State

/-! ## The head -/

/-- A command that moves the head, or a write to a register that such a command uses. -/
inductive Event
  | command (porta : BitVec 8) (command : BitVec 7)
  | setTrack (value : BitVec 16)
  | setData (value : BitVec 16)

def Event.run (host : Host) (s : State) : Event → State
  | .command porta c => (s.execCommand host porta (c.setWidth 16)).1
  | .setTrack value => { s with track := value.toNat }
  | .setData value => { s with data := value.toNat }

def State.OnDisk (s : State) : Prop := 0 ≤ s.head ∧ s.head < s.tracks

instance (s : State) : Decidable s.OnDisk := inferInstanceAs (Decidable (_ ∧ _))

/-- `STEP` stays between the first and the last track, and `STEP-IN` is not given on the last one. -/
def Event.StaysOn (s : State) : Event → Prop
  | .command porta c => selected porta →
    (c &&& 0x60 = 0x20 → 0 ≤ s.head + s.dir ∧ s.head + s.dir < s.tracks) ∧ (c &&& 0x60 = 0x40 → s.head + 1 < s.tracks)
  | _ => True

theorem kinds (c : BitVec 7) : c.setWidth 16 < 0x80 ∧
    (c.setWidth 16 &&& 0xf0 = 0x00 ∨ c.setWidth 16 &&& 0xf0 = 0x10 → c &&& 0x60 ≠ 0x20 ∧ c &&& 0x60 ≠ 0x40) ∧
    (c.setWidth 16 &&& 0xe0 = 0x20 ↔ c &&& 0x60 = 0x20) ∧ (c.setWidth 16 &&& 0xe0 = 0x40 ↔ c &&& 0x60 = 0x40) := by
  revert c
  decide

theorem onDisk_move (s : State) (hs : s.OnDisk) (c : BitVec 7) : (s.move (c.setWidth 16)).OnDisk ↔
    (c &&& 0x60 = 0x20 → 0 ≤ s.head + s.dir ∧ s.head + s.dir < s.tracks) ∧
      (c &&& 0x60 = 0x40 → s.head + 1 < s.tracks) := by
  obtain ⟨-, hother, hstep, hin⟩ := kinds c
  obtain ⟨hlow, hhigh⟩ := hs
  have hstays {P Q : Prop} (h : c &&& 0x60 ≠ 0x20 ∧ c &&& 0x60 ≠ 0x40) :
      (c &&& 0x60 = 0x20 → P) ∧ (c &&& 0x60 = 0x40 → Q) :=
    ⟨fun hk => absurd hk h.1, fun hk => absurd hk h.2⟩
  simp only [OnDisk, move, hstep, hin]
  split_ifs with h₀ h₁ h₂ h₃
  · exact iff_of_true ⟨le_refl _, by dsimp only; omega⟩ (hstays (hother (.inl h₀)))
  · refine iff_of_true ?_ (hstays (hother (.inr h₁)))
    dsimp only [seek]
    split <;> omega
  · exact ⟨fun h => ⟨fun _ => h, fun hk => absurd (h₂.symm.trans hk) (by decide)⟩, fun h => h.1 h₂⟩
  · dsimp only [stepIn]
    rw [if_pos hhigh]
    exact ⟨fun h => ⟨fun hk => absurd hk h₂, fun _ => h.2⟩, fun h => ⟨by omega, h.2 h₃⟩⟩
  · refine iff_of_true ?_ (hstays ⟨h₂, h₃⟩)
    dsimp only [stepOut]
    split <;> omega

theorem Event.onDisk_run (host : Host) (s : State) (e : Event) (hs : s.OnDisk) :
    (e.run host s).OnDisk ↔ e.StaysOn s := by
  cases e with
  | command porta c =>
    simp only [Event.run, execCommand, if_pos (kinds c).1, Event.StaysOn]
    split
    · next hsel => exact (onDisk_move { s with status := 0 } hs c).trans ⟨fun h _ => h, fun h => h hsel⟩
    · next hsel => exact iff_of_true hs fun h => absurd h hsel
  | setTrack value => exact iff_of_true hs trivial
  | setData value => exact iff_of_true hs trivial

/-- The head stays on the disk in exactly the runs whose steps do. -/
theorem head_onDisk_iff (host : Host) (s : State) (hs : s.OnDisk) (events : List Event) :
    (∀ pre post, events = pre ++ post → (pre.foldl (Event.run host) s).OnDisk) ↔
      ∀ pre e post, events = pre ++ e :: post → e.StaysOn (pre.foldl (Event.run host) s) :=
  foldl_invariant_iff hs (Event.onDisk_run host) events

def blank : State := ⟨⟨2, 80, 9, 512⟩, 0, true, false, 0, 1, 0, 0, 1, 0, 0, 1⟩

def quiet : Host := ⟨fun _ => true, fun _ => true, none, false⟩

theorem head_onDisk_seek : blank.OnDisk ∧
    ((∀ pre post, [.setData 79, .command 0 0x10] = pre ++ post → (pre.foldl (Event.run quiet) blank).OnDisk) ↔
      ∀ pre e post, [.setData 79, .command 0 0x10] = pre ++ e :: post →
        Event.StaysOn (pre.foldl (Event.run quiet) blank) e) :=
  ⟨by decide, head_onDisk_iff quiet blank (by decide) _⟩

theorem head_offDisk : ¬ ([.setData 79, .command 0 0x10, .command 0 0x40].foldl (Event.run quiet) blank).OnDisk := by
  decide

/-! ## Sectors -/

/-- There is a floppy in the drive, and it has sectors. -/
structure State.Formatted (s : State) : Prop where
  spt : 0 < s.spt
  secsize : 0 < s.secsize
  inserted : s.inserted = true

def State.Found (s : State) : Prop := 0 < s.sector ∧ s.sector ≤ s.spt ∧ s.head = s.track

instance (s : State) : Decidable s.Found := inferInstanceAs (Decidable (_ ∧ _))

/-- Only the sectors below the head from the one in the register on are transferred, and none if it is not found. -/
def State.Addressed (s : State) (side : Int) (r : State × List Int) : Prop :=
  (∀ o ∈ r.2, ∃ n, s.sector ≤ n ∧ n ≤ s.spt ∧ o = s.offsetOf side n) ∧
    (¬ s.Found → r.2 = [] ∧ r.1.status.getLsbD 4 = true)

/-- A sector that is found is the last one of a transfer on a track with one sector. One that is not found is not
looked for. Nothing is transferred before the start of the file. -/
def State.Proper (s : State) (command : BitVec 16) (side : Int) : Prop :=
  s.offsetOf side s.sector < 0 ∨
    s.Found ∧ (command &&& 0xd0 = 0x80 ∨ 1 < s.spt ∨ s.dmaScr ≤ 1) ∨
    ¬ s.Found ∧ command &&& 0xd0 ≠ 0x80 ∧ (s.dmaScr ≤ 0 ∨ 1 < s.spt ∧ s.spt < s.sector) ∧
      (s.head ≠ s.track ∨ 1 < s.spt ∧ s.spt - s.sector + 1 < s.dmaScr)

variable {s t : State} {host : Host} {command : BitVec 16} {side : Int} {ok : Int → Bool}

def State.count (s : State) (command : BitVec 16) : Int :=
  if command &&& 0xd0 = 0x80 then 1 else if s.tooMany then s.spt - s.sector + 1 else s.dmaScr

theorem next_offset (offset z : Int) (i : Nat) : offset + z + i * z = offset + (i + 1 : Nat) * z := by
  push_cast
  ring

theorem mem_transferSectors {z o offset n} (h : o ∈ (transferSectors ok z n offset).1) :
    ∃ i : Nat, i < n ∧ o = offset + i * z := by
  induction n generalizing offset with
  | zero => cases h
  | succ n ih =>
    unfold transferSectors at h
    split at h
    · rcases List.mem_cons.mp h with rfl | h
      · exact ⟨0, Nat.succ_pos n, by simp⟩
      · obtain ⟨i, hi, rfl⟩ := ih h; exact ⟨i + 1, Nat.succ_lt_succ hi, next_offset ..⟩
    · exact ⟨0, Nat.succ_pos n, by simpa using h⟩

theorem transferSectors_all (z offset : Int) (n : Nat) : (transferSectors (fun _ => true) z n offset).2 = true ∧
    ∀ i < n, offset + i * z ∈ (transferSectors (fun _ => true) z n offset).1 := by
  induction n generalizing offset with
  | zero => exact ⟨rfl, fun i hi => absurd hi (Nat.not_lt_zero i)⟩
  | succ n ih =>
    obtain ⟨hdone, hall⟩ := ih (offset + z)
    refine ⟨hdone, fun i hi => ?_⟩
    cases i with
    | zero => exact List.mem_cons.mpr (.inl (by simp))
    | succ i => refine List.mem_cons.mpr (.inr ?_); rw [← next_offset]; exact hall i (by omega)

theorem transfer_spec (ok : Int → Bool) (offset : Int) (nf : Bool) (t : State) :
    (t.transfer ok offset nf).2 = (t.transferFile ok offset).1 ∧ (t.transfer ok offset nf).1.head = t.head ∧
    (t.transfer ok offset nf).1.track = t.track ∧
    (t.transfer ok offset nf).1.status.getLsbD 4 = (t.status.getLsbD 4 || (!(t.transferFile ok offset).2 || nf)) := by
  unfold transfer
  obtain ⟨sectors, done⟩ := t.transferFile ok offset
  cases done with
  | false => exact ⟨rfl, rfl, rfl, by simp [rnf]⟩
  | true => exact ⟨rfl, rfl, rfl, by cases nf <;> simp [rnf]⟩

def State.willing (s : State) : Host := ⟨fun _ => true, fun _ => true, some s.toGeometry, false⟩

/-- A sector command transfers from the state `t` on, which may have another floppy when one sector is read. -/
structure State.Transfers (s : State) (host : Host) (command : BitVec 16) (t : State) (ok : Int → Bool) : Prop where
  dmaScr : t.dmaScr = s.count command
  floppy : t.inserted = s.inserted ∧ t.secsize = s.secsize ∨ t.dmaScr = 1
  willing : host = s.willing → s.inserted = true → ok = (fun _ => true) ∧ t.inserted = true ∧ t.secsize = s.secsize

structure State.Ran (s : State) (host : Host) (command : BitVec 16) (t : State) (ok : Int → Bool) (side : Int)
    (r : State × List Int) : Prop extends s.Transfers host command t ok where
  log : r.2 = (t.transferFile ok (s.offsetOf side s.sector)).1
  status : r.1.status.getLsbD 4 = true ↔
    (t.transferFile ok (s.offsetOf side s.sector)).2 = false ∨ s.tooMany = true ∨ s.head ≠ s.track

theorem readWrite_spec (host : Host) (hc : command &&& 0xc0 = 0x80) (side : Int) (s : State) :
    ∃ t ok, s.readWrite host command side = t.transfer ok (s.offsetOf side s.sector) s.tooMany ∧
      (t.head = s.head ∧ t.track = s.track ∧ t.status = s.status) ∧ s.Transfers host command t ok := by
  obtain ⟨t, ht, hsame, hscr, hfloppy⟩ : ∃ t : State,
      (if command &&& 0xd0 = 0x80 then
        { if s.tooMany then { s with dmaScr := s.spt - s.sector + 1 } else s with dmaScr := 1 }
        else if s.tooMany then { s with dmaScr := s.spt - s.sector + 1 } else s) = t ∧
      (t.head = s.head ∧ t.track = s.track ∧ t.status = s.status) ∧ t.dmaScr = s.count command ∧
      t.inserted = s.inserted ∧ t.toGeometry = s.toGeometry := by
    refine ⟨_, rfl, ?_⟩
    unfold count
    split_ifs <;> exact ⟨⟨rfl, rfl, rfl⟩, rfl, rfl, rfl⟩
  simp only [readWrite, hc, if_true, ht]
  have hsize : t.secsize = s.secsize := by rw [hfloppy.2]
  split_ifs with hread hboot
  · cases hh : host.floppy with
    | none =>
      refine ⟨{ t with inserted := false }, host.read, by rw [insertFloppy, hh], hsame, hscr, .inr hboot.2, ?_⟩
      rintro rfl
      cases hh
    | some g =>
      refine ⟨{ t with toGeometry := g, inserted := true, floppyChanged := true }, host.read,
        by rw [insertFloppy, hh], hsame, hscr, .inr hboot.2, ?_⟩
      rintro rfl -
      cases hh
      exact ⟨rfl, rfl, rfl⟩
  · exact ⟨t, host.read, rfl, hsame, hscr, .inl ⟨hfloppy.1, hsize⟩, fun h hi => ⟨by rw [h]; rfl, hfloppy.1.trans hi, hsize⟩⟩
  · exact ⟨t, host.write, rfl, hsame, hscr, .inl ⟨hfloppy.1, hsize⟩, fun h hi => ⟨by rw [h]; rfl, hfloppy.1.trans hi, hsize⟩⟩

theorem high_of_sector (hc : command &&& 0xc0 = 0x80) : ¬ command < 0x80 ∧ command &&& 0xf0 ≠ 0xd0 := by
  have hle := Nat.and_le_left (n := command.toNat) (m := 0xc0)
  have hnat := congrArg BitVec.toNat hc
  rw [BitVec.toNat_and] at hnat
  refine ⟨fun h => absurd (hnat ▸ hle) (by simpa [BitVec.lt_def] using h), fun h => ?_⟩
  have hboth := congrArg (· &&& 0xc0#16) h
  rw [BitVec.and_assoc] at hboth
  exact absurd (hc.symm.trans hboth) (by decide)

theorem execCommand_spec (host : Host) {porta} (hsel : selected porta = true)
    (hc : command &&& 0xc0 = 0x80) (s : State) :
    ∃ t ok, s.Ran host command t ok (State.side porta) (s.execCommand host porta command) := by
  obtain ⟨hhigh, hirupt⟩ := high_of_sector hc
  obtain ⟨t, ok, heq, ⟨hhead, htrack, hzero⟩, ht⟩ := readWrite_spec host hc (State.side porta) { s with status := 0 }
  replace heq : { s with status := 0 }.readWrite host command (State.side porta) =
    t.transfer ok (s.offsetOf (State.side porta) s.sector) s.tooMany := heq
  obtain ⟨hlog, hhead', htrack', hstatus⟩ := transfer_spec ok (s.offsetOf (State.side porta) s.sector) s.tooMany t
  refine ⟨t, ok, ⟨ht.dmaScr, ht.floppy, ht.willing⟩, ?_, ?_⟩
  · simp only [execCommand, if_neg hhigh, if_neg hirupt, hsel, if_true, typeTwo, heq]; exact hlog
  · have hnet : (if host.bootNetbsd then 0 else 0x80 : BitVec 8).getLsbD 4 = false := by split <;> rfl
    have hne : (if s.head ≠ s.track then rnf else 0).getLsbD 4 = decide (s.head ≠ s.track) := by
      split <;> simp_all [rnf]
    simp only [execCommand, if_neg hhigh, if_neg hirupt, hsel, if_true, typeTwo, heq]
    rw [BitVec.getLsbD_or, BitVec.getLsbD_or, hstatus, hhead', htrack', hhead, htrack, hne, hnet, hzero]
    simp [or_assoc]

theorem State.tooMany_iff (s : State) : s.tooMany = true ↔ s.spt - s.sector + 1 < s.dmaScr ∧ 1 < s.spt := by
  simp [tooMany]

theorem State.count_cases (s : State) (command : BitVec 16) :
    command &&& 0xd0 = 0x80 ∧ s.count command = 1 ∨ command &&& 0xd0 ≠ 0x80 ∧
      (s.spt - s.sector + 1 < s.dmaScr ∧ 1 < s.spt ∧ s.count command = s.spt - s.sector + 1 ∨
        ¬(s.spt - s.sector + 1 < s.dmaScr ∧ 1 < s.spt) ∧ s.count command = s.dmaScr) := by
  unfold count
  split_ifs with hone hmany
  · exact .inl ⟨hone, rfl⟩
  · obtain ⟨h, h'⟩ := s.tooMany_iff.mp hmany; exact .inr ⟨hone, .inl ⟨h, h', rfl⟩⟩
  · exact .inr ⟨hone, .inr ⟨fun h => hmany (s.tooMany_iff.mpr h), rfl⟩⟩

theorem State.offsetOf_add (s : State) (side n : Int) (i : Nat) :
    s.offsetOf side n + i * s.secsize = s.offsetOf side (n + i) := by
  unfold offsetOf
  ring

theorem addressed_of_proper {r} (hs : s.Formatted) (h : s.Proper command side)
    (hr : s.Ran host command t ok side r) : s.Addressed side r := by
  have hcount := hr.dmaScr
  have hcases := s.count_cases command
  have hspt := hs.spt
  constructor
  · intro o ho
    rw [hr.log, transferFile] at ho
    split at ho
    · cases ho
    · next hgo =>
      rw [not_or] at hgo
      obtain ⟨i, hi, rfl⟩ := mem_transferSectors ho
      have hz : (i : Int) * t.secsize = i * s.secsize := by
        rcases hr.floppy with ⟨-, heq⟩ | hone
        · rw [heq]
        · rw [show i = 0 by omega]; simp
      refine ⟨s.sector + i, by omega, ?_, by rw [hz, offsetOf_add]⟩
      rcases h with h | ⟨⟨hpos, hle, -⟩, h⟩ | ⟨-, hmulti, hnone, -⟩
      · exact absurd h hgo.2
      · rcases hcases with ⟨-, hone⟩ | ⟨hmulti, hmany⟩
        · omega
        · have := h.resolve_left hmulti; omega
      · have := (hcases.resolve_left fun h => hmulti h.1).2; omega
  · intro hnot
    rw [hr.log, hr.status, transferFile]
    rcases h with hneg | ⟨hfound, -⟩ | ⟨-, hmulti, hnone, hrnf⟩
    · rw [if_pos (.inr hneg)]; exact ⟨rfl, .inl rfl⟩
    · exact absurd hfound hnot
    · have := (hcases.resolve_left fun h => hmulti h.1).2
      split
      · exact ⟨rfl, .inl rfl⟩
      · rw [show t.dmaScr.toNat = 0 by omega, tooMany_iff]
        exact ⟨rfl, .inr (hrnf.symm.imp_left fun h => ⟨h.2, h.1⟩)⟩

theorem proper_of_addressed {r} (hs : s.Formatted) (hr : s.Ran s.willing command t ok side r)
    (h : s.Addressed side r) : s.Proper command side := by
  obtain ⟨rfl, hinserted, hsize⟩ := hr.willing rfl hs.inserted
  have hcount := hr.dmaScr
  have hlog := hr.log
  have hstatus := hr.status
  have hcases := s.count_cases command
  have hspt := hs.spt
  rw [transferFile, hinserted, hsize, hcount] at hlog hstatus
  obtain ⟨hdone, hmem⟩ := transferSectors_all s.secsize (s.offsetOf side s.sector) (s.count command).toNat
  by_cases hneg : s.offsetOf side s.sector < 0
  · exact .inl hneg
  rw [if_neg (by simpa using hneg)] at hlog hstatus
  by_cases hfound : s.Found
  · refine .inr (.inl ⟨hfound, ?_⟩)
    by_contra hnot
    obtain ⟨hmulti, hspt₁, hscr₁⟩ : command &&& 0xd0 ≠ 0x80 ∧ ¬ 1 < s.spt ∧ ¬ s.dmaScr ≤ 1 := by simpa using hnot
    have hmany := (hcases.resolve_left fun h => hmulti h.1).2
    obtain ⟨hlow, hhigh, -⟩ := hfound
    obtain ⟨n, hn, hle, heq⟩ := h.1 _ (hlog ▸ hmem 1 (by omega))
    rw [offsetOf_add, offsetOf, offsetOf] at heq
    have := Int.eq_of_mul_eq_mul_left hs.secsize.ne' heq
    omega
  · obtain ⟨hnil, hrnf⟩ := h.2 hfound
    rw [hstatus, hdone, tooMany_iff] at hrnf
    have hzero : ¬ 0 < (s.count command).toNat := fun hpos => by
      have := hmem 0 hpos
      rw [← hlog, hnil] at this
      cases this
    obtain ⟨hmulti, hmany⟩ := hcases.resolve_left fun h => by omega
    exact .inr (.inr ⟨hfound, hmulti, by omega, (hrnf.resolve_left (by simp)).symm.imp_right And.symm⟩)

end Aranym.Fdc
