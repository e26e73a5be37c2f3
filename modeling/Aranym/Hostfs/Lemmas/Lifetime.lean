import Aranym.Hostfs.Lemmas.Cookies

/-!
# Calls and the tree of cookies

Every call keeps the counters right as long as they do not overflow, and no call uses a deleted node.
-/

namespace Aranym.Hostfs

open Aranym.Lib

variable {drv : ExtDrive} {host : Host} {s t : State} {held l : List Nat} {p q addr : Nat} {g : Guest} {op : Op}

/-- A name or a path did not fit into its buffer. -/
def Fault.NoRoom (e : Fault) : Prop := e = .overflow ∨ e = .unterminated

def Same (s t : State) : Prop := t.live = s.live ∧ t.file = s.file

theorem Same.refl (s : State) : Same s s := ⟨rfl, rfl⟩

theorem Same.trans {u} (h : Same s t) (h' : Same t u) : Same s u := ⟨h'.1.trans h.1, h'.2.trans h.2⟩

theorem Chain.same (h : Chain s p l) (hs : Same s t) : Chain t p l :=
  h.congr (fun q hq => hs.1 ▸ h.subset q hq) fun q _ => by rw [hs.2]

theorem Same.children (hs : Same s t) (p : Nat) : t.children p = s.children p := by
  rw [State.children, State.children, hs.1, hs.2]

theorem Consistent.same (h : Consistent s held) (hs : Same s t) : Consistent t held := by
  refine ⟨⟨fun p hp => ?_, fun p hp => ?_, fun p hp => ?_, fun p hp => ?_⟩, fun p hp => ?_⟩
  · rw [hs.2]; exact h.refs p (hs.1 ▸ hp)
  · rw [hs.2, hs.children]; exact h.childs p (hs.1 ▸ hp)
  · exact hs.1 ▸ h.held_live p hp
  · obtain ⟨l, hl⟩ := h.chained p (hs.1 ▸ hp); exact ⟨l, hl.same hs⟩
  · rw [Used, hs.children]; exact h.used p (hs.1 ▸ hp)

/-! ## Paths -/

theorem copyPath_ends {E} (hE : E .overflow) (path : Path) (s : State) :
    Ends E (copyPath path) s fun r t => r = path ∧ t = s := by
  unfold copyPath
  exact .ite (fun _ => .pure ⟨rfl, rfl⟩) fun _ => .throw hE

theorem guestName_ends {E} (hE : E .unterminated) (name : Nat → BitVec 8) (s : State) :
    Ends E (guestName name) s fun fname t => hostName name = some fname ∧ t = s := by
  unfold guestName
  split
  · next fname heq => exact .pure ⟨heq, rfl⟩
  · exact .throw hE

theorem append_ends (path : Path) (name : Name) (s : State) :
    Ends Fault.NoRoom (append drv host path name) s fun _ t => Same s t := by
  unfold append
  refine .bind ((copyPath_ends (.inl rfl) _ s).mono ?_)
  rintro _ _ ⟨rfl, rfl⟩
  refine .bind ((copyPath_ends (.inl rfl) _ _).mono ?_)
  rintro _ _ ⟨rfl, rfl⟩
  refine .modify_bind ((copyPath_ends (.inl rfl) _ _).mono ?_)
  rintro _ _ ⟨rfl, rfl⟩
  exact ⟨rfl, rfl⟩

theorem load_ends {E} (hp : p ∈ s.live) : Ends E (load p) s fun f t => f = s.file p ∧ t = s :=
  .of_ok (load_apply hp) ⟨rfl, rfl⟩

theorem appendName_ends (name : Option Name) (path : Path) (s : State) :
    Ends Fault.NoRoom (appendName drv host name (some path)) s fun r t => r.isSome ∧ Same s t := by
  match name with
  | none => exact ⟨rfl, .refl s⟩
  | some [] => exact ⟨rfl, .refl s⟩
  | some (c :: name) =>
    rw [appendName]
    exact .bind ((append_ends path (c :: name) s).mono fun _ t ht => .pure ⟨rfl, ht⟩)

theorem cookie2Pathname_ends (hl : Chain s p l) {fuel} (hfuel : l.length ≤ fuel) (name : Option Name) :
    Ends Fault.NoRoom (cookie2Pathname drv host fuel (some p) name) s fun r t => r.isSome ∧ Same s t := by
  have happend : ∀ name (r : Option Path) t, r.isSome ∧ Same s t →
      Ends Fault.NoRoom (appendName drv host name r) t fun r t => r.isSome ∧ Same s t := fun name r t h => by
    obtain ⟨path, rfl⟩ := Option.isSome_iff_exists.mp h.1
    exact (appendName_ends name path t).mono fun _ _ h' => ⟨h'.1, h.2.trans h'.2⟩
  induction hl generalizing fuel name with
  | root hp hroot =>
    obtain ⟨fuel, rfl⟩ : ∃ n, fuel = n + 1 := ⟨fuel - 1, by rw [List.length_singleton] at hfuel; omega⟩
    rw [cookie2Pathname]
    refine .bind ((load_ends hp).mono ?_)
    rintro f t ⟨rfl, rfl⟩
    rw [hroot, cookie2Pathname]
    refine .bind (.bind ((copyPath_ends (.inl rfl) _ t).mono ?_))
    rintro path u ⟨rfl, rfl⟩
    exact happend _ _ _ ⟨rfl, .refl u⟩
  | @child p q l hp hparent hrest ih =>
    obtain ⟨fuel, rfl⟩ : ∃ n, fuel = n + 1 := ⟨fuel - 1, by rw [List.length_cons] at hfuel; omega⟩
    rw [cookie2Pathname]
    refine .bind ((load_ends hp).mono ?_)
    rintro f t ⟨rfl, rfl⟩
    rw [hparent]; exact .bind ((ih (Nat.le_of_succ_le_succ hfuel) _).mono (happend name))

theorem pathname_ends (h : Consistent s held) (hp : p ∈ s.live) (name : Name) :
    Ends Fault.NoRoom (pathname drv host p name) s fun _ t => Same s t := by
  obtain ⟨l, hl⟩ := h.chained p hp
  unfold pathname
  refine .get_bind (.bind ((cookie2Pathname_ends hl hl.length_le (some name)).mono fun _ t ht => ?_))
  exact .pure ht.2

/-! ## Cookies -/

def Guest.HasRoom (g : Guest) : Prop :=
  ∀ p ∈ g.state.live, g.held.count p < 2 ^ 32 - 1 ∧ g.state.children p < 2 ^ 32 - 1

def Takes (held : List Nat) (cookie : Cookie) (t : State) : Prop := Consistent t (cookie.toList ++ held)

theorem again_ends (h : Consistent s held) (hp : p ∈ s.live) (hroom : held.count p < 2 ^ 32 - 1) :
    Ends Fault.NoRoom (again p) s (Takes held) := by
  unfold again
  refine .bind ((load_ends hp).mono ?_)
  rintro f t ⟨rfl, rfl⟩
  exact .modify_bind (.pure (h.again hp hroom rfl))

theorem newChild_ends (h : Consistent s held) (haddr : addr ∉ s.live) (hp : p ∈ s.live)
    (hroom : s.children p < 2 ^ 32 - 1) (name : Name) :
    Ends Fault.NoRoom (newChild addr p name) s (Takes held) := by
  unfold newChild
  refine .bind ((load_ends hp).mono ?_)
  rintro f t ⟨rfl, rfl⟩
  have hcount : (t.file p).childCount.toNat < 2 ^ 32 - 1 := (h.childs p hp).trans_lt hroom
  exact .modify_bind (.modify_bind (.pure (h.grown (grown_child haddr hp hcount rfl rfl rfl rfl) haddr)))

/-! ## Calls -/

/-- What a call for `p` is made of: it may ask the host about the names in `A`, and it ends in `Q`. -/
structure Serves (E : Fault → Prop) (drv : ExtDrive) (s : State) (p addr : Nat) (A : Name → Prop) (C : State → Prop)
    (Q : Cookie → State → Prop) : Prop where
  live : p ∈ s.live
  unterminated : E .unterminated
  asked (host : Host) {name : Name} : A name → Ends E (pathname drv host p name) s fun path t =>
    C t ∧ C { t with paths := t.paths ++ [path] }
  start : C s
  none {t : State} : C t → Q none t
  again {q : Nat} : q = p ∨ (s.file p).parent = some q → Ends E (again q) s Q
  child {q : Nat} {t : State} : q = p ∨ (s.file p).parent = some q → C t →
    ∀ name, Ends E (newChild addr q name) t Q
  root : Q (some addr) (s.new addr ⟨.none, 1, 0, drv.hostRoot⟩)

namespace Serves

variable {E : Fault → Prop} {A : Name → Prop} {C : State → Prop} {Q : Cookie → State → Prop}
  (h : Serves E drv s p addr A C Q)

include h

theorem ask (answer : Path → Bool) {name : Name} (hname : A name) :
    Ends E (ask drv host answer p name) s fun _ t => C t := by
  unfold Hostfs.ask
  exact .bind ((h.asked host hname).mono fun _ t ht => .modify_bind (.pure ht.2))

theorem xfsLookup (lstat : Path → Bool) (name : Nat → BitVec 8)
    (hask : ∀ fname, hostName name = some fname → fname = [] ∨ fname = [dot] ∨ fname = [dot, dot] ∨ A fname) :
    Ends E (xfsLookup drv host lstat addr p name) s Q := by
  unfold Hostfs.xfsLookup
  refine .bind ((guestName_ends h.unterminated name s).mono ?_)
  rintro fname t ⟨hfname, rfl⟩
  refine .ite (fun _ => h.again (.inl rfl)) fun hself => .ite (fun _ => ?_) fun hup => ?_
  · refine .bind ((load_ends h.live).mono ?_)
    rintro f u ⟨rfl, rfl⟩
    cases hparent : (u.file p).parent with
    | none => exact .pure (h.none h.start)
    | some q => exact h.again (.inr hparent)
  · rw [not_or] at hself
    have hA := (((hask fname hfname).resolve_left hself.1).resolve_left hself.2).resolve_left hup
    refine .bind ((h.ask lstat hA).mono fun found u hu => ?_)
    exact .ite (fun _ => h.child (.inl rfl) hu fname) fun _ => .pure (h.none hu)

theorem xfsCreat (opens : Path → Bool) (name : Nat → BitVec 8)
    (hask : ∀ fname, hostName name = some fname → A fname) :
    Ends E (xfsCreat drv host opens addr p name) s Q := by
  unfold Hostfs.xfsCreat
  refine .bind ((guestName_ends h.unterminated name s).mono ?_)
  rintro fname t ⟨hfname, rfl⟩
  refine .bind ((h.ask opens (hask fname hfname)).mono fun opened u hu => ?_)
  exact .ite (fun _ => h.child (.inl rfl) hu fname) fun _ => .pure (h.none hu)

theorem xfsReaddir (rest : List Dirent) (flags len : BitVec 16)
    (hask : ∀ entry, nextEntry (s.file p) rest = some entry → flags ≠ 0 ∨ A entry.name) :
    Ends E (xfsReaddir drv host rest flags len addr p) s Q := by
  unfold Hostfs.xfsReaddir
  refine .bind ((load_ends h.live).mono ?_)
  rintro f t ⟨rfl, rfl⟩
  have hnone := h.none h.start
  split
  · exact .pure hnone
  · next entry hentry =>
    refine .ite (fun hflags => .ite (fun _ => .pure hnone) fun _ => ?_) fun _ =>
      .ite (fun _ => .pure hnone) fun _ => h.child (.inl rfl) h.start _
    have hA := (hask entry hentry).resolve_left (not_not.mpr hflags)
    exact .bind ((h.asked host hA).mono fun _ u hu => h.child (.inl rfl) hu.1 _)

theorem xfsDupcookie (strdup : Bool) : Ends E (xfsDupcookie drv strdup addr p) s Q := by
  unfold Hostfs.xfsDupcookie
  refine .bind ((load_ends h.live).mono ?_)
  rintro f t ⟨rfl, rfl⟩
  split
  · exact .modify_bind (.pure h.root)
  · next q hparent => exact .ite (fun _ => h.child (.inr hparent) h.start _) fun _ => .pure (h.none h.start)

theorem xfsMkdir (name : Nat → BitVec 8) (hask : ∀ fname, hostName name = some fname → A fname) :
    Ends E (xfsMkdir drv host p name) s Q := by
  unfold Hostfs.xfsMkdir
  refine .bind ((guestName_ends h.unterminated name s).mono ?_)
  rintro fname t ⟨hfname, rfl⟩
  exact .bind ((h.ask _ (hask fname hfname)).mono fun _ u hu => .pure (h.none hu))

end Serves

theorem Consistent.serves (h : Consistent s held) (hroom : (Guest.mk s held).HasRoom) (haddr : addr ∉ s.live)
    (hp : p ∈ s.live) : Serves Fault.NoRoom drv s p addr (fun _ => True) (Same s) (Takes held) := by
  have hlive : ∀ {q}, q = p ∨ (s.file p).parent = some q → q ∈ s.live := fun hq =>
    hq.elim (fun heq => heq ▸ hp) (h.parent_live hp)
  refine ⟨hp, .inr rfl, fun host name _ => (pathname_ends h hp name).mono fun _ _ ht => ⟨ht, ht.1, ht.2⟩, .refl s,
    h.same, fun hq => again_ends h (hlive hq) (hroom _ (hlive hq)).1, fun {q t} hq hs name => ?_,
    h.grown (grown_root haddr rfl rfl rfl) haddr⟩
  refine newChild_ends (h.same hs) (hs.1 ▸ haddr) (hs.1 ▸ hlive hq) ?_ name
  rw [hs.children]
  exact (hroom q (hlive hq)).2

theorem exec_ends (h : Consistent g.state g.held) (hroom : g.HasRoom) (hvalid : op.Valid g) :
    Ends Fault.NoRoom (exec drv g.held op) g.state fun held t => Consistent t held := by
  have hp := h.held_live op.cookie hvalid.1
  have htake : ∀ {call : HostM Cookie}, Ends Fault.NoRoom call g.state (Takes g.held) →
      Ends Fault.NoRoom (do return (← call).toList ++ g.held) g.state fun held t => Consistent t held :=
    fun hcall => .bind (hcall.mono fun _ _ ht => .pure ht)
  have hserves := (h.serves hroom hvalid.2 hp : Serves _ drv _ _ _ _ _ _)
  unfold exec
  cases op.call with
  | lookup host lstat name => exact htake (hserves.xfsLookup lstat name fun _ _ => .inr (.inr (.inr trivial)))
  | creat host opens name => exact htake (hserves.xfsCreat opens name fun _ _ => trivial)
  | readdir host rest flags len => exact htake (hserves.xfsReaddir rest flags len fun _ _ => .inr trivial)
  | dupcookie strdup => exact htake (hserves.xfsDupcookie strdup)
  | mkdir host name => exact htake (hserves.xfsMkdir name fun _ _ => trivial)
  | rmdir host name => exact htake (hserves.xfsMkdir name fun _ _ => trivial)
  | release => obtain ⟨t, heq, ht⟩ := xfsRelease_consistent h hvalid.1; exact .bind (.of_ok heq (.pure ht))

end Aranym.Hostfs
