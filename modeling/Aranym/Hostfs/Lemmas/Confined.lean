import Aranym.Hostfs.Lemmas.HostNames
import Aranym.Hostfs.Lemmas.Lifetime

/-!
# Paths below the root of a drive

The names up to the root tell where a path leads: as long as no part of them leads above the root, and no name that
is followed by another ends in a backslash, all paths handed to the host lie below the root.
-/

namespace Aranym.Hostfs

open Aranym.Lib List

variable {drv : ExtDrive} {host : Host} {s t u : State} {p q addr d d' : Nat} {n name : Name} {ns : List Name}
  {path : Path}

/-! ## Names up to the root -/

inductive Named (drv : ExtDrive) (s : State) : Nat → List Name → Prop
  | root {p : Nat} : p ∈ s.live → (s.file p).parent = none → (s.file p).name = drv.hostRoot → Named drv s p []
  | child {p q : Nat} {ns : List Name} :
      p ∈ s.live → (s.file p).parent = some q → Named drv s q ns → Named drv s p (ns ++ [(s.file p).name])

def descendsInner (d : Nat) (n : Name) : Option Nat :=
  if n.getLast? = some backslash then none else descends d n

def inner (ns : List Name) : Option Nat := ns.foldlM descendsInner 0

def Stays (ns : List Name) (name : Name) : Prop := ∃ d d', inner ns = some d ∧ descends d name = some d'

theorem inner_concat (h : inner (ns ++ [n]) = some d') :
    ∃ d, inner ns = some d ∧ n.getLast? ≠ some backslash ∧ descends d n = some d' := by
  rw [inner, foldlM_append] at h
  obtain ⟨d, hd, hn⟩ := Option.bind_eq_some_iff.mp h
  refine ⟨d, hd, ?_⟩
  rw [foldlM_cons] at hn
  obtain ⟨d₁, h₁, h₂⟩ := Option.bind_eq_some_iff.mp hn
  cases h₂
  unfold descendsInner at h₁
  split at h₁
  · cases h₁
  · next hlast => exact ⟨hlast, h₁⟩

/-! ## Calls of the host -/

def Calls (drv : ExtDrive) (s t : State) : Prop :=
  Same s t ∧ ∃ paths, t.paths = s.paths ++ paths ∧ ∀ path ∈ paths, Below slash here up drv.hostRoot path

theorem Calls.refl (drv : ExtDrive) (s : State) : Calls drv s s :=
  ⟨.refl s, [], (append_nil _).symm, fun _ h => absurd h not_mem_nil⟩

theorem Calls.trans (h : Calls drv s t) (h' : Calls drv t u) : Calls drv s u := by
  obtain ⟨hs, ps, hps, hall⟩ := h
  obtain ⟨hs', qs, hqs, hall'⟩ := h'
  refine ⟨hs.trans hs', ps ++ qs, by rw [hqs, hps, append_assoc], fun path hmem => ?_⟩
  exact (mem_append.mp hmem).elim (hall path) (hall' path)

/-! ## Paths -/

theorem separated_append (dir : Path) {g} (hg : g ≠ []) :
    separated (dir ++ g) = dir ++ stripSeparator g ++ [slash] := by
  have hlast : (dir ++ g).getLast? = g.getLast? := List.getLast?_append_of_ne_nil dir hg
  rw [separated, if_neg (append_ne_nil_of_right_ne_nil dir hg), stripSeparator, stripSeparator, hlast]
  split
  · rw [dropLast_append_of_ne_nil hg]
  · rfl

theorem separated_eq (h : path ≠ []) : ∃ x, separated path = x ++ [slash] := ⟨stripSeparator path, if_neg h⟩

structure At (drv : ExtDrive) (d : Nat) (ok : Prop) (path : Path) : Prop where
  ne_nil : path ≠ []
  level : LevelAt drv.hostRoot path d
  dir : ok → LevelAt drv.hostRoot (separated path) d

theorem at_root (drv : ExtDrive) : At drv 0 True drv.hostRoot := by
  refine ⟨drv.ne_nil, level_root _, fun _ => ?_⟩
  have hback : drv.hostRoot.getLast? ≠ some backslash := fun hlast =>
    drv.no_backslash (List.mem_of_getLast? hlast)
  rw [separated, if_neg drv.ne_nil, stripSeparator]
  split
  · next hlast =>
    obtain ⟨x, hx⟩ := List.getLast?_eq_some_iff.mp (hlast.resolve_left hback)
    rw [hx, dropLast_concat]; exact level_root _
  · exact (level_root _).separator drv.ne_nil

theorem append_at (h : At drv d True path) (hn : n ≠ []) (hd : descends d n = some d') (s : State) :
    Ends (fun _ => True) (append drv host path n) s fun r t =>
      At drv d' (n.getLast? ≠ some backslash) r ∧ Calls drv s t := by
  obtain ⟨x, hx⟩ := separated_eq h.ne_nil
  have hdir : LevelAt drv.hostRoot (x ++ [slash]) d := hx ▸ h.dir trivial
  have hleads := getHostFileName_leads drv.halfSensitive host (x ++ [slash]) hn
  have happend : ∀ m d', descends d m = some d' → LevelAt drv.hostRoot (x ++ [slash] ++ m) d' := fun m d' hm => by
    rw [append_assoc]; exact hdir.append hm
  unfold append
  rw [hx]
  refine .bind ((copyPath_ends trivial _ s).mono ?_)
  rintro _ _ ⟨rfl, rfl⟩
  refine .bind ((copyPath_ends trivial _ _).mono ?_)
  rintro _ _ ⟨rfl, rfl⟩
  refine .modify_bind ((copyPath_ends trivial _ _).mono ?_)
  rintro _ _ ⟨rfl, rfl⟩
  refine ⟨⟨append_ne_nil_of_right_ne_nil _ hleads.ne_nil, happend _ _ ((hleads.descends d).trans hd), ?_⟩,
    ⟨rfl, rfl⟩, _, rfl, ?_⟩
  · intro hlast
    rw [separated_append _ hleads.ne_nil]
    refine (happend _ _ ((hleads.strip hlast d).trans hd)).separator ?_
    simp
  · intro path hmem
    rcases getHostFileName_paths _ _ _ _ path hmem with rfl | rfl
    · exact (happend n d' hd).below
    · exact hdir.below

def Leads (drv : ExtDrive) (s : State) (d : Nat) (ok : Prop) (r : Option Path) (t : State) : Prop :=
  ∃ path, r = some path ∧ At drv d ok path ∧ Calls drv s t

theorem appendName_at (h : At drv d True path) (hd : descends d n = some d') (s : State) :
    Ends (fun _ => True) (appendName drv host (some n) (some path)) s
      (Leads drv s d' (n.getLast? ≠ some backslash)) := by
  cases n with
  | nil => cases hd; exact ⟨path, rfl, ⟨h.ne_nil, h.level, fun _ => h.dir trivial⟩, .refl drv s⟩
  | cons c n =>
    rw [appendName]
    refine .bind ((append_at h (cons_ne_nil c n) hd s).mono fun r t ht => ?_)
    exact .pure ⟨r, rfl, ht⟩

theorem cookie2Pathname_at (hp : Named drv s p ns) (hin : inner ns = some d) (hd : descends d n = some d')
    (fuel : Nat) : Ends (fun _ => True) (cookie2Pathname drv host fuel (some p) (some n)) s
      (Leads drv s d' (n.getLast? ≠ some backslash)) := by
  induction hp generalizing d d' n fuel with
  | root hlive hroot hname =>
    cases hin
    cases fuel with
    | zero => exact trivial
    | succ fuel =>
      rw [cookie2Pathname]
      refine .bind ((load_ends hlive).mono ?_)
      rintro f t ⟨rfl, rfl⟩
      rw [hroot, hname, cookie2Pathname]
      refine .bind (.bind ((copyPath_ends trivial _ t).mono ?_))
      rintro path u ⟨rfl, rfl⟩; exact appendName_at (at_root drv) hd u
  | child hlive hparent _ ih =>
    obtain ⟨d₀, hin₀, hlast, hname⟩ := inner_concat hin
    cases fuel with
    | zero => exact trivial
    | succ fuel =>
      rw [cookie2Pathname]
      refine .bind ((load_ends hlive).mono ?_)
      rintro f t ⟨rfl, rfl⟩
      rw [hparent]
      refine .bind ((ih hin₀ hname fuel).mono ?_)
      rintro _ u ⟨path, rfl, hat, hcalls⟩
      refine (appendName_at ⟨hat.ne_nil, hat.level, fun _ => hat.dir hlast⟩ hd u).mono ?_
      rintro _ v ⟨path', rfl, hat', hcalls'⟩; exact ⟨path', rfl, hat', hcalls.trans hcalls'⟩

theorem pathname_at (hp : Named drv s p ns) (h : Stays ns n) :
    Ends (fun _ => True) (pathname drv host p n) s fun r t =>
      Below slash here up drv.hostRoot r ∧ Calls drv s t := by
  obtain ⟨d, d', hin, hd⟩ := h
  unfold pathname
  refine .get_bind (.bind ((cookie2Pathname_at hp hin hd _).mono ?_))
  rintro _ t ⟨path, rfl, hat, hcalls⟩
  exact .pure ⟨hat.level.below, hcalls⟩

/-! ## Calls that add nodes -/

structure Rooted (drv : ExtDrive) (g : Guest) : Prop where
  named : ∀ p ∈ g.state.live, ∃ ns, Named drv g.state p ns
  held_live : ∀ p ∈ g.held, p ∈ g.state.live
  below : ∀ path ∈ g.state.paths, Below slash here up drv.hostRoot path

variable {held : List Nat}

theorem Named.congr (h : Named drv s p ns) (hlive : ∀ q ∈ s.live, q ∈ t.live)
    (hparent : ∀ q ∈ s.live, (t.file q).parent = (s.file q).parent)
    (hname : ∀ q ∈ s.live, (t.file q).name = (s.file q).name) : Named drv t p ns := by
  induction h with
  | root hp hroot hn => exact .root (hlive _ hp) ((hparent _ hp).trans hroot) ((hname _ hp).trans hn)
  | child hp hq _ ih => rw [← hname _ hp]; exact .child (hlive _ hp) ((hparent _ hp).trans hq) ih

theorem Named.parent_live (h : Named drv s p ns) (hparent : (s.file p).parent = some q) : q ∈ s.live := by
  cases h with
  | root _ hroot _ => rw [hroot] at hparent; cases hparent
  | child _ hq hrest =>
    rw [hq] at hparent
    cases hparent
    cases hrest with
    | root hlive _ _ => exact hlive
    | child hlive _ _ => exact hlive

theorem Rooted.calls (h : Rooted drv ⟨s, held⟩) (hc : Calls drv s t) : Rooted drv ⟨t, held⟩ := by
  obtain ⟨⟨hlive, hfile⟩, paths, hpaths, hbelow⟩ := hc
  refine ⟨fun p hp => ?_, fun p hp => hlive ▸ h.held_live p hp, fun path hpath => ?_⟩
  · obtain ⟨ns, hns⟩ := h.named p (hlive ▸ hp)
    exact ⟨ns, hns.congr (fun q hq => hlive ▸ hq) (fun q _ => by rw [hfile]) fun q _ => by rw [hfile]⟩
  · rw [hpaths, mem_append] at hpath; exact hpath.elim (h.below path) (hbelow path)

theorem Rooted.store (h : Rooted drv ⟨s, held⟩) {f} (hparent : f.parent = (s.file p).parent)
    (hname : f.name = (s.file p).name) : Rooted drv ⟨s.store p f, held⟩ := by
  refine ⟨fun q hq => ?_, h.held_live, h.below⟩
  obtain ⟨ns, hns⟩ := h.named q hq
  refine ⟨ns, hns.congr (fun _ hr => hr) (fun r _ => parent_store hparent r) fun r _ => ?_⟩
  rcases eq_or_ne r p with rfl | hne
  · rw [file_store_self, hname]
  · rw [file_store_ne s f hne]

theorem Rooted.new (h : Rooted drv ⟨s, held⟩) (haddr : addr ∉ s.live) {f}
    (hf : (f.parent = none ∧ f.name = drv.hostRoot) ∨ ∃ q ∈ s.live, f.parent = some q) :
    Rooted drv ⟨s.new addr f, addr :: held⟩ := by
  have hold : ∀ q ∈ s.live, (s.new addr f).file q = s.file q := fun q hq => by
    rw [file_new, file_store_ne s f (ne_of_mem_of_not_mem hq haddr)]
  have hnew : (s.new addr f).file addr = f := by rw [file_new, file_store_self]
  have hsub : ∀ q ∈ s.live, q ∈ (s.new addr f).live := fun q hq => Finset.mem_insert_of_mem hq
  have hself : addr ∈ (s.new addr f).live := Finset.mem_insert_self addr s.live
  have hkept : ∀ q ∈ s.live, ∃ ns, Named drv (s.new addr f) q ns := fun q hq => by
    obtain ⟨ns, hns⟩ := h.named q hq
    exact ⟨ns, hns.congr hsub (fun r hr => by rw [hold r hr]) fun r hr => by rw [hold r hr]⟩
  refine ⟨fun q hq => ?_, ?_, h.below⟩
  · rcases Finset.mem_insert.mp hq with rfl | hq
    · rcases hf with ⟨hroot, hname⟩ | ⟨r, hr, hparent⟩
      · exact ⟨[], .root hself (by rw [hnew, hroot]) (by rw [hnew, hname])⟩
      · obtain ⟨ns, hns⟩ := hkept r hr; exact ⟨_, .child hself (by rw [hnew, hparent]) hns⟩
    · exact hkept q hq
  · exact forall_mem_cons.mpr ⟨hself, fun q hq => hsub q (h.held_live q hq)⟩

def TakesRooted (drv : ExtDrive) (held : List Nat) (cookie : Cookie) (t : State) : Prop :=
  Rooted drv ⟨t, cookie.toList ++ held⟩

theorem again_rooted (h : Rooted drv ⟨s, held⟩) (hp : p ∈ s.live) :
    Ends (fun _ => True) (again p) s (TakesRooted drv held) := by
  unfold again
  refine .bind ((load_ends hp).mono ?_)
  rintro f t ⟨rfl, rfl⟩
  have hstore := h.store (p := p) (f := { t.file p with refCount := (t.file p).refCount + 1 }) rfl rfl
  exact .modify_bind (.pure ⟨hstore.named, forall_mem_cons.mpr ⟨hp, h.held_live⟩, hstore.below⟩)

theorem newChild_rooted (h : Rooted drv ⟨s, held⟩) (haddr : addr ∉ s.live) (hp : p ∈ s.live) (name : Name) :
    Ends (fun _ => True) (newChild addr p name) s (TakesRooted drv held) := by
  unfold newChild
  refine .bind ((load_ends hp).mono ?_)
  rintro f t ⟨rfl, rfl⟩
  have hstore := h.store (p := p) (f := { t.file p with childCount := (t.file p).childCount + 1 }) rfl rfl
  exact .modify_bind (.modify_bind (.pure (hstore.new haddr (.inr ⟨p, hp, rfl⟩))))

def StaysAt (drv : ExtDrive) (s : State) (p : Nat) (name : Name) : Prop := ∀ ns, Named drv s p ns → Stays ns name

theorem Rooted.serves (h : Rooted drv ⟨s, held⟩) (haddr : addr ∉ s.live) (hp : p ∈ s.live) :
    Serves (fun _ => True) drv s p addr (StaysAt drv s p) (Calls drv s) (TakesRooted drv held) := by
  obtain ⟨ns, hns⟩ := h.named p hp
  have hlive : ∀ {q}, q = p ∨ (s.file p).parent = some q → q ∈ s.live := fun hq =>
    hq.elim (fun heq => heq ▸ hp) hns.parent_live
  refine ⟨hp, trivial, fun host name hname => (pathname_at hns (hname ns hns)).mono fun path t ht => ⟨ht.2, ?_⟩,
    .refl drv s, h.calls, fun hq => again_rooted h (hlive hq), fun hq hc name => ?_, h.new haddr (.inl ⟨rfl, rfl⟩)⟩
  · exact ht.2.trans ⟨⟨rfl, rfl⟩, [path], rfl, forall_mem_singleton.mpr ht.1⟩
  · exact newChild_rooted (h.calls hc) (hc.1.1 ▸ haddr) (hc.1.1 ▸ hlive hq) name

end Aranym.Hostfs
