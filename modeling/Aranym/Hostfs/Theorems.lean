import Aranym.Hostfs.Lemmas.Confined
import Aranym.Lib.Run

/-!
# The host file system

A short name leads back to its file. The nodes of the cookies are kept as long as they are in use.
-/

namespace Aranym.Hostfs

open Aranym.Lib List

/-! ## Short names -/

/-- The host has these entries at the path and no others. (A listed link whose file is missing has no status.) -/
structure Host.Lists (host : Host) (pathName : Path) (entries : List Dirent) : Prop where
  opendir : host.opendir pathName = some entries
  stat : ∀ name, name ≠ [] → slash ∉ name → host.stat (pathName ++ name) = true → ∃ entry ∈ entries, entry.name = name

variable {host : Host} {pathName : Path} {entries : List Dirent} {entry : Dirent} {halfSensitive : Bool}
  {source A E : Name}

theorem transformFileName_of_isHostFile (h₁ : entry.name ≠ [dot]) (h₂ : entry.name ≠ [dot, dot]) {other}
    (h : isHostFile halfSensitive (transformFileName entry.name) other = true) :
    transformFileName other.name = transformFileName entry.name := by
  obtain ⟨A, E, hparts, heq⟩ := transformFileName_eq entry.ne_nil entry.no_nul h₁ h₂
  rw [isHostFile, Bool.or_eq_true, Bool.and_eq_true, beq_iff_eq, strcasecmp, beq_iff_eq] at h
  rcases h with ⟨-, hcase⟩ | h
  · rw [heq] at hcase ⊢
    refine transformFileName_upper hparts entry.no_nul ?_
    calc other.name.map toupper = (other.name.map tolower).map toupper := by
          rw [map_map]; exact map_congr_left fun c _ => (toupper_tolower c).symm
      _ = ((short A E).map tolower).map toupper := by rw [hcase]
      _ = (short A E).map toupper := by
          rw [map_map]; exact map_congr_left fun c _ => toupper_tolower c
      _ = short A E := map_toupper_short A E
  · exact h

def isTosChar (c : BitVec 8) : Prop := c ≠ blank ∧ c ≠ dot ∧ ¬ (0x61 ≤ c ∧ c ≤ 0x7a)

theorem isTosChar_tidy (c : BitVec 8) : isTosChar (tidy c) := by
  unfold isTosChar
  revert c
  decide

theorem length_short_le (hA : A.length ≤ 8) (hE : E.length ≤ 3) : (short A E).length ≤ 12 := by
  unfold short
  split
  · rw [length_map]; omega
  · rw [length_append, length_cons, length_map, length_map]; omega

/-- Every host name gets a name of up to eight characters, with an extension of up to three of them or none, and
this name is its own short name. -/
theorem transformFileName_valid (hne : source ≠ []) (h0 : 0 ∉ source) (h₁ : source ≠ [dot])
    (h₂ : source ≠ [dot, dot]) :
    (∃ name ext : Name, 1 ≤ name.length ∧ name.length ≤ 8 ∧ ext.length ≤ 3 ∧ (∀ c ∈ name ++ ext, isTosChar c) ∧
      transformFileName source = if ext = [] then name else name ++ dot :: ext) ∧
    (transformFileName source).length ≤ 12 ∧
    transformFileName (transformFileName source) = transformFileName source := by
  obtain ⟨A, E, hparts, heq⟩ := transformFileName_eq hne h0 h₁ h₂
  refine ⟨⟨A.map tidy, E.map tidy, ?_, ?_, ?_, ?_, ?_⟩, ?_, ?_⟩
  · rw [length_map]; exact length_pos_of_ne_nil hparts.name_ne_nil
  · rw [length_map]; exact hparts.name_le
  · rw [length_map]; exact hparts.ext_le
  · intro c hc; rw [← map_append] at hc; obtain ⟨d, -, rfl⟩ := mem_map.mp hc; exact isTosChar_tidy d
  · rw [heq, short]; simp only [map_eq_nil_iff]
  · rw [heq]; exact length_short_le hparts.name_le hparts.ext_le
  · rw [heq]; exact transformFileName_upper hparts h0 (map_toupper_short A E)

theorem transformFileName_valid_config :
    transformFileName (transformFileName [dot, 0x63, 0x6f, 0x6e, 0x66, 0x69, 0x67, dot, 0x6f, 0x6c, 0x64]) =
      [underscore, 0x43, 0x4f, 0x4e, 0x46, 0x49, 0x47, dot, 0x4f, 0x4c, 0x44] :=
  (transformFileName_valid (by decide) (by decide) (by decide) (by decide)).2.2.trans (by decide)

/-- A file is found by its short name if no two entries have the same short name. -/
theorem getHostFileName_short (hlists : host.Lists pathName entries)
    (hmask : ∀ e ∈ entries, star ∉ e.name ∧ question ∉ e.name)
    (hdistinct : (entries.map fun e => transformFileName e.name).Nodup)
    (hmem : entry ∈ entries) (h₁ : entry.name ≠ [dot]) (h₂ : entry.name ≠ [dot, dot]) :
    (getHostFileName halfSensitive host pathName (transformFileName entry.name)).1 = entry.name := by
  obtain ⟨A, E, hparts, heq⟩ := transformFileName_eq entry.ne_nil entry.no_nul h₁ h₂
  have hinj : ∀ other ∈ entries, transformFileName other.name = transformFileName entry.name → other = entry :=
    fun other hother hsame => inj_on_of_nodup_map hdistinct hother hmem hsame
  have hstar : star ∉ transformFileName entry.name :=
    heq ▸ hparts.notMem_short (by decide) (by decide) (by decide) (hmask entry hmem).1
  have hquestion : question ∉ transformFileName entry.name :=
    heq ▸ hparts.notMem_short (by decide) (by decide) (by decide) (hmask entry hmem).2
  have hslash : slash ∉ transformFileName entry.name :=
    heq ▸ hparts.notMem_short (by decide) (by decide) (by decide) entry.no_slash
  rw [getHostFileName, if_neg (not_or.mpr ⟨hstar, hquestion⟩)]
  split
  · next hstat =>
    -- the short name is itself an entry, which has itself as short name
    obtain ⟨other, hother, hname⟩ := hlists.stat _ (heq ▸ short_ne_nil hparts.name_ne_nil) hslash hstat
    have hsame : transformFileName other.name = transformFileName entry.name := by
      rw [hname, heq]; exact transformFileName_upper hparts entry.no_nul (map_toupper_short A E)
    rw [← hname, hinj other hother hsame]
  · have hmatch : isHostFile halfSensitive (transformFileName entry.name) entry = true := by
      rw [isHostFile, beq_self_eq_true, Bool.or_true]
    simp only [hlists.opendir]
    cases hfind : entries.find? (isHostFile halfSensitive (transformFileName entry.name)) with
    | none => exact absurd hmatch (by simpa using List.find?_eq_none.mp hfind entry hmem)
    | some other =>
      have hother := List.find?_some hfind
      have hsame := transformFileName_of_isHostFile h₁ h₂ hother
      exact congrArg Dirent.name (hinj other (List.mem_of_find?_eq_some hfind) hsame)

def aText : Dirent := ⟨[0x61, dot, 0x74, 0x65, 0x78, 0x74], by decide, by decide, by decide⟩

def bText : Dirent := ⟨[0x62, dot, 0x74, 0x65, 0x78, 0x74], by decide, by decide, by decide⟩

def hostWith (entries : List Dirent) : Host :=
  ⟨fun path => entries.any fun e => path = slash :: e.name, fun _ => some entries⟩

theorem hostWith_lists (entries : List Dirent) : (hostWith entries).Lists [slash] entries := by
  refine ⟨rfl, fun name _ _ hstat => ?_⟩
  obtain ⟨e, he, heq⟩ := any_eq_true.mp hstat
  exact ⟨e, he, (tail_eq_of_cons_eq (of_decide_eq_true heq)).symm⟩

theorem getHostFileName_aText :
    (getHostFileName true (hostWith [bText, aText]) [slash] (transformFileName aText.name)).1 = aText.name :=
  getHostFileName_short (hostWith_lists [bText, aText]) (by decide) (by decide) (by simp) (by decide) (by decide)

/-! ## Cookies -/

variable {drv : ExtDrive} {g : Guest} {ops : List Op} {addr : Nat}

abbrev Next (drv : ExtDrive) (g : Guest) (op : Op) (g' : Guest) : Prop := step drv g op = .ok g'

/-- The guest follows the rules, and no counter is at its greatest value. -/
def Op.Counted (g : Guest) (op : Op) : Prop := op.Valid g ∧ g.HasRoom

/-- The counters are those of the cookies that the guest holds and of the nodes that are kept, and each node that is kept is
in use and has a path. -/
structure Accounted (drv : ExtDrive) (g : Guest) : Prop where
  refCount : ∀ p ∈ g.state.live, (g.state.file p).refCount.toNat = g.held.count p
  childCount : ∀ p ∈ g.state.live, (g.state.file p).childCount.toNat = g.state.children p
  live_iff : ∀ p, p ∈ g.state.live ↔ g.held.count p ≠ 0 ∨ g.state.children p ≠ 0
  parent_live : ∀ p ∈ g.state.live, ∀ q, (g.state.file p).parent = some q → q ∈ g.state.live
  pathname : ∀ p ∈ g.state.live, ∀ host name,
    Ends Fault.NoRoom (cookie2Pathname drv host g.state.live.card (some p) name) g.state fun path _ => path.isSome

theorem Consistent.accounted (h : Consistent g.state g.held) : Accounted drv g := by
  refine ⟨h.refs, h.childs, fun p => h.live_iff, fun p hp q => h.parent_live hp, fun p hp host name => ?_⟩
  obtain ⟨l, hl⟩ := h.chained p hp
  exact (cookie2Pathname_ends hl hl.length_le name).mono fun _ _ ht => ht.1

theorem consistent_xfsRoot (drv : ExtDrive) (addr : Nat) :
    Consistent (xfsRoot drv addr).state (xfsRoot drv addr).held := by
  have hchildren : (xfsRoot drv addr).state.children = 0 := by funext p; simp [State.children, xfsRoot]
  refine ⟨⟨fun p hp => ?_, fun p hp => ?_, fun p hp => ?_, fun p hp => ?_⟩, fun p hp => ?_⟩
  · obtain rfl := Finset.mem_singleton.mp hp; simp [xfsRoot]
  · rw [hchildren]; rfl
  · obtain rfl := mem_singleton.mp hp; exact Finset.mem_singleton_self p
  · exact ⟨_, .root hp rfl⟩
  · obtain rfl := Finset.mem_singleton.mp hp; exact .inl (by simp [xfsRoot])

theorem step_consistent (h : Consistent g.state g.held) {op} (hop : op.Counted g) :
    (∀ g', step drv g op = .ok g' → Consistent g'.state g'.held) ∧ ∀ e, step drv g op = .error e → e.NoRoom := by
  have hends : Ends Fault.NoRoom (exec drv g.held op) g.state fun held t => Consistent t held :=
    exec_ends h hop.2 hop.1
  unfold step
  cases hexec : exec drv g.held op g.state with
  | ok held t => refine ⟨fun g' hg' => ?_, fun e he => by cases he⟩; cases hg'; exact hends.ok hexec
  | error e t => refine ⟨fun g' hg' => (by cases hg'), fun e' he => ?_⟩; cases he; exact hends.error hexec

theorem run_consistent (h : Consistent g.state g.held) (hops : AtEach (Next drv) (fun g op => op.Counted g) g ops) :
    (∀ g', run drv g ops = .ok g' → Consistent g'.state g'.held) ∧ ∀ e, run drv g ops = .error e → e.NoRoom := by
  induction ops generalizing g with
  | nil => refine ⟨fun g' hg' => ?_, fun e he => by cases he⟩; cases hg'; exact h
  | cons op ops ih =>
    obtain ⟨hok, herror⟩ := step_consistent h hops.1
    rw [run, foldlM_cons]
    cases hstep : step drv g op with
    | ok g₁ => exact ih (hok g₁ hstep) (hops.2 g₁ hstep)
    | error e => refine ⟨fun g' hg' => (by cases hg'), fun e' he => ?_⟩; cases he; exact herror e hstep

/-- Nodes live as long as they have cookies or nodes below them, for all runs that are counted. -/
theorem cookies_accounted (hops : AtEach (Next drv) (fun g op => op.Counted g) (xfsRoot drv addr) ops) :
    (∀ g, run drv (xfsRoot drv addr) ops = .ok g → Accounted drv g) ∧
      ∀ e, run drv (xfsRoot drv addr) ops = .error e → e.NoRoom := by
  obtain ⟨hok, herror⟩ := run_consistent (consistent_xfsRoot drv addr) hops
  exact ⟨fun g hg => (hok g hg).accounted, herror⟩

def tDrive : ExtDrive := ⟨[slash, 0x74, slash], true, by decide, by decide⟩

theorem cookies_accounted_two :
    ∃ g, run tDrive (xfsRoot tDrive 0) [⟨0, 1, .dupcookie true⟩, ⟨0, 2, .release⟩] = .ok g ∧ Accounted tDrive g := by
  have hops : AtEach (Next tDrive) (fun g op => op.Counted g) (xfsRoot tDrive 0)
      [⟨0, 1, .dupcookie true⟩, ⟨0, 2, .release⟩] := by
    refine ⟨⟨by decide, by unfold Guest.HasRoom; decide⟩, fun g' hg' => ?_⟩
    cases hg'
    exact ⟨⟨by decide, by unfold Guest.HasRoom; decide⟩, fun _ _ => trivial⟩
  exact ⟨_, rfl, (cookies_accounted hops).1 _ rfl⟩

theorem Chain.parent_mem {s : State} {p q r : Nat} {l : List Nat} (h : Chain s p l) (hq : q ∈ l)
    (hparent : (s.file q).parent = some r) : r ∈ l := by
  induction h with
  | root _ hroot => rw [mem_singleton.mp hq, hroot] at hparent; cases hparent
  | child _ hp hrest ih =>
    rcases mem_cons.mp hq with rfl | hq
    · rw [hp] at hparent; cases hparent; exact mem_cons_of_mem _ (mem_of_head? hrest.head?)
    · exact mem_cons_of_mem _ (ih hq)

/-- Below each node there is one that a cookie is on, since a chain of nodes without cookies would not end. -/
theorem Consistent.exists_cookie {s : State} {held l : List Nat} {p : Nat} (h : Consistent s held) (hp : Chain s p l) :
    ∃ q ∈ held, ∃ l', Chain s q l' ∧ p ∈ l' := by
  induction hn : s.live.card - l.length using Nat.strong_induction_on generalizing p l with
  | _ n ih =>
    rcases h.used p hp.live with hcount | hchildren
    · exact ⟨p, count_pos_iff.mp (Nat.pos_of_ne_zero hcount), l, hp, mem_of_head? hp.head?⟩
    · obtain ⟨c, hc⟩ := Finset.card_ne_zero.mp hchildren
      obtain ⟨hlive, hparent⟩ := Finset.mem_filter.mp hc
      have hchain := Chain.child hlive hparent hp
      have hle := hchain.length_le
      rw [length_cons] at hle
      obtain ⟨q, hq, l', hl', hmem⟩ := ih _ (by rw [length_cons]; omega) hchain rfl
      exact ⟨q, hq, l', hl', hl'.parent_mem hmem hparent⟩

/-- After every run that is counted, the nodes are those that the cookies are on, and those above them. -/
theorem live_iff_above_cookie (hops : AtEach (Next drv) (fun g op => op.Counted g) (xfsRoot drv addr) ops)
    (hrun : run drv (xfsRoot drv addr) ops = .ok g) (p : Nat) :
    p ∈ g.state.live ↔ ∃ q ∈ g.held, ∃ l, Chain g.state q l ∧ p ∈ l := by
  have h := (run_consistent (consistent_xfsRoot drv addr) hops).1 g hrun
  constructor
  · intro hp
    obtain ⟨l, hl⟩ := h.chained p hp
    exact h.exists_cookie hl
  · rintro ⟨q, -, l, hl, hp⟩
    exact hl.subset p hp

theorem live_after_dupcookie : ∃ g, run tDrive (xfsRoot tDrive 0) [⟨0, 1, .dupcookie true⟩] = .ok g ∧
    ∃ q ∈ g.held, ∃ l, Chain g.state q l ∧ 1 ∈ l := by
  have hops : AtEach (Next tDrive) (fun g op => op.Counted g) (xfsRoot tDrive 0) [⟨0, 1, .dupcookie true⟩] :=
    ⟨⟨by decide, by unfold Guest.HasRoom; decide⟩, fun _ _ => trivial⟩
  exact ⟨_, rfl, (live_iff_above_cookie hops rfl 1).mp (by decide)⟩

def lookupDot : Op := ⟨0, 1, .lookup ⟨fun _ => true, fun _ => none⟩ (fun _ => true) fun i => [dot].getD i 0⟩

theorem guestName_dot (s : State) : guestName (fun i => [dot].getD i 0) s = .ok [dot] s := by
  have hcopy : (Natfeat.atari2HostUtf8Copy Natfeat.maptab (fun i => [dot].getD i 0) maxPathNameLen).dst = [dot, 0] := by
    decide +kernel
  rw [guestName, hostName, hcopy]
  rfl

/-- `n` cookies on the only node, whose counter has wrapped if they are too many. -/
structure OnRoot (n : Nat) (g : Guest) : Prop where
  held : g.held = List.replicate n 0
  live : g.state.live = {0}
  refCount : (g.state.file 0).refCount = BitVec.ofNat 32 n

theorem OnRoot.lookup {n} (h : OnRoot (n + 1) g) (drv : ExtDrive) :
    lookupDot.Valid g ∧ ∃ g', step drv g lookupDot = .ok g' ∧ OnRoot (n + 2) g' := by
  have hlive : 0 ∈ g.state.live := h.live ▸ Finset.mem_singleton_self 0
  obtain ⟨f, hf⟩ : ∃ f : XfsFsFile, f = { g.state.file 0 with refCount := (g.state.file 0).refCount + 1 } := ⟨_, rfl⟩
  have hlookup : xfsLookup drv ⟨fun _ => true, fun _ => none⟩ (fun _ => true) 1 0 (fun i => [dot].getD i 0) g.state =
      .ok (some 0) (g.state.store 0 f) := by
    rw [xfsLookup, bind_ok (guestName_dot g.state), if_pos (.inr rfl), again, bind_ok (load_apply hlive), hf]
    rfl
  have hexec : exec drv g.held lookupDot g.state = .ok (0 :: g.held) (g.state.store 0 f) := bind_ok hlookup
  refine ⟨⟨?_, ?_⟩, ⟨g.state.store 0 f, 0 :: g.held⟩, by rw [step, hexec], ?_, h.live, ?_⟩
  · rw [h.held]; exact mem_replicate.mpr ⟨Nat.succ_ne_zero n, rfl⟩
  · rw [h.live]; decide
  · exact congrArg (0 :: ·) h.held
  · rw [file_store_self, hf, h.refCount]; exact (BitVec.ofNat_add (n + 1) 1).symm

theorem OnRoot.run {n} (h : OnRoot (n + 1) g) (drv : ExtDrive) (k : Nat) :
    AtEach (Next drv) (fun g op => op.Valid g) g (List.replicate k lookupDot) ∧
      ∃ g', Hostfs.run drv g (List.replicate k lookupDot) = .ok g' ∧ OnRoot (n + k + 1) g' := by
  induction k generalizing n g with
  | zero => exact ⟨trivial, g, rfl, h⟩
  | succ k ih =>
    obtain ⟨hvalid, g₁, hstep, h₁⟩ := h.lookup drv
    obtain ⟨hrest, g', hrun, h'⟩ := ih h₁
    refine ⟨⟨hvalid, fun g₂ hg₂ => ?_⟩, g', ?_, ?_⟩
    · rw [Next, hstep] at hg₂; cases hg₂; exact hrest
    · rw [replicate_succ, Hostfs.run, foldlM_cons, hstep]; exact hrun
    · rwa [show n + (k + 1) + 1 = n + 1 + k + 1 by omega]

/-- With 2 ^ 32 cookies on a node its counter is zero. -/
theorem refCount_wraps : ∃ ops g, AtEach (Next tDrive) (fun g op => op.Valid g) (xfsRoot tDrive 0) ops ∧
    run tDrive (xfsRoot tDrive 0) ops = .ok g ∧ ¬ Accounted tDrive g := by
  have hroot : OnRoot (0 + 1) (xfsRoot tDrive 0) := ⟨rfl, rfl, rfl⟩
  obtain ⟨hvalid, g, hrun, hg⟩ := hroot.run tDrive (2 ^ 32 - 1)
  refine ⟨_, g, hvalid, hrun, fun h => ?_⟩
  have hcount := h.refCount 0 (hg.live ▸ Finset.mem_singleton_self 0)
  rw [hg.refCount, hg.held, count_replicate_self, BitVec.toNat_ofNat] at hcount
  norm_num at hcount

/-! ## Paths -/

def Op.Adds (op : Op) : Prop :=
  match op.call with
  | .release => False
  | _ => True

/-- The names up to the root and the name of the call lead nowhere above the root. -/
def Op.Stays (drv : ExtDrive) (g : Guest) (op : Op) : Prop :=
  match op.call with
  | .lookup _ _ name => ∀ fname, hostName name = some fname →
      fname = [] ∨ fname = here ∨ fname = up ∨ StaysAt drv g.state op.cookie fname
  | .creat _ _ name | .mkdir _ name | .rmdir _ name => ∀ fname, hostName name = some fname →
      StaysAt drv g.state op.cookie fname
  | .readdir _ rest flags _ => ∀ entry, nextEntry (g.state.file op.cookie) rest = some entry →
      flags ≠ 0 ∨ StaysAt drv g.state op.cookie entry.name
  | .dupcookie _ | .release => True

theorem exec_rooted (h : Rooted drv g) {op} (hvalid : op.Valid g) (hadds : op.Adds) (hstays : op.Stays drv g) :
    Ends (fun _ => True) (exec drv g.held op) g.state fun held t => Rooted drv ⟨t, held⟩ := by
  have hserves := h.serves hvalid.2 (h.held_live op.cookie hvalid.1)
  have htake : ∀ {call : HostM Cookie}, Ends (fun _ => True) call g.state (TakesRooted drv g.held) →
      Ends (fun _ => True) (do return (← call).toList ++ g.held) g.state fun held t => Rooted drv ⟨t, held⟩ :=
    fun hcall => .bind (hcall.mono fun _ _ ht => .pure ht)
  unfold exec
  rw [Op.Stays] at hstays
  rw [Op.Adds] at hadds
  cases hcall : op.call with
  | lookup host lstat name =>
    rw [hcall] at hstays; exact htake (hserves.xfsLookup lstat name hstays)
  | creat host opens name =>
    rw [hcall] at hstays; exact htake (hserves.xfsCreat opens name hstays)
  | readdir host rest flags len =>
    rw [hcall] at hstays; exact htake (hserves.xfsReaddir rest flags len hstays)
  | dupcookie strdup => exact htake (hserves.xfsDupcookie strdup)
  | mkdir host name => rw [hcall] at hstays; exact htake (hserves.xfsMkdir name hstays)
  | rmdir host name => rw [hcall] at hstays; exact htake (hserves.xfsMkdir name hstays)
  | release => rw [hcall] at hadds; exact hadds.elim

theorem rooted_xfsRoot (drv : ExtDrive) (addr : Nat) : Rooted drv (xfsRoot drv addr) := by
  refine ⟨fun p hp => ⟨[], .root hp rfl rfl⟩, fun p hp => ?_, fun _ h => absurd h not_mem_nil⟩
  obtain rfl := mem_singleton.mp hp
  exact Finset.mem_singleton_self p

/-- A call that adds nodes and does not lead above the root. -/
def Op.Inside (drv : ExtDrive) (g : Guest) (op : Op) : Prop := op.Valid g ∧ op.Adds ∧ op.Stays drv g

theorem run_rooted (h : Rooted drv g) (hops : AtEach (Next drv) (fun g op => op.Inside drv g) g ops) {g'}
    (hrun : run drv g ops = .ok g') : Rooted drv g' := by
  induction ops generalizing g with
  | nil => cases hrun; exact h
  | cons op ops ih =>
    obtain ⟨⟨hvalid, hadds, hstays⟩, hrest⟩ := hops
    have hends := exec_rooted h hvalid hadds hstays
    rw [run, foldlM_cons] at hrun
    cases hstep : step drv g op with
    | error e => rw [hstep] at hrun; cases hrun
    | ok g₁ =>
      rw [hstep] at hrun
      refine ih ?_ (hrest g₁ hstep) hrun
      rw [step] at hstep
      cases hexec : exec drv g.held op g.state with
      | error e t => rw [hexec] at hstep; cases hstep
      | ok held t => rw [hexec] at hstep; cases hstep; exact hends.ok hexec

/-- All paths handed to the host are the root of the drive or lie below it, for all runs that do not lead above it. -/
theorem paths_confined (hops : AtEach (Next drv) (fun g op => op.Inside drv g) (xfsRoot drv addr) ops)
    (hrun : run drv (xfsRoot drv addr) ops = .ok g) :
    ∀ path ∈ g.state.paths, Below slash here up drv.hostRoot path :=
  (run_rooted (rooted_xfsRoot drv addr) hops hrun).below

def inGuest (name : Name) (i : Nat) : BitVec 8 := name.getD i 0

def anyHost : Host := ⟨fun _ => true, fun _ => none⟩

theorem paths_confined_mkdir :
    ∃ g, run tDrive (xfsRoot tDrive 0) [⟨0, 1, .mkdir anyHost (inGuest [0x61])⟩] = .ok g ∧
      ∀ path ∈ g.state.paths, Below slash here up tDrive.hostRoot path := by
  have hname : hostName (inGuest [0x61]) = some [0x61] := by decide +kernel
  have hops : AtEach (Next tDrive) (fun g op => op.Inside tDrive g) (xfsRoot tDrive 0)
      [⟨0, 1, .mkdir anyHost (inGuest [0x61])⟩] := by
    refine ⟨⟨by decide, trivial, fun fname hfname ns hns => ?_⟩, fun _ _ => trivial⟩
    rw [hname] at hfname
    cases hfname
    cases hns with
    | root _ _ _ => exact ⟨0, 1, rfl, rfl⟩
    | child _ hparent _ => cases hparent
  have hrun : (run tDrive (xfsRoot tDrive 0) [⟨0, 1, .mkdir anyHost (inGuest [0x61])⟩]).toOption.isSome := by
    decide +kernel
  cases heq : run tDrive (xfsRoot tDrive 0) [⟨0, 1, .mkdir anyHost (inGuest [0x61])⟩] with
  | ok g => exact ⟨g, rfl, paths_confined hops heq⟩
  | error e => rw [heq] at hrun; cases hrun

instance decidableNext (drv : ExtDrive) (p : Guest → Op → Prop) [∀ g op, Decidable (p g op)] (g : Guest)
    (ops : List Op) : Decidable (AtEach (Next drv) p g ops) :=
  decidableAtEach (fun g op => (step drv g op).toOption) (fun g op g' => by
    rw [Next]
    cases step drv g op <;> simp [Except.toOption]) p g ops

def handed (drv : ExtDrive) (ops : List Op) : List Path :=
  match run drv (xfsRoot drv 0) ops with
  | .ok g => g.state.paths
  | .error _ => []

def Escapes (drv : ExtDrive) (ops : List Op) : Prop :=
  AtEach (Next drv) (fun g op => op.Valid g) (xfsRoot drv 0) ops ∧
    ∃ path ∈ handed drv ops, ¬ Below slash here up drv.hostRoot path

theorem escapes_of (path : Path) (hvalid : AtEach (Next drv) (fun g op => op.Valid g) (xfsRoot drv 0) ops)
    (hmem : path ∈ handed drv ops)
    (h : ¬ resolve slash here up drv.hostRoot <:+ resolve slash here up path) : Escapes drv ops :=
  ⟨hvalid, path, hmem, fun hbelow => h hbelow.suffix⟩

def dotdotEntry : Dirent := ⟨up, by decide, by decide, by decide⟩

/-- The name `..`, a name with it as a part, a name followed by another that is `..` but for a backslash, and the
entry `..` of a folder that is itself such an entry. -/
theorem paths_escape : Escapes tDrive [⟨0, 1, .mkdir anyHost (inGuest up)⟩] ∧
    Escapes tDrive [⟨0, 1, .lookup anyHost (fun _ => true) (inGuest (up ++ slash :: [0x78]))⟩] ∧
    Escapes tDrive [⟨0, 1, .lookup anyHost (fun _ => true) (inGuest (up ++ [backslash]))⟩,
      ⟨1, 2, .lookup anyHost (fun _ => true) (inGuest [0x78])⟩] ∧
    Escapes tDrive [⟨0, 1, .lookup anyHost (fun _ => true) (inGuest [0x61])⟩,
      ⟨1, 2, .readdir anyHost [dotdotEntry] 0 64⟩, ⟨2, 3, .readdir anyHost [dotdotEntry] 0 64⟩] := by
  refine ⟨?_, ?_, ?_, ?_⟩
  · exact escapes_of ([slash, 0x74, slash] ++ up) (by decide +kernel) (by decide +kernel) (by decide)
  · exact escapes_of ([slash, 0x74, slash] ++ up ++ [slash, 0x78]) (by decide +kernel) (by decide +kernel)
      (by decide)
  · exact escapes_of ([slash, 0x74, slash] ++ up ++ [slash, 0x78]) (by decide +kernel) (by decide +kernel)
      (by decide)
  · exact escapes_of ([slash, 0x74, slash, 0x61, slash] ++ up ++ slash :: up) (by decide +kernel)
      (by decide +kernel) (by decide)

end Aranym.Hostfs
