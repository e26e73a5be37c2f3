import Aranym.Dsp.Lemmas.Moves

/-!
# Places that moves write

What a move stores and what it leaves alone, place by place, and the order of moves to different places.
-/

namespace Aranym.Dsp

open List Function

/-! ## Places -/

/-- A cell a move can write. -/
inductive Place where
  | reg (n : RegNum)
  | ramint (space : Space) (n : BitVec 9)
  | ram (n : BitVec 15)
  | periph (space : Space) (n : BitVec 6)
  deriving DecidableEq

/-- The cell behind a destination; a write to the ROM or to `HSR` goes nowhere. -/
def Dest.place (rom : Bool) : Dest → Option Place
  | .reg n => some (.reg n)
  | .mem space address =>
    let a := address.setWidth 16
    let n := (a - 0xffc0).setWidth 6
    if a < 0x100 then some (.ramint space (a.setWidth 9))
    else if space = .p then
      if a < 0x200 then some (.ramint .p (a.setWidth 9)) else some (.ram (Core.external .p a))
    else if rom ∧ a < 0x200 then none
    else if 0xffc0 ≤ a then if space = .x ∧ n = hostHsr then none else some (.periph space n)
    else some (.ram (Core.external space a))

def Dest.word : Dest → BitVec 32 → BitVec 32
  | .reg _, value => value
  | .mem _ _, value => value &&& bitmask 24

def Moves.all (moves : Moves) : List (Dest × BitVec 32) := moves.first ++ moves.second

theorem Dest.eq_reg_of_place {d : Dest} {rom : Bool} {n : RegNum} (h : d.place rom = some (.reg n)) : d = .reg n := by
  cases d with
  | reg k => cases h; rfl
  | mem space address => simp only [Dest.place] at h; split_ifs at h <;> cases h

theorem Dest.place_ne_hsr (d : Dest) (rom : Bool) : d.place rom ≠ some (.periph .x hostHsr) := by
  intro h
  cases d with
  | reg k => cases h
  | mem space address =>
    simp only [Dest.place] at h
    split_ifs at h with h1 h2 h3 h4 h5 h6
    · cases h
    · cases h
    · cases h
    · simp only [Option.some.injEq, Place.periph.injEq] at h; exact h6 h
    · cases h

variable {c : Core} {rom : Bool} {m : Dest × BitVec 32}

namespace Core

def content (c : Core) : Place → BitVec 32
  | .reg n => c.registers n
  | .ramint space n => c.ramint space n
  | .ram n => c.ram n
  | .periph space n => c.periph space n

/-! ## Writes -/

theorem dsp2host_hrx (c : Core) {n} (hn : n ≠ hostHsr) : c.dsp2host.periph .x n = c.periph .x n := by
  rw [dsp2host]
  split_ifs
  · rfl
  · rfl
  · exact update_of_ne hn _ _

theorem setPeriph_periph (space : Space) (n k : BitVec 6) (value : BitVec 32) (c : Core) :
    (c.setPeriph space n value).periph space k = if k = n then value else c.periph space k := by
  rw [setPeriph]
  dsimp only
  rw [update_self, update_apply]

theorem writePeriphX_periph {n k} (hn : n ≠ hostHsr) (hk : k ≠ hostHsr) (value : BitVec 32) (c : Core) :
    (c.writePeriphX n value).periph .x k = if k = n then value else c.periph .x k := by
  by_cases h1 : n = hostHrx
  · subst h1
    rw [writePeriphX, if_pos rfl, hostportDspwrite, dsp2host_hrx _ hk, clearHsr, setPeriph_periph, if_neg hk,
      setPeriph_periph]
  · by_cases h2 : n = hostHcr
    · subst h2; rw [writePeriphX, if_neg h1, if_pos rfl]; exact setPeriph_periph .x hostHcr k value c
    · rw [writePeriphX, if_neg h1, if_neg h2, if_neg hn, setPeriph_periph]

def Stored (q : Option Place) (value : BitVec 32) (c c' : Core) : Prop :=
  ∀ p, p ≠ .periph .x hostHsr → (q = some p → c'.content p = value) ∧ (q ≠ some p → c'.content p = c.content p)

theorem setReg_stored (n : RegNum) (value : BitVec 32) (c : Core) : Stored (some (.reg n)) value c (c.setReg n value) := by
  rintro p -
  refine ⟨?_, fun hne => ?_⟩
  · rintro ⟨⟩; exact update_self _ _ _
  · cases p with
    | reg k => exact update_of_ne (fun h => hne (by rw [h])) _ _
    | ramint space k => rfl
    | ram k => rfl
    | periph space k => rfl

theorem setRamint_stored (space : Space) (n : BitVec 9) (value : BitVec 32) (c : Core) :
    Stored (some (.ramint space n)) value c (c.setRamint space n value) := by
  rintro p -
  refine ⟨?_, fun hne => ?_⟩
  · rintro ⟨⟩; simp [content, setRamint]
  · cases p with
    | ramint space' k => simp only [content, setRamint, update_apply]; grind
    | reg k => rfl
    | ram k => rfl
    | periph space k => rfl

theorem setRam_stored (n : BitVec 15) (value : BitVec 32) (c : Core) :
    Stored (some (.ram n)) value c (c.setRam n value) := by
  rintro p -
  refine ⟨?_, fun hne => ?_⟩
  · rintro ⟨⟩; exact update_self _ _ _
  · cases p with
    | ram k => exact update_of_ne (fun h => hne (by rw [h])) _ _
    | reg k => rfl
    | ramint space k => rfl
    | periph space k => rfl

theorem setPeriph_stored (space : Space) (n : BitVec 6) (value : BitVec 32) (c : Core) :
    Stored (some (.periph space n)) value c (c.setPeriph space n value) := by
  rintro p -
  refine ⟨?_, fun hne => ?_⟩
  · rintro ⟨⟩; simp [content, setPeriph]
  · cases p with
    | periph space' k => simp only [content, setPeriph, update_apply]; grind
    | reg k => rfl
    | ramint space' k => rfl
    | ram k => rfl

theorem writePeriphX_stored {n} (hn : n ≠ hostHsr) (value : BitVec 32) (c : Core) :
    Stored (some (.periph .x n)) value c (c.writePeriphX n value) := by
  obtain ⟨F, hF⟩ := writePeriphX_action n value
  intro p hp
  refine ⟨?_, fun hne => ?_⟩
  · rintro ⟨⟩; exact (writePeriphX_periph hn hn value c).trans (if_pos rfl)
  · cases p with
    | periph space k =>
      cases space with
      | x => exact (writePeriphX_periph hn (fun h => hp (by rw [h])) value c).trans (if_neg fun h => hne (by rw [h]))
      | y => rw [hF c]; rfl
      | p => rw [hF c]; rfl
    | reg k => rw [hF c]; rfl
    | ramint space k => rw [hF c]; rfl
    | ram k => rw [hF c]; rfl

def store (c : Core) (value : BitVec 32) : Option Place → Core
  | none => c
  | some (.reg n) => c.setReg n value
  | some (.ramint space n) => c.setRamint space n value
  | some (.ram n) => c.setRam n value
  | some (.periph space n) => c.setPeriph space n value

theorem writeDest_cases (hrom : c.romOn = rom) (m : Dest × BitVec 32) :
    ((∀ n, m.1.place rom ≠ some (.periph .x n)) ∧ c.writeDest m = c.store (m.1.word m.2) (m.1.place rom)) ∨
      ∃ n, m.1.place rom = some (.periph .x n) ∧ c.writeDest m = c.writePeriphX n (m.1.word m.2) := by
  obtain ⟨d, value⟩ := m
  cases d with
  | reg n => exact .inl ⟨fun _ h => (by cases h), rfl⟩
  | mem space address =>
    simp only [writeDest, writeMemory, Dest.place, Dest.word, hrom]
    by_cases h1 : address.setWidth 16 < 0x100
    · rw [if_pos h1, if_pos h1]; exact .inl ⟨fun _ h => (by cases h), rfl⟩
    rw [if_neg h1, if_neg h1]
    by_cases h2 : space = .p
    · rw [if_pos h2, if_pos h2]
      split <;> exact .inl ⟨fun _ h => (by cases h), rfl⟩
    rw [if_neg h2, if_neg h2]
    by_cases h3 : rom ∧ address.setWidth 16 < 0x200
    · rw [if_pos h3, if_pos h3]; exact .inl ⟨fun _ h => (by cases h), rfl⟩
    rw [if_neg h3, if_neg h3]
    by_cases h4 : 0xffc0 ≤ address.setWidth 16
    · rw [if_pos h4, if_pos h4]
      by_cases h5 : space = .x
      · subst h5
        rw [if_pos rfl]
        by_cases h6 : (address.setWidth 16 - 0xffc0).setWidth 6 = hostHsr
        · rw [if_pos ⟨rfl, h6⟩, h6]; exact .inl ⟨fun _ h => (by cases h), rfl⟩
        · rw [if_neg fun h => h6 h.2]; exact .inr ⟨_, rfl, rfl⟩
      · obtain rfl : space = .y := by cases space <;> simp_all
        rw [if_neg h5, if_neg fun h => h5 h.1]; exact .inl ⟨fun _ h => (by cases h), rfl⟩
    · rw [if_neg h4, if_neg h4]; exact .inl ⟨fun _ h => (by cases h), rfl⟩

theorem writeDest_stored (hrom : c.romOn = rom) (m : Dest × BitVec 32) :
    Stored (m.1.place rom) (m.1.word m.2) c (c.writeDest m) := by
  rcases writeDest_cases hrom m with ⟨-, h⟩ | ⟨n, hplace, h⟩
  · rw [h]
    cases hq : m.1.place rom with
    | none => exact fun p _ => ⟨fun h => absurd h.symm (Option.some_ne_none p), fun _ => rfl⟩
    | some q =>
      cases q with
      | reg n => exact setReg_stored n _ c
      | ramint space n => exact setRamint_stored space n _ c
      | ram n => exact setRam_stored n _ c
      | periph space n => exact setPeriph_stored space n _ c
  · rw [h, hplace]; exact writePeriphX_stored (fun hn => m.1.place_ne_hsr rom (by rw [hplace, hn])) _ c

theorem writeDest_romOn (hlow : m.1.Low) : (c.writeDest m).romOn = c.romOn := by
  have hplace : m.1.place c.romOn ≠ some (.reg regOmr) := by
    intro h
    rw [Dest.eq_reg_of_place h] at hlow; cases hlow
  have homr := (writeDest_stored rfl m (.reg regOmr) (by decide)).2 hplace
  rw [content, content] at homr
  rw [romOn, romOn, homr]

theorem content_foldl_other {l : List (Dest × BitVec 32)} {p : Place} (hrom : c.romOn = rom) (hlow : ∀ m ∈ l, m.1.Low)
    (hp : p ≠ .periph .x hostHsr) (hnot : ∀ m ∈ l, m.1.place rom ≠ some p) :
    (l.foldl writeDest c).content p = c.content p := by
  induction l generalizing c with
  | nil => rfl
  | cons a l ih =>
    have hrom' : (c.writeDest a).romOn = rom := (writeDest_romOn (hlow a mem_cons_self)).trans hrom
    rw [foldl_cons, ih hrom' (fun m hm => hlow m (mem_cons_of_mem a hm))
      fun m hm => hnot m (mem_cons_of_mem a hm)]
    exact (writeDest_stored hrom a p hp).2 (hnot a mem_cons_self)

theorem content_foldl {l : List (Dest × BitVec 32)} {p : Place} (hrom : c.romOn = rom) (hlow : ∀ m ∈ l, m.1.Low)
    (hdist : l.Pairwise fun a b => ∀ p, a.1.place rom = some p → b.1.place rom ≠ some p) (hm : m ∈ l)
    (hp : m.1.place rom = some p) : (l.foldl writeDest c).content p = m.1.word m.2 := by
  induction l generalizing c with
  | nil => exact absurd hm not_mem_nil
  | cons a l ih =>
    have hrom' : (c.writeDest a).romOn = rom := (writeDest_romOn (hlow a mem_cons_self)).trans hrom
    have hlow' : ∀ m ∈ l, m.1.Low := fun m hm => hlow m (mem_cons_of_mem a hm)
    obtain ⟨hhead, htail⟩ := pairwise_cons.mp hdist
    rcases mem_cons.mp hm with rfl | hm
    · have hne : p ≠ .periph .x hostHsr := fun h => m.1.place_ne_hsr rom (by rw [hp, h])
      rw [foldl_cons, content_foldl_other hrom' hlow' hne fun b hb => hhead b hb p hp]
      exact (writeDest_stored hrom m p hne).1 hp
    · exact ih hrom' hlow' htail hm

/-! ## The order of two writes -/

variable {f : Core → Core} {p q : Place}

theorem update_update_comm {β : Type} [DecidableEq β] (F : Space → β → BitVec 32) {s t n k}
    (hne : s = t → n ≠ k) (v w : BitVec 32) :
    update (update F s (update (F s) n v)) t
        (update (update F s (update (F s) n v) t) k w) =
      update (update F t (update (F t) k w)) s
        (update (update F t (update (F t) k w) s) n v) := by
  by_cases hst : s = t
  · subst hst
    rw [update_self, update_self, update_idem, update_idem,
      update_comm (hne rfl)]
  · rw [update_of_ne (fun h => hst h.symm), update_of_ne hst, update_comm hst]

theorem store_comm (hne : p ≠ q) (v w : BitVec 32) (c : Core) :
    (c.store v (some p)).store w (some q) = (c.store w (some q)).store v (some p) := by
  cases p with
  | reg n =>
    cases q with
    | reg k => simp only [store, setReg, update_comm (fun h : n = k => hne (by rw [h]))]
    | ramint space k => rfl
    | ram k => rfl
    | periph space k => rfl
  | ramint space n =>
    cases q with
    | ramint space' k =>
      have hcomm := update_update_comm c.ramint (fun (hs : space = space') (hn : n = k) => hne (by rw [hs, hn])) v w
      simp only [store, setRamint, hcomm]
    | reg k => rfl
    | ram k => rfl
    | periph space k => rfl
  | ram n =>
    cases q with
    | ram k => simp only [store, setRam, update_comm (fun h : n = k => hne (by rw [h]))]
    | reg k => rfl
    | ramint space k => rfl
    | periph space k => rfl
  | periph space n =>
    cases q with
    | periph space' k =>
      have hcomm := update_update_comm c.periph (fun (hs : space = space') (hn : n = k) => hne (by rw [hs, hn])) v w
      simp only [store, setPeriph, hcomm]
    | reg k => rfl
    | ramint space k => rfl
    | ram k => rfl

theorem HostAction.store (h : HostAction f) (hq : ∀ n, q ≠ .periph .x n) (v : BitVec 32) (c : Core) :
    f (c.store v (some q)) = (f c).store v (some q) := by
  obtain ⟨F, hF⟩ := h
  rw [hF, hF]
  cases q with
  | reg n => rfl
  | ramint space n => rfl
  | ram n => rfl
  | periph space n =>
    have hs : Space.x ≠ space := fun h => hq n (by rw [h])
    simp only [Core.store, setPeriph, withHost, host, update_of_ne hs, update_of_ne hs.symm,
      update_comm hs]

theorem writeDest_comm {a b} (hrom : c.romOn = rom) (ha : a.1.Low) (hb : b.1.Low)
    (hne : ∀ p, a.1.place rom = some p → b.1.place rom ≠ some p) (hx : ∀ n, b.1.place rom ≠ some (.periph .x n)) :
    (c.writeDest a).writeDest b = (c.writeDest b).writeDest a := by
  have hroma : (c.writeDest a).romOn = rom := (writeDest_romOn ha).trans hrom
  have hromb : (c.writeDest b).romOn = rom := (writeDest_romOn hb).trans hrom
  have hstore : ∀ {m : Dest × BitVec 32} {c : Core}, c.romOn = rom → (∀ n, m.1.place rom ≠ some (.periph .x n)) →
      c.writeDest m = c.store (m.1.word m.2) (m.1.place rom) :=
    fun h hnot => ((writeDest_cases h _).resolve_right fun ⟨n, hn, _⟩ => hnot n hn).2
  rw [hstore hrom hx, hstore hroma hx]
  cases hq : b.1.place rom with
  | none => rfl
  | some q =>
    rw [hstore hrom hx, hq] at hromb
    rcases writeDest_cases hrom a with ⟨hnot, ha'⟩ | ⟨n, hn, ha'⟩
    · rw [ha', hstore hromb hnot]
      cases hp : a.1.place rom with
      | none => rfl
      | some p => exact store_comm (fun h => hne p hp (by rw [hq, h])) _ _ c
    · obtain ⟨hnot, -⟩ | ⟨n', hn', hb'⟩ := writeDest_cases hromb a
      · exact absurd hn (hnot n)
      · obtain rfl : n' = n := by rw [hn] at hn'; cases hn'; rfl
        rw [ha', hb']
        exact ((writePeriphX_action n' _).store (fun k h => hx k (by rw [hq, h])) _ c).symm

theorem foldl_comm {l l' : List (Dest × BitVec 32)} (hrom : c.romOn = rom) (hlow : ∀ m ∈ l, m.1.Low)
    (hlow' : ∀ m ∈ l', m.1.Low) (hne : ∀ a ∈ l, ∀ b ∈ l', ∀ p, a.1.place rom = some p → b.1.place rom ≠ some p)
    (hx : ∀ b ∈ l', ∀ n, b.1.place rom ≠ some (.periph .x n)) :
    l'.foldl writeDest (l.foldl writeDest c) = l.foldl writeDest (l'.foldl writeDest c) := by
  have hone : ∀ (a : Dest × BitVec 32) (l' : List (Dest × BitVec 32)) (c : Core), c.romOn = rom → a.1.Low →
      (∀ m ∈ l', m.1.Low) → (∀ b ∈ l', ∀ p, a.1.place rom = some p → b.1.place rom ≠ some p) →
      (∀ b ∈ l', ∀ n, b.1.place rom ≠ some (.periph .x n)) →
      l'.foldl writeDest (c.writeDest a) = (l'.foldl writeDest c).writeDest a := by
    intro a l' c hrom ha hlow' hne hx
    induction l' generalizing c with
    | nil => rfl
    | cons b l' ih =>
      have hb := hlow' b mem_cons_self
      rw [foldl_cons, foldl_cons,
        writeDest_comm hrom ha hb (hne b mem_cons_self) (hx b mem_cons_self)]
      exact ih _ ((writeDest_romOn hb).trans hrom) (fun m hm => hlow' m (mem_cons_of_mem b hm))
        (fun m hm => hne m (mem_cons_of_mem b hm)) (fun m hm => hx m (mem_cons_of_mem b hm))
  induction l generalizing c with
  | nil => rfl
  | cons a l ih =>
    have ha := hlow a mem_cons_self
    rw [foldl_cons, foldl_cons, ih ((writeDest_romOn ha).trans hrom)
      (fun m hm => hlow m (mem_cons_of_mem a hm)) (fun m hm => hne m (mem_cons_of_mem a hm)),
      hone a l' c hrom ha hlow' (hne a mem_cons_self) hx]

end Core

end Aranym.Dsp
