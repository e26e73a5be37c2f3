import Aranym.Jit.Values
import Mathlib.Tactic.IntervalCases

/-!
# Parts of registers, and simulation

`Sim K f l l'`: the code that is emitted between `l` and `l'` leads from a machine that represents a
register file `v` to one that represents `f v`, and leaves alone locked native registers and the memory
cells in `K`.
-/

namespace Aranym.Jit

open BitVec List Function

variable {H : Host} {a b size : Nat} {x y z : BitVec 32} {w w' : Word}

/-! ## Parts -/

@[simp] abbrev Width (size : Nat) : Prop := size = 1 ∨ size = 2 ∨ size = 4

theorem getLsbD_sizeMask (size i : Nat) (hi : i < 32) :
    (sizeMask size).getLsbD i = decide (i < if size ≤ 2 then 8 * size else 32) := by
  have hall : ∀ i : Fin 32, (0xff#32).getLsbD i = decide (i.val < 8)
      ∧ (0xffff#32).getLsbD i = decide (i.val < 16)
      ∧ (0xffffffff#32).getLsbD i = decide (i.val < 32) := by decide
  obtain ⟨h1, h2, h4⟩ := hall ⟨i, hi⟩
  rcases size with _ | _ | _ | size
  · simp [sizeMask]
  · exact h1
  · exact h2
  · simpa [sizeMask] using h4

theorem getLsbD_part (size i : Nat) (hi : i < 32) : (part size x y).getLsbD i
      = if i < (if size ≤ 2 then 8 * size else 32) then x.getLsbD i else y.getLsbD i := by
  simp only [part, getLsbD_or, getLsbD_and, getLsbD_not,
    getLsbD_sizeMask size i hi, hi]
  by_cases hs : i < if size ≤ 2 then 8 * size else 32 <;> simp [hs]

theorem plus_zero (x : BitVec 32) : x + 0 = x := BitVec.add_zero x

@[simp] theorem part_zero : part 0 x y = y := by
  apply eq_of_getLsbD_eq
  intro i hi
  rw [getLsbD_part 0 i hi]
  simp

@[simp] theorem part_four : part 4 x y = x := by
  apply eq_of_getLsbD_eq
  intro i hi
  rw [getLsbD_part 4 i hi]
  simp [hi]

theorem part_part_of_le (hab : a ≤ b) : part b x (part a x y) = part b x y := by
  apply eq_of_getLsbD_eq
  intro i hi
  simp only [getLsbD_part _ i hi]
  grind

theorem part_part_left (hab : a ≤ b) : part a (part b x y) y = part a x y := by
  apply eq_of_getLsbD_eq
  intro i hi
  simp only [getLsbD_part _ i hi]
  grind

theorem part_self : part size x x = x := by
  apply eq_of_getLsbD_eq
  intro i hi
  simp [getLsbD_part _ i hi]

theorem part_setWidth_one : part 1 ((x.setWidth 8).setWidth 32) x = x := by
  apply eq_of_getLsbD_eq
  intro i hi
  rw [getLsbD_part _ i hi]
  simp only [getLsbD_setWidth]
  grind

theorem part_setWidth_two : part 2 ((x.setWidth 16).setWidth 32) x = x := by
  apply eq_of_getLsbD_eq
  intro i hi
  rw [getLsbD_part _ i hi]
  simp only [getLsbD_setWidth]
  grind

theorem bswap_bswap_and (x : BitVec 32) : bswap (bswap x &&& 0xffff) = x &&& 0xffff0000 := by
  apply eq_of_getLsbD_eq
  intro i hi
  simp only [bswap, getLsbD_append, getLsbD_extractLsb', getLsbD_and]
  interval_cases i <;> simp

theorem merge_upper (x y : BitVec 32) : (x &&& 0xffff) + bswap (bswap y &&& 0xffff) = part 2 x y := by
  rw [bswap_bswap_and, add_eq_or_of_and_eq_zero]
  · rfl
  · apply eq_of_getLsbD_eq
    intro i hi
    interval_cases i <;> simp

namespace Word

theorem Agree.of_known_zero (h : w.known = 0) : w.Agree x := by
  intro i hi
  rw [h] at hi
  simp at hi

theorem agree_unknown : unknown.Agree x := Agree.of_known_zero rfl

theorem agree_ofValue : (ofValue x).Agree y ↔ y = x := by
  constructor
  · intro h
    apply eq_of_getLsbD_eq
    intro i hi
    refine h i ?_
    rw [ofValue, show (0xffffffff : BitVec 32) = sizeMask 4 from rfl, getLsbD_sizeMask 4 i hi]
    simpa using hi
  · rintro rfl i _; rfl

theorem Agree.eq (h : w.Agree x) (hk : w.known = 0xffffffff) : x = w.value := by
  have hw : w = ofValue w.value := by cases w; cases hk; rfl
  rw [hw] at h
  exact agree_ofValue.mp h

theorem Agree.add (h : w.Agree x) (i : BitVec 32) : (w.add i).Agree (x + i) := by
  unfold Word.add
  split
  · next hk => rw [h.eq hk]; exact agree_ofValue.mpr rfl
  · exact agree_unknown

theorem lt_of_known {i} (h : w.known.getLsbD i = true) : i < 32 := by
  by_contra hge
  rw [getLsbD_of_ge _ _ (by omega)] at h
  cases h

theorem Agree.part_between (hab : a ≤ size) (hb : size ≤ b) (ha : w.Agree (Jit.part a x y))
    (hb' : w.Agree (Jit.part b x y)) : w.Agree (Jit.part size x y) := by
  intro i hi
  have hlt := lt_of_known hi
  have h1 := ha i hi
  have h2 := hb' i hi
  rw [getLsbD_part _ i hlt] at h1 h2 ⊢
  grind

def forget (size : Nat) (w : Word) : Word := .part size .unknown w

theorem known_forget {i} (h : (w.forget size).known.getLsbD i = true) :
    w.known.getLsbD i = true ∧ (w.forget size).value.getLsbD i = w.value.getLsbD i
      ∧ ¬i < (if size ≤ 2 then 8 * size else 32) := by
  have hlt := lt_of_known h
  simp only [forget, Word.part, getLsbD_part _ i hlt] at h ⊢
  by_cases hs : i < if size ≤ 2 then 8 * size else 32
  · simp [hs, unknown] at h
  · simp only [hs, if_false] at h ⊢; exact ⟨h, trivial, not_false⟩

theorem Agree.forget_max (h : w.Agree (Jit.part a x y)) (size : Nat) :
    (w.forget size).Agree (Jit.part (max size a) x y) := by
  intro i hi
  obtain ⟨hk, hv, hs⟩ := known_forget hi
  have hw := h i hk
  rw [hv]
  rw [getLsbD_part _ i (lt_of_known hi)] at hw ⊢
  grind

theorem known_forget_four : (w.forget 4).known = 0 := by simp [forget, Word.part, unknown]

theorem known_forget_zero (h : w.known = 0) : (w.forget size).known = 0 := by
  simp [forget, Word.part, unknown, h, Jit.part]

def low (size : Nat) (w : Word) : Word := .part size w .unknown

theorem known_low {i} (h : (w.low size).known.getLsbD i = true) :
    w.known.getLsbD i = true ∧ (w.low size).value.getLsbD i = w.value.getLsbD i
      ∧ i < (if size ≤ 2 then 8 * size else 32) := by
  have hlt := lt_of_known h
  simp only [low, Word.part, getLsbD_part _ i hlt] at h ⊢
  by_cases hs : i < if size ≤ 2 then 8 * size else 32
  · simp only [hs, if_true] at h ⊢; exact ⟨h, trivial, trivial⟩
  · simp [hs, unknown] at h

theorem Agree.low (h : w.Agree (Jit.part a x y)) (hsize : size ≤ a) : (w.low size).Agree x := by
  intro i hi
  obtain ⟨hk, hv, hs⟩ := known_low hi
  have hw := h i hk
  rw [hv]
  rw [getLsbD_part _ i (lt_of_known hi)] at hw
  grind

theorem low_four : w.low 4 = w := by simp [low, Word.part]

theorem Agree.write (h : (w.forget size).Agree (Jit.part a x y)) (hz : (w'.low size).Agree z)
    (hsize : size ≤ a) : (Word.part size w' w).Agree (Jit.part a (Jit.part size z x) y) := by
  intro i hi
  have hlt := lt_of_known hi
  have hw := h i
  have hz' := hz i
  simp only [Word.forget, Word.low, Word.part, getLsbD_part _ i hlt] at hi hw hz' ⊢
  grind

end Word

/-! ## Simulation -/

theorem exec_append (xs ys : List (Raw H)) (m : Machine H) :
    exec (xs ++ ys) m = (exec xs m).bind (exec ys) := by
  induction xs generalizing m with
  | nil => rfl
  | cons op xs ih =>
    rw [List.cons_append, exec, exec]
    cases op.exec m with
    | none => rfl
    | some m' => exact ih m'

def Sim (K : VReg → Prop) (f : VFile → VFile) (l l' : Live H) : Prop :=
  ∀ v m, Rep l m v → ∃ ops m', l'.target = l.target ++ ops ∧ exec ops m = some m' ∧ Rep l' m' (f v)
    ∧ (∀ n, (l.nat n).locked ≠ 0 → m'.nat n = m.nat n) ∧ ∀ q, K q → m'.mem q = m.mem q

namespace Sim

variable {K K₁ K₂ : VReg → Prop} {f g : VFile → VFile} {l l₁ l₂ : Live H}

theorem trans (h₁ : Sim K₁ f l l₁) (hlock : ∀ n, (l.nat n).locked ≠ 0 → (l₁.nat n).locked ≠ 0)
    (h₂ : Sim K₂ g l₁ l₂) (hK : ∀ q, K q → K₁ q ∧ K₂ q) : Sim K (fun v => g (f v)) l l₂ := by
  intro v m hm
  obtain ⟨ops₁, m₁, ht₁, he₁, hr₁, hn₁, hk₁⟩ := h₁ v m hm
  obtain ⟨ops₂, m₂, ht₂, he₂, hr₂, hn₂, hk₂⟩ := h₂ (f v) m₁ hr₁
  refine ⟨ops₁ ++ ops₂, m₂, ?_, ?_, hr₂, ?_, ?_⟩
  · rw [ht₂, ht₁, List.append_assoc]
  · rw [exec_append, he₁]; exact he₂
  · intro n hn; rw [hn₂ n (hlock n hn), hn₁ n hn]
  · intro q hq; rw [hk₂ q (hK q hq).2, hk₁ q (hK q hq).1]

theorem andThen (h₁ : Sim K₁ f l l₁) (hlock : ∀ n, (l₁.nat n).locked = (l.nat n).locked)
    (h₂ : Sim K₂ g l₁ l₂) : Sim (fun _ => False) (fun v => g (f v)) l l₂ :=
  h₁.trans (fun n hn => by rwa [hlock]) h₂ fun _ hq => hq.elim

theorem mono (h : Sim K₁ f l l₁) (hK : ∀ q, K q → K₁ q) : Sim K f l l₁ := by
  intro v m hm
  obtain ⟨ops, m', ht, he, hr, hn, hk⟩ := h v m hm
  exact ⟨ops, m', ht, he, hr, hn, fun q hq => hk q (hK q hq)⟩

theorem of_state (ht : l₁.target = l.target) (hst : ∀ v m, Rep l m v → ∀ r, RepAt (l₁.state r) m r (f v r))
    (hx : ∀ v, (v flagX).known = 0 → (f v flagX).known = 0) : Sim K f l l₁ := by
  intro v m hm
  refine ⟨[], m, ?_, rfl, ⟨hst v m hm, hx v hm.flagX⟩, fun _ _ => rfl, fun _ _ => rfl⟩
  rw [ht, append_nil]

theorem of_emit {op} (ht : l₁.target = l.target ++ [op]) (hst : ∀ v m, Rep l m v → ∃ m', op.exec m = some m'
      ∧ (∀ r, RepAt (l₁.state r) m' r (f v r)) ∧ (∀ n, (l.nat n).locked ≠ 0 → m'.nat n = m.nat n)
      ∧ ∀ q, K q → m'.mem q = m.mem q)
    (hx : ∀ v, (v flagX).known = 0 → (f v flagX).known = 0) : Sim K f l l₁ := by
  intro v m hm
  obtain ⟨m', he, hr, hn, hk⟩ := hst v m hm
  refine ⟨[op], m', ht, ?_, ⟨hr, hx v hm.flagX⟩, hn, hk⟩
  rw [exec, he]
  rfl

end Sim

theorem RepAt.congr {st st'} {m m' : Machine H} {r : VReg}
    (h : RepAt st m r w) (hst : st' = { st with realind := st'.realind })
    (hmem : m'.mem r = m.mem r)
    (hnat : ∀ n, st.realreg = some n → m'.nat n = m.nat n) : RepAt st' m' r w := by
  rw [hst]
  unfold RepAt at h ⊢
  cases hs : st.status with
  | undef | isconst => simpa only [hs] using h
  | inmem => simpa only [hs, hmem] using h
  | clean | dirty => simp only [hs] at h ⊢; intro n hn; rw [hmem, hnat n hn]; exact h n hn

theorem repAt_inreg {t m r n} (hs : t.status = .clean ∨ t.status = .dirty) (hn : t.realreg = some n) :
    RepAt t m r w ↔ w.Agree (part t.validsize (m.nat n) (m.mem r) + t.val)
      ∧ w.Agree (part t.dirtysize (m.nat n) (m.mem r) + t.val) ∧ (t.val ≠ 0 → t.validsize = 4)
      ∧ (t.dirtysize = 1 → H.canByte n) ∧ (t.dirtysize = 2 → H.canWord n)
      ∧ (t.status = .clean → t.dirtysize = 0) := by
  unfold RepAt
  rcases hs with hs | hs
  all_goals
    simp only [hs, hn, Option.some.injEq]; exact ⟨fun h => h n rfl, fun h _ hn => hn ▸ h⟩

theorem RepAt.weaken {st} {m : Machine H} {r : VReg} (h : RepAt st m r w)
    (hw : ∀ x, w.Agree x → w'.Agree x) (hk : w.known = 0 → w'.known = 0) : RepAt st m r w' := by
  unfold RepAt at h ⊢
  cases hs : st.status with
  | undef => simpa only [hs] using hk (by simpa only [hs] using h)
  | inmem | isconst => simpa only [hs] using hw _ (by simpa only [hs] using h)
  | clean | dirty =>
    simp only [hs] at h ⊢
    intro n hn
    obtain ⟨hv, hd, hrest⟩ := h n hn; exact ⟨hw _ hv, hw _ hd, hrest⟩

theorem RepAt.unknown {st} {m : Machine H} {r : VReg} (h : RepAt st m r w) : RepAt st m r .unknown :=
  h.weaken (fun _ _ => Word.agree_unknown) fun _ => rfl

def forgetReg (r : VReg) (v : VFile) : VFile := update v r .unknown

theorem known_update {v r} (hv : (v flagX).known = 0)
    (hw : r = flagX → w.known = 0) : (update v r w flagX).known = 0 := by
  by_cases hr : r = flagX
  · subst hr; simpa using hw rfl
  · rwa [Function.update_of_ne (Ne.symm hr)]

theorem Rep.forget {l} {m : Machine H} {v : VFile} (h : Rep l m v) (r : VReg) : Rep l m (forgetReg r v) where
  at_reg := by
    intro q
    by_cases hq : q = r
    · subst hq; simpa [forgetReg] using (h.at_reg q).unknown
    · simpa [forgetReg, hq] using h.at_reg q
  flagX := known_update h.flagX fun _ => rfl

end Aranym.Jit
