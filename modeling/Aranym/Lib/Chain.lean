import Mathlib.Data.Nat.Digits.Defs

/-!
# Long arithmetic

Numbers as lists of digits with the least significant one first, the additions digit by digit that hand
a carry on, and the machines that do them: a step takes an element, gives one, and keeps the carry in its
state. A subtraction is the addition that leads from the difference back to the minuend.
-/

namespace Aranym.Lib

open BitVec List Nat

variable {σ α β : Type}

/-! ## Machines -/

/-- A list passed through a step with state, with the results. -/
def chain (step : σ → α → σ × β) : σ → List α → σ × List β
  | s, [] => (s, [])
  | s, a :: as =>
    let r := step s a
    let rest := chain step r.1 as
    (rest.1, r.2 :: rest.2)

variable {step : σ → α → σ × β}

theorem chain_cons (s : σ) (a : α) (as : List α) : chain step s (a :: as) =
      ((chain step (step s a).1 as).1, (step s a).2 :: (chain step (step s a).1 as).2) := rfl

theorem chain_concat (s : σ) (as : List α) (a : α) : chain step s (as ++ [a]) =
      ((step (chain step s as).1 a).1, (chain step s as).2 ++ [(step (chain step s as).1 a).2]) := by
  induction as generalizing s with
  | nil => rfl
  | cons b as ih => rw [List.cons_append, chain_cons, ih, chain_cons, List.cons_append]

@[simp] theorem length_chain (s : σ) (as : List α) : (chain step s as).2.length = as.length := by
  induction as generalizing s with
  | nil => rfl
  | cons a as ih => rw [chain_cons, length_cons, length_cons, ih]

theorem chain_all {p : β → Prop} {as : List α} (h : ∀ s, ∀ a ∈ as, p (step s a).2) (s : σ) :
    ∀ r ∈ (chain step s as).2, p r := by
  induction as generalizing s with
  | nil => simp [chain]
  | cons a as ih =>
    rw [chain_cons]
    refine forall_mem_cons.mpr ⟨h s a (mem_cons_self ..), ?_⟩
    exact ih (fun s b hb => h s b (mem_cons_of_mem _ hb)) _

theorem chain_map {γ : Type} {step'} {g : γ → α} {cs : List γ}
    (h : ∀ s, ∀ c ∈ cs, step' s c = step s (g c)) (s : σ) : chain step' s cs = chain step s (cs.map g) := by
  induction cs generalizing s with
  | nil => rfl
  | cons c cs ih =>
    rw [chain_cons, map_cons, chain_cons, h s c (mem_cons_self ..),
      ih (fun s d hd => h s d (mem_cons_of_mem _ hd))]

theorem chain_sticky (flag : σ → Bool) (zero : β → Bool) {as}
    (h : ∀ s, ∀ a ∈ as, flag (step s a).1 = (flag s && zero (step s a).2)) (s : σ) :
    flag (chain step s as).1 = (flag s && (chain step s as).2.all zero) := by
  induction as generalizing s with
  | nil => simp [chain]
  | cons a as ih =>
    rw [chain_cons, all_cons, ih (fun s b hb => h s b (mem_cons_of_mem _ hb)),
      h s a (mem_cons_self ..), Bool.and_assoc]

/-! ## Digits -/

inductive LongSum (b : Nat) : Nat → List Nat → List Nat → List Nat → Nat → Prop
  | nil (c : Nat) : LongSum b c [] [] [] c
  | cons {x y z c c' c'' : Nat} {xs ys zs : List Nat} (digit : x + y + c = z + b * c')
      (rest : LongSum b c' xs ys zs c'') : LongSum b c (x :: xs) (y :: ys) (z :: zs) c''

theorem LongSum.value {b c c' xs ys zs} (h : LongSum b c xs ys zs c') :
    Nat.ofDigits b xs + Nat.ofDigits b ys + c = Nat.ofDigits b zs + b ^ zs.length * c' := by
  induction h with
  | nil c => simp
  | cons digit rest ih =>
    rename_i x y z c c' c'' xs ys zs
    simp only [ofDigits_cons, length_cons]
    calc x + b * Nat.ofDigits b xs + (y + b * Nat.ofDigits b ys) + c
        = (x + y + c) + b * (Nat.ofDigits b xs + Nat.ofDigits b ys) := by ring
      _ = z + b * (Nat.ofDigits b xs + Nat.ofDigits b ys + c') := by rw [digit]; ring
      _ = z + b * Nat.ofDigits b zs + b ^ (zs.length + 1) * c'' := by rw [ih]; ring

theorem LongSum.sum {b c xs ys zs} (h : LongSum b 0 xs ys zs c.toNat)
    (hz : Nat.ofDigits b zs < b ^ zs.length) :
    Nat.ofDigits b zs = (Nat.ofDigits b xs + Nat.ofDigits b ys) % b ^ zs.length ∧
      c = decide (b ^ zs.length ≤ Nat.ofDigits b xs + Nat.ofDigits b ys) := by
  have hvalue := h.value
  rw [Nat.add_zero] at hvalue
  rw [hvalue]
  constructor
  · rw [add_mul_mod_self_left, mod_eq_of_lt hz]
  · cases c with
    | false => simpa using hz
    | true => simp

theorem LongSum.difference {b c xs ys zs} (h : LongSum b 0 xs ys zs c.toNat)
    (hx : Nat.ofDigits b xs < b ^ zs.length) :
    Nat.ofDigits b xs = (Nat.ofDigits b zs + b ^ zs.length - Nat.ofDigits b ys) % b ^ zs.length ∧
      c = decide (Nat.ofDigits b zs < Nat.ofDigits b ys) := by
  have hvalue := h.value
  rw [Nat.add_zero] at hvalue
  cases c with
  | false =>
    rw [Bool.toNat_false, Nat.mul_zero, Nat.add_zero] at hvalue
    rw [← hvalue, Nat.add_right_comm, Nat.add_sub_cancel, add_mod_right, mod_eq_of_lt hx]
    simp
  | true =>
    rw [Bool.toNat_true, Nat.mul_one] at hvalue
    rw [← hvalue, Nat.add_sub_cancel, mod_eq_of_lt hx]
    simp
    omega

section Steps

variable {δ : Type} {b : Nat} (value : δ → Nat) (carry : σ → Bool) (x y : α → δ) {step : σ → α → σ × δ} {as : List α}

theorem chain_longSum (h : ∀ s, ∀ a ∈ as, value (x a) + value (y a) + (carry s).toNat =
      value (step s a).2 + b * (carry (step s a).1).toNat) (s : σ) :
    LongSum b (carry s).toNat ((as.map x).map value) ((as.map y).map value) ((chain step s as).2.map value)
      (carry (chain step s as).1).toNat := by
  induction as generalizing s with
  | nil => exact .nil _
  | cons a as ih =>
    exact .cons (h s a (mem_cons_self ..)) (ih (fun s b hb => h s b (mem_cons_of_mem _ hb)) _)

theorem chain_longDifference (h : ∀ s, ∀ a ∈ as, value (step s a).2 + value (y a) + (carry s).toNat =
      value (x a) + b * (carry (step s a).1).toNat) (s : σ) :
    LongSum b (carry s).toNat ((chain step s as).2.map value) ((as.map y).map value) ((as.map x).map value)
      (carry (chain step s as).1).toNat := by
  induction as generalizing s with
  | nil => exact .nil _
  | cons a as ih =>
    exact .cons (h s a (mem_cons_self ..)) (ih (fun s b hb => h s b (mem_cons_of_mem _ hb)) _)

end Steps

theorem ofDigits_eq_zero_iff {b} (hb : 0 < b) {l} : Nat.ofDigits b l = 0 ↔ ∀ d ∈ l, d = 0 := by
  induction l with
  | nil => simp
  | cons d l ih => simp [ofDigits_cons, ih, hb.ne']

/-! ## Bit vectors as digits -/

section Words

variable {n : Nat}

theorem toNat_adc (hn : 0 < n) {x y r c} (h : r = x + y + (BitVec.ofBool c).setWidth n) :
    x.toNat + y.toNat + c.toNat =
      r.toNat + 2 ^ n * (y.msb ^^ ((y.msb ^^ x.msb) && (x.msb ^^ r.msb))).toNat := by
  obtain ⟨m, rfl⟩ : ∃ m, n = m + 1 := ⟨n - 1, by omega⟩
  have hr : r.toNat = (x.toNat + y.toNat + c.toNat) % 2 ^ (m + 1) := by cases c <;> simp [h, add_mod]
  have hx := x.isLt
  have hy := y.isLt
  have hc := c.toNat_le
  simp only [msb_eq_decide, Nat.add_sub_cancel]
  rw [pow_succ] at hr hx hy ⊢
  generalize 2 ^ m = half at *
  -- the sum is either below the modulus or wraps once
  obtain ⟨hlt, hr⟩ | ⟨hle, hr⟩ : x.toNat + y.toNat + c.toNat < half * 2 ∧ r.toNat = x.toNat + y.toNat + c.toNat ∨
      half * 2 ≤ x.toNat + y.toNat + c.toNat ∧ r.toNat = x.toNat + y.toNat + c.toNat - half * 2 := by
    rcases Nat.lt_or_ge (x.toNat + y.toNat + c.toNat) (half * 2) with hlt | hle
    · exact .inl ⟨hlt, by rw [hr, mod_eq_of_lt hlt]⟩
    · exact .inr ⟨hle, by rw [hr, mod_eq_sub_mod hle, mod_eq_of_lt (by omega)]⟩
  all_goals
    by_cases h₁ : half ≤ x.toNat <;> by_cases h₂ : half ≤ y.toNat <;> by_cases h₃ : half ≤ r.toNat <;>
      simp [h₁, h₂, h₃] <;> omega

theorem toNat_sbb (hn : 0 < n) {x y r c} (h : r = x - y - (BitVec.ofBool c).setWidth n) :
    r.toNat + y.toNat + c.toNat =
      x.toNat + 2 ^ n * (y.msb ^^ ((y.msb ^^ r.msb) && (x.msb ^^ r.msb))).toNat := by
  have hx : x = r + y + (BitVec.ofBool c).setWidth n := by rw [h]; grind
  rw [toNat_adc hn hx, Bool.xor_comm r.msb]

/-- The number whose digits the elements are, lowest first. -/
def number (k : Nat) (ds : List (BitVec n)) : BitVec (n * k) :=
  BitVec.ofNat _ (Nat.ofDigits (2 ^ n) (ds.map BitVec.toNat))

variable {k : Nat} {xs ys zs : List (BitVec n)}

theorem ofDigits_toNat_lt (ds : List (BitVec n)) : Nat.ofDigits (2 ^ n) (ds.map BitVec.toNat) < 2 ^ (n * ds.length) := by
  induction ds with
  | nil => simp
  | cons d ds ih =>
    rw [map_cons, ofDigits_cons, length_cons, Nat.mul_succ, pow_add, Nat.mul_comm (2 ^ (n * _))]
    have := Nat.mul_le_mul_left (2 ^ n) (succ_le_of_lt ih)
    rw [Nat.mul_succ] at this
    have := d.isLt; omega

theorem toNat_number (hk : xs.length = k) : (number k xs).toNat = Nat.ofDigits (2 ^ n) (xs.map BitVec.toNat) := by
  subst hk
  exact mod_eq_of_lt (ofDigits_toNat_lt xs)

theorem msb_number_concat (hn : 0 < n) {ds} (d : BitVec n) (hk : ds.length + 1 = k) :
    (number k (ds ++ [d])).msb = d.msb := by
  subst hk
  have hlt := ofDigits_toNat_lt ds
  have hpow : 2 ^ (n * (ds.length + 1) - 1) = 2 ^ (n * ds.length) * 2 ^ (n - 1) := by
    rw [← pow_add, Nat.mul_succ, Nat.add_sub_assoc hn]
  have hval : (number (ds.length + 1) (ds ++ [d])).toNat =
      Nat.ofDigits (2 ^ n) (ds.map BitVec.toNat) + 2 ^ (n * ds.length) * d.toNat := by
    rw [toNat_number (by simp), map_append, ofDigits_append, length_map, ← pow_mul]
    simp
  rw [msb_eq_decide, msb_eq_decide, hval, hpow, decide_eq_decide]
  generalize 2 ^ (n * ds.length) = scale at *
  generalize 2 ^ (n - 1) = half at *
  constructor
  · intro h
    by_contra hd
    have := Nat.mul_le_mul_left scale (show d.toNat + 1 ≤ half by omega)
    rw [Nat.mul_succ] at this; omega
  · intro h; exact (Nat.mul_le_mul_left scale h).trans (Nat.le_add_left ..)

theorem number_eq_zero_iff (hk : xs.length = k) : number k xs = 0#_ ↔ ∀ d ∈ xs, d = 0#_ := by
  rw [← toNat_inj, toNat_number hk, toNat_zero, ofDigits_eq_zero_iff (Nat.two_pow_pos n),
    forall_mem_map]
  simp only [← toNat_inj, toNat_zero]

theorem LongSum.number_add {c}
    (h : LongSum (2 ^ n) 0 (xs.map BitVec.toNat) (ys.map BitVec.toNat) (zs.map BitVec.toNat) c.toNat)
    (hx : xs.length = k) (hy : ys.length = k) (hz : zs.length = k) :
    number k zs = number k xs + number k ys ∧ c = (number k xs).uaddOverflow (number k ys) := by
  have hlt := ofDigits_toNat_lt zs
  rw [pow_mul, ← length_map (f := BitVec.toNat)] at hlt
  obtain ⟨hsum, hcarry⟩ := h.sum hlt
  rw [← toNat_number hx, ← toNat_number hy, length_map, hz, ← pow_mul] at hsum hcarry
  rw [← toNat_number hz, ← toNat_add] at hsum
  exact ⟨eq_of_toNat_eq hsum, hcarry⟩

theorem LongSum.number_sub {c}
    (h : LongSum (2 ^ n) 0 (xs.map BitVec.toNat) (ys.map BitVec.toNat) (zs.map BitVec.toNat) c.toNat)
    (hx : xs.length = k) (hy : ys.length = k) (hz : zs.length = k) :
    number k xs = number k zs - number k ys ∧ c = (number k zs).usubOverflow (number k ys) := by
  have hlt : Nat.ofDigits (2 ^ n) (xs.map BitVec.toNat) < (2 ^ n) ^ (zs.map BitVec.toNat).length := by
    rw [length_map, hz, ← hx, ← pow_mul]; exact ofDigits_toNat_lt xs
  obtain ⟨-, hborrow⟩ := h.difference hlt
  rw [← toNat_number hy, ← toNat_number hz] at hborrow
  exact ⟨by rw [(h.number_add hx hy hz).1, BitVec.add_sub_cancel], hborrow⟩

/-! ## Machines on words -/

variable {step : σ → α → σ × BitVec n} (carry : σ → Bool) (x y : α → BitVec n) (as : List α)

theorem chain_number_add (h : ∀ s a, (x a).toNat + (y a).toNat + (carry s).toNat =
      (step s a).2.toNat + 2 ^ n * (carry (step s a).1).toNat) {s} (hs : carry s = false) :
    number as.length (chain step s as).2 = number as.length (as.map x) + number as.length (as.map y) ∧
      carry (chain step s as).1 = (number as.length (as.map x)).uaddOverflow (number as.length (as.map y)) := by
  have hsum := chain_longSum BitVec.toNat carry x y (fun s a (_ : a ∈ as) => h s a) s
  rw [hs] at hsum
  exact hsum.number_add (length_map ..) (length_map ..) (length_chain ..)

theorem chain_number_sub (h : ∀ s a, (step s a).2.toNat + (y a).toNat + (carry s).toNat =
      (x a).toNat + 2 ^ n * (carry (step s a).1).toNat) {s} (hs : carry s = false) :
    number as.length (chain step s as).2 = number as.length (as.map x) - number as.length (as.map y) ∧
      carry (chain step s as).1 = (number as.length (as.map x)).usubOverflow (number as.length (as.map y)) := by
  have hsum := chain_longDifference BitVec.toNat carry x y (fun s a (_ : a ∈ as) => h s a) s
  rw [hs] at hsum
  exact hsum.number_sub (length_chain ..) (length_map ..) (length_map ..)

end Words

end Aranym.Lib
