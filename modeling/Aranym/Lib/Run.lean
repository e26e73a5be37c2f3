import Mathlib.Data.List.Induction

/-!
# Invariants of runs

A run folds a step function over a list of inputs. An invariant that every step of the run keeps, given
the state the step starts from, holds after every part of the run.
-/

namespace Aranym.Lib

open List Function

variable {σ α : Type}

theorem foldl_invariant {f : σ → α → σ} {Inv : σ → Prop} {s₀ : σ} {xs : List α} (h₀ : Inv s₀)
    (hstep : ∀ pre x post, xs = pre ++ x :: post → Inv (pre.foldl f s₀) → Inv (f (pre.foldl f s₀) x))
    {pre post : List α} (h : xs = pre ++ post) : Inv (pre.foldl f s₀) := by
  induction pre using List.reverseRecOn generalizing post with
  | nil => exact h₀
  | append_singleton pre x ih =>
    rw [append_assoc, singleton_append] at h
    rw [foldl_append]; exact hstep pre x post h (ih h)

/-- An invariant that a step keeps exactly under a condition holds throughout exactly the runs whose steps all
meet it. -/
theorem foldl_invariant_iff {f : σ → α → σ} {Inv : σ → Prop} {C : σ → α → Prop} {s₀ : σ} (h₀ : Inv s₀)
    (hstep : ∀ s x, Inv s → (Inv (f s x) ↔ C s x)) (xs : List α) :
    (∀ pre post, xs = pre ++ post → Inv (pre.foldl f s₀)) ↔
      ∀ pre x post, xs = pre ++ x :: post → C (pre.foldl f s₀) x := by
  constructor
  · intro h pre x post hxs
    refine (hstep _ x (h pre (x :: post) hxs)).mp ?_
    have hnext := h (pre ++ [x]) post (by simp [hxs]); rwa [foldl_append] at hnext
  · intro h pre post hxs
    exact foldl_invariant h₀ (fun pre x post hxs hinv => (hstep _ x hinv).mpr (h pre x post hxs)) hxs

/-- The predicate holds at each step of a run that may fail or branch. -/
def AtEach (next : σ → α → σ → Prop) (p : σ → α → Prop) : σ → List α → Prop
  | _, [] => True
  | s, a :: as => p s a ∧ ∀ s', next s a s' → AtEach next p s' as

def decidableAtEach {next : σ → α → σ → Prop} (f : σ → α → Option σ) (hf : ∀ s a s', next s a s' ↔ f s a = some s')
    (p : σ → α → Prop) [∀ s a, Decidable (p s a)] : ∀ (s : σ) (as : List α), Decidable (AtEach next p s as)
  | _, [] => isTrue trivial
  | s, a :: as =>
    match h : f s a with
    | none => decidable_of_iff (p s a) (by simp [AtEach, hf, h])
    | some s' =>
      have := decidableAtEach f hf p s' as
      decidable_of_iff (p s a ∧ AtEach next p s' as) (by simp [AtEach, hf, h])

/-- The condition holds at each step of a fold. -/
def Each (f : σ → α → σ) (C : σ → α → Prop) : σ → List α → Prop
  | _, [] => True
  | s, x :: xs => C s x ∧ Each f C (f s x) xs

instance decidableEach (f : σ → α → σ) (C : σ → α → Prop) [∀ s x, Decidable (C s x)] :
    ∀ s xs, Decidable (Each f C s xs)
  | _, [] => isTrue trivial
  | s, x :: xs =>
    have := decidableEach f C (f s x) xs
    inferInstanceAs (Decidable (C s x ∧ Each f C (f s x) xs))

theorem Each.invariant {f : σ → α → σ} {C : σ → α → Prop} {Inv : σ → Prop}
    (hstep : ∀ s x, C s x → Inv s → Inv (f s x)) {s : σ} (hs : Inv s) {pre post : List α}
    (h : Each f C s (pre ++ post)) : Inv (pre.foldl f s) := by
  induction pre generalizing s with
  | nil => exact hs
  | cons x pre ih => exact ih (hstep s x h.1 hs) h.2

/-- Writes to different places that no later one reads are simultaneous. -/
theorem foldl_update {β ι : Type} [DecidableEq α] {dst src : ι → α} {op : β → β → β} {l : List ι}
    (h : l.Pairwise fun p q => dst p ≠ dst q ∧ dst p ≠ src q) (m : α → β) :
    let r := l.foldl (fun m p => update m (dst p) (op (m (dst p)) (m (src p)))) m
    (∀ p ∈ l, r (dst p) = op (m (dst p)) (m (src p))) ∧ ∀ a, (∀ p ∈ l, a ≠ dst p) → r a = m a := by
  induction l generalizing m with
  | nil => simp
  | cons p l ih =>
    obtain ⟨hp, hl⟩ := pairwise_cons.mp h
    obtain ⟨hin, hout⟩ := ih hl (update m (dst p) (op (m (dst p)) (m (src p))))
    simp only [foldl_cons, forall_mem_cons]
    refine ⟨⟨?_, fun q hq => ?_⟩, fun a ha => ?_⟩
    · rw [hout _ fun q hq => (hp q hq).1, update_self]
    · rw [hin q hq, update_of_ne (hp q hq).1.symm, update_of_ne (hp q hq).2.symm]
    · rw [hout a ha.2, update_of_ne ha.1]

end Aranym.Lib
