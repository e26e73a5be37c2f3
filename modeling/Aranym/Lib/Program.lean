import Aranym.Lib.Index

/-!
# Stateful programs with exceptions

A program is a computation in `EStateM ε σ`: it changes a state and either returns a value or
throws, and a throw keeps the changes made so far. `Keeps f m` says that running `m` leaves the
observation `f` of the state as it was, whichever way `m` ends; one rule per program former
carries the frame of a long program from the frames of its parts.
-/

namespace Aranym.Lib

variable {ε σ α β γ : Type}

/-- The state a program ends in, failed or not. -/
def final : EStateM.Result ε σ α → σ
  | .ok _ s => s
  | .error _ s => s

@[simp] theorem final_ok (a : α) (s : σ) : final (.ok a s : EStateM.Result ε σ α) = s := rfl

@[simp] theorem final_error (e : ε) (s : σ) : final (.error e s : EStateM.Result ε σ α) = s := rfl

def doIf (p : Prop) [Decidable p] (m : EStateM ε σ Unit) : EStateM ε σ Unit := if p then m else pure ()

/-! ## Equations of the program formers -/

theorem bind_apply (m : EStateM ε σ α) (k : α → EStateM ε σ β) (s : σ) : (m >>= k) s = match m s with
      | .ok a s' => k a s'
      | .error e s' => .error e s' := rfl

theorem bind_ok {m} {k : α → EStateM ε σ β} {s s' : σ} {a : α}
    (h : m s = .ok a s') : (m >>= k) s = k a s' := by simp only [bind_apply, h]

theorem bind_error {m} {k : α → EStateM ε σ β} {s s' : σ} {e : ε}
    (h : m s = .error e s') : (m >>= k) s = .error e s' := by simp only [bind_apply, h]

@[simp] theorem pure_apply (a : α) (s : σ) : (pure a : EStateM ε σ α) s = .ok a s := rfl

@[simp] theorem get_apply (s : σ) : (get : EStateM ε σ σ) s = .ok s s := rfl

@[simp] theorem modify_apply (f : σ → σ) (s : σ) : (modify f : EStateM ε σ PUnit) s = .ok ⟨⟩ (f s) := rfl

theorem tryCatch_apply (m : EStateM ε σ α) (h : ε → EStateM ε σ α) (s : σ) : (tryCatch m h) s = match m s with
      | .ok a s' => .ok a s'
      | .error e s' => h e s' := by
  change EStateM.tryCatch m h s = _
  cases hm : m s with
  | ok a s' =>
    delta EStateM.tryCatch
    simp only [hm]
  | error e s' =>
    delta EStateM.tryCatch
    simp only [hm]; rfl

theorem final_bind_pure (m : EStateM ε σ α) (f : α → β) (s : σ) :
    final ((m >>= fun a => pure (f a)) s) = final (m s) := by
  rw [bind_apply]
  cases m s <;> rfl

theorem bind_ok_inv {m} {k : α → EStateM ε σ β} {s t : σ} {b : β}
    (h : (m >>= k) s = .ok b t) : ∃ a s', m s = .ok a s' ∧ k a s' = .ok b t := by
  rw [bind_apply] at h
  cases hm : m s with
  | ok a s' => exact ⟨a, s', rfl, by simpa only [hm] using h⟩
  | error e s' => simp only [hm, reduceCtorEq] at h

theorem bind_error_inv {m} {k : α → EStateM ε σ β} {s t : σ} {e : ε} (h : (m >>= k) s = .error e t) :
    m s = .error e t ∨ ∃ a s', m s = .ok a s' ∧ k a s' = .error e t := by
  rw [bind_apply] at h
  cases hm : m s with
  | ok a s' => exact .inr ⟨a, s', rfl, by simpa only [hm] using h⟩
  | error e' s' => simp only [hm] at h; cases h; exact .inl rfl

/-! ## Frames -/

def Keeps (f : σ → γ) (m : EStateM ε σ α) : Prop := ∀ s, f (final (m s)) = f s

variable {f : σ → γ}

theorem Keeps.pure (a : α) : Keeps f (pure a : EStateM ε σ α) := fun _ => rfl

theorem Keeps.get : Keeps f (get : EStateM ε σ σ) := fun _ => rfl

theorem Keeps.throw (e : ε) : Keeps f (throw e : EStateM ε σ α) := fun _ => rfl

theorem Keeps.modify {g} (h : ∀ s, f (g s) = f s) : Keeps f (modify g : EStateM ε σ PUnit) := h

theorem Keeps.bind {m} {k : α → EStateM ε σ β} (hm : Keeps f m)
    (hk : ∀ a, Keeps f (k a)) : Keeps f (m >>= k) := by
  intro s
  have h := hm s
  rw [bind_apply]
  cases hs : m s with
  | ok a s' => rw [hs] at h; exact (hk a s').trans h
  | error e s' => rw [hs] at h; exact h

theorem Keeps.ite {p : Prop} [Decidable p] {m₁ m₂ : EStateM ε σ α} (h₁ : Keeps f m₁)
    (h₂ : Keeps f m₂) : Keeps f (if p then m₁ else m₂) := by split <;> assumption

theorem Keeps.ok {m : EStateM ε σ α} (hm : Keeps f m) {s s' : σ} {a : α}
    (h : m s = .ok a s') : f s' = f s := by
  have := hm s
  rwa [h] at this

/-! ## Pre- and postconditions -/

/-- From `s` the program `m` returns with `Q`, or throws an error that `E` allows. -/
def Ends (E : ε → Prop) (m : EStateM ε σ α) (s : σ) (Q : α → σ → Prop) : Prop :=
  match m s with
  | .ok a t => Q a t
  | .error e _ => E e

namespace Ends

variable {E : ε → Prop} {s : σ} {Q R : α → σ → Prop}

theorem pure {a} (h : Q a s) : Ends E (pure a) s Q := h

theorem throw {e} (h : E e) : Ends E (throw e) s Q := h

theorem mono {m} (h : Ends E m s Q) (hQ : ∀ a t, Q a t → R a t) : Ends E m s R := by
  unfold Ends at h ⊢
  cases hm : m s with
  | ok a t => rw [hm] at h; exact hQ a t h
  | error e t => rw [hm] at h; exact h

theorem bind {m} {k : α → EStateM ε σ β} {Q : β → σ → Prop}
    (h : Ends E m s fun a t => Ends E (k a) t Q) : Ends E (m >>= k) s Q := by
  unfold Ends at h ⊢
  rw [bind_apply]
  cases hm : m s with
  | ok a t => rw [hm] at h; exact h
  | error e t => rw [hm] at h; exact h

theorem get_bind {k} {Q : β → σ → Prop} (h : Ends E (k s) s Q) : Ends E (get >>= k) s Q := .bind h

theorem modify_bind {g} {k : PUnit → EStateM ε σ β} {Q : β → σ → Prop}
    (h : Ends E (k ⟨⟩) (g s) Q) : Ends E (modify g >>= k) s Q := .bind h

theorem modify {k Q} (h : Q ⟨⟩ (k s)) : Ends E (modify k) s Q := h

theorem doIf {p : Prop} [Decidable p] {m Q}
    (hp : p → Ends E m s Q) (hn : ¬p → Q () s) : Ends E (doIf p m) s Q := by
  unfold Lib.doIf
  split
  · next h => exact hp h
  · next h => exact hn h

theorem ite {p : Prop} [Decidable p] {m₁ m₂} (hp : p → Ends E m₁ s Q)
    (hn : ¬p → Ends E m₂ s Q) : Ends E (if p then m₁ else m₂) s Q := by
  split
  · next h => exact hp h
  · next h => exact hn h

theorem of_ok {m a t} (hm : m s = .ok a t) (hQ : Q a t) : Ends E m s Q := by
  unfold Ends
  rw [hm]
  exact hQ

theorem ok {m a t} (h : Ends E m s Q) (hm : m s = .ok a t) : Q a t := by
  unfold Ends at h
  rwa [hm] at h

theorem error {m e t} (h : Ends E m s Q) (hm : m s = .error e t) : E e := by
  unfold Ends at h
  rwa [hm] at h

end Ends

/-! ## Programs that ignore a part of the state -/

def mapState (g : σ → σ) : EStateM.Result ε σ α → EStateM.Result ε σ α
  | .ok a s => .ok a (g s)
  | .error e s => .error e (g s)

/-- `m` neither reads nor writes what `g` changes: changing it first or last makes no difference. -/
def Commutes (g : σ → σ) (m : EStateM ε σ α) : Prop := ∀ s, m (g s) = mapState g (m s)

variable {g : σ → σ}

theorem Commutes.pure (a : α) : Commutes g (pure a : EStateM ε σ α) := fun _ => rfl

theorem Commutes.throw (e : ε) : Commutes g (throw e : EStateM ε σ α) := fun _ => rfl

theorem Commutes.modify {h} (hg : ∀ s, h (g s) = g (h s)) : Commutes g (modify h : EStateM ε σ PUnit) := by
  intro s
  simp only [modify_apply, mapState, hg]

theorem Commutes.bind {m} {k : α → EStateM ε σ β} (hm : Commutes g m)
    (hk : ∀ a, Commutes g (k a)) : Commutes g (m >>= k) := by
  intro s
  rw [bind_apply, bind_apply, hm s]
  cases m s with
  | ok a s' => exact hk a s'
  | error e s' => rfl

theorem Commutes.get_bind {k : σ → EStateM ε σ β} (hg : ∀ s, k (g s) = k s)
    (hk : ∀ s, Commutes g (k s)) : Commutes g (get >>= k) := by
  intro s
  rw [bind_ok (get_apply (g s)), bind_ok (get_apply s), hg]
  exact hk s s

/-! ## Programs that respect an equivalence -/

/-- `m` respects `g`: states that `g` does not tell apart give results that it does not tell apart. -/
def Respects (g : σ → σ) (m : EStateM ε σ α) : Prop := ∀ s t, g s = g t → mapState g (m s) = mapState g (m t)

theorem Respects.pure (a : α) : Respects g (pure a : EStateM ε σ α) :=
  fun _ _ h => congrArg (EStateM.Result.ok a) h

theorem Respects.throw (e : ε) : Respects g (throw e : EStateM ε σ α) :=
  fun _ _ h => congrArg (EStateM.Result.error e) h

theorem Respects.modify {h} (hg : ∀ s t, g s = g t → g (h s) = g (h t)) :
    Respects g (modify h : EStateM ε σ PUnit) :=
  fun s t hst => congrArg (EStateM.Result.ok PUnit.unit) (hg s t hst)

theorem Respects.bind {m} {k : α → EStateM ε σ β} (hm : Respects g m)
    (hk : ∀ a, Respects g (k a)) : Respects g (m >>= k) := by
  intro s t hst
  have h := hm s t hst
  rw [bind_apply, bind_apply]
  cases hs : m s with
  | ok a s' =>
    cases ht : m t with
    | ok b t' =>
      simp only [hs, ht, mapState, EStateM.Result.ok.injEq] at h
      obtain ⟨rfl, h⟩ := h; exact hk a s' t' h
    | error e t' => simp only [hs, ht, mapState, reduceCtorEq] at h
  | error e s' =>
    cases ht : m t with
    | ok b t' => simp only [hs, ht, mapState, reduceCtorEq] at h
    | error e' t' => simp only [hs, ht, mapState, EStateM.Result.error.injEq] at h ⊢; exact h

theorem Respects.get_bind {k : σ → EStateM ε σ β} (hg : ∀ s t, g s = g t → k s = k t)
    (hk : ∀ s, Respects g (k s)) : Respects g (get >>= k) := by
  intro s t hst
  rw [bind_ok (get_apply s), bind_ok (get_apply t), hg s t hst]
  exact hk t s t hst

theorem Respects.ite {p : Prop} [Decidable p] {m₁ m₂ : EStateM ε σ α} (h₁ : Respects g m₁)
    (h₂ : Respects g m₂) : Respects g (if p then m₁ else m₂) := by split <;> assumption

theorem Respects.tryCatch {m} {k : ε → EStateM ε σ α} (hm : Respects g m)
    (hk : ∀ e, Respects g (k e)) : Respects g (tryCatch m k) := by
  intro s t hst
  have h := hm s t hst
  rw [tryCatch_apply, tryCatch_apply]
  cases hs : m s with
  | ok a s' =>
    cases ht : m t with
    | ok b t' => simpa only [hs, ht] using h
    | error e t' => simp only [hs, ht, mapState, reduceCtorEq] at h
  | error e s' =>
    cases ht : m t with
    | ok b t' => simp only [hs, ht, mapState, reduceCtorEq] at h
    | error e' t' =>
      simp only [hs, ht, mapState, EStateM.Result.error.injEq] at h
      obtain ⟨rfl, h⟩ := h; exact hk e s' t' h

theorem Respects.ok {m : EStateM ε σ α} (hm : Respects g m) {s t s' : σ} {a : α} (hst : g s = g t)
    (h : m s = .ok a s') : ∃ t', m t = .ok a t' ∧ g s' = g t' := by
  have hr := hm s t hst
  rw [h] at hr
  cases ht : m t with
  | ok b t' => simp only [ht, mapState, EStateM.Result.ok.injEq] at hr; exact ⟨t', by rw [hr.1], hr.2⟩
  | error e t' => simp only [ht, mapState, reduceCtorEq] at hr

end Aranym.Lib
