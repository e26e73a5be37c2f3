import Mathlib.Data.Set.Basic

/-!
# Liveness of state components

A state is a core `κ` and a record `φ` of components, which `get` reads. An analysis gives the set of components that
are live before each instruction; a relaxed execution may leave any value in a component that is not live after the
instruction.
-/

namespace Aranym.Lib

variable {α κ φ ι β : Type}

structure Instr (κ φ : Type) where
  core : κ → φ → κ
  comp : κ → φ → φ

namespace Instr

def fullRun (instr : α → Instr κ φ) : List α → κ × φ → List κ × (κ × φ)
  | [], s => ([], s)
  | a :: l, (c, f) =>
    let (cs, t) := fullRun instr l ((instr a).core c f, (instr a).comp c f)
    ((instr a).core c f :: cs, t)

def Agree (get : φ → ι → β) (L : Set ι) (f g : φ) : Prop := ∀ i ∈ L, get f i = get g i

variable {get : φ → ι → β}

theorem Agree.trans {L f g h} (hfg : Agree get L f g) (hgh : Agree get L g h) : Agree get L f h :=
  fun i hi => (hfg i hi).trans (hgh i hi)

def Sound (get : φ → ι → β) (a : Instr κ φ) (before after : Set ι) : Prop :=
  ∀ c f g, Agree get before f g →
    a.core c f = a.core c g ∧ Agree get after (a.comp c f) (a.comp c g)

inductive RelaxedRun (get : φ → ι → β) (instr : α → Instr κ φ) (live : List α → Set ι) :
    List α → κ × φ → List κ → κ × φ → Prop
  | nil (s : κ × φ) : RelaxedRun get instr live [] s [] s
  | cons {a : α} {l : List α} {c : κ} {f f' : φ} {cs : List κ} {t : κ × φ}
      (hdead : Agree get (live l) ((instr a).comp c f) f')
      (hrest : RelaxedRun get instr live l ((instr a).core c f, f') cs t) :
      RelaxedRun get instr live (a :: l) (c, f) ((instr a).core c f :: cs) t

theorem RelaxedRun.cores_eq {instr} {live : List α → Set ι} {l : List α}
    {s t : κ × φ} {cs : List κ} (hrun : RelaxedRun get instr live l s cs t) :
    (∀ a ∈ l, ∀ l', Sound get (instr a) (live (a :: l')) (live l')) → ∀ f, Agree get (live l) f s.2 →
        (fullRun instr l (s.1, f)).1 = cs ∧ (fullRun instr l (s.1, f)).2.1 = t.1 ∧
          Agree get (live []) (fullRun instr l (s.1, f)).2.2 t.2 := by
  induction hrun with
  | nil s => exact fun _ f hf => ⟨rfl, rfl, hf⟩
  | @cons a l c g g' cs t hdead _ ih =>
    intro hlive f hf
    obtain ⟨hcore, hcomp⟩ := hlive a List.mem_cons_self l c f g hf
    have hnext := ih (fun b hb => hlive b (List.mem_cons_of_mem a hb)) ((instr a).comp c f)
      (hcomp.trans hdead)
    rw [← hcore] at hnext ⊢
    obtain ⟨hcs, ht, hlast⟩ := hnext; exact ⟨congrArg _ hcs, ht, hlast⟩

end Instr

end Aranym.Lib
