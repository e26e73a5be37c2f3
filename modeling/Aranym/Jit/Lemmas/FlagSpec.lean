import Aranym.Cpu.Lemmas.Status
import Aranym.Jit.Lemmas.Flags

/-!
# Flag masks of programs

`FlagSpec dead live m` says that the masks describe `m`: when it completes, a flag in `dead` and not in `live` has
nothing left of its old value, nor does anything else, and a flag outside `dead` is as it was.
-/

namespace Aranym.Jit

open Aranym.Lib Aranym.Cpu Aranym.Mmu

variable {α β : Type}

instance decidableMemFlagSet (f : Flag) (m : BitVec 8) : Decidable (f ∈ flagSet m) :=
  inferInstanceAs (Decidable (m.getLsbD (flagBit f) = true))

structure KeepsOutside (dead : BitVec 8) (m : CpuM α) : Prop where
  run : ∀ f ∉ flagSet dead, ∀ {s t : CpuState} {a : α}, m s = .ok a t →
    t.flags.get f = s.flags.get f

structure FlagSpec (dead live : BitVec 8) (m : CpuM α) : Prop where
  kills : ∀ f ∈ flagSet dead, f ∉ flagSet live → ∀ {s t : CpuState} {a : α}, m s = .ok a t →
    ∀ b, m (s.setFlag f b) = .ok a t
  keeps : KeepsOutside dead m

structure OpSpec (dead live : BitVec 8) (op : FlagOp α) : Prop where
  kills : ∀ f ∈ flagSet dead, f ∉ flagSet live → ∀ g b, op (g.set f b) = op g
  keeps : ∀ f ∉ flagSet dead, ∀ g, (op g).1.get f = g.get f

variable {dead live : BitVec 8}

/-! ## Rules -/

namespace KeepsOutside

theorem of_keepsFlags {m : CpuM α} (hm : KeepsFlags m) : KeepsOutside dead m :=
  ⟨fun f _ {_ _ _} hrun => by rw [hm.run hrun]⟩

theorem bind {m : CpuM α} {k : α → CpuM β} (hm : KeepsOutside dead m)
    (hk : ∀ a, KeepsOutside dead (k a)) : KeepsOutside dead (m >>= k) := by
  refine ⟨fun f hd {s t b} hrun => ?_⟩
  obtain ⟨a, s', h₁, h₂⟩ := bind_ok_inv hrun
  exact ((hk a).run f hd h₂).trans (hm.run f hd h₁)

theorem ite {p : Prop} [Decidable p] {m₁ m₂ : CpuM α} (h₁ : KeepsOutside dead m₁)
    (h₂ : KeepsOutside dead m₂) : KeepsOutside dead (if p then m₁ else m₂) := by split <;> assumption

theorem alu {op : FlagOp α} (hop : OpSpec dead live op) : KeepsOutside dead (alu op) := by
  refine ⟨fun f hd {s t a} hrun => ?_⟩
  cases hrun
  exact hop.keeps f hd s.flags

theorem all (m : CpuM α) : KeepsOutside 0x1f m := by
  refine ⟨fun f hd => ?_⟩
  cases f <;> exact absurd (by decide) hd

end KeepsOutside

namespace FlagSpec

theorem noStatus_bind {m : CpuM α} {k : α → CpuM β} (hm : NoStatus m)
    (hk : ∀ a, FlagSpec dead live (k a)) : FlagSpec dead live (m >>= k) where
  kills := by
    intro f hd hl s t b hrun v
    obtain ⟨a, s', h₁, h₂⟩ := bind_ok_inv hrun
    rw [bind_ok (hm.run_setFlag h₁ f v)]; exact (hk a).kills f hd hl h₂ v
  keeps := .bind (.of_keepsFlags hm.keepsFlags) fun a => (hk a).keeps

theorem genamode {mode reg size getv} {k : Operand → CpuM β} (hk : ∀ a, FlagSpec dead live (k a)) :
    FlagSpec dead live (genamode mode reg size getv >>= k) :=
  noStatus_bind (genamode_noStatus ..) hk

theorem bind {m : CpuM α} {k : α → CpuM β} (hm : FlagSpec dead live m)
    (hk : ∀ a, KeepsOutside dead (k a)) : FlagSpec dead live (m >>= k) where
  kills := by
    intro f hd hl s t b hrun v
    obtain ⟨a, s', h₁, h₂⟩ := bind_ok_inv hrun
    rw [bind_ok (hm.kills f hd hl h₁ v)]; exact h₂
  keeps := .bind hm.keeps hk

theorem bind_keeps {m : CpuM α} {k : α → CpuM β} (hm : FlagSpec dead live m)
    (hk : ∀ a, KeepsFlags (k a)) : FlagSpec dead live (m >>= k) := hm.bind fun a => .of_keepsFlags (hk a)

theorem get_bind {k : CpuState → CpuM β} (hg : ∀ {s f b}, k (s.setFlag f b) = k s)
    (hk : ∀ s, FlagSpec dead live (k s)) : FlagSpec dead live (get >>= k) where
  kills := by
    intro f hd hl s t b hrun v
    rw [bind_ok (get_apply _)] at hrun ⊢
    rw [hg]; exact (hk s).kills f hd hl hrun v
  keeps := ⟨fun f hd {_ _ _} hrun => (hk _).keeps.run f hd hrun⟩

theorem throw (e : Trap) : FlagSpec dead live (throw e : CpuM α) where
  kills := by
    intro f hd hl s t a hrun; cases hrun
  keeps := .of_keepsFlags (.throw e)

theorem ite {p : Prop} [Decidable p] {m₁ m₂ : CpuM α} (h₁ : FlagSpec dead live m₁)
    (h₂ : FlagSpec dead live m₂) : FlagSpec dead live (if p then m₁ else m₂) := by split <;> assumption

theorem alu {op : FlagOp α} (hop : OpSpec dead live op) : FlagSpec dead live (alu op) where
  kills := by
    intro f hd hl s t a hrun b
    have hflags := hop.kills f hd hl s.flags b
    cases hrun
    change EStateM.Result.ok (op (s.flags.set f b)).2
      { s with flags := (op (s.flags.set f b)).1 } = _
    rw [hflags]
  keeps := .alu hop

theorem of_keepsFlags {m : CpuM α} (hm : KeepsFlags m) : FlagSpec 0 live m where
  kills := by
    intro f hd; cases f <;> exact absurd hd (by decide)
  keeps := .of_keepsFlags hm

theorem all (m : CpuM α) : FlagSpec 0x1f 0x1f m where
  kills := by
    intro f _ hl; cases f <;> exact absurd (by decide) hl
  keeps := .all m

theorem mono {m : CpuM α} {live' : BitVec 8} (hm : FlagSpec dead live m)
    (h : live &&& ~~~live' = 0) : FlagSpec dead live' m where
  kills := by
    intro f hd hl
    refine hm.kills f hd fun hf => ?_
    have hmem : f ∈ flagSet (live &&& ~~~live') :=
      mem_flagSet_and.mpr ⟨hf, mem_flagSet_not.mpr hl⟩
    rw [h] at hmem; cases f <;> exact absurd hmem (by decide)
  keeps := hm.keeps

end FlagSpec

theorem KeepsFlags.alu {op : FlagOp α} (hop : ∀ g, (op g).1 = g) : KeepsFlags (Cpu.alu op) := by
  refine ⟨fun {s t a} hrun => ?_⟩
  cases hrun
  exact hop s.flags

end Aranym.Jit
