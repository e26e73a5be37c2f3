import Mathlib.Logic.Function.Basic

/-!
# Doubly linked lists with back pointers to cells

A list starts in a head variable and runs through the `next` fields of its nodes. Instead of the node before it, each
node records the cell that points to it: the head variable or the `next` field of its predecessor.
-/

namespace Aranym.Lib

open Function

/-- The links of a family of lists with heads `H` and nodes `N`. The cell `inl h` is the head
variable `h`, the cell `inr n` the field `next` of `n`. -/
structure Links (H N : Type) where
  head : H → Option N
  next : N → Option N
  prev : N → Option (H ⊕ N)

namespace Links

variable {H N : Type}

/-- The nodes that a loop `while (x) x = x->next` visits, if it ends within `fuel` rounds. -/
def walk (L : Links H N) : Nat → Option N → Option (List N)
  | _, none => some []
  | 0, some _ => none
  | fuel + 1, some n => (L.walk fuel (L.next n)).map (n :: ·)

/-! ## Adding a node in front -/

def setPrev [DecidableEq N] (L : Links H N) (o : Option N) (c : Option (H ⊕ N)) : Links H N :=
  match o with
  | none => L
  | some n => { L with prev := update L.prev n c }

variable [DecidableEq H] [DecidableEq N]

def push (L : Links H N) (h : H) (n : N) : Links H N :=
  let L₁ := L.setPrev (L.head h) (some (.inr n))
  { head := update L₁.head h (some n)
    next := update L₁.next n (L₁.head h)
    prev := update L₁.prev n (some (.inl h)) }

/-! ## Unlinking a node -/

def store (L : Links H N) (c : H ⊕ N) (v : Option N) : Links H N :=
  match c with
  | .inl h => { L with head := update L.head h v }
  | .inr n => { L with next := update L.next n v }

def unlink (L : Links H N) (n : N) : Links H N :=
  let L₁ := match L.prev n with
    | some c => L.store c (L.next n)
    | none => L
  L₁.setPrev (L₁.next n) (L₁.prev n)

/-! ## Moving a whole list in front of another -/

/-- Put the list of `src`, whose last node is `last`, in front of the list of `dst`. -/
def splice (L : Links H N) (src dst : H) (last : N) : Links H N :=
  let L₁ : Links H N := { L with next := update L.next last (L.head dst) }
  let L₂ := L₁.setPrev (L₁.head dst) (some (.inr last))
  let L₃ : Links H N := { L₂ with head := update L₂.head dst (L₂.head src) }
  let L₄ := L₃.setPrev (L₃.head src) (some (.inl dst))
  { L₄ with head := update L₄.head src none }

end Links

end Aranym.Lib
