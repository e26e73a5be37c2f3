import Aranym.Hostfs.Defs

/-!
# The tree of cookies

What the counters of the nodes say, and that each change to the tree keeps it.
-/

namespace Aranym.Hostfs

open Aranym.Lib List

/-! ## Chains of parents -/

inductive Chain (s : State) : Nat → List Nat → Prop
  | root {p : Nat} : p ∈ s.live → (s.file p).parent = none → Chain s p [p]
  | child {p q : Nat} {l : List Nat} :
      p ∈ s.live → (s.file p).parent = some q → Chain s q l → Chain s p (p :: l)

variable {s t : State} {held l l' : List Nat} {p q fs : Nat} {f : XfsFsFile}

theorem Chain.live (h : Chain s p l) : p ∈ s.live := by
  cases h with
  | root hp _ => exact hp
  | child hp _ _ => exact hp

theorem Chain.subset (h : Chain s p l) : ∀ q ∈ l, q ∈ s.live := by
  induction h with
  | root hp _ => exact forall_mem_singleton.mpr hp
  | child hp _ _ ih => exact forall_mem_cons.mpr ⟨hp, ih⟩

theorem Chain.unique (h : Chain s p l) (h' : Chain s p l') : l = l' := by
  induction h generalizing l' with
  | root _ hroot =>
    cases h' with
    | root _ _ => rfl
    | child _ hparent _ => rw [hroot] at hparent; cases hparent
  | child _ hparent _ ih =>
    cases h' with
    | root _ hroot => rw [hroot] at hparent; cases hparent
    | child _ hparent' hrest => rw [hparent] at hparent'; cases hparent'; rw [ih hrest]

theorem Chain.of_mem (h : Chain s p l) (hq : q ∈ l) : ∃ l', Chain s q l' ∧ l'.length ≤ l.length := by
  induction h with
  | root hp hroot => obtain rfl := mem_singleton.mp hq; exact ⟨_, .root hp hroot, le_rfl⟩
  | child hp hparent hrest ih =>
    rcases mem_cons.mp hq with rfl | hq
    · exact ⟨_, .child hp hparent hrest, le_rfl⟩
    · obtain ⟨l', hl', hle⟩ := ih hq; exact ⟨l', hl', hle.trans (Nat.le_succ _)⟩

theorem Chain.nodup (h : Chain s p l) : l.Nodup := by
  induction h with
  | root _ _ => exact nodup_singleton _
  | child hp hparent hrest ih =>
    refine nodup_cons.mpr ⟨fun hmem => ?_, ih⟩
    obtain ⟨l', hl', hle⟩ := hrest.of_mem hmem
    rw [← (Chain.child hp hparent hrest).unique hl', length_cons] at hle; omega

theorem Chain.length_le (h : Chain s p l) : l.length ≤ s.live.card := by
  rw [← toFinset_card_of_nodup h.nodup]
  exact Finset.card_le_card fun q hq => h.subset q (mem_toFinset.mp hq)

theorem Chain.congr (h : Chain s p l) (hlive : ∀ q ∈ l, q ∈ t.live)
    (hparent : ∀ q ∈ l, (t.file q).parent = (s.file q).parent) : Chain t p l := by
  induction h with
  | root _ hroot => exact .root (hlive _ (mem_singleton.mpr rfl)) (by rw [hparent _ (mem_singleton.mpr rfl), hroot])
  | child _ hp _ ih =>
    rw [forall_mem_cons] at hlive hparent
    exact .child hlive.1 (hparent.1.trans hp) (ih hlive.2 hparent.2)

/-! ## Counters -/

def State.children (s : State) (p : Nat) : Nat := (s.live.filter fun q => (s.file q).parent = some p).card

structure Balanced (s : State) (held : List Nat) : Prop where
  refs : ∀ p ∈ s.live, (s.file p).refCount.toNat = held.count p
  childs : ∀ p ∈ s.live, (s.file p).childCount.toNat = s.children p
  held_live : ∀ p ∈ held, p ∈ s.live
  chained : ∀ p ∈ s.live, ∃ l, Chain s p l

def Used (s : State) (held : List Nat) (p : Nat) : Prop := held.count p ≠ 0 ∨ s.children p ≠ 0

structure Consistent (s : State) (held : List Nat) : Prop extends Balanced s held where
  used : ∀ p ∈ s.live, Used s held p

theorem State.children_pos (hp : p ∈ s.live) (hparent : (s.file p).parent = some q) : 0 < s.children q :=
  Finset.card_pos.mpr ⟨p, Finset.mem_filter.mpr ⟨hp, hparent⟩⟩

theorem Balanced.parent_live (h : Balanced s held) (hp : p ∈ s.live) (hparent : (s.file p).parent = some q) :
    q ∈ s.live := by
  obtain ⟨l, hl⟩ := h.chained p hp
  cases hl with
  | root _ hroot => rw [hroot] at hparent; cases hparent
  | child _ hq hrest => rw [hq] at hparent; cases hparent; exact hrest.live

theorem Balanced.free (h : Balanced s held) (hp : p ∉ s.live) : held.count p = 0 ∧ s.children p = 0 := by
  refine ⟨count_eq_zero.mpr fun hmem => hp (h.held_live p hmem), ?_⟩
  rw [State.children, Finset.card_eq_zero, Finset.filter_eq_empty_iff]
  exact fun q hq hparent => hp (h.parent_live hq hparent)

theorem Consistent.live_iff (h : Consistent s held) : p ∈ s.live ↔ Used s held p := by
  refine ⟨h.used p, fun hused => ?_⟩
  by_contra hp
  obtain ⟨hcount, hchildren⟩ := h.free hp
  exact hused.elim (absurd hcount) (absurd hchildren)

/-! ## Changes to the tree -/

@[simp] theorem file_store_self (s : State) (p : Nat) (f : XfsFsFile) : (s.store p f).file p = f := by
  simp [State.store]

@[simp] theorem file_store_ne (s : State) (f : XfsFsFile) (h : q ≠ p) : (s.store p f).file q = s.file q := by
  simp [State.store, h]

@[simp] theorem file_new (s : State) (p : Nat) (f : XfsFsFile) : (s.new p f).file = (s.store p f).file := rfl

@[simp] theorem file_delete (s : State) (p : Nat) : (s.delete p).file = s.file := rfl

section store

variable (hparent : f.parent = (s.file p).parent)

include hparent

theorem parent_store (q : Nat) : ((s.store p f).file q).parent = (s.file q).parent := by
  rcases eq_or_ne q p with rfl | hne
  · rw [file_store_self, hparent]
  · rw [file_store_ne s f hne]

theorem children_store (q : Nat) : (s.store p f).children q = s.children q := by
  simp only [State.children, parent_store hparent]
  rfl

theorem Chain.store (h : Chain s q l) : Chain (s.store p f) q l :=
  h.congr h.subset fun r _ => parent_store hparent r

end store

theorem Consistent.again (h : Consistent s held) (hp : p ∈ s.live) (hroom : held.count p < 2 ^ 32 - 1)
    (hf : f = { s.file p with refCount := (s.file p).refCount + 1 }) :
    Consistent (s.store p f) (p :: held) := by
  have hparent : f.parent = (s.file p).parent := by rw [hf]
  refine ⟨⟨fun q hq => ?_, fun q hq => ?_, ?_, fun q hq => ?_⟩, fun q hq => ?_⟩
  · rcases eq_or_ne q p with rfl | hne
    · rw [file_store_self, hf, count_cons_self, ← h.refs q hp]
      rw [← h.refs q hp] at hroom; exact BitVec.toNat_add_of_lt (by simp; omega)
    · rw [file_store_ne s f hne, count_cons_of_ne hne.symm]; exact h.refs q hq
  · rw [children_store hparent]
    rcases eq_or_ne q p with rfl | hne
    · rw [file_store_self, hf]; exact h.childs q hp
    · rw [file_store_ne s f hne]; exact h.childs q hq
  · exact forall_mem_cons.mpr ⟨hp, h.held_live⟩
  · obtain ⟨l, hl⟩ := h.chained q hq; exact ⟨l, hl.store hparent⟩
  · rw [Used, children_store hparent, count_cons]; exact (h.used q hq).imp_left (by omega)

structure Grown (s t : State) (p : Nat) : Prop where
  live : t.live = insert p s.live
  refCount : (t.file p).refCount = 1
  childCount : (t.file p).childCount = 0
  parent : ∀ q, (t.file p).parent = some q → q ∈ s.live
  refs : ∀ q ∈ s.live, (t.file q).refCount = (s.file q).refCount
  parents : ∀ q ∈ s.live, (t.file q).parent = (s.file q).parent
  childs : ∀ q ∈ s.live, (t.file q).childCount.toNat =
    (s.file q).childCount.toNat + if (t.file p).parent = some q then 1 else 0

theorem Grown.children (h : Grown s t p) (hp : p ∉ s.live) (q : Nat) :
    t.children q = s.children q + if (t.file p).parent = some q then 1 else 0 := by
  have hold : (s.live.filter fun r => (t.file r).parent = some q) =
      s.live.filter fun r => (s.file r).parent = some q :=
    Finset.filter_congr fun r hr => by rw [h.parents r hr]
  rw [State.children, h.live, Finset.filter_insert, hold]
  split
  · rw [Finset.card_insert_of_notMem fun hmem => hp (Finset.mem_of_mem_filter p hmem)]; rfl
  · rfl

theorem Consistent.grown (h : Consistent s held) (hg : Grown s t p) (hp : p ∉ s.live) :
    Consistent t (p :: held) := by
  obtain ⟨hcount, hchildren⟩ := h.free hp
  have hcases : ∀ q ∈ t.live, q = p ∨ q ∈ s.live ∧ q ≠ p := fun q hq => by
    rw [hg.live, Finset.mem_insert] at hq
    exact hq.imp_right fun hmem => ⟨hmem, ne_of_mem_of_not_mem hmem hp⟩
  have hsub : ∀ q ∈ s.live, q ∈ t.live := fun q hq => hg.live ▸ Finset.mem_insert_of_mem hq
  have hnew : p ∈ t.live := hg.live ▸ Finset.mem_insert_self p s.live
  have hself : (t.file p).parent ≠ some p := fun hparent => hp (hg.parent p hparent)
  have hchain : ∀ {q l}, Chain s q l → Chain t q l := fun hl =>
    hl.congr (fun r hr => hsub r (hl.subset r hr)) fun r hr => hg.parents r (hl.subset r hr)
  refine ⟨⟨fun q hq => ?_, fun q hq => ?_, ?_, fun q hq => ?_⟩, fun q hq => ?_⟩
  · rcases hcases q hq with rfl | ⟨hq, hne⟩
    · rw [hg.refCount, count_cons_self, hcount]; rfl
    · rw [hg.refs q hq, count_cons_of_ne hne.symm, h.refs q hq]
  · rw [hg.children hp]
    rcases hcases q hq with rfl | ⟨hq, hne⟩
    · rw [hg.childCount, if_neg hself, hchildren]; rfl
    · rw [hg.childs q hq, h.childs q hq]
  · exact forall_mem_cons.mpr ⟨hnew, fun q hq => hsub q (h.held_live q hq)⟩
  · rcases hcases q hq with rfl | ⟨hq, hne⟩
    · cases hparent : (t.file q).parent with
      | none => exact ⟨_, .root hnew hparent⟩
      | some r =>
        obtain ⟨l, hl⟩ := h.chained r (hg.parent r hparent)
        exact ⟨_, .child hnew hparent (hchain hl)⟩
    · obtain ⟨l, hl⟩ := h.chained q hq; exact ⟨l, hchain hl⟩
  · rw [Used, hg.children hp]
    rcases hcases q hq with rfl | ⟨hq, hne⟩
    · rw [count_cons_self]; exact .inl (Nat.succ_ne_zero _)
    · rw [count_cons_of_ne hne.symm]; exact (h.used q hq).imp_right (by omega)

theorem grown_root (hp : p ∉ s.live) (hroot : f.parent = none) (href : f.refCount = 1) (hchild : f.childCount = 0) :
    Grown s (s.new p f) p := by
  have hold : ∀ q ∈ s.live, (s.new p f).file q = s.file q := fun q hq => by
    rw [file_new, file_store_ne s f (ne_of_mem_of_not_mem hq hp)]
  refine ⟨rfl, ?_, ?_, ?_, fun q hq => by rw [hold q hq], fun q hq => by rw [hold q hq], fun q hq => ?_⟩
  · rw [file_new, file_store_self, href]
  · rw [file_new, file_store_self, hchild]
  · intro q hq; rw [file_new, file_store_self, hroot] at hq; cases hq
  · rw [hold q hq, file_new, file_store_self, hroot, if_neg (by simp), Nat.add_zero]

theorem grown_child (hp : p ∉ s.live) (hq : q ∈ s.live) (hroom : (s.file q).childCount.toNat < 2 ^ 32 - 1)
    {g} (hg : g = { s.file q with childCount := (s.file q).childCount + 1 }) (hf : f.parent = some q)
    (href : f.refCount = 1) (hchild : f.childCount = 0) : Grown s ((s.store q g).new p f) p := by
  have hold : ∀ r ∈ s.live, ((s.store q g).new p f).file r = if r = q then g else s.file r := fun r hr => by
    rw [file_new, file_store_ne _ f (ne_of_mem_of_not_mem hr hp)]
    rcases eq_or_ne r q with rfl | hne
    · rw [file_store_self, if_pos rfl]
    · rw [file_store_ne s g hne, if_neg hne]
  have hnew : ((s.store q g).new p f).file p = f := by rw [file_new, file_store_self]
  refine ⟨rfl, by rw [hnew, href], by rw [hnew, hchild], ?_, fun r hr => ?_, fun r hr => ?_, fun r hr => ?_⟩
  · intro r hr; rw [hnew, hf] at hr; cases hr; exact hq
  · rw [hold r hr]
    split
    · next heq => rw [hg, heq]
    · rfl
  · rw [hold r hr]
    split
    · next heq => rw [hg, heq]
    · rfl
  · rw [hold r hr, hnew, hf]
    rcases eq_or_ne r q with rfl | hne
    · rw [if_pos rfl, if_pos rfl, hg]; exact BitVec.toNat_add_of_lt (by simp; omega)
    · rw [if_neg hne, if_neg (by simpa using hne.symm), Nat.add_zero]

/-! ## Deleting nodes -/

def State.dropChild (s : State) : Option Nat → State
  | none => s
  | some q => s.store q { s.file q with childCount := (s.file q).childCount - 1 }

@[simp] theorem live_dropChild (s : State) (q : Option Nat) : (s.dropChild q).live = s.live := by
  cases q <;> rfl

theorem parent_dropChild (s : State) (q : Option Nat) (r : Nat) :
    ((s.dropChild q).file r).parent = (s.file r).parent := by
  cases q with
  | none => rfl
  | some q => rw [State.dropChild]; exact parent_store (by rfl) r

theorem refCount_dropChild (s : State) (q : Option Nat) (r : Nat) :
    ((s.dropChild q).file r).refCount = (s.file r).refCount := by
  cases q with
  | none => rfl
  | some q =>
    rcases eq_or_ne r q with rfl | hne
    · rw [State.dropChild, file_store_self]
    · rw [State.dropChild, file_store_ne _ _ hne]

theorem childCount_dropChild_ne (s : State) {q r} (h : q ≠ some r) :
    ((s.dropChild q).file r).childCount = (s.file r).childCount := by
  cases q with
  | none => rfl
  | some q => rw [State.dropChild, file_store_ne _ _ (by simpa using h.symm)]

theorem childCount_dropChild_self (s : State) (r : Nat) :
    ((s.dropChild (some r)).file r).childCount = (s.file r).childCount - 1 := by
  rw [State.dropChild, file_store_self]

theorem Chain.children_pos (h : Chain s q l) (hp : p ∈ l) : p = q ∨ 0 < s.children p := by
  induction h with
  | root _ _ => exact .inl (mem_singleton.mp hp)
  | child hlive hparent hrest ih =>
    rcases mem_cons.mp hp with rfl | hp
    · exact .inl rfl
    · rcases ih hp with rfl | hpos
      · exact .inr (State.children_pos hlive hparent)
      · exact .inr hpos

section delete

variable (h : Balanced s held) (hp : p ∈ s.live) (hcount : held.count p = 0) (hchildren : s.children p = 0)

include hp in
theorem children_delete (q : Nat) : ((s.dropChild (s.file p).parent).delete p).children q =
    s.children q - if (s.file p).parent = some q then 1 else 0 := by
  have hfilter : ((s.live.erase p).filter fun r => (s.file r).parent = some q) =
      (s.live.filter fun r => (s.file r).parent = some q).erase p := Finset.filter_erase _ _ _
  simp only [State.children, State.delete, live_dropChild, parent_dropChild, hfilter]
  split
  · next hparent => rw [Finset.card_erase_of_mem (Finset.mem_filter.mpr ⟨hp, hparent⟩)]
  · next hparent =>
    have hmem : p ∉ s.live.filter fun r => (s.file r).parent = some q := by simp [hparent]
    rw [Finset.erase_eq_of_notMem hmem, Nat.sub_zero]

include h hp hcount hchildren in
theorem Balanced.delete : Balanced ((s.dropChild (s.file p).parent).delete p) held := by
  refine ⟨fun q hq => ?_, fun q hq => ?_, fun q hq => ?_, fun q hq => ?_⟩
  · rw [file_delete, refCount_dropChild]; exact h.refs q (by simpa using Finset.mem_of_mem_erase hq)
  · have hq' : q ∈ s.live := by simpa using Finset.mem_of_mem_erase hq
    rw [children_delete hp, file_delete]
    split
    · next hparent =>
      have hpos := State.children_pos hp hparent
      rw [hparent, childCount_dropChild_self, ← h.childs q hq']
      rw [← h.childs q hq'] at hpos
      exact BitVec.toNat_sub_of_le (by rw [BitVec.le_def]; exact hpos)
    · next hparent => rw [childCount_dropChild_ne s hparent, Nat.sub_zero, h.childs q hq']
  · have hne : q ≠ p := by rintro rfl; exact count_eq_zero.mp hcount hq
    simpa [State.delete] using ⟨hne, h.held_live q hq⟩
  · obtain ⟨hne, hq'⟩ := Finset.mem_erase.mp hq
    obtain ⟨l, hl⟩ := h.chained q (by simpa using hq')
    refine ⟨l, hl.congr (fun r hr => ?_) fun r _ => by rw [file_delete, parent_dropChild]⟩
    have hr' : r ≠ p := by
      rintro rfl
      rcases hl.children_pos hr with heq | hpos
      · exact hne heq.symm
      · omega
    simpa [State.delete] using ⟨hr', hl.subset r hr⟩

end delete

def State.released (s : State) : List Nat → State
  | [] => s
  | p :: l =>
    if (s.file p).refCount = 0 ∧ (s.file p).childCount = 0 then
      ((s.dropChild l.head?).released l).delete p
    else s

theorem released_delete (s : State) (l : List Nat) : (s.delete p).released l = (s.released l).delete p := by
  induction l generalizing s with
  | nil => rfl
  | cons q l ih =>
    have hdrop : (s.delete p).dropChild l.head? = (s.dropChild l.head?).delete p := by cases l.head? <;> rfl
    rw [State.released, State.released, file_delete, hdrop, ih]
    split
    · rw [State.delete, State.delete, State.delete, State.delete]; simp only [Finset.erase_right_comm]
    · rfl

theorem mem_live_released (hq : q ∈ s.live) (hl : q ∉ l) : q ∈ (s.released l).live := by
  induction l generalizing s with
  | nil => exact hq
  | cons p l ih =>
    rw [mem_cons, not_or] at hl
    rw [State.released]
    split
    · exact Finset.mem_erase.mpr ⟨hl.1, ih (by simpa using hq) hl.2⟩
    · exact hq

theorem Chain.head? (h : Chain s p l) : l.head? = some p := by cases h <;> rfl

theorem load_apply (hp : p ∈ s.live) : load p s = .ok (s.file p) s := by simp [load, bind_apply, hp]

theorem delete_apply (hp : p ∈ s.live) : delete p s = .ok ⟨⟩ (s.delete p) := by
  rw [delete, bind_ok (load_apply hp), modify_apply]

theorem freefs_eq (hl : Chain s p l) {fuel} (hfuel : l.length ≤ fuel) :
    freefs fuel p s = .ok ⟨⟩ (s.released l) := by
  induction l generalizing s p fuel with
  | nil => cases hl
  | cons r l ih =>
    obtain ⟨fuel, rfl⟩ : ∃ n, fuel = n + 1 := ⟨fuel - 1, by rw [length_cons] at hfuel; omega⟩
    rw [length_cons] at hfuel
    have hnodup := (nodup_cons.mp hl.nodup).1
    cases hl with
    | root hp hroot =>
      rw [freefs, bind_ok (load_apply hp), State.released]
      split
      · rw [hroot]; exact delete_apply hp
      · rfl
    | @child _ q _ hp hparent hrest =>
      have hdrop : Chain (s.dropChild (some q)) q l := hrest.congr
        (fun q hq => by simpa using hrest.subset q hq) fun q _ => parent_dropChild s _ q
      have hfree : freefs fuel q (s.dropChild (some q)) = .ok ⟨⟩ ((s.dropChild (some q)).released l) :=
        ih hdrop (Nat.le_of_succ_le_succ hfuel)
      have hlive : r ∈ ((s.dropChild (some q)).released l).live :=
        mem_live_released (by simpa using hp) hnodup
      rw [freefs, bind_ok (load_apply hp), State.released, hrest.head?]
      split
      · rw [hparent]
        have hstore : store q { s.file q with childCount := (s.file q).childCount - 1 } s =
            .ok ⟨⟩ (s.dropChild (some q)) := rfl
        simp only [bind_ok (load_apply hrest.live)]
        rw [bind_ok hstore, bind_ok hfree, delete_apply hlive]
      · rfl

theorem toNat_eq_zero {x : BitVec 32} : x.toNat = 0 ↔ x = 0 := by
  rw [← BitVec.toNat_inj]
  rfl

theorem Balanced.released (h : Balanced s held) (hl : Chain s p l)
    (hused : ∀ q ∈ s.live, q ≠ p → Used s held q) : Consistent (s.released l) held := by
  induction l generalizing s p with
  | nil => cases hl
  | cons r l ih =>
    have hnodup := (nodup_cons.mp hl.nodup).1
    obtain rfl : r = p := by simpa using hl.head?
    have hp : r ∈ s.live := hl.live
    rw [State.released]
    split
    · next hzero =>
      have hcount : held.count r = 0 := by rw [← h.refs r hp, toNat_eq_zero, hzero.1]
      have hchildren : s.children r = 0 := by rw [← h.childs r hp, toNat_eq_zero, hzero.2]
      have hdelete := h.delete hp hcount hchildren
      rw [← released_delete]
      cases hl with
      | root _ hroot =>
        rw [hroot] at hdelete
        refine ⟨hdelete, fun q hq => ?_⟩
        obtain ⟨hne, hq'⟩ := Finset.mem_erase.mp hq
        have hsame := children_delete hp q
        rw [hroot, if_neg (by simp), Nat.sub_zero] at hsame
        rw [Used, List.head?_nil, State.released, hsame]; exact hused q hq' hne
      | @child _ q _ _ hparent hrest =>
        rw [hparent] at hdelete
        rw [hrest.head?]
        refine ih hdelete (hrest.congr (fun t ht => ?_) fun t _ => by rw [file_delete, parent_dropChild]) ?_
        · simpa [State.delete] using ⟨ne_of_mem_of_not_mem ht hnodup, hrest.subset t ht⟩
        · intro t ht hne
          obtain ⟨hne', ht'⟩ := Finset.mem_erase.mp ht
          have hsame := children_delete hp t
          rw [hparent, if_neg (by simpa using hne.symm)] at hsame
          rw [Used, hsame, Nat.sub_zero]; exact hused t (by simpa using ht') hne'
    · next hnonzero =>
      refine ⟨h, fun q hq => ?_⟩
      rcases eq_or_ne q r with rfl | hne
      · rw [not_and_or, ← toNat_eq_zero, ← toNat_eq_zero, h.refs q hp, h.childs q hp] at hnonzero
        exact hnonzero
      · exact hused q hq hne

theorem Balanced.dropCookie (h : Balanced s held) (hp : p ∈ held)
    (hf : f = { s.file p with refCount := (s.file p).refCount - 1 }) : Balanced (s.store p f) (held.erase p) := by
  have hparent : f.parent = (s.file p).parent := by rw [hf]
  have hlive := h.held_live p hp
  have hpos : 0 < held.count p := count_pos_iff.mpr hp
  refine ⟨fun q hq => ?_, fun q hq => ?_, fun q hq => ?_, fun q hq => ?_⟩
  · rcases eq_or_ne q p with rfl | hne
    · rw [file_store_self, hf, count_erase_self, ← h.refs q hlive]
      rw [← h.refs q hlive] at hpos
      exact BitVec.toNat_sub_of_le (by rw [BitVec.le_def]; exact hpos)
    · rw [file_store_ne s f hne, count_erase_of_ne hne]; exact h.refs q hq
  · rw [children_store hparent]
    rcases eq_or_ne q p with rfl | hne
    · rw [file_store_self, hf]; exact h.childs q hlive
    · rw [file_store_ne s f hne]; exact h.childs q hq
  · exact h.held_live q (mem_of_mem_erase hq)
  · obtain ⟨l, hl⟩ := h.chained q hq; exact ⟨l, hl.store hparent⟩

theorem xfsRelease_consistent (h : Consistent s held) (hp : p ∈ held) :
    ∃ t, xfsRelease p s = .ok true t ∧ Consistent t (held.erase p) := by
  have hlive := h.held_live p hp
  have hpos : 0 < held.count p := count_pos_iff.mpr hp
  have href : (s.file p).refCount ≠ 0 := by rw [Ne, ← toNat_eq_zero, h.refs p hlive]; omega
  have hparent : { s.file p with refCount := (s.file p).refCount - 1 }.parent = (s.file p).parent := rfl
  have hbalanced := h.dropCookie hp rfl
  obtain ⟨l, hl⟩ := hbalanced.chained p hlive
  refine ⟨_, ?_, hbalanced.released hl fun q hq hne => ?_⟩
  · rw [xfsRelease, bind_ok (load_apply hlive), if_neg href]; exact bind_ok (freefs_eq hl hl.length_le)
  · rw [Used, count_erase_of_ne hne, children_store hparent]; exact h.used q hq

end Aranym.Hostfs
