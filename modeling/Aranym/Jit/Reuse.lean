import Aranym.Jit.Checksums

/-!
# Blocks after a lazy flush

A lazy flush leads all ways into an active block to a stub, and a check undoes this or discards the block. So a block is
entered by its own code only while it is active.

Source: `compemu_support.cpp`.
-/

namespace Aranym.Jit.Blocks

open Aranym.Lib Function

variable {K : Config} {s t : State} {b c : BlockPtr} {fuel : Nat} {good : Bool}

/-! ## Functions that leave the blocks alone -/

/-- What a check looks at. -/
def blocks (s : State) : (BlockPtr → Blockinfo) × Memory 32 := (s.bi, s.ram)

theorem tagBi_keeps (i : Nat) : Keeps blocks (tagBi i) := .bind .get fun _ => .ite (.pure _) (.throw _)

theorem setTagHandler_keeps (i : Nat) (h : CodePtr) : Keeps blocks (setTagHandler i h) :=
  .ite (.modify fun _ => rfl) (.throw _)

theorem doIf_setTagHandler_keeps (p : Prop) [Decidable p] (i : Nat) (h : CodePtr) :
    Keeps blocks (doIf p (setTagHandler i h)) := .ite (setTagHandler_keeps i h) (.pure _)

theorem raiseInClList_keeps : Keeps blocks (raiseInClList K b) := by
  refine .bind (.bind .get fun _ => .bind (.modify fun _ => rfl) fun _ => ?_)
    fun _ => .bind .get fun _ => .bind (tagBi_keeps _) fun _ => .bind (.modify fun _ => rfl) fun _ => ?_
  · exact .bind (tagBi_keeps _) fun _ => .bind .get fun _ => setTagHandler_keeps _ _
  · exact setTagHandler_keeps _ _

theorem ends_of_keeps {α : Type} {m : M α} (h : Keeps blocks m) (s : State) :
    Ends (fun _ => True) m s fun _ t => t.bi = s.bi ∧ t.ram = s.ram := by
  unfold Ends
  cases hm : m s with
  | ok _ t => exact Prod.mk.inj (h.ok hm)
  | error e t => trivial

/-! ## Functions that change one block -/

/-- `m` changes the record of `b` by `f`, if it returns, and no other record. -/
def Changes (b : BlockPtr) (f : Blockinfo → Blockinfo) (m : M Unit) : Prop :=
  ∀ s, Ends (fun _ => True) m s fun _ t => t.bi = update s.bi b (f (s.bi b)) ∧ t.ram = s.ram

/-- Where the jumps are that lead to the block from others. -/
def State.jumps (s : State) (b : BlockPtr) : List CodePtr :=
  ((s.deps.walk (2 * s.poolEnd) (s.deps.head b)).getD []).filterMap fun d => (s.dep d).jmpOff

theorem long_adjustJmpdep {dep : DepPtr → Dependency} {l : List DepPtr} {dh x : CodePtr}
    (h : ∀ y ∈ l.filterMap fun d => (dep d).jmpOff, y = x ∨ CodeMem.Apart y x) (code : CodeMem) :
    (l.foldl (adjustJmpdep dep dh) code).long x =
      if x ∈ l.filterMap fun d => (dep d).jmpOff then displacement x dh else code.long x := by
  induction l generalizing code with
  | nil => rfl
  | cons d l ih =>
    rw [List.foldl_cons]
    cases hd : (dep d).jmpOff with
    | none =>
      rw [List.filterMap_cons_none (f := fun d => (dep d).jmpOff) hd] at h ⊢
      rw [ih h, adjustJmpdep, hd]
    | some y =>
      rw [List.filterMap_cons_some (f := fun d => (dep d).jmpOff) hd] at h ⊢
      obtain ⟨hy, hl⟩ := List.forall_mem_cons.mp h
      rw [ih hl, adjustJmpdep, hd]
      rcases hy with rfl | hapart
      · simp only [writeJmpTarget, CodeMem.long_put_self, ite_self, List.mem_cons_self, if_true]
      · have hne : x ≠ y := by rintro rfl; unfold CodeMem.Apart at hapart; omega
        simp only [writeJmpTarget, CodeMem.long_put_of_apart hapart, List.mem_cons, hne, false_or]

/-- The jumps of other blocks lead to `direct_handler_to_use`. -/
def State.Linked (s : State) (b : BlockPtr) : Prop :=
  ∀ a ∈ s.jumps b, s.code.long a = displacement a (s.bi b).directHandlerToUse

/-- The jumps to the block have been turned to `dh`, and what does not overlap with them is as before. -/
def Turned (s : State) (b : BlockPtr) (dh : CodePtr) (code : CodeMem) : Prop :=
  ∀ x, (∀ y ∈ s.jumps b, y = x ∨ CodeMem.Apart y x) →
    code.long x = if x ∈ s.jumps b then displacement x dh else s.code.long x

theorem setDhtu_ends (dh : CodePtr) (s : State) : Ends (fun _ => True) (setDhtu b dh) s fun _ t =>
    ∃ code, t = { s with bi := update s.bi b { s.bi b with directHandlerToUse := dh }, code } ∧
      (s.Linked b → Turned s b dh code) := by
  refine .get_bind (.doIf (fun _ => ?_) fun hsame => ?_)
  · split
    · exact .throw trivial
    · next l hl =>
      refine .modify_bind (.modify ⟨_, rfl, fun _ x hx => ?_⟩)
      simp only [State.jumps, hl, Option.getD_some] at hx ⊢
      exact long_adjustJmpdep hx s.code
  · obtain rfl := not_not.mp hsame
    refine ⟨s.code, by rw [update_eq_self], fun hlinked x _ => ?_⟩
    split
    · next hx => exact hlinked x hx
    · rfl

theorem setDhtu_changes (dh : CodePtr) : Changes b (fun bi => { bi with directHandlerToUse := dh }) (setDhtu b dh) := by
  intro s
  refine (setDhtu_ends dh s).mono fun _ t ⟨code, ht, _⟩ => ?_
  rw [ht]
  exact ⟨rfl, rfl⟩

/-- The block as `invalidate_block` leaves it. -/
def discarded (K : Config) (bi : Blockinfo) : Blockinfo :=
  { bi with
    optlevel := 0, count := optcount 0 - 1, handler := 0, handlerToUse := K.popallExecuteNormal, directHandler := 0,
    directHandlerToUse := bi.directPen, status := .invalid }

theorem invalidateBlock_changes : Changes b (discarded K) (invalidateBlock K b) := by
  intro s
  refine .modify_bind (.get_bind (.bind ((setDhtu_changes _ _).mono fun _ t ⟨ht, hram⟩ => ?_)))
  refine .modify_bind (.modify_bind (.modify_bind (.modify_bind (.modify ⟨?_, hram⟩))))
  simp only [ht, update_self, update_idem]
  rfl

/-- The block as the lazy flush leaves it. -/
def flushed (K : Config) (bi : Blockinfo) : Blockinfo :=
  if bi.status = .invalid ∨ bi.status = .needRecomp then
    { bi with handlerToUse := K.popallExecuteNormal, directHandlerToUse := bi.directPen, status := .invalid }
  else { bi with handlerToUse := K.popallCheckChecksum, directHandlerToUse := bi.directPcc, status := .needCheck }

/-- The tag of the line of `b`, if `b` is the first block there. -/
def State.tagged (s : State) (b : BlockPtr) (h : CodePtr) : Nat → CodePtr :=
  if s.lines.head (cacheline (s.bi b).pcP + 1) = some b then update s.handler (cacheline (s.bi b).pcP) h else s.handler

theorem lazyBlock_ends (s : State) : Ends (fun _ => True) (lazyBlock K b) s fun _ t =>
    ∃ code, t = { s with
        bi := update s.bi b (flushed K (s.bi b)), handler := s.tagged b (flushed K (s.bi b)).handlerToUse, code } ∧
      (s.Linked b → Turned s b (flushed K (s.bi b)).directHandlerToUse code) := by
  have htag (h : CodePtr) : Ends (fun _ => True) (doIf (s.lines.head (cacheline (s.bi b).pcP + 1) = some b)
      (setTagHandler (cacheline (s.bi b).pcP) h)) s fun _ t => t = { s with handler := s.tagged b h } := by
    refine .doIf (fun hfirst => .ite (fun _ => ?_) fun _ => .throw trivial) fun hfirst => ?_
    · rw [State.tagged, if_pos hfirst]; exact .modify rfl
    · rw [State.tagged, if_neg hfirst]
  refine .get_bind (.bind (.get_bind (.ite (fun _ => .pure ?_) fun _ => .throw trivial)))
  refine .ite (fun hinv => ?_) fun hinv => ?_
  all_goals
    refine .bind ((htag _).mono fun _ s₁ h₁ => .modify_bind (.bind ((setDhtu_ends _ _).mono fun _ t ⟨code, ht, hcode⟩ =>
      .modify ⟨code, ?_, fun hlinked => ?_⟩)))
    · subst h₁ ht
      simp only [update_self, update_idem, flushed, if_pos, if_neg, hinv, not_false_eq_true]
    · subst h₁
      simp only [flushed, if_pos, if_neg, hinv, not_false_eq_true]
      refine hcode fun a ha => (hlinked a ha).trans ?_
      simp only [update_self]

theorem lazyBlock_changes : Changes b (flushed K) (lazyBlock K b) := by
  intro s
  refine (lazyBlock_ends s).mono fun _ t ⟨code, ht, _⟩ => ?_
  rw [ht]
  exact ⟨rfl, rfl⟩

theorem blockNeedRecompile_changes : Changes b (fun bi => { bi with
      directHandlerToUse := bi.directPen, handlerToUse := K.popallExecuteNormal, handler := K.popallExecuteNormal,
      directHandler := bi.directPen, status := .needRecomp }) (blockNeedRecompile K b) := by
  intro s
  refine .get_bind (.bind ((setDhtu_changes _ s).mono fun _ s₁ ⟨h₁, r₁⟩ => .modify_bind ?_))
  refine .bind ((ends_of_keeps (tagBi_keeps _) _).mono fun first s₂ ⟨h₂, r₂⟩ => ?_)
  refine .bind ((ends_of_keeps (doIf_setTagHandler_keeps _ _ _) s₂).mono fun _ s₃ ⟨h₃, r₃⟩ => ?_)
  refine .modify ⟨?_, r₃.trans (r₂.trans r₁)⟩
  simp only [h₃, h₂, h₁, update_self, update_idem]

/-! ## Flushes -/

/-- The record leads to the code of the block exactly while it is active. It names two ways in, `handler_to_use` and
`direct_handler_to_use`; whether the tags and the jumps of other blocks follow them is another question. -/
def Coherent (K : Config) (bi : Blockinfo) : Prop :=
  match bi.status with
  | .active => bi.handlerToUse = bi.handler ∧ bi.directHandlerToUse = bi.directHandler
  | .needCheck => bi.handlerToUse = K.popallCheckChecksum ∧ bi.directHandlerToUse = bi.directPcc
  | .invalid | .needRecomp => bi.handlerToUse = K.popallExecuteNormal ∧ bi.directHandlerToUse = bi.directPen
  | .checking | .compiling | .finalizing => False

theorem coherent_flushed (K : Config) (bi : Blockinfo) : Coherent K (flushed K bi) := by
  unfold flushed
  split <;> exact ⟨rfl, rfl⟩

theorem flushed_flushed (K : Config) (bi : Blockinfo) : flushed K (flushed K bi) = flushed K bi := by
  unfold flushed
  split <;> simp

/-- Every way into a block is the one that its record names: the jumps of other blocks lead to `direct_handler_to_use`,
and the tag of its line, if it is the first block there, is `handler_to_use`. -/
structure State.Led (s : State) : Prop where
  apart : ∀ b c, ∀ x ∈ s.jumps b, ∀ y ∈ s.jumps c, b = c ∧ x = y ∨ CodeMem.Apart x y
  linked : ∀ b, s.Linked b
  tagged : ∀ b, s.lines.head (cacheline (s.bi b).pcP + 1) = some b →
    s.handler (cacheline (s.bi b).pcP) = (s.bi b).handlerToUse

theorem pcP_update_flushed (s : State) (b c : BlockPtr) : (update s.bi b (flushed K (s.bi b)) c).pcP = (s.bi c).pcP := by
  rcases eq_or_ne c b with rfl | hne
  · rw [update_self, flushed]; split <;> rfl
  · rw [update_of_ne hne]

theorem lazyBlock_led (s : State) : Ends (fun _ => True) (lazyBlock K b) s fun _ t =>
    t.bi = update s.bi b (flushed K (s.bi b)) ∧ (s.Led → t.Led) := by
  refine (lazyBlock_ends s).mono fun _ t ⟨code, ht, hcode⟩ => ?_
  subst ht
  refine ⟨rfl, fun hs => ⟨hs.apart, fun c a (ha : a ∈ s.jumps c) => ?_, fun c hfirst => ?_⟩⟩
  · change code.long a = displacement a (update s.bi b (flushed K (s.bi b)) c).directHandlerToUse
    have hsite := hcode (hs.linked b) a fun y hy => (hs.apart b c y hy a ha).imp_left And.right
    rw [hsite]
    rcases eq_or_ne c b with rfl | hne
    · rw [if_pos ha, update_self]
    · have hnot : a ∉ s.jumps b := by
        intro hmem
        rcases hs.apart b c a hmem a ha with h | h
        · exact hne h.1.symm
        · unfold CodeMem.Apart at h; omega
      rw [if_neg hnot, update_of_ne hne]
      exact hs.linked c a ha
  · simp only [pcP_update_flushed] at hfirst ⊢
    rw [State.tagged]
    rcases eq_or_ne c b with rfl | hne
    · rw [if_pos hfirst, update_self, update_self]
    · rw [update_of_ne hne]
      split
      · next hb =>
        have hline : cacheline (s.bi c).pcP ≠ cacheline (s.bi b).pcP := fun h => by
          rw [h, hb] at hfirst; exact hne (Option.some.inj hfirst).symm
        rw [update_of_ne hline]
        exact hs.tagged c hfirst
      · exact hs.tagged c hfirst

theorem forM_lazyBlock_ends (l : List BlockPtr) (s : State) : Ends (fun _ => True) (l.forM (lazyBlock K)) s fun _ t =>
    (∀ b, t.bi b = if b ∈ l then flushed K (s.bi b) else s.bi b) ∧ (s.Led → t.Led) := by
  induction l generalizing s with
  | nil => exact .pure ⟨fun b => (if_neg List.not_mem_nil).symm, id⟩
  | cons b l ih =>
    refine .bind ((lazyBlock_led s).mono fun _ t ⟨ht, hst⟩ => (ih t).mono fun _ u ⟨hu, htu⟩ =>
      ⟨fun c => ?_, htu ∘ hst⟩)
    rw [hu, ht]
    rcases eq_or_ne c b with rfl | hne
    · rw [update_self, if_pos List.mem_cons_self, flushed_flushed, ite_self]
    · simp only [update_of_ne hne, List.mem_cons, hne, false_or]

theorem flushIcacheLazy_ends {l : List BlockPtr} (hl : s.lists.walk s.poolEnd (s.lists.head .active) = some l) :
    Ends (fun _ => True) (flushIcacheLazy K) s fun _ t => t.lists.head .active = none ∧
      (∀ b, t.bi b = if b ∈ l then flushed K (s.bi b) else s.bi b) ∧ (s.Led → t.Led) := by
  refine .get_bind ?_
  rw [hl]
  cases l with
  | nil =>
    refine .pure ⟨?_, fun b => (if_neg List.not_mem_nil).symm, id⟩
    cases hhead : s.lists.head .active with
    | none => rfl
    | some b => rw [hhead] at hl; cases hfuel : s.poolEnd <;> simp [hfuel, Links.walk] at hl
  | cons b l =>
    refine .bind ((forM_lazyBlock_ends (b :: l) s).mono fun _ t ⟨hbi, hled⟩ => .modify ⟨?_, hbi, fun hs => ?_⟩)
    · simp [Links.splice]
    · exact ⟨(hled hs).apart, (hled hs).linked, (hled hs).tagged⟩

def stubs : Config := { anyConfig with popallExecuteNormal := 0x10, popallCheckChecksum := 0x20 }

/-- Two blocks, which have been compiled with the memory `ones`. The second one jumps to the first from the address 100. -/
def compiled : State :=
  { initial stubs (fun b => { ((dormant stubs [⟨0x1000, 18⟩]).bi b) with
        handler := 0x40, handlerToUse := 0x40, directHandler := 104, directHandlerToUse := 104, directPen := 0x50,
        directPcc := 0x60, pcP := BitVec.ofNat 32 (2 * b), status := .active })
      (fun d => if d = (1, false) then ⟨some 100, some 0⟩ else ⟨none, none⟩) (fun _ => 0) ones with
    lists := ⟨fun h => if h = .active then some 0 else none, fun b => if b = 0 then some 1 else none,
      fun b => if b = 0 then some (.inl .active) else some (.inr 0)⟩
    lines := ⟨fun i => if i = 1 then some 0 else if i = 3 then some 1 else none, fun _ => none,
      fun b => some (.inl (2 * b + 1))⟩
    deps := ⟨fun b => if b = 0 then some (1, false) else none, fun _ => none, fun _ => some (.inl 0)⟩
    handler := fun _ => 0x40
    poolEnd := 2 }

theorem compiled_led : compiled.Led := by
  have hjumps : ∀ b, ∀ a ∈ compiled.jumps b, b = 0 ∧ a = 100 := by
    intro b a ha
    rcases eq_or_ne b 0 with rfl | hne
    · exact ⟨rfl, List.mem_singleton.mp ha⟩
    · simp [State.jumps, compiled, initial, Links.walk, hne] at ha
  refine ⟨fun b c x hx y hy => .inl ?_, fun b a ha => ?_, fun b _ => rfl⟩
  · obtain ⟨⟨rfl, rfl⟩, rfl, rfl⟩ := And.intro (hjumps b x hx) (hjumps c y hy)
    exact ⟨rfl, rfl⟩
  · obtain ⟨rfl, rfl⟩ := hjumps b a ha
    rfl

/-- The block as a check leaves it that finds it good. -/
def reactivated (bi : Blockinfo) : Blockinfo :=
  { bi with handlerToUse := bi.handler, directHandlerToUse := bi.directHandler, status := .active }

/-- The block has sums, and they are those of its code in memory. -/
def Blockinfo.Matches (bi : Blockinfo) (m : Memory 32) : Prop :=
  (bi.c1 ≠ 0 ∨ bi.c2 ≠ 0) ∧ calcChecksum m bi.csi = (bi.c1, bi.c2)

/-- A block that needs no check is left alone, and only one whose code is the same is reactivated. -/
def Checked (K : Config) (m : Memory 32) (old new : Blockinfo) : Prop :=
  new = old ∨ old.status = .needCheck ∧ (old.Matches m ∧ new = reactivated old ∨ new = discarded K old)

def Passed (K : Config) (s t : State) : Prop := t.ram = s.ram ∧ ∀ c, Checked K s.ram (s.bi c) (t.bi c)

theorem Passed.trans {u : State} (h : Passed K s t) (h' : Passed K t u) : Passed K s u := by
  refine ⟨h'.1.trans h.1, fun c => ?_⟩
  have hu := h'.2 c
  rw [h.1] at hu
  rcases h.2 c with ht | ⟨hneed, ⟨hm, ht⟩ | ht⟩ <;> rw [ht] at hu
  · exact hu
  · exact .inr ⟨hneed, .inl ⟨hm, hu.resolve_right fun h => by cases h.1⟩⟩
  · exact .inr ⟨hneed, .inr (hu.resolve_right fun h => by cases h.1)⟩

theorem calledCheckChecksum_ends {check : BlockPtr → M Bool}
    (h : ∀ b s, Ends (fun _ => True) (check b) s fun _ => Passed K s) (b : BlockPtr) (is : List Bool) (s : State) :
    Ends (fun _ => True) (calledCheckChecksum check b is) s fun _ => Passed K s := by
  induction is generalizing s with
  | nil => exact .pure ⟨rfl, fun c => .inl rfl⟩
  | cons i is ih =>
    refine .get_bind ?_
    split
    · exact ih s
    · split
      · exact .throw trivial
      · next tbi _ =>
        refine .bind ((h tbi s).mono fun good t ht => .ite (fun _ => ?_) fun _ => .pure ht)
        exact (ih t).mono fun _ u hu => ht.trans hu

theorem checksumMatches_ends :
    Ends (fun _ => True) (checksumMatches b) s fun same t => t = s ∧ (same = true → (s.bi b).Matches s.ram) := by
  refine .get_bind (.ite (fun hsums => ?_) fun hnone => .pure ⟨rfl, fun heq => absurd (of_decide_eq_true heq) ?_⟩)
  · split
    · exact .throw trivial
    · exact .pure ⟨rfl, fun heq => ⟨hsums, of_decide_eq_true heq⟩⟩
  · intro heq
    exact hnone (.inl fun hzero => by rw [hzero] at heq; cases heq)

/-- What a check of `b` does, with its answer. -/
def Outcome (K : Config) (b : BlockPtr) (s : State) (good : Bool) (t : State) : Prop :=
  Passed K s t ∧
    ((s.bi b).status = .needCheck → t.bi b = if good then reactivated (s.bi b) else discarded K (s.bi b))

/-- The end of the check, when the blocks that `b` jumps to have been checked. -/
theorem outcome_of_update {u : State} (hstatus : (s.bi b).status = .needCheck)
    (hothers : u.ram = s.ram ∧ ∀ c, c ≠ b → Checked K s.ram (s.bi c) (u.bi c))
    (hm : good = true → (s.bi b).Matches s.ram)
    (ht : t.bi = update u.bi b (if good then reactivated (s.bi b) else discarded K (s.bi b))) (hram : t.ram = u.ram) :
    Outcome K b s good t := by
  refine ⟨⟨hram.trans hothers.1, fun c => ?_⟩, fun _ => by rw [ht, update_self]⟩
  rcases eq_or_ne c b with rfl | hne
  · rw [ht, update_self]; refine .inr ⟨hstatus, ?_⟩
    split
    · next hgood => exact .inl ⟨hm hgood, rfl⟩
    · exact .inr rfl
  · rw [ht, update_of_ne hne]; exact hothers.2 c hne

def checking (bi : Blockinfo) : Blockinfo := { reactivated bi with status := .checking }

theorem blockCheckChecksum_ends (K : Config) (fuel : Nat) (b : BlockPtr) (s : State) :
    Ends (fun _ => True) (blockCheckChecksum K fuel b) s (Outcome K b s) := by
  induction fuel generalizing b s with
  | zero => exact .throw trivial
  | succ fuel ih =>
    refine .get_bind (.ite (fun hneed => .pure ⟨⟨rfl, fun c => .inl rfl⟩, fun h => absurd h hneed⟩) fun hneed => ?_)
    have hstatus := not_not.mp hneed
    refine .bind (checksumMatches_ends.mono fun same s₁ ⟨hs₁, hsame⟩ => ?_)
    subst hs₁
    refine .bind (.mono (Q := fun good u => (u.ram = s₁.ram ∧ ∀ c, c ≠ b → Checked K s₁.ram (s₁.bi c) (u.bi c)) ∧
      ((s₁.bi b).Matches s₁.ram ∧ u.bi b = checking (s₁.bi b) ∨ good = false ∧ u.bi b = s₁.bi b)) ?_ ?_)
    · refine .ite (fun hm => ?_) fun _ => .pure ⟨⟨rfl, fun c _ => .inl rfl⟩, .inr ⟨rfl, rfl⟩⟩
      refine .modify_bind (.get_bind (.bind ((setDhtu_changes _ _).mono fun _ s₂ ⟨h₂, r₂⟩ => .modify_bind ?_)))
      refine (calledCheckChecksum_ends (fun b s => (ih b s).mono fun _ _ h => h.1) ..).mono fun good u ⟨hram, hu⟩ =>
        ⟨⟨hram.trans r₂, ?_⟩, .inl ⟨hsame hm, ?_⟩⟩
      · intro c hc
        simpa [h₂, r₂, hc] using hu c
      · -- the block itself needs no check by now
        refine ((hu b).resolve_right fun h => ?_).trans ?_
        · simp [h₂] at h
        · simp [h₂]; rfl
    intro good u ⟨hothers, hself⟩
    refine .ite (fun hgood => ?_) fun hbad => ?_
    · obtain rfl := hgood
      obtain ⟨hm, hb⟩ := hself.resolve_right fun h => by cases h.1
      refine .modify_bind (.modify_bind (.bind ((ends_of_keeps raiseInClList_keeps _).mono fun _ w ⟨hw, hram⟩ =>
        .modify_bind (.pure (outcome_of_update hstatus hothers (fun _ => hm) ?_ hram)))))
      simp only [hw, hb]; rfl
    · obtain rfl := Bool.eq_false_of_not_eq_true hbad
      refine .bind ((invalidateBlock_changes u).mono fun _ w ⟨hw, hram⟩ =>
        .bind ((ends_of_keeps raiseInClList_keeps w).mono fun _ w' ⟨hw', hram'⟩ =>
          .pure (outcome_of_update hstatus hothers (by simp) ?_ (hram'.trans hram))))
      rw [hw', hw]
      rcases hself with ⟨-, h⟩ | ⟨-, h⟩ <;> rw [h] <;> rfl

/-- A check reactivates the block or discards it, as it answers. It does so with the blocks that are checked on the way
too, and reactivates none whose sums are not those of its code. -/
theorem blockCheckChecksum_outcome (K : Config) (fuel : Nat) (b : BlockPtr) (s t : State) (good : Bool)
    (hrun : blockCheckChecksum K fuel b s = .ok good t) : Outcome K b s good t :=
  (blockCheckChecksum_ends K fuel b s).ok hrun

/-- The check of the second block also checks the first. -/
theorem compiled_outcome : ∃ t u, flushIcacheLazy stubs compiled = .ok () t ∧ Outcome stubs 1 t true u ∧
    (u.bi 0).status = .active :=
  ⟨_, _, rfl, blockCheckChecksum_outcome stubs 2 1 _ _ _ rfl, rfl⟩

/-- A lazy flush is undone by a check that finds the block good. -/
theorem good_check_restores (K : Config) (s t u : State) (l : List BlockPtr) (fuel : Nat) (b : BlockPtr)
    (hl : s.lists.walk s.poolEnd (s.lists.head .active) = some l) (hb : b ∈ l) (hactive : (s.bi b).status = .active)
    (hcoherent : Coherent K (s.bi b)) (hflush : flushIcacheLazy K s = .ok () t)
    (hcheck : blockCheckChecksum K fuel b t = .ok true u) : u.bi b = s.bi b := by
  have hu := ((blockCheckChecksum_ends K fuel b t).ok hcheck).2
  rw [((flushIcacheLazy_ends hl).ok hflush).2.1, if_pos hb] at hu
  generalize s.bi b = bi at *
  cases bi
  simp_all [flushed, reactivated, Coherent]

theorem compiled_restored : ∃ t u, flushIcacheLazy stubs compiled = .ok () t ∧
    blockCheckChecksum stubs 2 1 t = .ok true u ∧ u.bi 1 = compiled.bi 1 :=
  ⟨_, _, rfl, rfl, good_check_restores stubs compiled _ _ [0, 1] 2 1 rfl (by simp) rfl ⟨rfl, rfl⟩ rfl rfl⟩

/-! ## Runs without compilation -/

/-- `m` keeps the coherence of every single block. -/
def Coheres {α : Type} (K : Config) (m : M α) : Prop :=
  ∀ s b, Coherent K (s.bi b) → Ends (fun _ => True) m s fun _ t => Coherent K (t.bi b)

section

variable {α β : Type} {m : M α}

theorem Coheres.of_keeps (h : Keeps blocks m) : Coheres K m :=
  fun s b hb => (ends_of_keeps h s).mono fun _ t ⟨ht, _⟩ => by rwa [ht]

theorem Coheres.bind {k : α → M β} (hm : Coheres K m) (hk : ∀ a, Coheres K (k a)) : Coheres K (m >>= k) :=
  fun s b hb => .bind ((hm s b hb).mono fun a t ht => hk a t b ht)

theorem Coheres.doIf {p : Prop} [Decidable p] {m : M Unit} (h : Coheres K m) : Coheres K (doIf p m) :=
  fun s b hb => .doIf (fun _ => h s b hb) fun _ => hb

theorem Coheres.of_changes {m : M Unit} {f : Blockinfo → Blockinfo} (h : Changes c f m)
    (hf : ∀ bi, Coherent K bi → Coherent K (f bi)) : Coheres K m := by
  intro s b hb
  refine (h s).mono fun _ t ⟨ht, _⟩ => ?_
  rw [ht]
  rcases eq_or_ne b c with rfl | hne
  · rw [update_self]; exact hf _ hb
  · rwa [update_of_ne hne]

theorem setBi_coheres {f : Blockinfo → Blockinfo} (hf : ∀ bi, Coherent K bi → Coherent K (f bi)) :
    Coheres K (setBi c f) := .of_changes (fun _ => .modify ⟨rfl, rfl⟩) hf

theorem Coheres.forM {f : α → M Unit} {l : List α} (h : ∀ x ∈ l, Coheres K (f x)) : Coheres K (l.forM f) := by
  induction l with
  | nil => exact .of_keeps (.pure _)
  | cons x l ih => exact .bind (h x List.mem_cons_self) fun _ => ih fun y hy => h y (List.mem_cons_of_mem x hy)

theorem onBlock_coheres {pc : PcPtr} {f : BlockPtr → M Unit} (h : ∀ b, Coheres K (f b)) : Coheres K (onBlock pc f) := by
  refine .bind (.of_keeps (.bind (tagBi_keeps _) fun first => .bind .get fun s => ?_)) fun first => ?_
  · split
    · exact .throw _
    · exact .pure _
  · cases first with
    | none => exact .of_keeps (.pure _)
    | some b => exact h b

end

theorem checkBlock_coheres : Coheres K (checkBlock K b) := by
  refine .bind (.of_keeps .get) fun _ s c hc => (blockCheckChecksum_ends ..).mono fun _ t ht => ?_
  rcases ht.1.2 c with h | ⟨-, ⟨-, h⟩ | h⟩ <;> rw [h]
  · exact hc
  · exact ⟨rfl, rfl⟩
  · exact ⟨rfl, rfl⟩

theorem flushIcacheHard_coheres : Coheres K (flushIcacheHard K) := by
  have hlist (l : List BlockPtr) : Coheres K (flushList K l) := .forM fun b _ =>
    .bind (.of_keeps .get) fun _ => .bind (.of_keeps (setTagHandler_keeps _ _)) fun _ =>
      .bind (.of_keeps (tagBi_keeps _)) fun _ => .bind (.of_keeps (.modify fun _ => rfl)) fun _ =>
        .bind (setBi_coheres fun _ h => h) fun _ => .of_keeps (.modify fun _ => rfl)
  refine .bind (.of_keeps .get) fun s => ?_
  split
  · exact .bind (hlist _) fun _ => .bind (hlist _) fun _ =>
      .of_keeps (.bind (.modify fun _ => rfl) fun _ => .modify fun _ => rfl)
  · exact .of_keeps (.throw _)

/-- The operation looks a block up or compiles one. -/
def Op.Compiles : Op → Prop
  | .lookup .. | .compile _ => True
  | _ => False

theorem Op.run_coheres {op : Op} (h : ¬ op.Compiles) : Coheres K (op.run K) := by
  cases op with
  | lookup stub pc => exact absurd trivial h
  | compile t => exact absurd trivial h
  | raise pc => exact onBlock_coheres fun _ => .of_keeps raiseInClList_keeps
  | miss pc =>
    exact onBlock_coheres fun _ => .bind (.of_keeps (tagBi_keeps _)) fun _ => .doIf (.of_keeps raiseInClList_keeps)
  | check pc =>
    refine onBlock_coheres fun b => .bind (.of_keeps (tagBi_keeps _)) fun first => ?_
    split
    · exact .of_keeps raiseInClList_keeps
    · exact .bind checkBlock_coheres fun _ => .of_keeps (.pure _)
  | countdown pc =>
    exact onBlock_coheres fun _ => .bind (.of_keeps .get) fun _ => .doIf (setBi_coheres fun _ h => h)
  | needRecompile pc => exact onBlock_coheres fun _ => .of_changes blockNeedRecompile_changes fun _ _ => ⟨rfl, rfl⟩
  | lazyFlush =>
    refine .bind (.of_keeps .get) fun s => ?_
    split
    · exact .of_keeps (.throw _)
    · split
      · exact .of_keeps (.pure _)
      · exact .bind (.forM fun _ _ => .of_changes lazyBlock_changes fun bi _ => coherent_flushed K bi)
          fun _ => .of_keeps (.modify fun _ => rfl)
  | hardFlush => exact flushIcacheHard_coheres
  | setCacheState enabled =>
    exact .bind (.of_keeps .get) fun _ => .bind (.doIf flushIcacheHard_coheres) fun _ =>
      .of_keeps (.modify fun _ => rfl)
  | store a v => exact fun s b hb => .modify hb

/-- Along every run without compilation, what was entered in accordance with its status stays so. -/
theorem runOps_coherent (K : Config) (s t : State) (ops : List Op) (hops : ∀ op ∈ ops, ¬ op.Compiles)
    (hrun : runOps K ops s = .ok () t) (b : BlockPtr) (hb : Coherent K (s.bi b)) : Coherent K (t.bi b) :=
  (Coheres.forM (fun op hop => op.run_coheres (hops op hop)) s b hb).ok hrun

theorem compiled_coherent : ∃ t, runOps stubs [.needRecompile 0, .store 0 5, .lazyFlush, .check 2] compiled = .ok () t ∧
    Coherent stubs (t.bi 1) :=
  ⟨_, rfl, runOps_coherent stubs compiled _ [.needRecompile 0, .store 0 5, .lazyFlush, .check 2] (by simp [Op.Compiles]) rfl
    1 ⟨rfl, rfl⟩⟩

end Aranym.Jit.Blocks
