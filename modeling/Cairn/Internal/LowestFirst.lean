import Cairn.Internal.Runs
import Mathlib.Data.Finset.Max

/-!
# Lowest-first allocators

An allocator over a linear order hands out elements and takes them back. What it is for is said
by a finite set, the elements that are free: an allocation takes the least of them, and giving an
element back inserts it. A bounded implementation may also *drop* an element that is given back,
which loses it but must change nothing else. `Lawful` is this contract, for an implementation with
an invariant and a domain of elements it may be given.

Two lawful allocators that drop nothing cannot be told apart (`Lawful.agree`), and a lawful
allocator never hands out an element that is still outstanding, whatever it drops
(`Lawful.fresh`).

Nothing here knows what the states or the elements are.

## Main definitions

* `LowestFirst.Takes` — an allocation, on sets
* `LowestFirst.Allocator`, `LowestFirst.Lawful` — an implementation and its contract
* `LowestFirst.Dropped` — giving back an element had no effect
* `LowestFirst.outstanding` — what a run has handed out and not been given back

## Main results

* `LowestFirst.Takes.unique` — an allocation is determined by the free set
* `LowestFirst.Lawful.agree`, `LowestFirst.Lawful.fresh`
* `LowestFirst.Lawful.freeSet_after_subset`
-/

namespace Cairn

namespace LowestFirst

variable {σ ρ α : Type*} [LinearOrder α]

/-- From the free set `s`, an allocation answers `r` and leaves `s'`: the least element and the
set without it, or nothing when there is none. -/
inductive Takes (s : Finset α) : Option α → Finset α → Prop
  /-- Nothing is free. -/
  | exhausted (empty : s = ∅) : Takes s none s
  /-- The least free element is taken. -/
  | least {a : α} (mem : a ∈ s) (le : ∀ b ∈ s, a ≤ b) : Takes s (some a) (s.erase a)

theorem Takes.unique {s s₁ s₂ : Finset α} {r₁ r₂ : Option α} (h₁ : Takes s r₁ s₁)
    (h₂ : Takes s r₂ s₂) : r₁ = r₂ ∧ s₁ = s₂ := by
  cases h₁ with
  | exhausted empty =>
    cases h₂ with
    | exhausted _ => exact ⟨rfl, rfl⟩
    | least mem _ => simp [empty] at mem
  | @least a mem le =>
    cases h₂ with
    | exhausted empty => simp [empty] at mem
    | @least b mem' le' =>
      obtain rfl : a = b := le_antisymm (le b mem') (le' a mem)
      exact ⟨rfl, rfl⟩

/-- What an answered allocation has taken. -/
theorem Takes.of_some {s s' : Finset α} {a : α} (h : Takes s (some a) s') :
    a ∈ s ∧ (∀ b ∈ s, a ≤ b) ∧ s' = s.erase a := by
  cases h with
  | least mem le => exact ⟨mem, le, rfl⟩

theorem Takes.of_none {s s' : Finset α} (h : Takes s none s') : s' = s := by
  cases h with
  | exhausted _ => rfl

theorem Takes.subset {s s' : Finset α} {r : Option α} (h : Takes s r s') : s' ⊆ s := by
  cases h with
  | exhausted _ => exact Finset.Subset.refl _
  | least _ _ => exact Finset.erase_subset _ _

/-- An implementation: its two operations and the set of free elements a state stands for. -/
structure Allocator (σ α : Type*) where
  /-- Hand out an element. -/
  alloc : σ → Option α × σ
  /-- Take one back. -/
  free : σ → α → σ
  /-- The elements that are free. -/
  freeSet : σ → Finset α

/-- What a client does to an allocator. -/
inductive Op (α : Type*)
  /-- Ask for an element. -/
  | alloc
  /-- Give one back. -/
  | free (a : α)
deriving DecidableEq, Repr

/-- One operation of the client. -/
def Allocator.step (A : Allocator σ α) (s : σ) : Op α → σ
  | .alloc => (A.alloc s).2
  | .free a => A.free s a

/-- Giving back `a` had no effect: it is not free afterwards. -/
def Dropped (A : Allocator σ α) (s : σ) (a : α) : Prop := a ∉ A.freeSet (A.free s a)

/-- The operation stays inside the domain. -/
def Op.Within (dom : α → Prop) : Op α → Prop
  | .alloc => True
  | .free a => dom a

/-- The operation is carried out: it is not a free that is dropped. -/
def Effective (A : Allocator σ α) (s : σ) : Op α → Prop
  | .alloc => True
  | .free a => ¬ Dropped A s a

/-- **The contract.** Under the invariant, an allocation takes the least free element and a free
of an element of the domain inserts it or drops it. -/
structure Lawful (A : Allocator σ α) (Inv : σ → Prop) (dom : α → Prop) : Prop where
  /-- Every allowed operation keeps the invariant. -/
  inv_step : ∀ {s : σ} {op : Op α}, Inv s → op.Within dom → Inv (A.step s op)
  /-- An allocation takes the least free element. -/
  takes : ∀ {s : σ}, Inv s → Takes (A.freeSet s) (A.alloc s).1 (A.freeSet (A.alloc s).2)
  /-- A free inserts its argument, or has no effect at all. -/
  frees : ∀ {s : σ} {a : α}, Inv s → dom a →
    A.freeSet (A.free s a) = insert a (A.freeSet s) ∨ A.freeSet (A.free s a) = A.freeSet s

section Run

variable {A : Allocator σ α} {B : Allocator ρ α} {InvA : σ → Prop} {InvB : ρ → Prop}
  {dom : α → Prop}

/-- The state after a run of client operations. -/
def Allocator.after (A : Allocator σ α) (s : σ) (h : List (Op α)) : σ := Runs.after A.step s h

omit [LinearOrder α] in
@[simp] theorem after_nil (s : σ) : A.after s [] = s := rfl

omit [LinearOrder α] in
@[simp] theorem after_cons (s : σ) (op : Op α) (h : List (Op α)) :
    A.after s (op :: h) = A.step (A.after s h) op := rfl

theorem Lawful.inv_after (hA : Lawful A InvA dom) {s : σ} (hs : InvA s) {h : List (Op α)}
    (hw : ∀ op ∈ h, op.Within dom) : InvA (A.after s h) := by
  induction h with
  | nil => exact hs
  | cons op h ih =>
    exact hA.inv_step (ih fun o ho => hw o (List.mem_cons_of_mem _ ho)) (hw op List.mem_cons_self)

/-- A free that is not dropped inserts its argument. -/
theorem Lawful.freeSet_free (hA : Lawful A InvA dom) {s : σ} {a : α} (hs : InvA s) (ha : dom a)
    (hnd : ¬ Dropped A s a) : A.freeSet (A.free s a) = insert a (A.freeSet s) := by
  have hmem : a ∈ A.freeSet (A.free s a) := not_not.mp hnd
  rcases hA.frees hs ha with h | h
  · exact h
  · rw [h] at hmem ⊢
    exact (Finset.insert_eq_self.mpr hmem).symm

/-- A step that drops nothing is determined by the free set it starts from. -/
theorem Lawful.freeSet_step_eq (hA : Lawful A InvA dom) (hB : Lawful B InvB dom) {s : σ} {t : ρ}
    (hs : InvA s) (ht : InvB t) (heq : A.freeSet s = B.freeSet t) {op : Op α}
    (hw : op.Within dom) (heA : Effective A s op) (heB : Effective B t op) :
    A.freeSet (A.step s op) = B.freeSet (B.step t op) := by
  cases op with
  | alloc =>
    have hb := hB.takes ht
    rw [← heq] at hb
    exact ((hA.takes hs).unique hb).2
  | free a =>
    exact (hA.freeSet_free hs hw heA).trans (heq ▸ (hB.freeSet_free ht hw heB).symm)

/-- **Two lawful allocators agree.** Started from the same free set and driven by the same run, in
which neither drops anything, they have the same free set and give the same answer to the next
allocation. -/
theorem Lawful.agree (hA : Lawful A InvA dom) (hB : Lawful B InvB dom) {s : σ} {t : ρ}
    (hs : InvA s) (ht : InvB t) (heq : A.freeSet s = B.freeSet t) {h : List (Op α)}
    (hw : ∀ op ∈ h, op.Within dom) (heA : Runs.Every A.step s (Effective A) h)
    (heB : Runs.Every B.step t (Effective B) h) :
    A.freeSet (A.after s h) = B.freeSet (B.after t h) ∧
      (A.alloc (A.after s h)).1 = (B.alloc (B.after t h)).1 := by
  have hset : A.freeSet (A.after s h) = B.freeSet (B.after t h) := by
    induction h with
    | nil => exact heq
    | cons op h ih =>
      have hw' : ∀ o ∈ h, o.Within dom := fun o ho => hw o (List.mem_cons_of_mem _ ho)
      exact hA.freeSet_step_eq hB (hA.inv_after hs hw') (hB.inv_after ht hw')
        (ih hw' heA.2 heB.2) (hw op List.mem_cons_self) heA.1 heB.1
  have hb := hB.takes (hB.inv_after ht hw)
  rw [← hset] at hb
  exact ⟨hset, ((hA.takes (hA.inv_after hs hw)).unique hb).1⟩

variable (A) in
/-- The elements a run has handed out and not been given back. -/
def outstanding (s : σ) : List (Op α) → Finset α
  | [] => ∅
  | .alloc :: h =>
    match (A.alloc (A.after s h)).1 with
    | some a => insert a (outstanding s h)
    | none => outstanding s h
  | .free a :: h => (outstanding s h).erase a

/-- An answered allocation takes a free element. -/
theorem Lawful.alloc_some (hA : Lawful A InvA dom) {s : σ} {a : α} (hs : InvA s)
    (ha : (A.alloc s).1 = some a) :
    a ∈ A.freeSet s ∧ A.freeSet (A.alloc s).2 = (A.freeSet s).erase a := by
  have ht := hA.takes hs
  rw [ha] at ht
  exact ⟨ht.of_some.1, ht.of_some.2.2⟩

theorem Lawful.alloc_none (hA : Lawful A InvA dom) {s : σ} (hs : InvA s)
    (ha : (A.alloc s).1 = none) : A.freeSet (A.alloc s).2 = A.freeSet s := by
  have ht := hA.takes hs
  rw [ha] at ht
  exact ht.of_none

/-- What is outstanding is not free. -/
theorem Lawful.disjoint_outstanding (hA : Lawful A InvA dom) {s : σ} (hs : InvA s)
    {h : List (Op α)} (hw : ∀ op ∈ h, op.Within dom) :
    Disjoint (outstanding A s h) (A.freeSet (A.after s h)) := by
  induction h with
  | nil => exact Finset.disjoint_empty_left _
  | cons op h ih =>
    have hw' : ∀ o ∈ h, o.Within dom := fun o ho => hw o (List.mem_cons_of_mem _ ho)
    have hinv := hA.inv_after hs hw'
    have ihd := ih hw'
    cases op with
    | alloc =>
      rw [after_cons, Allocator.step, outstanding]
      cases ha : (A.alloc (A.after s h)).1 with
      | none => rwa [hA.alloc_none hinv ha]
      | some a =>
        rw [(hA.alloc_some hinv ha).2]
        refine Finset.disjoint_insert_left.mpr ⟨Finset.notMem_erase _ _, ?_⟩
        exact Finset.disjoint_of_subset_right (Finset.erase_subset _ _) ihd
    | free a =>
      rw [after_cons, Allocator.step, outstanding]
      have hsub := Finset.disjoint_of_subset_left (Finset.erase_subset a _) ihd
      rcases hA.frees hinv (hw _ List.mem_cons_self) with hf | hf
      · rw [hf]
        exact Finset.disjoint_insert_right.mpr ⟨Finset.notMem_erase _ _, hsub⟩
      · rwa [hf]

/-- **No element is handed out while it is outstanding**, whatever was given back or dropped. -/
theorem Lawful.fresh (hA : Lawful A InvA dom) {s : σ} (hs : InvA s) {h : List (Op α)}
    (hw : ∀ op ∈ h, op.Within dom) {a : α} (ha : (A.alloc (A.after s h)).1 = some a) :
    a ∉ outstanding A s h := by
  have hfree := (hA.alloc_some (hA.inv_after hs hw) ha).1
  exact Finset.disjoint_right.mp (hA.disjoint_outstanding hs hw) hfree

omit [LinearOrder α] in
theorem Op.Within.mono {dom dom' : α → Prop} (hsub : ∀ a, dom a → dom' a) {op : Op α}
    (h : op.Within dom) : op.Within dom' := by
  cases op with
  | alloc => trivial
  | free a => exact hsub a h

/-- **Nothing comes from nowhere.** As long as only elements of `t` are given back, only elements
of `t` are ever free. -/
theorem Lawful.freeSet_after_subset (hA : Lawful A InvA dom) {s : σ} (hs : InvA s) {t : Finset α}
    (hsub : A.freeSet s ⊆ t) (hdom : ∀ a ∈ t, dom a) {h : List (Op α)}
    (hw : ∀ op ∈ h, op.Within (· ∈ t)) : A.freeSet (A.after s h) ⊆ t := by
  induction h with
  | nil => exact hsub
  | cons op h ih =>
    have hw' : ∀ o ∈ h, o.Within (· ∈ t) := fun o ho => hw o (List.mem_cons_of_mem _ ho)
    have hinv := hA.inv_after hs fun o ho => (hw' o ho).mono hdom
    have hop := hw op List.mem_cons_self
    cases op with
    | alloc => exact (hA.takes hinv).subset.trans (ih hw')
    | free a =>
      rcases hA.frees hinv (hdom a hop) with hf | hf
      · exact hf.symm ▸ Finset.insert_subset hop (ih hw')
      · exact hf.symm ▸ ih hw'

end Run

end LowestFirst

end Cairn
