import Mathlib.Logic.Function.Basic
import Mathlib.Order.Basic
import Mathlib.Tactic.Common

/-!
# Radix page tables

A hierarchy of page tables is a tree. A table of level `n` has an entry for every index; an entry
is absent, or maps a page, or points to a table of level `n - 1`. A page that is mapped above level
`0` is a huge page. An address is walked by one index for each level, and what it is translated to
is what the walk ends at.

Mapping a page creates the tables the walk misses, each from a frame of an allocator that may have
none left, and then fills the entry at level `0`. Tables that were created stay when a later frame
is missing. Unmapping clears the entry at level `0` and never removes a table.

Nothing here knows how an address is cut into indices, what a page is or where frames come from.

## Main definitions

* `PageTable.Entry`, `PageTable.Table` — the hierarchy
* `PageTable.translate` — what an address is mapped to
* `PageTable.Walks` — the tables down to level `0` are there
* `PageTable.mapTo`, `PageTable.unmap` — the two operations
* `PageTable.put` — replace the entry of an address at level `0`

## Main results

* `PageTable.translate_mapTo`, `PageTable.translate_unmap` — what the operations do to every address
* `PageTable.mapTo_of_walks` — where the tables are there, mapping takes no frame and fails only on
  a mapped address
-/

namespace Cairn

namespace PageTable

/-- An entry of a table of level `n`. -/
inductive Entry (ι A : Type) : ℕ → Type
  /-- Nothing is mapped. -/
  | absent {n : ℕ} : Entry ι A n
  /-- A page is mapped, a huge one above level `0`. -/
  | page {n : ℕ} (a : A) : Entry ι A n
  /-- A table of the level below. -/
  | table {n : ℕ} (sub : ι → Entry ι A n) : Entry ι A (n + 1)

/-- A table of level `n`. -/
abbrev Table (ι A : Type) (n : ℕ) : Type := ι → Entry ι A n

variable {ι A μ : Type} [DecidableEq ι]

omit [DecidableEq ι] in
/-- The page an address is mapped to. -/
def translate (i : ℕ → ι) : (n : ℕ) → Table ι A n → Option A
  | 0, t =>
    match t (i 0) with
    | .absent => none
    | .page a => some a
  | n + 1, t =>
    match t (i (n + 1)) with
    | .absent => none
    | .page a => some a
    | .table sub => translate i n sub

omit [DecidableEq ι] in
/-- The tables on the way to the entry at level `0` are there. -/
def Walks (i : ℕ → ι) : (n : ℕ) → Table ι A n → Prop
  | 0, _ => True
  | n + 1, t =>
    match t (i (n + 1)) with
    | .table sub => Walks i n sub
    | _ => False

/-- Map an address to a page. `alloc` answers whether there was a frame. -/
def mapTo (alloc : μ → Bool × μ) (i : ℕ → ι) (a : A) :
    (n : ℕ) → Table ι A n → μ → Bool × Table ι A n × μ
  | 0, t, m =>
    match t (i 0) with
    | .absent => (true, Function.update t (i 0) (.page a), m)
    | .page _ => (false, t, m)
  | n + 1, t, m =>
    match t (i (n + 1)) with
    | .page _ => (false, t, m)
    | .table sub =>
      let r := mapTo alloc i a n sub m
      (r.1, Function.update t (i (n + 1)) (.table r.2.1), r.2.2)
    | .absent =>
      match alloc m with
      | (false, m) => (false, t, m)
      | (true, m) =>
        let r := mapTo alloc i a n (fun _ => .absent) m
        (r.1, Function.update t (i (n + 1)) (.table r.2.1), r.2.2)

/-- Clear the entry of an address at level `0`, if the tables down to it are there. -/
def unmap (i : ℕ → ι) : (n : ℕ) → Table ι A n → Bool × Table ι A n
  | 0, t => (true, Function.update t (i 0) .absent)
  | n + 1, t =>
    match t (i (n + 1)) with
    | .table sub =>
      let r := unmap i n sub
      (r.1, Function.update t (i (n + 1)) (.table r.2))
    | _ => (false, t)

/-- Two addresses have the same entry in tables of level `n` and below. -/
def Agree (n : ℕ) (i j : ℕ → ι) : Prop := ∀ k ≤ n, i k = j k

instance (n : ℕ) (i j : ℕ → ι) : Decidable (Agree n i j) :=
  decidable_of_iff (∀ k < n + 1, i k = j k) (by simp only [Agree, Nat.lt_succ_iff])

omit [DecidableEq ι] in
theorem agree_succ {n : ℕ} {i j : ℕ → ι} :
    Agree (n + 1) i j ↔ i (n + 1) = j (n + 1) ∧ Agree n i j := by
  refine ⟨fun h => ⟨h _ (Nat.le_refl _), fun k hk => h k (Nat.le_succ_of_le hk)⟩, fun h k hk => ?_⟩
  rcases Nat.le_succ_iff.mp hk with hk | rfl
  · exact h.2 k hk
  · exact h.1

/-! ### Translation of an updated table -/

section Update

variable {n : ℕ} (i j : ℕ → ι) (t : Table ι A (n + 1))

omit [DecidableEq ι] in
theorem translate_of_table {sub : Table ι A n} (h : t (j (n + 1)) = .table sub) :
    translate j (n + 1) t = translate j n sub := by
  simp only [translate, h]

/-- Replacing a table changes what goes through it. -/
theorem translate_update_table (sub : Table ι A n) :
    translate j (n + 1) (Function.update t (i (n + 1)) (.table sub))
      = if i (n + 1) = j (n + 1) then translate j n sub else translate j (n + 1) t := by
  by_cases h : i (n + 1) = j (n + 1)
  · rw [if_pos h, translate_of_table]
    rw [h, Function.update_self]
  · rw [if_neg h, translate, translate, Function.update_of_ne (Ne.symm h)]

omit [DecidableEq ι] in
theorem walks_succ : Walks j (n + 1) t ↔ ∃ sub, t (j (n + 1)) = .table sub ∧ Walks j n sub := by
  rw [Walks]
  cases h : t (j (n + 1)) <;> simp

theorem walks_update_table (sub : Table ι A n) :
    Walks j (n + 1) (Function.update t (i (n + 1)) (.table sub))
      ↔ if i (n + 1) = j (n + 1) then Walks j n sub else Walks j (n + 1) t := by
  by_cases h : i (n + 1) = j (n + 1)
  · rw [if_pos h, walks_succ, h, Function.update_self]
    simp
  · rw [if_neg h, walks_succ, walks_succ, Function.update_of_ne (Ne.symm h)]

end Update

omit [DecidableEq ι] in
theorem translate_empty (j : ℕ → ι) (n : ℕ) :
    translate j n (fun _ => .absent : Table ι A n) = none := by
  cases n <;> rfl

/-! ### Mapping -/

section Map

variable (alloc : μ → Bool × μ) (i : ℕ → ι) (a : A)

section Cases

variable {alloc i a} {n : ℕ} {t : Table ι A (n + 1)} {m m' : μ}

/-- Under a huge page nothing can be mapped. -/
theorem mapTo_of_page {b : A} (h : t (i (n + 1)) = .page b) :
    mapTo alloc i a (n + 1) t m = (false, t, m) := by
  simp only [mapTo, h]

theorem mapTo_of_table {sub : Table ι A n} (h : t (i (n + 1)) = .table sub) :
    mapTo alloc i a (n + 1) t m
      = ((mapTo alloc i a n sub m).1,
          Function.update t (i (n + 1)) (.table (mapTo alloc i a n sub m).2.1),
          (mapTo alloc i a n sub m).2.2) := by
  simp only [mapTo, h]

theorem mapTo_of_no_frame (h : t (i (n + 1)) = .absent) (hm : alloc m = (false, m')) :
    mapTo alloc i a (n + 1) t m = (false, t, m') := by
  simp only [mapTo, h, hm]

/-- A new table is empty. -/
theorem mapTo_of_frame (h : t (i (n + 1)) = .absent) (hm : alloc m = (true, m')) :
    mapTo alloc i a (n + 1) t m
      = ((mapTo alloc i a n (fun _ => .absent) m').1,
          Function.update t (i (n + 1)) (.table (mapTo alloc i a n (fun _ => .absent) m').2.1),
          (mapTo alloc i a n (fun _ => .absent) m').2.2) := by
  simp only [mapTo, h, hm]

end Cases

/-- What can happen at a level above `0`: nothing, or the work goes on in the table below, which
translates like the entry it stands for. -/
theorem mapTo_succ_cases (n : ℕ) (t : Table ι A (n + 1)) (m : μ) :
    (∃ m', mapTo alloc i a (n + 1) t m = (false, t, m')) ∨
      ∃ sub m', (∀ j : ℕ → ι, i (n + 1) = j (n + 1) →
          translate j (n + 1) t = translate j n sub ∧ (Walks j (n + 1) t → Walks j n sub)) ∧
        mapTo alloc i a (n + 1) t m
          = ((mapTo alloc i a n sub m').1,
              Function.update t (i (n + 1)) (.table (mapTo alloc i a n sub m').2.1),
              (mapTo alloc i a n sub m').2.2) := by
  cases h : t (i (n + 1)) with
  | page b => exact Or.inl ⟨m, mapTo_of_page h⟩
  | table sub =>
    refine Or.inr ⟨sub, m, fun j hj => ?_, mapTo_of_table h⟩
    rw [hj] at h
    exact ⟨translate_of_table j t h, fun hw => by simpa only [Walks, h] using hw⟩
  | absent =>
    rcases hm : alloc m with ⟨_ | _, m'⟩
    · exact Or.inl ⟨m', mapTo_of_no_frame h hm⟩
    · refine Or.inr ⟨fun _ => .absent, m', fun j hj => ?_, mapTo_of_frame h hm⟩
      rw [hj] at h
      refine ⟨?_, fun hw => ?_⟩
      · rw [translate_empty]
        simp only [translate, h]
      · simp only [Walks, h] at hw

/-- **What mapping does to every address**: on success the address is mapped to the page, and in
any case every other address is translated as before. -/
theorem translate_mapTo (n : ℕ) (t : Table ι A n) (m : μ) (j : ℕ → ι) :
    translate j n (mapTo alloc i a n t m).2.1
      = if (mapTo alloc i a n t m).1 = true ∧ Agree n i j then some a else translate j n t := by
  induction n generalizing m with
  | zero =>
    have hagree : Agree 0 i j ↔ i 0 = j 0 := by simp [Agree]
    cases h : t (i 0) with
    | absent =>
      simp only [mapTo, h, hagree, true_and]
      by_cases hj : i 0 = j 0
      · rw [if_pos hj, translate, hj, Function.update_self]
      · rw [if_neg hj, translate, translate, Function.update_of_ne (Ne.symm hj)]
    | page b => simp [mapTo, h]
  | succ n ih =>
    rcases mapTo_succ_cases alloc i a n t m with ⟨m', heq⟩ | ⟨sub, m', hsub, heq⟩
    · simp [heq]
    · rw [heq]
      simp only [translate_update_table, agree_succ, ih]
      by_cases hj : i (n + 1) = j (n + 1)
      · simp only [hj, true_and, if_true, (hsub j hj).1]
      · simp only [hj, false_and, and_false, if_false]

/-- A page is mapped only where nothing was, and then the tables down to it are there. -/
theorem mapTo_ok {n : ℕ} {t : Table ι A n} {m : μ} (h : (mapTo alloc i a n t m).1 = true) :
    translate i n t = none ∧ Walks i n (mapTo alloc i a n t m).2.1 := by
  induction n generalizing m with
  | zero =>
    cases ht : t (i 0) with
    | absent => exact ⟨by simp only [translate, ht], trivial⟩
    | page b =>
      simp only [mapTo, ht] at h
      cases h
  | succ n ih =>
    rcases mapTo_succ_cases alloc i a n t m with ⟨m', heq⟩ | ⟨sub, m', hsub, heq⟩
    · rw [heq] at h
      cases h
    · rw [heq] at h ⊢
      obtain ⟨hnone, hwalks⟩ := ih h
      refine ⟨(hsub i rfl).1.trans hnone, (walks_update_table i i t _).mpr ?_⟩
      rw [if_pos rfl]
      exact hwalks

/-- **Where the tables are there** mapping takes no frame, and fails only on a mapped address. -/
theorem mapTo_of_walks {n : ℕ} {t : Table ι A n} {m : μ} (hw : Walks i n t)
    (h : translate i n t = none) : (mapTo alloc i a n t m).1 = true := by
  induction n with
  | zero =>
    cases ht : t (i 0) with
    | absent => simp only [mapTo, ht]
    | page b =>
      simp only [translate, ht] at h
      cases h
  | succ n ih =>
    obtain ⟨sub, hsub, hw'⟩ := (walks_succ i t).mp hw
    rw [mapTo_of_table hsub]
    exact ih hw' ((translate_of_table i t hsub).symm.trans h)

/-- Mapping keeps the tables of every address. -/
theorem walks_mapTo {n : ℕ} {t : Table ι A n} {m : μ} {j : ℕ → ι} (hw : Walks j n t) :
    Walks j n (mapTo alloc i a n t m).2.1 := by
  induction n generalizing m with
  | zero => trivial
  | succ n ih =>
    rcases mapTo_succ_cases alloc i a n t m with ⟨m', heq⟩ | ⟨sub, m', hsub, heq⟩
    · rw [heq]
      exact hw
    · rw [heq]
      refine (walks_update_table i j t _).mpr ?_
      split
      · rename_i hj
        exact ih ((hsub j hj).2 hw)
      · exact hw

end Map

omit [DecidableEq ι] in
/-- The tables on the way do not depend on the index at level `0`. -/
theorem Walks.congr {n : ℕ} {t : Table ι A n} {i j : ℕ → ι} (hw : Walks i n t)
    (h : ∀ k, 1 ≤ k → k ≤ n → i k = j k) : Walks j n t := by
  induction n with
  | zero => trivial
  | succ n ih =>
    obtain ⟨sub, hsub, hw'⟩ := (walks_succ i t).mp hw
    rw [h (n + 1) (Nat.le_add_left ..) (Nat.le_refl _)] at hsub
    exact (walks_succ j t).mpr ⟨sub, hsub, ih hw' fun k hk hkn => h k hk (Nat.le_succ_of_le hkn)⟩

/-! ### Replacing one entry -/

/-- The page an entry at level `0` maps. -/
def Entry.mapped : Entry ι A 0 → Option A
  | .absent => none
  | .page a => some a

/-- Replace the entry of an address at level `0`, if the tables down to it are there. -/
def put (i : ℕ → ι) (e : Entry ι A 0) : (n : ℕ) → Table ι A n → Table ι A n
  | 0, t => Function.update t (i 0) e
  | n + 1, t =>
    match t (i (n + 1)) with
    | .table sub => Function.update t (i (n + 1)) (.table (put i e n sub))
    | _ => t

theorem put_of_table {n : ℕ} {i : ℕ → ι} {e : Entry ι A 0} {t : Table ι A (n + 1)}
    {sub : Table ι A n} (h : t (i (n + 1)) = .table sub) :
    put i e (n + 1) t = Function.update t (i (n + 1)) (.table (put i e n sub)) := by
  simp only [put, h]

/-- **What replacing an entry does to every address.** -/
theorem translate_put {n : ℕ} {i : ℕ → ι} {t : Table ι A n} (hw : Walks i n t) (e : Entry ι A 0)
    (j : ℕ → ι) :
    translate j n (put i e n t) = if Agree n i j then e.mapped else translate j n t := by
  induction n with
  | zero =>
    have hagree : Agree 0 i j ↔ i 0 = j 0 := by simp [Agree]
    by_cases hj : i 0 = j 0
    · simp only [put, translate, hagree, hj, Function.update_self, if_true]
      cases e <;> rfl
    · simp only [put, translate, hagree, hj, Function.update_of_ne (Ne.symm hj), if_false]
  | succ n ih =>
    obtain ⟨sub, hsub, hw'⟩ := (walks_succ i t).mp hw
    rw [put_of_table hsub]
    simp only [translate_update_table, agree_succ, ih hw']
    by_cases hj : i (n + 1) = j (n + 1)
    · rw [hj] at hsub
      simp only [hj, true_and, if_true, translate_of_table j t hsub]
    · simp only [hj, false_and, if_false]

/-! ### Unmapping -/

theorem unmap_of_table {n : ℕ} {i : ℕ → ι} {t : Table ι A (n + 1)} {sub : Table ι A n}
    (h : t (i (n + 1)) = .table sub) :
    unmap i (n + 1) t
      = ((unmap i n sub).1, Function.update t (i (n + 1)) (.table (unmap i n sub).2)) := by
  simp only [unmap, h]

/-- Unmapping replaces the entry by an absent one. -/
theorem unmap_of_walks {n : ℕ} {i : ℕ → ι} {t : Table ι A n} (hw : Walks i n t) :
    unmap i n t = (true, put i .absent n t) := by
  induction n with
  | zero => rfl
  | succ n ih =>
    obtain ⟨sub, hsub, hw'⟩ := (walks_succ i t).mp hw
    rw [unmap_of_table hsub, put_of_table hsub, ih hw']

theorem unmap_of_not_walks {n : ℕ} {i : ℕ → ι} {t : Table ι A n} (hw : ¬Walks i n t) :
    unmap i n t = (false, t) := by
  induction n with
  | zero => exact absurd trivial hw
  | succ n ih =>
    cases h : t (i (n + 1)) with
    | absent => simp only [unmap, h]
    | page a => simp only [unmap, h]
    | table sub =>
      have hsub : ¬Walks i n sub := fun hw' => hw ((walks_succ i t).mpr ⟨sub, h, hw'⟩)
      rw [unmap_of_table h, ih hsub, ← h, Function.update_eq_self]

/-- **What unmapping does to every address**: where the tables are there, the address is no longer
mapped and every other one is translated as before. -/
theorem translate_unmap {n : ℕ} {i : ℕ → ι} {t : Table ι A n} (hw : Walks i n t) (j : ℕ → ι) :
    translate j n (unmap i n t).2 = if Agree n i j then none else translate j n t := by
  rw [unmap_of_walks hw, translate_put hw, Entry.mapped]

/-- Unmapping keeps the tables of every address. -/
theorem walks_unmap {n : ℕ} {i j : ℕ → ι} {t : Table ι A n} (hw : Walks j n t) :
    Walks j n (unmap i n t).2 := by
  induction n with
  | zero => trivial
  | succ n ih =>
    cases h : t (i (n + 1)) with
    | table sub =>
      rw [unmap_of_table h]
      refine (walks_update_table i j t _).mpr ?_
      split
      · rename_i hj
        rw [hj] at h
        obtain ⟨sub', hsub', hw'⟩ := (walks_succ j t).mp hw
        rw [h] at hsub'
        cases hsub'
        exact ih hw'
      · exact hw
    | absent => simpa only [unmap, h] using hw
    | page b => simpa only [unmap, h] using hw

end PageTable

end Cairn
