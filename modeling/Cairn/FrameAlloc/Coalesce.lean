import Cairn.FrameAlloc.RangeList

/-!
# Coalescing in place

`coalesce` of `kernel/src/memory.rs` as the source has it: loops over fixed arrays with counters,
in which an index out of bounds is a panic. A filter copies the live regions to the front of an
array, an insertion sort sinks each of them to its place by swaps, a merge loop moves runs to a
second array, and the result is written back into the cleared slots. `FrameAllocator.coalesce`
says the same on lists.

Each loop is described by what the arrays hold at its head: a part that is done, a part that is
still to do and padding. So one lemma for each loop says both that its indices are in bounds and
what it computes, and the whole program never panics and computes `FrameAllocator.coalesce`
(`Slots.coalesceInPlace_eq`). What is left to show is a property of lists: a list that is sorted and
merged already stays as it is (`Slots.coalesced_of_tidy`).

## Main definitions

* `Slots.collect`, `Slots.sink`, `Slots.mergeStep`, `Slots.writeBack` — the loops
* `Slots.coalesceInPlace` — `coalesce`, with its panics

## Main results

* `Slots.coalesceInPlace_eq` — the loops stay in bounds and compute `coalesce`
* `coalesce_normalises`
-/

namespace Cairn

namespace Slots

/-! ### The program -/

/-- `a[i] = x`, which panics out of bounds. -/
def store {α : Type} (a : List α) (i : ℕ) (x : α) : Option (List α) :=
  if i < a.length then some (a.set i x) else none

/-- The first loop: copy the live regions to the front of `live`, `n` of them so far. -/
def collect : List (Option FreeRegion) → List FreeRegion → ℕ → Option (List FreeRegion × ℕ)
  | [], live, n => some (live, n)
  | none :: slots, live, n => collect slots live n
  | some r :: slots, live, n =>
    if r.start < r.stop then do
      let live ← store live n r
      collect slots live (n + 1)
    else collect slots live n

/-- The inner loop of the sort, which sinks the region at index `j` by swaps. -/
def sink : ℕ → List FreeRegion → Option (List FreeRegion)
  | 0, live => some live
  | j + 1, live => do
    let a ← live[j]?
    let b ← live[j + 1]?
    if b.start < a.start then
      let live ← store live j b
      let live ← store live (j + 1) a
      sink j live
    else some live

/-- The body of the merge loop, over the output array, its length and the current run. -/
def mergeStep (live : List FreeRegion) (s : List (Option FreeRegion) × ℕ × FreeRegion) (k : ℕ) :
    Option (List (Option FreeRegion) × ℕ × FreeRegion) := do
  let (out, oi, cur) := s
  let r ← live[k]?
  if r.start ≤ cur.stop then
    some (out, oi, if cur.stop < r.stop then { cur with stop := r.stop } else cur)
  else
    let out ← store out oi (some cur)
    some (out, oi + 1, r)

/-- The body of the last loop. -/
def writeBack (out regions : List (Option FreeRegion)) (i : ℕ) :
    Option (List (Option FreeRegion)) := do
  let r ← out[i]?
  store regions i r

/-- `coalesce`: no answer is a panic. -/
def coalesceInPlace (regions : List (Option FreeRegion)) : Option (List (Option FreeRegion)) := do
  let (live, n) ← collect regions (List.replicate maxRegions ⟨0, 0⟩) 0
  if n = 0 then some (regions.map fun _ => none)
  else
    let live ← (List.range' 1 (n - 1)).foldlM (fun live i => sink i live) live
    let cur ← live[0]?
    let (out, oi, cur) ← (List.range' 1 (n - 1)).foldlM (mergeStep live)
      (List.replicate maxRegions none, 0, cur)
    let out ← store out oi (some cur)
    (List.range (oi + 1)).foldlM (writeBack out) (regions.map fun _ => none)

/-! ### The loops -/

section Loops

variable {α : Type}

/-- Storing behind a part that is done. -/
theorem store_append (xs ys : List α) (y x : α) :
    store (xs ++ y :: ys) xs.length x = some (xs ++ x :: ys) := by
  rw [store, if_pos (by simp), List.set_append_right _ _ (Nat.le_refl _), Nat.sub_self,
    List.set_cons_zero]

theorem getElem?_append_cons (xs ys : List α) (y : α) : (xs ++ y :: ys)[xs.length]? = some y := by
  rw [List.getElem?_append_right (Nat.le_refl _), Nat.sub_self, List.getElem?_cons_zero]

theorem live_cons_some (r : FreeRegion) (slots : List (Option FreeRegion)) :
    live (some r :: slots) = if r.start < r.stop then r :: live slots else live slots := by
  rw [live, List.reduceOption_cons_of_some, List.filter_cons]
  simp only [decide_eq_true_eq]
  rfl

theorem live_cons_none (slots : List (Option FreeRegion)) : live (none :: slots) = live slots := by
  rw [live, List.reduceOption_cons_of_none]
  rfl

/-- **The first loop** has room for every live region, and leaves them in slot order. -/
theorem collect_eq (slots : List (Option FreeRegion)) (done : List FreeRegion) (pad : ℕ)
    (z : FreeRegion) (hroom : (live slots).length ≤ pad) :
    collect slots (done ++ List.replicate pad z) done.length
      = some (done ++ live slots ++ List.replicate (pad - (live slots).length) z,
          done.length + (live slots).length) := by
  induction slots generalizing done pad with
  | nil => simp [collect, live]
  | cons s slots ih =>
    cases s with
    | none =>
      rw [live_cons_none] at hroom ⊢
      exact ih done pad hroom
    | some r =>
      rw [live_cons_some] at hroom ⊢
      rw [collect]
      split
      · rename_i hlive
        rw [if_pos hlive, List.length_cons] at hroom
        obtain ⟨pad, rfl⟩ : ∃ k, pad = k + 1 := ⟨pad - 1, by omega⟩
        have hnext := ih (done ++ [r]) pad (by omega)
        rw [List.append_assoc, List.singleton_append, List.length_append,
          List.length_singleton] at hnext
        rw [List.replicate_succ, store_append, Option.bind_eq_bind, Option.bind_some, hnext]
        simp only [List.append_assoc, List.cons_append, List.nil_append, List.length_cons]
        congr 2
        · congr 4
          omega
        · omega
      · rename_i hlive
        rw [if_neg hlive] at hroom
        exact ih done pad hroom

/-- **The inner loop of the sort** inserts a region into the sorted part in front of it, which is
kept in reverse here. -/
theorem sink_eq (sorted : List FreeRegion) (r : FreeRegion) (rest : List FreeRegion) :
    sink sorted.length (sorted.reverse ++ r :: rest)
      = some ((sorted.orderedInsert (fun a b => b.start ≤ a.start) r).reverse ++ rest) := by
  induction sorted generalizing rest with
  | nil => rfl
  | cons a sorted ih =>
    have ha : ((a :: sorted).reverse ++ r :: rest)[sorted.length]? = some a := by simp
    have hr : ((a :: sorted).reverse ++ r :: rest)[sorted.length + 1]? = some r := by
      have h := getElem?_append_cons (a :: sorted).reverse rest r
      rwa [List.length_reverse, List.length_cons] at h
    rw [List.length_cons, sink, ha, hr]
    simp only [Option.bind_eq_bind, Option.bind_some]
    split
    · rename_i hlt
      have hswap₁ : store ((a :: sorted).reverse ++ r :: rest) sorted.length r
          = some (sorted.reverse ++ r :: r :: rest) := by
        have h := store_append sorted.reverse (r :: rest) a r
        rw [List.length_reverse] at h
        simpa using h
      have hswap₂ : store (sorted.reverse ++ r :: r :: rest) (sorted.length + 1) a
          = some (sorted.reverse ++ r :: a :: rest) := by
        have h := store_append (sorted.reverse ++ [r]) rest r a
        simpa using h
      rw [hswap₁, Option.bind_some, hswap₂, Option.bind_some, ih (a :: rest),
        List.orderedInsert_cons, if_neg (Nat.not_le.mpr hlt)]
      simp
    · rename_i hle
      rw [List.orderedInsert_cons, if_pos (Nat.not_lt.mp hle)]
      simp

/-- **The sort**: every region that is still to do is inserted in its turn. -/
theorem foldlM_sink (todo sorted pad : List FreeRegion) :
    (List.range' sorted.length todo.length).foldlM (fun live i => sink i live)
        (sorted.reverse ++ (todo ++ pad))
      = some ((todo.foldl (fun s r => s.orderedInsert (fun a b => b.start ≤ a.start) r)
          sorted).reverse ++ pad) := by
  induction todo generalizing sorted with
  | nil => rfl
  | cons r todo ih =>
    have hnext := ih (sorted.orderedInsert (fun a b => b.start ≤ a.start) r)
    rw [List.orderedInsert_length] at hnext
    rw [List.length_cons, List.range'_succ, List.foldlM_cons, List.cons_append, sink_eq]
    exact hnext

/-- The next run goes into the first empty slot of the output. -/
theorem store_next (done : List FreeRegion) (r : FreeRegion) (room : ℕ) :
    store (done.map some ++ List.replicate (room + 1) none) done.length (some r)
      = some ((done ++ [r]).map some ++ List.replicate room none) := by
  have h := store_append (done.map some) (List.replicate room none) none (some r)
  rw [List.length_map] at h
  rw [List.replicate_succ, h]
  simp

/-- **The merge loop** has completed some runs and works on the last one. -/
theorem foldlM_mergeStep (before todo pad : List FreeRegion) (done : List FreeRegion)
    (cur : FreeRegion) (room : ℕ) (hroom : todo.length ≤ room) :
    ∃ done' cur' room', (List.range' before.length todo.length).foldlM
        (mergeStep (before ++ (todo ++ pad)))
        (done.map some ++ List.replicate room none, done.length, cur)
      = some (done'.map some ++ List.replicate room' none, done'.length, cur') ∧
      done' ++ [cur'] = done ++ merge cur todo ∧
      done'.length + room' = done.length + room ∧ room ≤ room' + todo.length := by
  induction todo generalizing before done cur room with
  | nil => exact ⟨done, cur, room, rfl, rfl, rfl, Nat.le_refl _⟩
  | cons r todo ih =>
    have hget : (before ++ (r :: todo ++ pad))[before.length]? = some r :=
      getElem?_append_cons before (todo ++ pad) r
    have hassoc : before ++ (r :: todo ++ pad) = (before ++ [r]) ++ (todo ++ pad) := by simp
    have hlen : (before ++ [r]).length = before.length + 1 := by simp
    rw [List.length_cons] at hroom
    rw [List.length_cons, List.range'_succ, List.foldlM_cons, mergeStep, hget, merge]
    simp only [Option.bind_eq_bind, Option.bind_some]
    split
    · obtain ⟨done', cur', room', hrun, hmerge, hsize, hle⟩ := ih (before ++ [r]) done
        (if cur.stop < r.stop then { cur with stop := r.stop } else cur) room (by omega)
      rw [← hassoc, hlen] at hrun
      exact ⟨done', cur', room', hrun, hmerge, hsize, by omega⟩
    · -- the run is complete, and there is room for it
      obtain ⟨room, rfl⟩ : ∃ k, room = k + 1 := ⟨room - 1, by omega⟩
      obtain ⟨done', cur', room', hrun, hmerge, hsize, hle⟩ :=
        ih (before ++ [r]) (done ++ [cur]) r room (by omega)
      rw [← hassoc, hlen, List.length_append, List.length_singleton] at hrun
      rw [List.length_append, List.length_singleton] at hsize
      refine ⟨done', cur', room', ?_, ?_, by omega, by omega⟩
      · rw [store_next]
        exact hrun
      · rw [hmerge, List.append_assoc, List.singleton_append]

/-- **The last loop** copies. -/
theorem foldlM_writeBack (done todo rest : List (Option FreeRegion)) (room : ℕ)
    (hroom : todo.length ≤ room) :
    (List.range' done.length todo.length).foldlM (writeBack (done ++ (todo ++ rest)))
        (done ++ List.replicate room none)
      = some (done ++ todo ++ List.replicate (room - todo.length) none) := by
  induction todo generalizing done room with
  | nil => simp
  | cons r todo ih =>
    rw [List.length_cons] at hroom
    obtain ⟨room, rfl⟩ : ∃ k, room = k + 1 := ⟨room - 1, by omega⟩
    have hget : (done ++ (r :: todo ++ rest))[done.length]? = some r :=
      getElem?_append_cons done (todo ++ rest) r
    have hnext := ih (done ++ [r]) room (by omega)
    simp only [List.append_assoc, List.singleton_append, List.length_append,
      List.length_singleton] at hnext
    rw [List.length_cons, List.range'_succ, List.foldlM_cons, writeBack, hget,
      List.replicate_succ]
    simp only [Option.bind_eq_bind, Option.bind_some, store_append]
    rw [show done ++ (r :: todo ++ rest) = done ++ r :: (todo ++ rest) by simp, hnext]
    simp [Nat.add_sub_add_right]

/-- The merge loop and the store after it leave the merged runs in front. -/
theorem exists_merged (cur : FreeRegion) (rest pad : List FreeRegion) {size : ℕ}
    (hsize : rest.length < size) :
    ∃ out oi last room,
      (List.range' 1 rest.length).foldlM (mergeStep (cur :: (rest ++ pad)))
          (List.replicate size none, 0, cur) = some (out, oi, last) ∧
        store out oi (some last) = some ((merge cur rest).map some ++ List.replicate room none) ∧
        oi + 1 = (merge cur rest).length ∧ (merge cur rest).length ≤ size := by
  obtain ⟨done, last, room, hrun, hmerge, hfull, hroom⟩ :=
    foldlM_mergeStep [cur] rest pad [] cur size hsize.le
  rw [List.nil_append] at hmerge
  rw [List.length_nil, Nat.zero_add] at hfull
  obtain ⟨room, rfl⟩ : ∃ k, room = k + 1 := ⟨room - 1, by omega⟩
  have hlast : (merge cur rest).length = done.length + 1 := by rw [← hmerge]; simp
  exact ⟨_, _, last, room, hrun, by rw [store_next, hmerge], hlast.symm, by omega⟩

/-- Writing back what stands in front of an array of empty slots. -/
theorem foldlM_writeBack_front (rs : List FreeRegion) (room : ℕ) {size : ℕ}
    (hsize : rs.length ≤ size) :
    (List.range rs.length).foldlM (writeBack (rs.map some ++ List.replicate room none))
        (List.replicate size none)
      = some (rs.map some ++ List.replicate (size - rs.length) none) := by
  have h := foldlM_writeBack [] (rs.map some) (List.replicate room none) size
    (by rwa [List.length_map])
  rwa [List.length_map, List.nil_append, List.nil_append, List.nil_append, List.length_nil,
    ← List.range_eq_range'] at h

end Loops

/-- **The loops stay in bounds**, on every array, and compute the list of `coalesce`. -/
theorem coalesceInPlace_eq {regions : List (Option FreeRegion)}
    (hsize : regions.length = maxRegions) :
    coalesceInPlace regions = some ((coalesced regions).map some ++
      List.replicate (maxRegions - (coalesced regions).length) none) := by
  have hclear : regions.map (fun _ => (none : Option FreeRegion))
      = List.replicate maxRegions none := by
    rw [List.map_const', hsize]
  have hlive : (live regions).length ≤ maxRegions := by
    rw [← hsize]
    exact (List.length_filter_le _ _).trans (List.reduceOption_length_le _)
  have hcollect := collect_eq regions [] maxRegions ⟨0, 0⟩ hlive
  simp only [List.nil_append, List.length_nil, Nat.zero_add] at hcollect
  rw [coalesceInPlace, hcollect, hclear]
  simp only [Option.bind_eq_bind, Option.bind_some]
  have hperm := (sortByStart_perm (live regions)).length_eq
  cases hregions : live regions with
  | nil =>
    rw [List.length_nil, if_pos rfl, coalesced, hregions]
    rfl
  | cons r rs =>
    rw [hregions] at hlive hperm
    generalize List.replicate (maxRegions - (r :: rs).length) (FreeRegion.mk 0 0) = pad
    have hsort : (List.range' 1 rs.length).foldlM (fun live i => sink i live) (r :: rs ++ pad)
        = some (sortByStart (r :: rs) ++ pad) := foldlM_sink rs [r] pad
    rw [List.length_cons, if_neg (Nat.succ_ne_zero _), Nat.add_sub_cancel, hsort,
      Option.bind_some, coalesced, hregions]
    cases hsorted : sortByStart (r :: rs) with
    | nil =>
      rw [hsorted] at hperm
      cases hperm
    | cons cur rest =>
      rw [hsorted, List.length_cons, List.length_cons, Nat.add_right_cancel_iff] at hperm
      rw [List.length_cons] at hlive
      obtain ⟨out, oi, last, room, hmerge, hstore, hoi, hlen⟩ :=
        exists_merged cur rest pad (by omega : rest.length < maxRegions)
      rw [List.cons_append, List.getElem?_cons_zero, Option.bind_some, ← hperm, hmerge]
      simp only [Option.bind_some, hstore, hoi]
      exact foldlM_writeBack_front _ room hlen

/-! ### What is sorted and merged already -/

theorem merge_of_tidy {cur : FreeRegion} {rest : List FreeRegion} (h : Tidy (cur :: rest)) :
    merge cur rest = cur :: rest := by
  induction rest generalizing cur with
  | nil => rfl
  | cons r rest ih =>
    obtain ⟨-, hgap, hrest⟩ := tidy_cons.mp h
    have hlt := hgap r List.mem_cons_self
    rw [merge, if_neg (Nat.not_le.mpr hlt), ih hrest]

theorem sortByStart_of_tidy {rs : List FreeRegion} (h : Tidy rs) : sortByStart rs = rs := by
  have hsorted : rs.Pairwise fun a b => a.start ≤ b.start :=
    h.ascending.imp_of_mem fun ha _ hlt => ((h.nonempty _ ha).trans hlt).le
  rw [sortByStart_eq, (List.pairwise_reverse.mpr hsorted).insertionSort_eq, List.reverse_reverse]

/-- **A tidy list stays as it is.** -/
theorem coalesced_of_tidy {slots : List (Option FreeRegion)} (h : Tidy slots.reduceOption) :
    coalesced slots = slots.reduceOption := by
  have hlive : live slots = slots.reduceOption := by
    rw [live, List.filter_eq_self]
    exact fun r hr => decide_eq_true (h.nonempty r hr)
  rw [coalesced, hlive, sortByStart_of_tidy h]
  cases hheld : slots.reduceOption with
  | nil => rfl
  | cons cur rest =>
    rw [hheld] at h
    exact merge_of_tidy h

end Slots

open Slots

/-- **`coalesce` normalises and keeps the set.** For every array of regions, whatever their order,
gaps and overlaps: the loops run to their end without an index out of bounds; the result covers the
same frames; it is a prefix of nonempty regions, each ending strictly below the start of the next,
and empty slots behind it; it has no more regions than before; and coalescing again changes
nothing. -/
theorem coalesce_normalises (fa : FrameAllocator) :
    coalesceInPlace fa.regions = some fa.coalesce.regions ∧
      fa.coalesce.freeSet = fa.freeSet ∧
      (∃ rs : List FreeRegion,
        fa.coalesce.regions = rs.map some ++ List.replicate (maxRegions - rs.length) none ∧
        rs.Pairwise (fun a b => a.stop < b.start) ∧ (∀ r ∈ rs, r.start < r.stop) ∧
        rs.length ≤ fa.held.length) ∧
      coalesceInPlace fa.coalesce.regions = some fa.coalesce.regions := by
  have htidy := fa.tidy_coalesce
  refine ⟨coalesceInPlace_eq fa.size, fa.freeSet_coalesce, ⟨coalesced fa.regions, rfl, ?_, ?_,
    length_coalesced_le fa.regions⟩, ?_⟩
  · rw [fa.held_coalesce] at htidy
    exact htidy.ascending
  · rw [fa.held_coalesce] at htidy
    exact htidy.nonempty
  · have hagain : coalesced fa.coalesce.regions = coalesced fa.regions :=
      (coalesced_of_tidy htidy).trans fa.held_coalesce
    rw [coalesceInPlace_eq fa.coalesce.size, hagain]
    rfl

end Cairn
