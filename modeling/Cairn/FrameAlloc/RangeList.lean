import Cairn.Internal.LowestFirst
import Mathlib.Data.List.ReduceOption
import Mathlib.Data.List.Sort
import Mathlib.Order.Interval.Finset.Nat
import Mathlib.Algebra.BigOperators.Intervals

/-!
# The kernel's range-list frame allocator

`FrameAllocator` of `kernel/src/memory.rs`: an array of `MAX_REGIONS` optional regions
`start .. end` of free frames, kept sorted and merged by `coalesce`. Frame numbers are `u64`s,
here natural numbers; the sums the source forms with them wrap at `2 ^ 64`, except where no wrap
is possible.

An array of regions stands for the set of frames its regions cover. `coalesce` never changes that
set, from any array at all, and leaves a *tidy* one: nonempty regions in ascending order, each
ending strictly below the start of the next (`freeSet_coalesce`, `tidy_coalesce`). In a tidy array
the first region holds the lowest free frame, and this is what makes `alloc` lowest-first.

## Main definitions

* `FreeRegion`, `FrameAllocator`, with the source's `addRegion`, `alloc`, `free`, `freeCount` and
  `coalesce`
* `FrameAllocator.freeSet` — the free frames an array of regions stands for
* `FrameAllocator.Tidy` — sorted and merged

## Main results

* `FrameAllocator.freeSet_coalesce`, `FrameAllocator.tidy_coalesce`
* `FrameAllocator.takes_alloc` — an allocation takes the lowest free frame
* `FrameAllocator.freeSet_free` — a free inserts the frame, unless no slot and no neighbour is left
* `FrameAllocator.freeSet_free_alloc` — a free of the frame just allocated is never dropped
* `FrameAllocator.freeCount_eq_card`
-/

namespace Cairn

/-- `MAX_REGIONS`. -/
def maxRegions : ℕ := 64

/-- A range of free frames, `start` inclusive, `stop` (the source's `end`) exclusive. -/
structure FreeRegion where
  /-- The first frame. -/
  start : ℕ
  /-- The frame after the last. -/
  stop : ℕ
deriving DecidableEq, Repr

namespace FreeRegion

/-- `len`, with the saturating subtraction of the source. -/
def len (r : FreeRegion) : ℕ := r.stop - r.start

/-- The frames of a region. -/
def frames (r : FreeRegion) : Finset ℕ := Finset.Ico r.start r.stop

@[simp] theorem mem_frames {r : FreeRegion} {f : ℕ} :
    f ∈ r.frames ↔ r.start ≤ f ∧ f < r.stop := Finset.mem_Ico

@[simp] theorem card_frames (r : FreeRegion) : r.frames.card = r.len := Nat.card_Ico _ _

end FreeRegion

/-! ### Slots

The loops of the source run over the array of optional regions; each is the recursion over the
list of slots. -/

namespace Slots

/-- Put a region into the first empty slot; without one the array stays as it is. -/
def fill (r : FreeRegion) : List (Option FreeRegion) → List (Option FreeRegion)
  | [] => []
  | none :: rest => some r :: rest
  | some q :: rest => some q :: fill r rest

/-- The first loop of `free`: extend the first region that ends at the frame or starts right
after it. Without one there is no answer. -/
def extend (frame : ℕ) : List (Option FreeRegion) → Option (List (Option FreeRegion))
  | [] => none
  | none :: rest => (extend frame rest).map (none :: ·)
  | some r :: rest =>
    if r.stop = frame then some (some { r with stop := (r.stop + 1) % 2 ^ 64 } :: rest)
    else if r.start = (frame + 1) % 2 ^ 64 then some (some { r with start := frame } :: rest)
    else (extend frame rest).map (some r :: ·)

/-- The scan of `alloc`: the index of the nonempty region with the least start, and that start.
The first of several regions with the same start wins. -/
def lowest : ℕ → List (Option FreeRegion) → Option ℕ × ℕ → Option ℕ × ℕ
  | _, [], best => best
  | i, none :: rest, best => lowest (i + 1) rest best
  | i, some r :: rest, best =>
    if r.start < r.stop ∧ r.start < best.2 then lowest (i + 1) rest (some i, r.start)
    else lowest (i + 1) rest best

/-- The live regions `coalesce` collects. -/
def live (slots : List (Option FreeRegion)) : List FreeRegion :=
  (slots.reduceOption).filter fun r => r.start < r.stop

/-- The insertion sort of `coalesce`. The sorted prefix is kept in reverse, so that the inner loop,
which sinks a region from the end of the prefix while its left neighbour starts later, is an
insertion from the head. -/
def sortByStart (rs : List FreeRegion) : List FreeRegion :=
  (rs.foldl (fun sorted r => sorted.orderedInsert (fun a b => b.start ≤ a.start) r) []).reverse

/-- The merge loop of `coalesce`, with its current run. -/
def merge (cur : FreeRegion) : List FreeRegion → List FreeRegion
  | [] => [cur]
  | r :: rest =>
    if r.start ≤ cur.stop then
      merge (if cur.stop < r.stop then { cur with stop := r.stop } else cur) rest
    else cur :: merge r rest

/-- The regions `coalesce` writes back. -/
def coalesced (slots : List (Option FreeRegion)) : List FreeRegion :=
  match sortByStart (live slots) with
  | [] => []
  | cur :: rest => merge cur rest

end Slots

/-! ### Sets of frames -/

/-- The frames a list of regions covers. -/
def cover : List FreeRegion → Finset ℕ
  | [] => ∅
  | r :: rs => r.frames ∪ cover rs

theorem mem_cover {rs : List FreeRegion} {f : ℕ} : f ∈ cover rs ↔ ∃ r ∈ rs, f ∈ r.frames := by
  induction rs with
  | nil => simp [cover]
  | cons r rs ih => simp [cover, ih]

theorem cover_perm {rs qs : List FreeRegion} (h : rs.Perm qs) : cover rs = cover qs := by
  ext f
  simp [mem_cover, h.mem_iff]

/-- Empty regions cover nothing. -/
theorem cover_filter (rs : List FreeRegion) :
    cover (rs.filter fun r => r.start < r.stop) = cover rs := by
  ext f
  simp only [mem_cover, List.mem_filter, decide_eq_true_eq]
  constructor
  · rintro ⟨r, ⟨hr, -⟩, hf⟩
    exact ⟨r, hr, hf⟩
  · rintro ⟨r, hr, hf⟩
    have := FreeRegion.mem_frames.mp hf
    exact ⟨r, ⟨hr, by omega⟩, hf⟩

/-- Sorted and merged: nonempty regions, each ending strictly below the start of the next. -/
structure Tidy (rs : List FreeRegion) : Prop where
  /-- Ascending, with gaps. -/
  ascending : rs.Pairwise fun a b => a.stop < b.start
  /-- No region is empty. -/
  nonempty : ∀ r ∈ rs, r.start < r.stop

theorem Tidy.nil : Tidy [] := ⟨.nil, by simp⟩

theorem tidy_cons {r : FreeRegion} {rs : List FreeRegion} :
    Tidy (r :: rs) ↔ r.start < r.stop ∧ (∀ q ∈ rs, r.stop < q.start) ∧ Tidy rs := by
  constructor
  · rintro ⟨hasc, hne⟩
    obtain ⟨hgap, hasc⟩ := List.pairwise_cons.mp hasc
    exact ⟨hne r List.mem_cons_self, hgap, hasc, fun q hq => hne q (List.mem_cons_of_mem _ hq)⟩
  · rintro ⟨hr, hgap, hasc, hne⟩
    exact ⟨List.pairwise_cons.mpr ⟨hgap, hasc⟩, List.forall_mem_cons.mpr ⟨hr, hne⟩⟩

/-- The frames of a tidy list are counted region by region. -/
theorem Tidy.card_cover {rs : List FreeRegion} (h : Tidy rs) :
    (cover rs).card = (rs.map FreeRegion.len).sum := by
  induction rs with
  | nil => rfl
  | cons r rs ih =>
    obtain ⟨-, hgap, hrs⟩ := tidy_cons.mp h
    have hdisj : Disjoint r.frames (cover rs) := by
      refine Finset.disjoint_left.mpr fun f hf hc => ?_
      obtain ⟨q, hq, hfq⟩ := mem_cover.mp hc
      have := hgap q hq
      simp only [FreeRegion.mem_frames] at hf hfq
      omega
    rw [cover, Finset.card_union_of_disjoint hdisj, ih hrs, FreeRegion.card_frames, List.map_cons,
      List.sum_cons]

/-! ### Coalescing -/

namespace Slots

theorem sortByStart_eq (rs : List FreeRegion) :
    sortByStart rs = (rs.reverse.insertionSort fun a b => b.start ≤ a.start).reverse := by
  rw [sortByStart, List.foldl_eq_foldr_reverse]
  rfl

theorem sortByStart_perm (rs : List FreeRegion) : (sortByStart rs).Perm rs := by
  rw [sortByStart_eq]
  exact (List.reverse_perm _).trans ((List.perm_insertionSort _ _).trans (List.reverse_perm _))

theorem sortByStart_ascending (rs : List FreeRegion) :
    (sortByStart rs).Pairwise fun a b => a.start ≤ b.start := by
  rw [sortByStart_eq, List.pairwise_reverse]
  have : Std.Total fun a b : FreeRegion => b.start ≤ a.start := ⟨fun a b => Nat.le_total _ _⟩
  have : IsTrans FreeRegion fun a b => b.start ≤ a.start := ⟨fun _ _ _ h h' => h'.trans h⟩
  exact List.pairwise_insertionSort _ _

/-- **The merge loop.** From nonempty regions in ascending order of their starts it makes a tidy
list that covers the same frames. -/
theorem merge_spec {cur : FreeRegion} {rest : List FreeRegion}
    (hne : ∀ r ∈ cur :: rest, r.start < r.stop)
    (hasc : (cur :: rest).Pairwise fun a b => a.start ≤ b.start) :
    Tidy (merge cur rest) ∧ (∀ r ∈ merge cur rest, cur.start ≤ r.start) ∧
      cover (merge cur rest) = cover (cur :: rest) := by
  induction rest generalizing cur with
  | nil =>
    refine ⟨tidy_cons.mpr ⟨hne cur List.mem_cons_self, by simp, .nil⟩, ?_, rfl⟩
    simp [merge]
  | cons r rest ih =>
    obtain ⟨hcur, hne⟩ := List.forall_mem_cons.mp hne
    obtain ⟨hr, hrest⟩ := List.forall_mem_cons.mp hne
    obtain ⟨hle, hasc⟩ := List.pairwise_cons.mp hasc
    have hstart : cur.start ≤ r.start := hle r List.mem_cons_self
    rw [merge]
    split
    · -- `r` is swallowed: the run grows to cover both
      rename_i htouch
      set cur' := if cur.stop < r.stop then { cur with stop := r.stop } else cur with hcur'
      have hs : cur'.start = cur.start := by rw [hcur']; split <;> rfl
      have hpos : cur'.start < cur'.stop := by
        rw [hcur']
        split
        · exact hstart.trans_lt hr
        · exact hcur
      have hframes : cur'.frames = cur.frames ∪ r.frames := by
        ext f
        rw [hcur']
        split <;> simp only [FreeRegion.mem_frames, Finset.mem_union] <;> omega
      obtain ⟨htidy, hge, hcov⟩ := @ih cur'
        (List.forall_mem_cons.mpr ⟨hpos, hrest⟩)
        (List.pairwise_cons.mpr ⟨fun q hq => by rw [hs]; exact hle q (List.mem_cons_of_mem _ hq),
          (List.pairwise_cons.mp hasc).2⟩)
      refine ⟨htidy, fun q hq => hs ▸ hge q hq, ?_⟩
      rw [hcov, cover, cover, cover, hframes, Finset.union_assoc]
    · -- a gap: the run is complete
      rename_i hgap
      obtain ⟨htidy, hge, hcov⟩ := @ih r hne hasc
      refine ⟨tidy_cons.mpr ⟨hcur, fun q hq => ?_, htidy⟩, ?_, ?_⟩
      · have := hge q hq
        omega
      · rintro q (_ | ⟨_, hq⟩)
        · exact le_rfl
        · exact hstart.trans (hge q hq)
      · rw [cover, hcov]
        rfl

theorem length_merge_le (cur : FreeRegion) (rest : List FreeRegion) :
    (merge cur rest).length ≤ rest.length + 1 := by
  induction rest generalizing cur with
  | nil => exact Nat.le_refl _
  | cons r rest ih =>
    rw [merge]
    split
    · exact (ih _).trans (Nat.le_succ _)
    · exact Nat.succ_le_succ (ih r)

/-- Coalescing makes no region. -/
theorem length_coalesced_le (slots : List (Option FreeRegion)) :
    (coalesced slots).length ≤ slots.reduceOption.length := by
  have hlive : (live slots).length ≤ slots.reduceOption.length := List.length_filter_le _ _
  rw [← (sortByStart_perm (live slots)).length_eq] at hlive
  rw [coalesced]
  generalize sortByStart (live slots) = sorted at hlive
  cases sorted with
  | nil => exact Nat.zero_le _
  | cons cur rest => exact (length_merge_le cur rest).trans hlive

theorem coalesced_spec (slots : List (Option FreeRegion)) :
    Tidy (coalesced slots) ∧ cover (coalesced slots) = cover (slots.reduceOption) ∧
      (coalesced slots).length ≤ slots.length := by
  have hperm := sortByStart_perm (live slots)
  have hasc := sortByStart_ascending (live slots)
  have hcov : cover (sortByStart (live slots)) = cover (slots.reduceOption) := by
    rw [cover_perm hperm, live, cover_filter]
  have hne : ∀ r ∈ sortByStart (live slots), r.start < r.stop := fun r hr => by
    simpa using (List.mem_filter.mp (hperm.mem_iff.mp hr)).2
  rw [← and_assoc]
  refine ⟨?_, (length_coalesced_le slots).trans (List.reduceOption_length_le _)⟩
  rw [coalesced]
  generalize sortByStart (live slots) = sorted at hasc hcov hne
  cases sorted with
  | nil => exact ⟨.nil, hcov⟩
  | cons cur rest =>
    obtain ⟨htidy, -, hmerge⟩ := merge_spec hne hasc
    exact ⟨htidy, hmerge.trans hcov⟩

end Slots

/-! ### The allocator -/

/-- The array of optional regions. -/
structure FrameAllocator where
  /-- The slots. -/
  regions : List (Option FreeRegion)
  /-- The array has `MAX_REGIONS` slots. -/
  size : regions.length = maxRegions

namespace Slots

theorem length_fill (r : FreeRegion) (slots : List (Option FreeRegion)) :
    (fill r slots).length = slots.length := by
  induction slots with
  | nil => rfl
  | cons s rest ih => cases s <;> simp [fill, ih]

theorem length_extend {frame : ℕ} {slots slots' : List (Option FreeRegion)}
    (h : extend frame slots = some slots') : slots'.length = slots.length := by
  induction slots generalizing slots' with
  | nil => cases h
  | cons s rest ih =>
    cases s with
    | none =>
      obtain ⟨rest', hrest, rfl⟩ := Option.map_eq_some_iff.mp h
      simp [ih hrest]
    | some r =>
      rw [extend] at h
      split at h
      · cases h
        rfl
      · split at h
        · cases h
          rfl
        · obtain ⟨rest', hrest, rfl⟩ := Option.map_eq_some_iff.mp h
          simp [ih hrest]

/-- The first loop of `free` and, when it finds nothing, the second. -/
def insertFrame (frame : ℕ) (slots : List (Option FreeRegion)) : List (Option FreeRegion) :=
  match extend frame slots with
  | some slots' => slots'
  | none => fill ⟨frame, (frame + 1) % 2 ^ 64⟩ slots

theorem length_insertFrame (frame : ℕ) (slots : List (Option FreeRegion)) :
    (insertFrame frame slots).length = slots.length := by
  rw [insertFrame]
  split
  · rename_i h
    exact length_extend h
  · exact length_fill _ _

end Slots

namespace FrameAllocator

open Slots

/-- `empty`. -/
def empty : FrameAllocator := ⟨List.replicate maxRegions none, List.length_replicate⟩

/-- `add_region`: a region for the first empty slot; an empty region, or one for which no slot is
left, is dropped. -/
def addRegion (fa : FrameAllocator) (start stop : ℕ) : FrameAllocator :=
  if stop ≤ start then fa
  else ⟨fill ⟨start, stop⟩ fa.regions, (length_fill _ _).trans fa.size⟩

/-- `coalesce`: rebuild the list sorted and merged, in the first slots of a cleared array. -/
def coalesce (fa : FrameAllocator) : FrameAllocator where
  regions := (coalesced fa.regions).map some ++
    List.replicate (maxRegions - (coalesced fa.regions).length) none
  size := by
    have := (coalesced_spec fa.regions).2.2
    rw [fa.size] at this
    simp
    omega

/-- `alloc`: the lowest free frame. The bound `u64::MAX` the scan starts from keeps `start + 1`
from wrapping; the last branch is the `unwrap` of the source, which never fails. -/
def alloc (fa : FrameAllocator) : Option ℕ × FrameAllocator :=
  match (lowest 0 fa.regions (none, 2 ^ 64 - 1)).1 with
  | none => (none, fa)
  | some i =>
    match fa.regions[i]? with
    | some (some r) =>
      (some r.start,
        { regions := fa.regions.set i
            (if r.stop ≤ r.start + 1 then none else some { r with start := r.start + 1 })
          size := by rw [List.length_set, fa.size] })
    | _ => (none, fa)

/-- `free`: extend a neighbour or insert a singleton, then coalesce. Without a neighbour and
without an empty slot the frame is silently dropped. -/
def free (fa : FrameAllocator) (frame : ℕ) : FrameAllocator :=
  coalesce ⟨insertFrame frame fa.regions, (length_insertFrame _ _).trans fa.size⟩

/-- `free_count`. -/
def freeCount (fa : FrameAllocator) : ℕ :=
  fa.regions.foldl (fun sum slot =>
    match slot with
    | some r => (sum + r.len) % 2 ^ 64
    | none => sum) 0

/-- The regions in use, in slot order. -/
def held (fa : FrameAllocator) : List FreeRegion := fa.regions.reduceOption

/-- The free frames. -/
def freeSet (fa : FrameAllocator) : Finset ℕ := cover fa.held

theorem reduceOption_map_some (rs : List FreeRegion) : (rs.map some).reduceOption = rs := by
  induction rs with
  | nil => rfl
  | cons r rs ih => rw [List.map_cons, List.reduceOption_cons_of_some, ih]

theorem held_coalesce (fa : FrameAllocator) : fa.coalesce.held = coalesced fa.regions := by
  rw [held, coalesce, List.reduceOption_append, List.reduceOption_replicate_none, List.append_nil,
    reduceOption_map_some]

/-- **Coalescing does not change the set**, whatever the array holds. -/
theorem freeSet_coalesce (fa : FrameAllocator) : fa.coalesce.freeSet = fa.freeSet := by
  rw [freeSet, held_coalesce]
  exact (coalesced_spec fa.regions).2.1

/-- **Coalescing tidies**, whatever the array holds. -/
theorem tidy_coalesce (fa : FrameAllocator) : Tidy fa.coalesce.held := by
  rw [held_coalesce]
  exact (coalesced_spec fa.regions).1

/-- Between operations the array is tidy and its frames lie below a bound that fits a word. -/
structure Good (FRAMES : ℕ) (fa : FrameAllocator) : Prop where
  /-- Sorted and merged. -/
  tidy : Tidy fa.held
  /-- All frames are in range. -/
  bounded : ∀ f ∈ fa.freeSet, f < FRAMES

theorem Good.stop_le {FRAMES : ℕ} {fa : FrameAllocator} (h : Good FRAMES fa) {r : FreeRegion}
    (hr : r ∈ fa.held) : r.stop ≤ FRAMES := by
  have hne := h.tidy.nonempty r hr
  have hlast : r.stop - 1 ∈ fa.freeSet :=
    mem_cover.mpr ⟨r, hr, by simp only [FreeRegion.mem_frames]; omega⟩
  have := h.bounded _ hlast
  omega

/-! ### Allocation -/

end FrameAllocator

namespace Slots

/-- Regions that start no lower than the best one found do not change the scan. -/
theorem lowest_of_le (i : ℕ) (slots : List (Option FreeRegion)) (best : Option ℕ × ℕ)
    (h : ∀ r ∈ slots.reduceOption, best.2 ≤ r.start) : lowest i slots best = best := by
  induction slots generalizing i with
  | nil => rfl
  | cons s rest ih =>
    cases s with
    | none => exact ih (i + 1) (by simpa using h)
    | some r =>
      rw [List.reduceOption_cons_of_some, List.forall_mem_cons] at h
      rw [lowest, if_neg (by omega)]
      exact ih (i + 1) h.2

/-- The first region in use, its index, and what comes after. -/
theorem exists_first {slots : List (Option FreeRegion)} {r : FreeRegion} {rs : List FreeRegion}
    (h : slots.reduceOption = r :: rs) :
    ∃ k rest, slots = List.replicate k none ++ some r :: rest ∧ rest.reduceOption = rs := by
  induction slots with
  | nil => cases h
  | cons s rest ih =>
    cases s with
    | none =>
      obtain ⟨k, rest', rfl, hrs⟩ := ih (by simpa using h)
      exact ⟨k + 1, rest', rfl, hrs⟩
    | some q =>
      rw [List.reduceOption_cons_of_some, List.cons.injEq] at h
      obtain ⟨rfl, rfl⟩ := h
      exact ⟨0, rest, rfl, rfl⟩

/-- In a tidy array the scan finds the first region in use. -/
theorem lowest_first (i k : ℕ) {r : FreeRegion} {rest : List (Option FreeRegion)}
    {best : Option ℕ × ℕ} (htidy : Tidy (r :: rest.reduceOption)) (hlt : r.start < best.2) :
    lowest i (List.replicate k none ++ some r :: rest) best = (some (i + k), r.start) := by
  induction k generalizing i with
  | zero =>
    obtain ⟨hne, hgap, -⟩ := tidy_cons.mp htidy
    rw [List.replicate_zero, List.nil_append, lowest, if_pos ⟨hne, hlt⟩]
    exact lowest_of_le _ _ _ fun q hq => (hne.trans (hgap q hq)).le
  | succ k ih =>
    rw [List.replicate_succ, List.cons_append, lowest, ih (i + 1), Nat.add_assoc, Nat.add_comm 1]

end Slots

namespace FrameAllocator

open Slots

variable {FRAMES : ℕ} {fa : FrameAllocator}

/-- The scan ends where it started or at a nonempty region. -/
theorem lowest_nonempty {i k : ℕ} {slots : List (Option FreeRegion)} {best : Option ℕ × ℕ}
    (h : (lowest i slots best).1 = some k) :
    best.1 = some k ∨ ∃ j r, k = i + j ∧ slots[j]? = some (some r) ∧ r.start < r.stop := by
  induction slots generalizing i best with
  | nil => exact Or.inl h
  | cons s rest ih =>
    have hlater : ∀ {best'}, (lowest (i + 1) rest best').1 = some k →
        best'.1 = some k ∨
          ∃ j r, k = i + j ∧ (s :: rest)[j]? = some (some r) ∧ r.start < r.stop := by
      intro best' h'
      rcases ih h' with hb | ⟨j, r, hk, hr, hne⟩
      · exact Or.inl hb
      · exact Or.inr ⟨j + 1, r, by omega, by simpa using hr, hne⟩
    cases s with
    | none => exact hlater h
    | some r =>
      rw [lowest] at h
      split at h
      · rename_i hcond
        rcases hlater h with hb | hfound
        · exact Or.inr ⟨0, r, (Option.some.inj hb).symm, rfl, hcond.1⟩
        · exact Or.inr hfound
      · exact hlater h

/-- The two ends of an allocation, whatever the array holds. -/
theorem alloc_cases (fa : FrameAllocator) :
    fa.alloc = (none, fa) ∨ ∃ i r, fa.regions[i]? = some (some r) ∧ r.start < r.stop ∧
      fa.alloc.1 = some r.start ∧ fa.alloc.2.regions = fa.regions.set i
        (if r.stop ≤ r.start + 1 then none else some { r with start := r.start + 1 }) := by
  cases hlow : (lowest 0 fa.regions (none, 2 ^ 64 - 1)).1 with
  | none => exact Or.inl (by rw [alloc, hlow])
  | some k =>
    rcases lowest_nonempty hlow with h | ⟨j, r, hk, hr, hne⟩
    · cases h
    · obtain rfl : k = j := by omega
      refine Or.inr ⟨k, r, hr, hne, ?_, ?_⟩ <;> simp only [alloc, hlow, hr]

theorem mem_freeSet_iff {fa : FrameAllocator} {f : ℕ} :
    f ∈ fa.freeSet ↔ ∃ r, some r ∈ fa.regions ∧ r.start ≤ f ∧ f < r.stop := by
  simp only [freeSet, mem_cover, held, List.reduceOption_mem_iff, FreeRegion.frames,
    Finset.mem_Ico]

/-- A frame that is allocated was free. -/
theorem mem_freeSet_of_alloc {fa : FrameAllocator} {f : ℕ} (h : fa.alloc.1 = some f) :
    f ∈ fa.freeSet := by
  rcases fa.alloc_cases with halloc | ⟨i, r, hr, hne, halloc, -⟩
  · rw [halloc] at h
    cases h
  · rw [halloc] at h
    cases h
    exact mem_freeSet_iff.mpr ⟨r, List.mem_of_getElem? hr, Nat.le_refl _, hne⟩

/-- An allocation frees nothing. -/
theorem freeSet_alloc_subset (fa : FrameAllocator) : fa.alloc.2.freeSet ⊆ fa.freeSet := by
  intro f hf
  rcases fa.alloc_cases with halloc | ⟨i, r, hr, hne, -, hregions⟩
  · rwa [halloc] at hf
  · obtain ⟨q, hq, hlo, hhi⟩ := mem_freeSet_iff.mp hf
    rw [hregions] at hq
    rcases List.mem_or_eq_of_mem_set hq with hmem | heq
    · exact mem_freeSet_iff.mpr ⟨q, hmem, hlo, hhi⟩
    · split at heq
      · cases heq
      · cases heq
        exact mem_freeSet_iff.mpr ⟨r, List.mem_of_getElem? hr, Nat.le_of_succ_le hlo, hhi⟩

/-- The region a frame was taken from. -/
theorem alloc_of_held_cons (hF : FRAMES < 2 ^ 64) (h : Good FRAMES fa) {r : FreeRegion}
    {rs : List FreeRegion} (hrs : fa.held = r :: rs) :
    fa.alloc.1 = some r.start ∧
      fa.alloc.2.held
        = if r.stop ≤ r.start + 1 then rs else { r with start := r.start + 1 } :: rs := by
  obtain ⟨k, rest, hslots, hrest⟩ := exists_first hrs
  have hstop : r.stop ≤ FRAMES := h.stop_le (by simp [hrs])
  have hne := h.tidy.nonempty r (by simp [hrs])
  have hlow : (lowest 0 fa.regions (none, 2 ^ 64 - 1)).1 = some k := by
    rw [hslots, lowest_first 0 k (by rw [hrest, ← hrs]; exact h.tidy) (by simp only; omega),
      Nat.zero_add]
  have hget : fa.regions[k]? = some (some r) := by
    rw [hslots, List.getElem?_append_right (by simp)]
    simp
  refine ⟨by rw [alloc, hlow]; simp only [hget], ?_⟩
  rw [held, alloc, hlow]
  simp only [hget]
  rw [hslots, List.set_append_right _ _ (by simp)]
  simp only [List.length_replicate, Nat.sub_self, List.set_cons_zero,
    List.reduceOption_append, List.reduceOption_replicate_none, List.nil_append]
  split
  · rw [List.reduceOption_cons_of_none, hrest]
  · rw [List.reduceOption_cons_of_some, hrest]

theorem alloc_of_held_nil (hrs : fa.held = []) : fa.alloc = (none, fa) := by
  have hlow := lowest_of_le 0 fa.regions (none, 2 ^ 64 - 1) fun r hr => by
    rw [held] at hrs
    rw [hrs] at hr
    cases hr
  rw [alloc, hlow]

/-- **An allocation takes the lowest free frame.** -/
theorem takes_alloc (hF : FRAMES < 2 ^ 64) (h : Good FRAMES fa) :
    LowestFirst.Takes fa.freeSet fa.alloc.1 fa.alloc.2.freeSet := by
  cases hrs : fa.held with
  | nil =>
    rw [alloc_of_held_nil hrs]
    exact .exhausted (by rw [freeSet, hrs, cover])
  | cons r rs =>
    obtain ⟨hans, hheld⟩ := alloc_of_held_cons hF h hrs
    have htidy := h.tidy
    rw [hrs] at htidy
    obtain ⟨hne, hgap, -⟩ := tidy_cons.mp htidy
    have hrest : ∀ f ∈ cover rs, r.stop < f := fun f hf => by
      obtain ⟨q, hq, hfq⟩ := mem_cover.mp hf
      exact (hgap q hq).trans_le (FreeRegion.mem_frames.mp hfq).1
    have hset : fa.alloc.2.freeSet = fa.freeSet.erase r.start := by
      ext f
      have := hrest f
      rw [freeSet, hheld, freeSet, hrs, cover, Finset.mem_erase, Finset.mem_union,
        FreeRegion.mem_frames]
      split
      · constructor
        · intro hf
          exact ⟨by have := this hf; omega, Or.inr hf⟩
        · rintro ⟨hf, hr | hr⟩
          · omega
          · exact hr
      · rw [cover, Finset.mem_union, FreeRegion.mem_frames]
        constructor
        · rintro (hf | hf)
          · simp only at hf
            exact ⟨by omega, Or.inl (by omega)⟩
          · exact ⟨by have := this hf; omega, Or.inr hf⟩
        · rintro ⟨hf, hr | hr⟩
          · exact Or.inl (by simp only; omega)
          · exact Or.inr hr
    rw [hset, hans]
    refine .least (by rw [freeSet, hrs, cover]; simp [hne]) fun f hf => ?_
    rw [freeSet, hrs, cover, Finset.mem_union, FreeRegion.mem_frames] at hf
    rcases hf with hf | hf
    · exact hf.1
    · exact (hne.trans (hrest f hf)).le

theorem Good.alloc (hF : FRAMES < 2 ^ 64) (h : Good FRAMES fa) : Good FRAMES fa.alloc.2 := by
  refine ⟨?_, fun f hf => h.bounded f ((takes_alloc hF h).subset hf)⟩
  cases hrs : fa.held with
  | nil =>
    rw [alloc_of_held_nil hrs, hrs]
    exact .nil
  | cons r rs =>
    rw [(alloc_of_held_cons hF h hrs).2]
    have htidy := h.tidy
    rw [hrs] at htidy
    obtain ⟨-, hgap, hrs'⟩ := tidy_cons.mp htidy
    split
    · exact hrs'
    · exact tidy_cons.mpr ⟨by simp only; omega, hgap, hrs'⟩

/-! ### Freeing -/

end FrameAllocator

namespace Slots

/-- A slot is left, or the region is dropped. -/
theorem cover_fill (r : FreeRegion) (slots : List (Option FreeRegion)) :
    cover ((fill r slots).reduceOption)
      = if none ∈ slots then r.frames ∪ cover (slots.reduceOption)
        else cover (slots.reduceOption) := by
  induction slots with
  | nil => rfl
  | cons s rest ih =>
    cases s with
    | none => rw [if_pos List.mem_cons_self]; rfl
    | some q =>
      rw [fill, List.reduceOption_cons_of_some, cover, ih, List.reduceOption_cons_of_some, cover]
      simp only [List.mem_cons, reduceCtorEq, false_or]
      split
      · rw [← Finset.union_assoc, ← Finset.union_assoc, Finset.union_comm q.frames]
      · rfl

/-- Some region in use ends at the frame or starts right after it. -/
def Adjacent (frame : ℕ) (slots : List (Option FreeRegion)) : Prop :=
  ∃ r, some r ∈ slots ∧ (r.stop = frame ∨ r.start = frame + 1)

theorem extend_eq_none_iff {frame : ℕ} {slots : List (Option FreeRegion)}
    (hf : frame + 1 < 2 ^ 64) : extend frame slots = none ↔ ¬ Adjacent frame slots := by
  have hmod : (frame + 1) % 2 ^ 64 = frame + 1 := Nat.mod_eq_of_lt hf
  rw [Adjacent]
  induction slots with
  | nil => simp [extend]
  | cons s rest ih =>
    cases s with
    | none => simpa [extend] using ih
    | some r =>
      rw [extend, hmod]
      by_cases h1 : r.stop = frame
      · rw [if_pos h1]
        exact iff_of_false (by simp) fun h => h ⟨r, List.mem_cons_self, Or.inl h1⟩
      · by_cases h2 : r.start = frame + 1
        · rw [if_neg h1, if_pos h2]
          exact iff_of_false (by simp) fun h => h ⟨r, List.mem_cons_self, Or.inr h2⟩
        · rw [if_neg h1, if_neg h2]
          exact (Option.map_eq_none_iff.trans ih).trans (by simp [h1, h2])

/-- Extending a neighbour adds exactly the frame. -/
theorem cover_extend {frame : ℕ} {slots slots' : List (Option FreeRegion)}
    (hf : frame + 1 < 2 ^ 64) (hne : ∀ r ∈ slots.reduceOption, r.start < r.stop)
    (h : extend frame slots = some slots') :
    cover (slots'.reduceOption) = insert frame (cover (slots.reduceOption)) := by
  have hmod : (frame + 1) % 2 ^ 64 = frame + 1 := Nat.mod_eq_of_lt hf
  induction slots generalizing slots' with
  | nil => cases h
  | cons s rest ih =>
    cases s with
    | none =>
      obtain ⟨rest', hrest, rfl⟩ := Option.map_eq_some_iff.mp h
      rw [List.reduceOption_cons_of_none, List.reduceOption_cons_of_none]
      exact ih (by simpa using hne) hrest
    | some r =>
      rw [List.reduceOption_cons_of_some, List.forall_mem_cons] at hne
      rw [extend, hmod] at h
      rw [List.reduceOption_cons_of_some, cover]
      split at h
      · rename_i hstop
        cases h
        rw [List.reduceOption_cons_of_some, cover, hstop, hmod, ← Finset.insert_union]
        congr 1
        ext f
        simp only [Finset.mem_insert, FreeRegion.mem_frames]
        omega
      · split at h
        · rename_i hstart
          cases h
          rw [List.reduceOption_cons_of_some, cover, ← Finset.insert_union]
          congr 1
          ext f
          simp only [Finset.mem_insert, FreeRegion.mem_frames]
          omega
        · obtain ⟨rest', hrest, rfl⟩ := Option.map_eq_some_iff.mp h
          rw [List.reduceOption_cons_of_some, cover, ih hne.2 hrest, Finset.union_insert]

end Slots

namespace FrameAllocator

open Slots

variable {FRAMES : ℕ} {fa : FrameAllocator}

/-- **What a free does.** It inserts the frame if some region is adjacent to it or some slot is
empty, and has no effect otherwise. -/
theorem freeSet_free (h : Good FRAMES fa) {f : ℕ} (hf : f + 1 < 2 ^ 64) :
    ((Adjacent f fa.regions ∨ none ∈ fa.regions) ∧ (fa.free f).freeSet = insert f fa.freeSet) ∨
      ((¬ Adjacent f fa.regions ∧ none ∉ fa.regions) ∧ (fa.free f).freeSet = fa.freeSet) := by
  rw [free, freeSet_coalesce]
  simp only [freeSet, held, insertFrame]
  cases hext : extend f fa.regions with
  | some slots' =>
    have hadj : Adjacent f fa.regions := by
      by_contra hn
      rw [(extend_eq_none_iff hf).mpr hn] at hext
      cases hext
    exact Or.inl ⟨Or.inl hadj, cover_extend hf h.tidy.nonempty hext⟩
  | none =>
    have hadj := (extend_eq_none_iff hf).mp hext
    simp only [cover_fill, Nat.mod_eq_of_lt hf]
    by_cases hslot : none ∈ fa.regions
    · refine Or.inl ⟨Or.inr hslot, ?_⟩
      have hone : (FreeRegion.mk f (f + 1)).frames = {f} := Nat.Ico_succ_singleton f
      rw [if_pos hslot, hone, Finset.insert_eq]
    · exact Or.inr ⟨⟨hadj, hslot⟩, by rw [if_neg hslot]⟩

theorem Good.free (hF : FRAMES < 2 ^ 64) (h : Good FRAMES fa) {f : ℕ} (hf : f < FRAMES) :
    Good FRAMES (fa.free f) := by
  refine ⟨tidy_coalesce _, fun g hg => ?_⟩
  rcases freeSet_free h (f := f) (by omega) with ⟨-, hset⟩ | ⟨-, hset⟩
  · rw [hset, Finset.mem_insert] at hg
    rcases hg with rfl | hg
    · exact hf
    · exact h.bounded g hg
  · exact h.bounded g (hset ▸ hg)

/-- **A free undoes an allocation.** The region the frame was taken from still is adjacent to it, or
was used up and has left an empty slot. -/
theorem freeSet_free_alloc (hF : FRAMES < 2 ^ 64) (h : Good FRAMES fa) {f : ℕ}
    (hans : fa.alloc.1 = some f) : (fa.alloc.2.free f).freeSet = fa.freeSet := by
  cases hrs : fa.held with
  | nil =>
    rw [alloc_of_held_nil hrs] at hans
    cases hans
  | cons r rs =>
    obtain ⟨hstart, hheld⟩ := alloc_of_held_cons hF h hrs
    obtain rfl : r.start = f := Option.some.inj (hstart.symm.trans hans)
    have hroom : Adjacent r.start fa.alloc.2.regions ∨ none ∈ fa.alloc.2.regions := by
      by_cases hlast : r.stop ≤ r.start + 1
      · rw [if_pos hlast] at hheld
        have hlen : fa.held.length ≤ maxRegions :=
          (List.reduceOption_length_le _).trans fa.size.le
        rw [hrs, List.length_cons, ← hheld, ← fa.alloc.2.size] at hlen
        exact Or.inr (List.reduceOption_length_lt_iff.mp hlen)
      · rw [if_neg hlast] at hheld
        have hmem : ({ r with start := r.start + 1 } : FreeRegion) ∈ fa.alloc.2.held := by
          rw [hheld]
          exact List.mem_cons_self
        exact Or.inl ⟨_, List.reduceOption_mem_iff.mp hmem, Or.inr rfl⟩
    have htakes := takes_alloc hF h
    rw [hstart] at htakes
    obtain ⟨hfree, -, hset⟩ := htakes.of_some
    have hbound := h.bounded _ hfree
    rcases freeSet_free (h.alloc hF) (f := r.start) (by omega) with ⟨-, hback⟩ | ⟨hnone, -⟩
    · rw [hback, hset, Finset.insert_erase hfree]
    · exact absurd hroom (not_or.mpr hnone)

/-! ### Counting -/

theorem foldl_freeCount (slots : List (Option FreeRegion)) (sum : ℕ) (hs : sum < 2 ^ 64) :
    slots.foldl (fun sum slot =>
      match slot with
      | some r => (sum + r.len) % 2 ^ 64
      | none => sum) sum = (sum + ((slots.reduceOption).map FreeRegion.len).sum) % 2 ^ 64 := by
  induction slots generalizing sum with
  | nil => exact (Nat.mod_eq_of_lt hs).symm
  | cons s rest ih =>
    cases s with
    | none => exact ih sum hs
    | some r =>
      rw [List.foldl_cons, ih _ (Nat.mod_lt _ (by decide)), List.reduceOption_cons_of_some,
        List.map_cons, List.sum_cons, Nat.mod_add_mod, Nat.add_assoc]

/-- `free_count` counts the free frames. -/
theorem freeCount_eq_card (hF : FRAMES < 2 ^ 64) (h : Good FRAMES fa) :
    fa.freeCount = fa.freeSet.card := by
  have hcard : fa.freeSet.card ≤ FRAMES := by
    calc fa.freeSet.card ≤ (Finset.range FRAMES).card :=
          Finset.card_le_card fun f hf => Finset.mem_range.mpr (h.bounded f hf)
      _ = FRAMES := Finset.card_range FRAMES
  rw [freeCount, foldl_freeCount _ 0 (by decide), Nat.zero_add]
  rw [freeSet, h.tidy.card_cover] at hcard ⊢
  exact Nat.mod_eq_of_lt (hcard.trans_lt hF)

/-- The range list, as an implementation of the lowest-first contract. -/
def allocator : LowestFirst.Allocator FrameAllocator ℕ where
  alloc := alloc
  free := free
  freeSet := freeSet

theorem lawful (hF : FRAMES < 2 ^ 64) :
    LowestFirst.Lawful allocator (Good FRAMES) (· < FRAMES) where
  inv_step {fa op} h hop := by
    cases op with
    | alloc => exact h.alloc hF
    | free f => exact h.free hF hop
  takes h := takes_alloc hF h
  frees {fa f} h hf := (freeSet_free h (f := f) (by omega)).imp And.right And.right

/-- **When a free is dropped.** A frame that is not free is dropped exactly when every slot holds
a region and none of the regions is adjacent to the frame. -/
theorem dropped_iff (hF : FRAMES < 2 ^ 64) (h : Good FRAMES fa) {f : ℕ} (hf : f < FRAMES)
    (hnot : f ∉ fa.freeSet) :
    LowestFirst.Dropped allocator fa f ↔ none ∉ fa.regions ∧ ¬ Adjacent f fa.regions := by
  change f ∉ (fa.free f).freeSet ↔ _
  rcases freeSet_free h (f := f) (by omega) with ⟨hroom, hset⟩ | ⟨⟨hadj, hslot⟩, hset⟩
  · rw [hset]
    refine iff_of_false (by simp) ?_
    rintro ⟨hslot, hadj⟩
    exact hroom.elim hadj hslot
  · rw [hset]
    exact iff_of_true hnot ⟨hslot, hadj⟩

end FrameAllocator

end Cairn
