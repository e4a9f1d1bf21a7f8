import Cairn.FrameAlloc.RangeList

/-!
# The frame pool at boot

`memory::init` of `kernel/src/memory.rs` turns the boot loader's memory map into the first state of
the range list. It walks the entries once, rounds each usable one inward to whole frames, clips it
at 1 MiB, and gives what is left a slot of its own; after `MAX_REGIONS` of them there is no slot and
the rest is dropped. One `coalesce` at the end merges what touches or overlaps.

The walk is described exactly, for every map: the slots hold the first `MAX_REGIONS` regions the
entries offer (`FrameAllocator.regions_foldl_addEntry`). What the pool is follows from this and from
the fact that `coalesce` keeps the set. Addresses are `u64`s and the two sums of the source wrap; on
a map whose ends stay below `2 ^ 64` they do not, and the rounded bounds of an entry say precisely
which frames lie inside it (`MemmapEntry.mem_region_iff`).

## Main definitions

* `MemmapEntry`, `FrameAllocator.init` — the boot-time pool of `memory::init`
* `usableFrames` — the frames of the usable entries of a memory map
* `MemmapEntry.Contains`, `MemmapEntry.Offers` — what an entry has, in bytes

## Main results

* `FrameAllocator.freeSet_init`, `FrameAllocator.good_init` — the pool is the map's frames
* `bootPool_exact`
-/

namespace Cairn

/-- `MEMMAP_USABLE`. -/
def memmapUsable : ℕ := 0

/-- An entry of the boot loader's memory map. -/
structure MemmapEntry where
  /-- The physical address of the first byte. -/
  base : ℕ
  /-- The number of bytes. -/
  length : ℕ
  /-- The kind of memory. -/
  type : ℕ
deriving DecidableEq, Repr

namespace MemmapEntry

/-- The first frame of an entry: rounded up, and never in the first MiB. -/
def first (e : MemmapEntry) : ℕ := max ((e.base + 0xfff) % 2 ^ 64 / 0x1000) 0x100

/-- The frame after the last one that lies wholly inside an entry. -/
def last (e : MemmapEntry) : ℕ := (e.base + e.length) % 2 ^ 64 / 0x1000

end MemmapEntry

/-- The frames of the usable entries of a memory map. -/
def usableFrames (entries : List MemmapEntry) : Finset ℕ :=
  cover ((entries.filter fun e => e.type = memmapUsable).map fun e => ⟨e.first, e.last⟩)

/-- The regions `memory::init` asks slots for, in the order of the map. -/
def offered (entries : List MemmapEntry) : List FreeRegion :=
  (entries.filter fun e => e.type = memmapUsable ∧ e.first < e.last).map fun e => ⟨e.first, e.last⟩

namespace Slots

/-- The array after the regions `rs` were added to an empty one: the first `MAX_REGIONS` of them,
then empty slots. -/
def pack (rs : List FreeRegion) : List (Option FreeRegion) :=
  (rs.take maxRegions).map some ++ List.replicate (maxRegions - rs.length) none

theorem fill_append (r : FreeRegion) (rs : List FreeRegion) (slots : List (Option FreeRegion)) :
    fill r (rs.map some ++ slots) = rs.map some ++ fill r slots := by
  induction rs with
  | nil => rfl
  | cons q rs ih => simp [fill, ih]

/-- Adding one more region: the next slot, or nothing when all are taken. -/
theorem fill_pack (r : FreeRegion) (rs : List FreeRegion) :
    fill r (pack rs) = pack (rs ++ [r]) := by
  rw [pack, fill_append, pack, List.length_append, List.length_singleton]
  by_cases hroom : rs.length < maxRegions
  · obtain ⟨k, hk⟩ : ∃ k, maxRegions - rs.length = k + 1 :=
      ⟨maxRegions - rs.length - 1, by omega⟩
    rw [hk, List.take_of_length_le hroom.le, List.take_of_length_le (by simpa using hroom),
      show maxRegions - (rs.length + 1) = k by omega, List.replicate_succ, fill]
    simp
  · have hfull : maxRegions ≤ rs.length := Nat.not_lt.mp hroom
    rw [List.take_append_of_le_length hfull, Nat.sub_eq_zero_of_le hfull,
      Nat.sub_eq_zero_of_le (hfull.trans (Nat.le_succ _))]
    rfl

end Slots

namespace FrameAllocator

open Slots

/-- The body of the loop of `memory::init`. -/
def addEntry (fa : FrameAllocator) (e : MemmapEntry) : FrameAllocator :=
  if e.type ≠ memmapUsable then fa
  else if e.first < e.last then fa.addRegion e.first e.last
  else fa

/-- `memory::init`: the usable entries of the memory map, coalesced. -/
def init (entries : List MemmapEntry) : FrameAllocator := (entries.foldl addEntry empty).coalesce

/-- One round of the loop asks for the region its entry offers. -/
theorem regions_addEntry {fa : FrameAllocator} {rs : List FreeRegion} (h : fa.regions = pack rs)
    (e : MemmapEntry) : (fa.addEntry e).regions = pack (rs ++ offered [e]) := by
  rw [addEntry, offered]
  by_cases husable : e.type = memmapUsable
  · by_cases hlt : e.first < e.last
    · simp only [husable, hlt, ne_eq, not_true_eq_false, if_false, if_true, addRegion,
        if_neg (Nat.not_le.mpr hlt), h, fill_pack]
      simp [husable, hlt]
    · simp [husable, hlt, h]
  · simp [husable, h]

theorem offered_cons (e : MemmapEntry) (entries : List MemmapEntry) :
    offered (e :: entries) = offered [e] ++ offered entries := by
  rw [offered, List.filter_cons]
  split <;> simp_all [offered]

/-- **The loop.** The slots hold the first regions the entries offer, as many as there are slots. -/
theorem regions_foldl_addEntry {fa : FrameAllocator} {rs : List FreeRegion}
    (h : fa.regions = pack rs) (entries : List MemmapEntry) :
    (entries.foldl addEntry fa).regions = pack (rs ++ offered entries) := by
  induction entries generalizing fa rs with
  | nil => simpa [offered] using h
  | cons e entries ih =>
    rw [List.foldl_cons, ih (regions_addEntry h e), offered_cons e entries, List.append_assoc]

/-- The pool at boot covers the first `MAX_REGIONS` regions of the map. -/
theorem freeSet_init_eq (entries : List MemmapEntry) :
    (init entries).freeSet = cover ((offered entries).take maxRegions) := by
  have hregions : (entries.foldl addEntry empty).regions = pack ([] ++ offered entries) :=
    regions_foldl_addEntry rfl entries
  rw [init, freeSet_coalesce, freeSet, held, hregions, List.nil_append, pack,
    List.reduceOption_append, List.reduceOption_replicate_none, List.append_nil,
    reduceOption_map_some]

/-- **The pool at boot** is the set of frames of the usable entries, when there are no more of
them than slots. -/
theorem freeSet_init {entries : List MemmapEntry}
    (hlen : (entries.filter fun e => e.type = memmapUsable).length ≤ maxRegions) :
    (init entries).freeSet = usableFrames entries := by
  have hoffered : offered entries = ((entries.filter fun e => e.type = memmapUsable).map
      fun e => (⟨e.first, e.last⟩ : FreeRegion)).filter fun r => r.start < r.stop := by
    rw [List.filter_map, List.filter_filter, offered]
    congr 2
    funext e
    simp [Bool.and_comm]
  have hle : (offered entries).length ≤ maxRegions := by
    rw [hoffered]
    exact (List.length_filter_le _ _).trans (by simpa using hlen)
  rw [freeSet_init_eq, List.take_of_length_le hle, hoffered, cover_filter, usableFrames]

theorem good_init {entries : List MemmapEntry} {FRAMES : ℕ}
    (hlen : (entries.filter fun e => e.type = memmapUsable).length ≤ maxRegions)
    (hbound : ∀ f ∈ usableFrames entries, f < FRAMES) : Good FRAMES (init entries) :=
  ⟨tidy_coalesce _, by rw [freeSet_init hlen]; exact hbound⟩

/-- Whatever the map says, the pool is tidy and its frames are those of 64-bit addresses. -/
theorem good_init_address (entries : List MemmapEntry) : Good (2 ^ 52) (init entries) := by
  refine ⟨tidy_coalesce _, fun f hf => ?_⟩
  rw [freeSet_init_eq] at hf
  obtain ⟨r, hr, hin⟩ := mem_cover.mp hf
  obtain ⟨e, -, rfl⟩ := List.mem_map.mp (List.mem_of_mem_take hr)
  have hlast : e.last < 2 ^ 52 := by
    rw [MemmapEntry.last]
    omega
  exact (FreeRegion.mem_frames.mp hin).2.trans hlast

end FrameAllocator

/-! ### What the map says, in bytes -/

namespace MemmapEntry

/-- The whole 4 KiB of frame `f` lie inside the entry. -/
def Contains (e : MemmapEntry) (f : ℕ) : Prop :=
  e.base ≤ f * 0x1000 ∧ f * 0x1000 + 0x1000 ≤ e.base + e.length

instance (e : MemmapEntry) (f : ℕ) : Decidable (e.Contains f) := instDecidableAnd

/-- A usable entry that contains a frame above the first MiB. -/
def Offers (e : MemmapEntry) : Prop := e.type = memmapUsable ∧ ∃ f, 0x100 ≤ f ∧ e.Contains f

/-- The rounded and clipped bounds of an entry are exact. -/
theorem contains_iff_bounds (e : MemmapEntry) (f : ℕ) :
    0x100 ≤ f ∧ e.Contains f ↔
      max ((e.base + 0xfff) / 0x1000) 0x100 ≤ f ∧ f < (e.base + e.length) / 0x1000 := by
  rw [Contains]
  omega

theorem offers_iff (e : MemmapEntry) :
    e.Offers ↔ e.type = memmapUsable ∧
      max ((e.base + 0xfff) / 0x1000) 0x100 < (e.base + e.length) / 0x1000 := by
  simp only [Offers, contains_iff_bounds]
  constructor
  · rintro ⟨husable, f, hlo, hhi⟩
    exact ⟨husable, hlo.trans_lt hhi⟩
  · rintro ⟨husable, hlt⟩
    exact ⟨husable, _, le_rfl, hlt⟩

instance (e : MemmapEntry) : Decidable e.Offers := decidable_of_iff _ e.offers_iff.symm

variable {e : MemmapEntry} (hfits : e.base + e.length + 0xfff < 2 ^ 64)
include hfits

/-- Without a wrap, the bounds `memory::init` computes are the exact ones. -/
theorem first_eq : e.first = max ((e.base + 0xfff) / 0x1000) 0x100 := by
  rw [first, Nat.mod_eq_of_lt (by omega)]

theorem last_eq : e.last = (e.base + e.length) / 0x1000 := by
  rw [last, Nat.mod_eq_of_lt (by omega)]

theorem mem_region_iff (f : ℕ) :
    f ∈ FreeRegion.frames ⟨e.first, e.last⟩ ↔ 0x100 ≤ f ∧ e.Contains f := by
  rw [FreeRegion.mem_frames, first_eq hfits, last_eq hfits, contains_iff_bounds]

theorem offers_iff_first_lt_last : e.Offers ↔ e.type = memmapUsable ∧ e.first < e.last := by
  rw [offers_iff, first_eq hfits, last_eq hfits]

/-- A frame inside an entry has a number far below the word size. -/
theorem Contains.lt {f : ℕ} (h : e.Contains f) : f < 2 ^ 52 := by
  obtain ⟨-, hhi⟩ := h
  omega

end MemmapEntry

section Pool

open LowestFirst

/-- Without a wrap, the regions asked for are those of the entries that offer a frame. -/
theorem offered_eq {entries : List MemmapEntry}
    (hfits : ∀ e ∈ entries, e.base + e.length + 0xfff < 2 ^ 64) :
    offered entries
      = (entries.filter fun e => e.Offers).map fun e => (⟨e.first, e.last⟩ : FreeRegion) := by
  rw [offered]
  congr 1
  refine List.filter_congr fun e he => ?_
  rw [decide_eq_decide]
  exact (MemmapEntry.offers_iff_first_lt_last (hfits e he)).symm

/-- **The boot pool, exactly.** For a memory map whose entries end below the top of the address
space, in any order and however they overlap:

* a frame is free after `memory::init` if and only if it is not in the first MiB and its whole
  4 KiB lie inside one of the first `MAX_REGIONS` usable entries that contain such a frame;
* `free_count` is the number of these frames, each counted once;
* whatever is allocated later, and given back if it came from the pool, every frame handed out is
  above the first MiB and lies wholly inside one usable entry. -/
theorem bootPool_exact (entries : List MemmapEntry)
    (hfits : ∀ e ∈ entries, e.base + e.length + 0xfff < 2 ^ 64) :
    let fa := FrameAllocator.init entries
    (∀ f, f ∈ fa.freeSet ↔
      0x100 ≤ f ∧ ∃ e ∈ (entries.filter fun e => e.Offers).take maxRegions, e.Contains f) ∧
      fa.freeCount = fa.freeSet.card ∧
      ∀ h : List (Op ℕ), (∀ op ∈ h, op.Within (· ∈ fa.freeSet)) →
        ∀ f, (FrameAllocator.allocator.after fa h).alloc.1 = some f →
          0x100 ≤ f ∧ ∃ e ∈ entries, e.type = memmapUsable ∧ e.Contains f := by
  intro fa
  have hfirst : ∀ e ∈ (entries.filter fun e => e.Offers).take maxRegions,
      e ∈ entries ∧ e.Offers := fun e he => by
    simpa using List.mem_filter.mp (List.mem_of_mem_take he)
  have hmem : ∀ f, f ∈ fa.freeSet ↔
      0x100 ≤ f ∧ ∃ e ∈ (entries.filter fun e => e.Offers).take maxRegions, e.Contains f := by
    intro f
    rw [FrameAllocator.freeSet_init_eq, offered_eq hfits, ← List.map_take, mem_cover]
    constructor
    · rintro ⟨r, hr, hf⟩
      obtain ⟨e, he, rfl⟩ := List.mem_map.mp hr
      obtain ⟨hlow, hin⟩ := (MemmapEntry.mem_region_iff (hfits e (hfirst e he).1) f).mp hf
      exact ⟨hlow, e, he, hin⟩
    · rintro ⟨hlow, e, he, hin⟩
      exact ⟨_, List.mem_map_of_mem he,
        (MemmapEntry.mem_region_iff (hfits e (hfirst e he).1) f).mpr ⟨hlow, hin⟩⟩
  have hgood : FrameAllocator.Good (2 ^ 52) fa := by
    refine ⟨FrameAllocator.tidy_coalesce _, fun f hf => ?_⟩
    obtain ⟨-, e, he, hin⟩ := (hmem f).mp hf
    exact hin.lt (hfits e (hfirst e he).1)
  have hword : 2 ^ 52 < 2 ^ 64 := by decide
  refine ⟨hmem, FrameAllocator.freeCount_eq_card hword hgood, fun h hw f hf => ?_⟩
  -- what is handed out was free, and what is free was in the pool from the start
  have hlawful := FrameAllocator.lawful hword
  have hinv := hlawful.inv_after hgood fun op hop => (hw op hop).mono hgood.bounded
  have hfree := (hlawful.alloc_some hinv hf).1
  have hpool : f ∈ fa.freeSet :=
    hlawful.freeSet_after_subset hgood (Finset.Subset.refl _) hgood.bounded hw hfree
  obtain ⟨hlow, e, he, hin⟩ := (hmem f).mp hpool
  exact ⟨hlow, e, (hfirst e he).1, (hfirst e he).2.1, hin⟩

/-- A memory map with an unaligned entry that begins below 1 MiB, an entry that overlaps it and
one of another type. -/
def overlapping : List MemmapEntry :=
  [⟨0xff800, 0x2c00, memmapUsable⟩, ⟨0x101000, 0x2000, memmapUsable⟩, ⟨0x200000, 0x1000, 1⟩]

theorem bootPool_exact_overlapping :
    (FrameAllocator.init overlapping).freeCount = 3 ∧
      0x102 ∈ (FrameAllocator.init overlapping).freeSet ∧
      0xff ∉ (FrameAllocator.init overlapping).freeSet ∧
      0x200 ∉ (FrameAllocator.init overlapping).freeSet := by
  obtain ⟨hmem, hcount, -⟩ := bootPool_exact overlapping (by decide)
  refine ⟨?_, (hmem _).mpr ⟨by decide, ⟨0x101000, 0x2000, memmapUsable⟩, by decide, by decide⟩,
    fun h => absurd ((hmem _).mp h).1 (by decide), fun h => ?_⟩
  · rw [hcount]
    decide +kernel
  · have hnone : ∀ e ∈ (overlapping.filter fun e => e.Offers).take maxRegions,
        ¬ e.Contains 0x200 := by decide
    obtain ⟨-, e, he, hin⟩ := (hmem _).mp h
    exact hnone e he hin

end Pool

end Cairn
