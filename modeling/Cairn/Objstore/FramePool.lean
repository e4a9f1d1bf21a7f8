import Cairn.FrameAlloc.Boot
import Cairn.Objstore.LoadExtent

/-!
# `load_extent` and the frame pool

`load_extent` takes a frame before it knows whether the sectors can be read, and gives it back when
one of them cannot. Giving a frame back may silently drop it when every slot of the allocator holds
a region. It does not here, in any state of the pool: nothing is allocated in between, so the region
the frame came from still begins right behind it, or was used up and has left a slot.

The states of the pool are those after `memory::init` on any memory map and any run of allocations
and frees, of any frame of a 64-bit address.

## Main results

* `loadExtent_pool` — from any tidy state
* `load_extent_leaves_pool` — from every reachable state
-/

namespace Cairn

open Block LowestFirst

variable {FRAMES : ℕ} {fa : FrameAllocator}

/-- How `load_extent` can leave the pool. -/
inductive PoolEnd (fa : FrameAllocator) : Option ℕ → FrameAllocator → Prop
  /-- Nothing was loaded, and the same frames are free. -/
  | same {fa' : FrameAllocator} (set : fa'.freeSet = fa.freeSet)
      (count : fa'.freeCount = fa.freeCount) : PoolEnd fa none fa'
  /-- The lowest free frame holds the extent. -/
  | loaded {fa' : FrameAllocator} {f : ℕ} (free : f ∈ fa.freeSet)
      (lowest : ∀ g ∈ fa.freeSet, f ≤ g) (set : fa'.freeSet = fa.freeSet.erase f) :
    PoolEnd fa (some (f * 4096)) fa'

/-- **`load_extent`** leaves the pool as it was, or without its lowest frame, however the reads
go. -/
theorem loadExtent_pool (hF : FRAMES < 2 ^ 64) (h : fa.Good FRAMES) (ram : Ram) (lba : BitVec 64)
    (len : BitVec 32) (o : List Outcome) (d : Device Sector) :
    PoolEnd fa (run o (loadExtent fa ram lba len) d).1.1
      (run o (loadExtent fa ram lba len) d).1.2.1 := by
  -- the count follows the set
  have hsame : ∀ {fa' : FrameAllocator}, fa'.Good FRAMES → fa'.freeSet = fa.freeSet →
      PoolEnd fa none fa' := by
    intro fa' hgood hset
    refine .same hset ?_
    rw [FrameAllocator.freeCount_eq_card hF hgood, FrameAllocator.freeCount_eq_card hF h, hset]
  have htakes := FrameAllocator.takes_alloc hF h
  have hgood := h.alloc hF
  have hundo := fun f => FrameAllocator.freeSet_free_alloc (f := f) hF h
  rw [loadExtent]
  split
  · exact .same rfl rfl
  · rcases halloc : fa.alloc with ⟨_ | f, fa'⟩
    · rw [halloc] at htakes hgood
      exact hsame hgood htakes.of_none
    · rw [halloc] at htakes hgood hundo
      obtain ⟨hfree, hlowest, hset⟩ := htakes.of_some
      dsimp only
      rw [run_bind]
      rcases (run o (loadSectors lba len.toNat (f * 4096) (ndata len.toNat) 0
        (ram.zero (f * 4096) 4096)) d).1 with ⟨_ | _, ram'⟩
      · -- a read has failed, and the frame is given back
        exact hsame (hgood.free hF (h.bounded f hfree)) (hundo f rfl)
      · exact .loaded hfree hlowest hset

/-- **`load_extent` neither leaks nor corrupts the pool.** After any memory map and any run of
allocations and frees, for every extent and however the reads go: if nothing is loaded, the free
frames and their number are as before; if the extent is loaded, its frame is the lowest one that
was free, and it alone has left the pool. -/
theorem load_extent_leaves_pool (entries : List MemmapEntry) (h : List (LowestFirst.Op ℕ))
    (hw : ∀ op ∈ h, op.Within (· < 2 ^ 52)) (ram : Ram) (lba : BitVec 64) (len : BitVec 32)
    (o : List Outcome) (d : Device Sector) :
    let fa := FrameAllocator.allocator.after (.init entries) h
    let r := (run o (loadExtent fa ram lba len) d).1
    (r.1 = none → r.2.1.freeSet = fa.freeSet ∧ r.2.1.freeCount = fa.freeCount) ∧
      ∀ phys, r.1 = some phys → 4096 ∣ phys ∧ phys / 4096 ∈ fa.freeSet ∧
        (∀ f ∈ fa.freeSet, phys / 4096 ≤ f) ∧
        r.2.1.freeSet = fa.freeSet.erase (phys / 4096) := by
  intro fa r
  have hgood : fa.Good (2 ^ 52) := (FrameAllocator.lawful (by decide)).inv_after
    (FrameAllocator.good_init_address entries) hw
  have hend : PoolEnd fa r.1 r.2.1 := loadExtent_pool (by decide) hgood ram lba len o d
  generalize r.1 = ans at hend
  generalize r.2.1 = fa' at hend
  cases hend with
  | same set count =>
    refine ⟨fun _ => ⟨set, count⟩, fun phys hphys => ?_⟩
    cases hphys
  | @loaded _ f free lowest set =>
    refine ⟨fun hnone => ?_, fun phys hphys => ?_⟩
    · cases hnone
    · cases hphys
      rw [Nat.mul_div_cancel f (by decide)]
      exact ⟨Nat.dvd_mul_left 4096 f, free, lowest, set⟩

/-- A memory map of one usable page. -/
def onePage : List MemmapEntry := [⟨0x100000, 0x1000, memmapUsable⟩]

/-- The only frame is taken, the read fails, and the frame is free again. -/
theorem load_extent_leaves_pool_failed_read :
    (run [.failed false] (loadExtent (.init onePage) (fun _ => 0) 2 1) zeroDisk).1.1 = none ∧
      (run [.failed false] (loadExtent (.init onePage) (fun _ => 0) 2 1) zeroDisk).1.2.1.freeSet
        = {256} := by
  have hnone : (run [.failed false] (loadExtent (.init onePage) (fun _ => 0) 2 1) zeroDisk).1.1
      = none := by decide +kernel
  have hpool : (FrameAllocator.init onePage).freeSet = {256} := by decide +kernel
  have hsame := (load_extent_leaves_pool onePage [] (by simp) (fun _ => 0) 2 1 [.failed false]
    zeroDisk).1 hnone
  exact ⟨hnone, hsame.1.trans hpool⟩

end Cairn
