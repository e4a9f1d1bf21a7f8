import Cairn.FrameAlloc.Bitmap
import Cairn.FrameAlloc.Boot

/-!
# The range list refines the bitmap

The kernel's allocator and the bitmap of `crates/frame-alloc` are two implementations of one
contract, so the general theorem about lawful lowest-first allocators compares them: driven by the
same calls from the same memory map they give the same answers, count the same frames and stand
for the same free set, as long as the range list drops nothing. When it does drop something is
known exactly, and a dropped frame is lost but never handed out twice.

## Main results

* `rangeList_refines_bitmap`
-/

namespace Cairn

namespace FrameAllocator

open Slots in
theorem full_and_not_adjacent_iff {slots : List (Option FreeRegion)} {f : ℕ} :
    none ∉ slots ∧ ¬ Adjacent f slots ↔
      ∀ slot ∈ slots, ∃ r, slot = some r ∧ r.stop ≠ f ∧ r.start ≠ f + 1 := by
  constructor
  · rintro ⟨hfull, hadj⟩ (_ | r) hslot
    · exact absurd hslot hfull
    · exact ⟨r, rfl, fun h => hadj ⟨r, hslot, Or.inl h⟩, fun h => hadj ⟨r, hslot, Or.inr h⟩⟩
  · intro hall
    refine ⟨fun hnone => ?_, ?_⟩
    · obtain ⟨r, hr, -⟩ := hall none hnone
      cases hr
    · rintro ⟨r, hr, hadj⟩
      obtain ⟨q, hq, hne⟩ := hall _ hr
      cases hq
      exact hadj.elim hne.1 hne.2

end FrameAllocator

section Refinement

open LowestFirst

/-- The bitmap drops nothing in range, in any run. -/
theorem every_effective_bitmap {FRAMES : ℕ} (b : BitmapFrameAllocator FRAMES) {h : List (Op ℕ)}
    (hw : ∀ op ∈ h, op.Within (· < FRAMES)) :
    Runs.Every (BitmapFrameAllocator.allocator FRAMES).step b
      (Effective (BitmapFrameAllocator.allocator FRAMES)) h := by
  induction h with
  | nil => trivial
  | cons op h ih =>
    refine ⟨?_, ih fun o ho => hw o (List.mem_cons_of_mem _ ho)⟩
    cases op with
    | alloc => trivial
    | free f => exact BitmapFrameAllocator.not_dropped _ (hw _ List.mem_cons_self)

/-- **The range list refines the bitmap.** For a memory map with no more usable entries than slots
and frames below `FRAMES`, a bitmap with the same free frames, and any run of `alloc` and `free`
calls on frames below `FRAMES`:

* as long as the range list has dropped no free, the two free sets, the two counts and the answers
  to the next allocation are the same;
* a free of a frame that is not free is dropped exactly when every slot holds a region and no
  region ends at the frame or starts right after it;
* whatever was dropped, the next allocation does not answer a frame that is outstanding. -/
theorem rangeList_refines_bitmap (entries : List MemmapEntry) (FRAMES : ℕ)
    (hlen : (entries.filter fun e => e.type = memmapUsable).length ≤ maxRegions)
    (hF : FRAMES < 2 ^ 64) (hbound : ∀ f ∈ usableFrames entries, f < FRAMES)
    (b : BitmapFrameAllocator FRAMES)
    (hb : ∀ f, b.isFree f = true ↔ f ∈ usableFrames entries)
    (h : List (Op ℕ)) (hw : ∀ op ∈ h, op.Within (· < FRAMES)) :
    let fa₀ := FrameAllocator.init entries
    let fa := FrameAllocator.allocator.after fa₀ h
    let bm := (BitmapFrameAllocator.allocator FRAMES).after b h
    (Runs.Every FrameAllocator.allocator.step fa₀ (Effective FrameAllocator.allocator) h →
      fa.alloc.1 = bm.alloc.1 ∧ fa.freeCount = bm.freeCount ∧
        ∀ f, f ∈ fa.freeSet ↔ bm.isFree f = true) ∧
      (∀ f < FRAMES, f ∉ fa.freeSet →
        (f ∉ (fa.free f).freeSet ↔
          ∀ slot ∈ fa.regions, ∃ r, slot = some r ∧ r.stop ≠ f ∧ r.start ≠ f + 1)) ∧
      ∀ f, fa.alloc.1 = some f → f ∉ outstanding FrameAllocator.allocator fa₀ h := by
  intro fa₀ fa bm
  have hA := FrameAllocator.lawful hF
  have hB := BitmapFrameAllocator.lawful FRAMES
  have hgood : FrameAllocator.Good FRAMES fa₀ := FrameAllocator.good_init hlen hbound
  have hfa : FrameAllocator.Good FRAMES fa := hA.inv_after hgood hw
  have hstart : fa₀.freeSet = b.freeSet := by
    ext f
    rw [FrameAllocator.freeSet_init hlen, ← hb, b.isFree_iff]
  refine ⟨fun hnd => ?_, fun f hf hnot => ?_, fun f hf => hA.fresh hgood hw hf⟩
  · have hndB : Runs.Every (BitmapFrameAllocator.allocator FRAMES).step b
        (Effective (BitmapFrameAllocator.allocator FRAMES)) h :=
      every_effective_bitmap b hw
    obtain ⟨hset, hans⟩ := hA.agree hB hgood trivial hstart hw hnd hndB
    have hset' : fa.freeSet = bm.freeSet := hset
    refine ⟨hans, ?_, fun f => ?_⟩
    · rw [FrameAllocator.freeCount_eq_card hF hfa, bm.freeCount_eq_card, hset']
    · rw [bm.isFree_iff, hset']
  · rw [show f ∉ (fa.free f).freeSet ↔ _ from FrameAllocator.dropped_iff hF hfa hf hnot]
    exact FrameAllocator.full_and_not_adjacent_iff

/-- A memory map of two usable pages. -/
def twoPages : List MemmapEntry := [⟨0x100000, 0x2000, memmapUsable⟩]

/-- The bitmap with the same two frames. -/
def twoPagesBitmap : BitmapFrameAllocator 258 :=
  ((BitmapFrameAllocator.new 258).markFree 256).markFree 257

theorem rangeList_refines_bitmap_twoPages :
    (∀ f, twoPagesBitmap.isFree f = true ↔ f ∈ usableFrames twoPages) ∧
      (FrameAllocator.allocator.after (.init twoPages) [.free 256, .alloc]).alloc.1 = some 256 ∧
      ((BitmapFrameAllocator.allocator 258).after twoPagesBitmap [.free 256, .alloc]).alloc.1
        = some 256 := by
  have hset : twoPagesBitmap.freeSet = usableFrames twoPages := by decide +kernel
  have hb : ∀ f, twoPagesBitmap.isFree f = true ↔ f ∈ usableFrames twoPages := fun f => by
    rw [BitmapFrameAllocator.isFree_iff, hset]
  have hans : (FrameAllocator.allocator.after (.init twoPages) [.free 256, .alloc]).alloc.1
      = some 256 := by decide +kernel
  have heff : Runs.Every FrameAllocator.allocator.step (.init twoPages)
      (Effective FrameAllocator.allocator) [.free 256, .alloc] :=
    ⟨not_not.mpr (by decide +kernel), trivial, trivial⟩
  have h := (rangeList_refines_bitmap twoPages 258 (by decide +kernel) (by decide +kernel)
    (by decide +kernel) twoPagesBitmap hb [.free 256, .alloc] (by simp [Op.Within])).1 heff
  exact ⟨hb, hans, h.1 ▸ hans⟩

end Refinement

end Cairn
