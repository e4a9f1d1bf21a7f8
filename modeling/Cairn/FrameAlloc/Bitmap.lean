import Cairn.Internal.LowestFirst
import Mathlib.Algebra.BigOperators.Intervals

/-!
# The bitmap frame allocator

`BitmapFrameAllocator<FRAMES>` of `crates/frame-alloc`: one bit per frame, set when the frame is
free, in an array of `(FRAMES + 63) / 64` words. The source promises that the bits beyond `FRAMES`
are always `0`; here that promise is a field of the structure, so every operation proves it.

The allocator is a lawful lowest-first allocator that drops nothing in range
(`BitmapFrameAllocator.lawful`, `BitmapFrameAllocator.not_dropped`), and `freeCount` is the
number of free frames.

## Main definitions

* `BitmapFrameAllocator`, with the source's `new`, `markFree`, `markUsed`, `alloc`, `free`,
  `isFree` and `freeCount`
* `BitmapFrameAllocator.freeSet` — the frames that are free
* `BitmapFrameAllocator.Call`, `BitmapFrameAllocator.Denotes` — the calls that change an
  allocator, and what it means for one to stand for a set of frames

## Main results

* `BitmapFrameAllocator.lawful`, `BitmapFrameAllocator.not_dropped`
* `BitmapFrameAllocator.freeCount_eq_card`
* `BitmapFrameAllocator.denotes_afterCalls` — every sequence of calls acts on the set
-/

namespace Cairn

/-! ### Words -/

namespace Bitmap

/-- Bit `f` of an array of words. -/
def bit (ws : List (BitVec 64)) (f : ℕ) : Bool := (ws.getD (f / 64) 0).getLsbD (f % 64)

/-- The frames whose bit is set. -/
def ones (ws : List (BitVec 64)) : Finset ℕ := (Finset.range (64 * ws.length)).filter (bit ws ·)

theorem bit_nil (f : ℕ) : bit [] f = false := by simp [bit]

theorem bit_cons_of_lt {w : BitVec 64} {ws : List (BitVec 64)} {f : ℕ} (hf : f < 64) :
    bit (w :: ws) f = w.getLsbD f := by
  simp [bit, Nat.div_eq_of_lt hf, Nat.mod_eq_of_lt hf]

theorem bit_cons_add {w : BitVec 64} {ws : List (BitVec 64)} (f : ℕ) :
    bit (w :: ws) (64 + f) = bit ws f := by
  rw [bit, bit, Nat.add_div_left _ (by decide), Nat.add_mod_left, List.getD_cons_succ]

theorem bit_of_le {ws : List (BitVec 64)} {f : ℕ} (hf : 64 * ws.length ≤ f) :
    bit ws f = false := by
  have hlen : ws.length ≤ f / 64 := by omega
  simp [bit, List.getElem?_eq_none hlen]

@[simp] theorem mem_ones {ws : List (BitVec 64)} {f : ℕ} : f ∈ ones ws ↔ bit ws f = true := by
  rw [ones, Finset.mem_filter, Finset.mem_range]
  refine ⟨And.right, fun h => ⟨?_, h⟩⟩
  by_contra hlt
  rw [bit_of_le (Nat.le_of_not_lt hlt)] at h
  cases h

/-- Rewriting one word: the bits of the others stay. -/
theorem bit_set {ws : List (BitVec 64)} {i f : ℕ} {w : BitVec 64} (hi : i < ws.length) :
    bit (ws.set i w) f = if f / 64 = i then w.getLsbD (f % 64) else bit ws f := by
  simp only [bit]
  by_cases h : f / 64 = i
  · subst h
    simp [List.getD_eq_getElem?_getD, hi]
  · simp [List.getD_eq_getElem?_getD, h, List.getElem?_set_ne (Ne.symm h)]

/-- The word with bit `b` set. -/
theorem getLsbD_or_shift {w : BitVec 64} {b i : ℕ} (hi : i < 64) :
    (w ||| 1#64 <<< b).getLsbD i = (w.getLsbD i || decide (i = b)) := by
  have h1 : (1#64).getLsbD (i - b) = decide (i - b = 0) := by
    rw [BitVec.getLsbD_one]
    simp
  rw [BitVec.getLsbD_or, BitVec.getLsbD_shiftLeft, h1]
  have : (decide (i < 64) && !decide (i < b) && decide (i - b = 0)) = decide (i = b) := by
    rw [Bool.eq_iff_iff]
    simp only [Bool.and_eq_true, Bool.not_eq_true', decide_eq_true_eq, decide_eq_false_iff_not]
    omega
  rw [this]

/-- The word with bit `b` cleared. -/
theorem getLsbD_and_not_shift {w : BitVec 64} {b i : ℕ} (hi : i < 64) :
    (w &&& ~~~(1#64 <<< b)).getLsbD i = (w.getLsbD i && !decide (i = b)) := by
  have hor := getLsbD_or_shift (w := 0#64) (b := b) hi
  rw [BitVec.zero_or, BitVec.getLsbD_zero, Bool.false_or] at hor
  rw [BitVec.getLsbD_and, BitVec.getLsbD_not, hor]
  simp [hi]

/-- `count_ones`, as a sum over the bits of the word. -/
theorem toNat_cpop_eq_sum (w : BitVec 64) :
    w.cpop.toNat = ∑ i ∈ Finset.range 64, (w.getLsbD i).toNat := by
  have h : ∀ n, w.cpopNatRec n 0 = ∑ i ∈ Finset.range n, (w.getLsbD i).toNat := by
    intro n
    induction n with
    | zero => rfl
    | succ n ih =>
      rw [BitVec.cpopNatRec_succ, BitVec.cpopNatRec_eq, ih, Finset.sum_range_succ]
      omega
  rw [BitVec.toNat_cpop, h]

theorem card_ones (ws : List (BitVec 64)) :
    (ones ws).card = ∑ i ∈ Finset.range (64 * ws.length), (bit ws i).toNat := by
  rw [ones, Finset.card_filter]
  exact Finset.sum_congr rfl fun i _ => by cases bit ws i <;> rfl

/-- The population counts of the words add up to the number of set bits. -/
theorem sum_cpop (ws : List (BitVec 64)) :
    (ws.map fun w => w.cpop.toNat).sum = (ones ws).card := by
  rw [card_ones]
  induction ws with
  | nil => rfl
  | cons w ws ih =>
    rw [List.map_cons, List.sum_cons, ih, List.length_cons, Nat.mul_succ, Nat.add_comm (64 * _),
      Finset.sum_range_add, toNat_cpop_eq_sum]
    refine congrArg₂ _ ?_ ?_
    · exact Finset.sum_congr rfl fun i hi => by rw [bit_cons_of_lt (Finset.mem_range.mp hi)]
    · exact Finset.sum_congr rfl fun i _ => by rw [bit_cons_add]

end Bitmap

/-! ### The allocator -/

/-- A fixed-capacity frame allocator backed by a bitmap: bit `1` is free, bit `0` is used. -/
structure BitmapFrameAllocator (FRAMES : ℕ) where
  /-- The bit words. -/
  words : List (BitVec 64)
  /-- The array has the size the const generic gives it. -/
  size : words.length = (FRAMES + 63) / 64
  /-- The bits of the final word beyond `FRAMES` are kept `0`. -/
  high : ∀ f, FRAMES ≤ f → Bitmap.bit words f = false

namespace BitmapFrameAllocator

open Bitmap

variable {FRAMES : ℕ}

theorem div_lt_size (b : BitmapFrameAllocator FRAMES) {frame : ℕ} (h : frame < FRAMES) :
    frame / 64 < b.words.length := by
  rw [b.size]
  omega

/-- `new`: every frame used. -/
def new (FRAMES : ℕ) : BitmapFrameAllocator FRAMES where
  words := List.replicate ((FRAMES + 63) / 64) 0
  size := List.length_replicate
  high f _ := by
    rw [bit]
    rw [List.getD_eq_getElem?_getD, List.getElem?_replicate]
    split <;> simp

/-- The words after `mark_free`. -/
def orWord (b : BitmapFrameAllocator FRAMES) (frame : ℕ) : List (BitVec 64) :=
  b.words.set (frame / 64) (b.words.getD (frame / 64) 0 ||| 1#64 <<< (frame % 64))

theorem bit_orWord (b : BitmapFrameAllocator FRAMES) {frame : ℕ} (h : frame < FRAMES) (f : ℕ) :
    bit (b.orWord frame) f = (bit b.words f || decide (f = frame)) := by
  rw [orWord, bit_set (b.div_lt_size h)]
  by_cases hw : f / 64 = frame / 64
  · rw [if_pos hw, getLsbD_or_shift (Nat.mod_lt _ (by decide)), ← hw, bit]
    congr 1
    exact decide_eq_decide.mpr ⟨fun hm => by omega, fun hm => by rw [hm]⟩
  · have hne : f ≠ frame := fun h => hw (by rw [h])
    simp [hw, hne]

/-- `mark_free`: out-of-range frames are ignored. -/
def markFree (b : BitmapFrameAllocator FRAMES) (frame : ℕ) : BitmapFrameAllocator FRAMES :=
  if h : frame < FRAMES then
    { words := b.orWord frame
      size := by rw [orWord, List.length_set, b.size]
      high := fun f hf => by
        rw [b.bit_orWord h, b.high f hf]
        simpa using Nat.ne_of_gt (Nat.lt_of_lt_of_le h hf) }
  else b

/-- The words after `mark_used`. -/
def clearWord (b : BitmapFrameAllocator FRAMES) (frame : ℕ) : List (BitVec 64) :=
  b.words.set (frame / 64) (b.words.getD (frame / 64) 0 &&& ~~~(1#64 <<< (frame % 64)))

theorem bit_clearWord (b : BitmapFrameAllocator FRAMES) {frame : ℕ} (h : frame < FRAMES)
    (f : ℕ) : bit (b.clearWord frame) f = (bit b.words f && !decide (f = frame)) := by
  rw [clearWord, bit_set (b.div_lt_size h)]
  by_cases hw : f / 64 = frame / 64
  · rw [if_pos hw, getLsbD_and_not_shift (Nat.mod_lt _ (by decide)), ← hw, bit]
    congr 2
    exact decide_eq_decide.mpr ⟨fun hm => by omega, fun hm => by rw [hm]⟩
  · have hne : f ≠ frame := fun h => hw (by rw [h])
    simp [hw, hne]

/-- `mark_used`: out-of-range frames are ignored. -/
def markUsed (b : BitmapFrameAllocator FRAMES) (frame : ℕ) : BitmapFrameAllocator FRAMES :=
  if h : frame < FRAMES then
    { words := b.clearWord frame
      size := by rw [clearWord, List.length_set, b.size]
      high := fun f hf => by rw [b.bit_clearWord h, b.high f hf, Bool.false_and] }
  else b

/-- The loop of `alloc` over the words from index `wi` on. The branch for a bit beyond `FRAMES`,
which the source keeps although it cannot be reached, clears the bit and goes on. -/
def allocFrom (FRAMES : ℕ) : ℕ → List (BitVec 64) → Option ℕ × List (BitVec 64)
  | _, [] => (none, [])
  | wi, w :: ws =>
    if w ≠ 0 then
      let bi := w.ctz.toNat
      let frame := wi * 64 + bi
      let w' := w &&& ~~~(1#64 <<< bi)
      if frame < FRAMES then (some frame, w' :: ws)
      else ((allocFrom FRAMES (wi + 1) ws).1, w' :: (allocFrom FRAMES (wi + 1) ws).2)
    else ((allocFrom FRAMES (wi + 1) ws).1, w :: (allocFrom FRAMES (wi + 1) ws).2)

/-- **What the loop finds.** If no bit stands for a frame beyond `FRAMES`, either no bit is set
and nothing changes, or the lowest set bit is cleared and its frame is the answer. -/
theorem allocFrom_spec (wi : ℕ) (ws : List (BitVec 64))
    (high : ∀ f, FRAMES ≤ wi * 64 + f → bit ws f = false) :
    (allocFrom FRAMES wi ws).2.length = ws.length ∧
      ((allocFrom FRAMES wi ws = (none, ws) ∧ ∀ f, bit ws f = false) ∨
        ∃ f, (allocFrom FRAMES wi ws).1 = some (wi * 64 + f) ∧ bit ws f = true ∧
          (∀ g < f, bit ws g = false) ∧
          ∀ g, bit (allocFrom FRAMES wi ws).2 g = (bit ws g && !decide (g = f))) := by
  induction ws generalizing wi with
  | nil => exact ⟨rfl, Or.inl ⟨rfl, bit_nil⟩⟩
  | cons w ws ih =>
    have high' : ∀ f, FRAMES ≤ (wi + 1) * 64 + f → bit ws f = false := fun f hf => by
      rw [← bit_cons_add (w := w) f]
      exact high _ (by omega)
    obtain ⟨hlen, ih⟩ := ih (wi + 1) high'
    by_cases hw : w = 0
    · -- an empty word: the answer comes from the words after it
      subst hw
      have hz : ∀ f < 64, bit (0 :: ws) f = false := fun f hf => by
        rw [bit_cons_of_lt hf]
        simp
      rw [allocFrom, if_neg (by simp)]
      refine ⟨by simp [hlen], ?_⟩
      rcases ih with ⟨hnone, hall⟩ | ⟨f, hsome, hf, hlow, hbits⟩
      · refine Or.inl ⟨by rw [hnone], fun f => ?_⟩
        rcases Nat.lt_or_ge f 64 with hlt | hge
        · exact hz f hlt
        · obtain ⟨g, rfl⟩ := Nat.exists_eq_add_of_le hge
          rw [bit_cons_add, hall]
      · refine Or.inr ⟨64 + f, ?_, by rw [bit_cons_add, hf], fun g hg => ?_, fun g => ?_⟩
        · rw [hsome]
          congr 1
          omega
        · rcases Nat.lt_or_ge g 64 with hlt | hge
          · exact hz g hlt
          · obtain ⟨k, rfl⟩ := Nat.exists_eq_add_of_le hge
            rw [bit_cons_add, hlow k (by omega)]
        · rcases Nat.lt_or_ge g 64 with hlt | hge
          · rw [hz g hlt, Bool.false_and, bit_cons_of_lt hlt]
            simp
          · obtain ⟨k, rfl⟩ := Nat.exists_eq_add_of_le hge
            rw [bit_cons_add, bit_cons_add, hbits]
            simp
    · -- a nonempty word: its lowest bit is the answer, and it is in range
      have hset : w.getLsbD w.ctz.toNat = true := BitVec.getLsbD_true_ctz_of_ne_zero hw
      have hlt : w.ctz.toNat < 64 := BitVec.lt_of_getLsbD hset
      have hfr : wi * 64 + w.ctz.toNat < FRAMES := by
        by_contra hge
        have := high w.ctz.toNat (by omega)
        rw [bit_cons_of_lt hlt, hset] at this
        cases this
      rw [allocFrom, if_pos hw]
      simp only [if_pos hfr]
      refine ⟨rfl, Or.inr ⟨w.ctz.toNat, rfl, by rw [bit_cons_of_lt hlt, hset], fun g hg => ?_,
        fun g => ?_⟩⟩
      · rw [bit_cons_of_lt (hg.trans hlt)]
        exact BitVec.getLsbD_false_of_lt_ctz hg
      · rcases Nat.lt_or_ge g 64 with hg | hge
        · rw [bit_cons_of_lt hg, bit_cons_of_lt hg, getLsbD_and_not_shift hg]
        · obtain ⟨k, rfl⟩ := Nat.exists_eq_add_of_le hge
          have hne : 64 + k ≠ w.ctz.toNat := by omega
          simp [bit_cons_add, hne]

theorem allocFrom_words (b : BitmapFrameAllocator FRAMES) :
    (allocFrom FRAMES 0 b.words).2.length = b.words.length ∧
      ((allocFrom FRAMES 0 b.words = (none, b.words) ∧ ∀ f, bit b.words f = false) ∨
        ∃ f, (allocFrom FRAMES 0 b.words).1 = some (0 * 64 + f) ∧ bit b.words f = true ∧
          (∀ g < f, bit b.words g = false) ∧
          ∀ g, bit (allocFrom FRAMES 0 b.words).2 g = (bit b.words g && !decide (g = f))) :=
  allocFrom_spec 0 b.words fun f hf => b.high f (by omega)

/-- The loop keeps the high bits clear. -/
theorem allocFrom_high (b : BitmapFrameAllocator FRAMES) {f : ℕ} (hf : FRAMES ≤ f) :
    bit (allocFrom FRAMES 0 b.words).2 f = false := by
  obtain ⟨-, ⟨hnone, -⟩ | ⟨g, -, -, -, hbits⟩⟩ :=
    b.allocFrom_words
  · rw [hnone]
    exact b.high f hf
  · rw [hbits, b.high f hf, Bool.false_and]

/-- `alloc`: the lowest free frame, marked used. -/
def alloc (b : BitmapFrameAllocator FRAMES) : Option ℕ × BitmapFrameAllocator FRAMES :=
  ((allocFrom FRAMES 0 b.words).1,
    { words := (allocFrom FRAMES 0 b.words).2
      size := b.allocFrom_words.1.trans b.size
      high := fun _ hf => b.allocFrom_high hf })

theorem alloc_fst (b : BitmapFrameAllocator FRAMES) :
    b.alloc.1 = (allocFrom FRAMES 0 b.words).1 := rfl

theorem words_alloc (b : BitmapFrameAllocator FRAMES) :
    b.alloc.2.words = (allocFrom FRAMES 0 b.words).2 := rfl

/-- `free` is `mark_free`. -/
def free (b : BitmapFrameAllocator FRAMES) (frame : ℕ) : BitmapFrameAllocator FRAMES :=
  b.markFree frame

/-- `is_free`: out-of-range frames are not. -/
def isFree (b : BitmapFrameAllocator FRAMES) (frame : ℕ) : Bool :=
  if FRAMES ≤ frame then false
  else b.words.getD (frame / 64) 0 &&& 1#64 <<< (frame % 64) != 0

/-- `free_count`: the population counts of the words. -/
def freeCount (b : BitmapFrameAllocator FRAMES) : ℕ :=
  b.words.foldl (fun cnt w => cnt + w.cpop.toNat) 0

/-! ### The set of free frames -/

/-- The frames that are free. -/
def freeSet (b : BitmapFrameAllocator FRAMES) : Finset ℕ := ones b.words

theorem lt_of_mem_freeSet {b : BitmapFrameAllocator FRAMES} {f : ℕ} (h : f ∈ b.freeSet) :
    f < FRAMES := by
  by_contra hge
  rw [freeSet, mem_ones, b.high f (Nat.le_of_not_lt hge)] at h
  cases h

/-- Testing a bit through the mask `1 << i`. -/
theorem and_shift_ne_zero_iff {w : BitVec 64} {i : ℕ} (hi : i < 64) :
    (w &&& 1#64 <<< i != 0) = w.getLsbD i := by
  have hor : ∀ j < 64, (1#64 <<< i).getLsbD j = decide (j = i) := fun j hj => by
    have h := getLsbD_or_shift (w := 0#64) (b := i) hj
    rwa [BitVec.zero_or, BitVec.getLsbD_zero, Bool.false_or] at h
  rw [Bool.eq_iff_iff, bne_iff_ne]
  constructor
  · intro hne
    by_contra hbit
    refine hne (BitVec.eq_of_getLsbD_eq fun j hj => ?_)
    rw [BitVec.getLsbD_and, hor j hj]
    by_cases hji : j = i
    · simp [hji, Bool.eq_false_of_not_eq_true hbit]
    · simp [hji]
  · intro hbit hzero
    have h := congrArg (fun v : BitVec 64 => v.getLsbD i) hzero
    simp [hor i hi, hbit] at h

theorem isFree_iff (b : BitmapFrameAllocator FRAMES) (f : ℕ) :
    b.isFree f = true ↔ f ∈ b.freeSet := by
  rw [isFree]
  split
  · rename_i hge
    exact ⟨fun h => (by cases h), fun h => absurd (lt_of_mem_freeSet h) (Nat.not_lt.mpr hge)⟩
  · rw [and_shift_ne_zero_iff (Nat.mod_lt _ (by decide)), freeSet, mem_ones, bit]

theorem freeSet_markFree (b : BitmapFrameAllocator FRAMES) {frame : ℕ} (h : frame < FRAMES) :
    (b.markFree frame).freeSet = insert frame b.freeSet := by
  ext f
  simp only [freeSet, markFree, h, dif_pos, mem_ones, b.bit_orWord h, Finset.mem_insert,
    Bool.or_eq_true, decide_eq_true_eq]
  exact or_comm

theorem freeCount_eq_card (b : BitmapFrameAllocator FRAMES) : b.freeCount = b.freeSet.card := by
  rw [freeCount, freeSet, ← sum_cpop, List.sum_eq_foldl, List.foldl_map]

/-- An allocation takes the lowest free frame. -/
theorem takes_alloc (b : BitmapFrameAllocator FRAMES) :
    LowestFirst.Takes b.freeSet b.alloc.1 b.alloc.2.freeSet := by
  obtain ⟨-, ⟨hnone, hall⟩ | ⟨f, hsome, hf, hlow, hbits⟩⟩ :=
    b.allocFrom_words
  · have hempty : b.freeSet = ∅ := by
      ext f
      simp [freeSet, hall]
    have hset : b.alloc.2.freeSet = b.freeSet := by rw [freeSet, words_alloc, hnone, freeSet]
    rw [hset, alloc_fst, hnone]
    exact .exhausted hempty
  · have hset : b.alloc.2.freeSet = b.freeSet.erase f := by
      ext g
      simp only [freeSet, words_alloc, mem_ones, hbits, Finset.mem_erase, Bool.and_eq_true,
        Bool.not_eq_true', decide_eq_false_iff_not]
      exact and_comm
    rw [hset, alloc_fst, hsome, Nat.zero_mul, Nat.zero_add]
    refine .least (by rw [freeSet, mem_ones, hf]) fun g hg => ?_
    by_contra hlt
    rw [freeSet, mem_ones, hlow g (Nat.lt_of_not_le hlt)] at hg
    cases hg

/-- The bitmap allocator, as an implementation of the lowest-first contract. -/
def allocator (FRAMES : ℕ) : LowestFirst.Allocator (BitmapFrameAllocator FRAMES) ℕ where
  alloc := alloc
  free := free
  freeSet := freeSet

theorem lawful (FRAMES : ℕ) :
    LowestFirst.Lawful (allocator FRAMES) (fun _ => True) (· < FRAMES) where
  inv_step _ _ := trivial
  takes {b} _ := b.takes_alloc
  frees {b _} _ hf := Or.inl (b.freeSet_markFree hf)

/-- In range, nothing is dropped. -/
theorem not_dropped (b : BitmapFrameAllocator FRAMES) {f : ℕ} (hf : f < FRAMES) :
    ¬ LowestFirst.Dropped (allocator FRAMES) b f := by
  refine not_not.mpr ?_
  rw [show (allocator FRAMES).freeSet ((allocator FRAMES).free b f) = insert f b.freeSet from
    b.freeSet_markFree hf]
  exact Finset.mem_insert_self _ _

theorem freeSet_markUsed (b : BitmapFrameAllocator FRAMES) {frame : ℕ} (h : frame < FRAMES) :
    (b.markUsed frame).freeSet = b.freeSet.erase frame := by
  ext f
  simp only [freeSet, markUsed, h, dif_pos, mem_ones, b.bit_clearWord h, Finset.mem_erase,
    Bool.and_eq_true, Bool.not_eq_true', decide_eq_false_iff_not]
  exact and_comm

/-! ### Every sequence of calls -/

/-- A call of one of the four operations that change the allocator. -/
inductive Call
  | markFree (frame : ℕ)
  | markUsed (frame : ℕ)
  | free (frame : ℕ)
  | alloc
  deriving DecidableEq, Repr

/-- One call. -/
def call (b : BitmapFrameAllocator FRAMES) : Call → BitmapFrameAllocator FRAMES
  | .markFree frame => b.markFree frame
  | .markUsed frame => b.markUsed frame
  | .free frame => b.free frame
  | .alloc => b.alloc.2

/-- What a call does to a set of frames: the named frame is added or removed if it is in range,
and an allocation removes the least frame there is. -/
def Call.onSet (FRAMES : ℕ) (S : Finset ℕ) : Call → Finset ℕ
  | .markFree frame | .free frame => if frame < FRAMES then insert frame S else S
  | .markUsed frame => if frame < FRAMES then S.erase frame else S
  | .alloc => if h : S.Nonempty then S.erase (S.min' h) else S

/-- The allocator stands for the set `S` of free frames. -/
structure Denotes (b : BitmapFrameAllocator FRAMES) (S : Finset ℕ) : Prop where
  /-- Every free frame is in range. -/
  lt : ∀ f ∈ S, f < FRAMES
  isFree : ∀ f, b.isFree f = true ↔ f ∈ S
  freeCount : b.freeCount = S.card
  /-- `alloc` answers the least free frame. -/
  alloc_some : ∀ f, b.alloc.1 = some f ↔ f ∈ S ∧ ∀ g ∈ S, f ≤ g
  alloc_none : b.alloc.1 = none ↔ S = ∅
  /-- The bits beyond the last frame are clear. -/
  high : ∀ f, FRAMES ≤ f → bit b.words f = false

theorem denotes_freeSet (b : BitmapFrameAllocator FRAMES) : Denotes b b.freeSet where
  lt _ hf := lt_of_mem_freeSet hf
  isFree := b.isFree_iff
  freeCount := b.freeCount_eq_card
  alloc_some f := by
    refine ⟨fun h => ?_, fun ⟨hf, hle⟩ => ?_⟩
    · have ht := b.takes_alloc
      rw [h] at ht
      generalize b.alloc.2.freeSet = S' at ht
      cases ht with
      | least mem le => exact ⟨mem, le⟩
    · exact (b.takes_alloc.unique (.least hf hle)).1
  alloc_none := by
    refine ⟨fun h => ?_, fun h => (b.takes_alloc.unique (.exhausted h)).1⟩
    have ht := b.takes_alloc
    rw [h] at ht
    generalize b.alloc.2.freeSet = S' at ht
    cases ht with
    | exhausted empty => exact empty
  high := b.high

/-- One call does to the free frames what it does to the set. -/
theorem freeSet_call (b : BitmapFrameAllocator FRAMES) (c : Call) :
    (b.call c).freeSet = c.onSet FRAMES b.freeSet := by
  have hout : ∀ {frame : ℕ}, ¬ frame < FRAMES → b.markFree frame = b ∧ b.markUsed frame = b :=
    fun h => ⟨dif_neg h, dif_neg h⟩
  have hfree : ∀ frame, (b.markFree frame).freeSet
      = if frame < FRAMES then insert frame b.freeSet else b.freeSet := by
    intro frame
    split
    · exact b.freeSet_markFree ‹_›
    · rw [(hout ‹_›).1]
  cases c with
  | markFree frame => exact hfree frame
  | free frame => exact hfree frame
  | markUsed frame =>
    rw [call, Call.onSet]
    split
    · exact b.freeSet_markUsed ‹_›
    · rw [(hout ‹_›).2]
  | alloc =>
    rw [call, Call.onSet]
    split
    · rename_i hne
      exact (b.takes_alloc.unique (.least (b.freeSet.min'_mem hne) fun g => b.freeSet.min'_le g)).2
    · rename_i hempty
      exact (b.takes_alloc.unique (.exhausted (Finset.not_nonempty_iff_eq_empty.mp hempty))).2

theorem freeSet_new : (new FRAMES).freeSet = ∅ := by
  ext f
  rw [freeSet, mem_ones, new, bit, List.getD_eq_getElem?_getD, List.getElem?_replicate]
  split <;> simp

/-- The allocator after a sequence of calls on `new()`, latest first. -/
def afterCalls (FRAMES : ℕ) (h : List Call) : BitmapFrameAllocator FRAMES :=
  Runs.after call (new FRAMES) h

/-- **The bitmap is a set of frames with lowest-first allocation.** After every sequence of calls,
with indices in and out of range, the allocator stands for the set the same calls make from the
empty one. -/
theorem denotes_afterCalls (FRAMES : ℕ) (h : List Call) :
    Denotes (afterCalls FRAMES h) (Runs.after (Call.onSet FRAMES) ∅ h) := by
  have hset : (afterCalls FRAMES h).freeSet = Runs.after (Call.onSet FRAMES) ∅ h := by
    induction h with
    | nil => exact freeSet_new
    | cons c h ih =>
      rw [Runs.after_cons, ← ih]
      exact freeSet_call _ c
  rw [← hset]
  exact denotes_freeSet _

end BitmapFrameAllocator

end Cairn
