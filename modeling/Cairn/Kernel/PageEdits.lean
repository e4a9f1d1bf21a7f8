import Cairn.FrameAlloc.Boot
import Cairn.Internal.TableMemory
import Cairn.Kernel.Paging

/-!
# Page-table edits in physical memory

`unmap_page` and `manual_map` of `kernel/src/paging.rs` walk the page tables by hand and write one
entry. Here they act on the words of physical memory, in the format of the processor. Memory is
read and written through the higher-half map, so that a physical address is all there is to an
access; a 4 KiB frame is an array of 512 words.

An address is translated by the entries of its walk: they give the physical address and, taken
together, the rights. A level-4 entry with the huge bit is reserved, and an address that meets one
is not translated. The accessed and dirty bits, which the processor sets on its own, are left out,
and so are the rights of the write that zeroes the new page: they can only turn it into a fault,
and then `manual_map` does not return.

## Main definitions

* `Mmu`, `Mmu.translate` — memory, `CR3` and the TLB, and what an address is translated to
* `Mmu.unmapPage`, `Mmu.manualMap`
* `Mmu.Separated` — no table is reached by two paths, and the frames of the pool are not tables

## Main results

* `Mmu.walk_write` — a write to the last table of a walk changes one page
* `Mmu.unmapPage_cases`, `Mmu.manualMap_cases` — the ends of the two functions
* `page_edits_touch_one_page` — what they do to every address
* `access_after_edits` — after any sequence of them the TLB agrees with the tables
* `Mmu.unmapPage_tables` — `Paged.unmapPage` is `unmap_page`
-/

namespace Cairn

open PageTable TableMemory

/-! ### The format of the tables -/

/-- A 4 KiB frame of physical memory, by its number. -/
abbrev PhysFrame : Type := BitVec 40

namespace PhysFrame

/-- The frame of a physical address. -/
def containing (phys : BitVec 64) : PhysFrame := (phys >>> 12).setWidth 40

/-- The physical address at which a frame starts. -/
def start (f : PhysFrame) : BitVec 64 := f.setWidth 64 <<< 12

end PhysFrame

/-- `e & 0x000f_ffff_ffff_f000`: the frame an entry names. -/
def entryFrame (e : BitVec 64) : PhysFrame := .containing (e &&& 0x000ffffffffff000)

/-- What the processor takes an entry for. Bit 0 is the present bit. Bit 7 makes an entry of
levels 1 and 2 a huge page, is reserved at level 3, and means something else at level 0. -/
def decodeEntry (level : ℕ) (e : BitVec 64) : Word PhysFrame :=
  if e &&& 1 = 0 then .absent
  else if level = 0 then .page
  else if e >>> 7 &&& 1 = 1 then if level = 3 then .absent else .page
  else .table (entryFrame e)

/-- The physical address a walk leads to, by its entries, the last one first: a page of 4 KiB, of
2 MiB or of 1 GiB. -/
def physAddr (va : BitVec 64) : List (BitVec 64) → BitVec 64
  | [] => 0
  | e :: above =>
    match above.length with
    | 3 => (e &&& 0x000ffffffffff000) ||| (va &&& 0xfff)
    | 2 => (e &&& 0x000fffffffe00000) ||| (va &&& 0x1fffff)
    | _ => (e &&& 0x000fffffc0000000) ||| (va &&& 0x3fffffff)

/-! ### The machine -/

/-- Physical memory with page tables in it, and the register and the cache they are used by. -/
structure Mmu where
  /-- The words of each frame. -/
  mem : PhysFrame → Fin 512 → BitVec 64
  /-- The frame of the level-4 table. -/
  cr3 : PhysFrame
  /-- The entries of walks the processor remembers, by page number. -/
  tlb : BitVec 64 → Option (List (BitVec 64))

/-- An address that is canonical for 48 bits: it lies in the lower or in the higher half. -/
structure VirtAddr where
  addr : BitVec 64
  canonical : addr.toNat < 2 ^ 47 ∨ 2 ^ 64 - 2 ^ 47 ≤ addr.toNat

/-- The number of the page of an address. -/
def pageNumber (va : BitVec 64) : BitVec 64 := va >>> 12

namespace Mmu

/-- The walk the processor makes: the entries of a mapped address, the last one first. -/
def walk (m : Mmu) (va : BitVec 64) : Option (List (BitVec 64)) :=
  TableMemory.walk decodeEntry m.mem (pageIndex va) 3 m.cr3 []

/-- What an address is translated to: its physical address, and the entries with their rights. -/
def translate (m : Mmu) (va : BitVec 64) : Option (BitVec 64 × List (BitVec 64)) :=
  (m.walk va).map fun entries => (physAddr va entries, entries)

/-- The entries an access uses: remembered ones, or those of a walk. -/
def resolve (m : Mmu) (va : BitVec 64) : Option (List (BitVec 64)) :=
  (m.tlb (pageNumber va)).or (m.walk va)

/-- Write one entry. -/
def write (m : Mmu) (table : PhysFrame) (i : Fin 512) (e : BitVec 64) : Mmu :=
  { m with mem := TableMemory.write m.mem table i e }

/-- `tlb::flush`: forget the page of an address. -/
def flush (m : Mmu) (va : BitVec 64) : Mmu :=
  { m with tlb := Function.update m.tlb (pageNumber va) none }

/-- `write_bytes(va, 0, 4096)` at the start of a page; without a translation it faults. -/
def zeroPage (m : Mmu) (va : BitVec 64) : Option Mmu :=
  (m.resolve va).map fun entries =>
    { m with mem := Function.update m.mem (.containing (physAddr va entries)) fun _ => 0 }

/-! ### The two functions -/

/-- `((va >> shift) & 0x1ff) as usize`. -/
def tableIndex (va : BitVec 64) (shift : ℕ) : Fin 512 :=
  Fin.ofNat 512 ((va >>> shift) &&& 0x1ff).toNat

/-- The loop over the shifts: the table it ends at, unless an entry is not present or huge. -/
def walkTables (m : Mmu) (va : BitVec 64) : List ℕ → PhysFrame → Option PhysFrame
  | [], table => some table
  | shift :: shifts, table =>
    let e := m.mem table (tableIndex va shift)
    if e &&& 1 = 0 ∨ e >>> 7 &&& 1 = 1 then none else m.walkTables va shifts (entryFrame e)

/-- `unmap_page`. -/
def unmapPage (m : Mmu) (va : BitVec 64) : Bool × Mmu :=
  let va := pageStart va
  match m.walkTables va [39, 30, 21] m.cr3 with
  | none => (false, m)
  | some l1 => (true, (m.write l1 (tableIndex va 12) 0).flush va)

/-- The entry `frame | 0x3` of `manual_map`, with `frame = f * 4096`. -/
def freshEntry (f : ℕ) : BitVec 64 := .ofNat 64 (f * 4096) ||| 3

/-- `manual_map`, with the allocator it takes the frame from. There is no answer if zeroing the
page faults. -/
def manualMap (m : Mmu) (va : BitVec 64) (fa : FrameAllocator) :
    Option (Bool × Mmu × FrameAllocator) :=
  let va := pageStart va
  match m.walkTables va [39, 30, 21] m.cr3 with
  | none => some (false, m, fa)
  | some l1 =>
    let i1 := tableIndex va 12
    if m.mem l1 i1 &&& 1 = 1 then some (true, m, fa)
    else
      match fa.alloc with
      | (none, fa) => some (false, m, fa)
      | (some f, fa) =>
        let m := (m.write l1 i1 (freshEntry f)).flush va
        (m.zeroPage va).map fun m => (true, m, fa)

/-! ### The format of the addresses -/

theorem entryFrame_eq (e : BitVec 64) : entryFrame e = (e >>> 12).setWidth 40 := by
  have hmask : ((0x000ffffffffff000 : BitVec 64) >>> 12).setWidth 40 = BitVec.allOnes 40 := by
    decide
  rw [entryFrame, PhysFrame.containing, BitVec.ushiftRight_and_distrib, BitVec.setWidth_and, hmask,
    BitVec.and_allOnes]

theorem start_entryFrame (e : BitVec 64) : (entryFrame e).start = e &&& 0x000ffffffffff000 := by
  have hmask : ∀ i : Fin 64, (0x000ffffffffff000 : BitVec 64).getLsbD i
      = (decide (12 ≤ i.val) && decide (i.val < 52)) := by decide
  apply BitVec.eq_of_getLsbD_eq
  intro i hi
  rw [entryFrame_eq, PhysFrame.start, BitVec.getLsbD_and, hmask ⟨i, hi⟩]
  simp only [BitVec.getLsbD_shiftLeft, BitVec.getLsbD_setWidth, BitVec.getLsbD_ushiftRight]
  by_cases hlow : i < 12
  · simp [hlow]
  · have hback : 12 + (i - 12) = i := by omega
    have hrange : (i - 12 < 40) = (i < 52) := by
      rw [eq_iff_iff]
      omega
    simp only [hlow, hback, hrange, hi, decide_true, decide_false, Bool.not_false, Bool.true_and,
      Nat.not_lt.mp hlow, show i - 12 < 64 by omega]
    exact Bool.and_comm _ _

theorem entryFrame_freshEntry (f : ℕ) : entryFrame (freshEntry f) = .ofNat 40 f := by
  have hflags : (3 : BitVec 64) >>> 12 = 0#64 := by decide
  rw [entryFrame_eq, freshEntry, BitVec.ushiftRight_or_distrib, hflags, BitVec.or_zero]
  apply BitVec.eq_of_toNat_eq
  simp only [BitVec.toNat_setWidth, BitVec.toNat_ushiftRight, BitVec.toNat_ofNat,
    Nat.shiftRight_eq_div_pow]
  omega

theorem or_and_self (x y : BitVec 64) : (x ||| y) &&& y = y := by
  apply BitVec.eq_of_getLsbD_eq
  intro i _
  rw [BitVec.getLsbD_and, BitVec.getLsbD_or]
  cases y.getLsbD i <;> simp

theorem freshEntry_present (f : ℕ) : freshEntry f &&& 1 = 1 := by
  have hbits : freshEntry f &&& 3 = 3 := or_and_self _ _
  have hone : (3 : BitVec 64) &&& 1 = 1 := by decide
  rw [← hone, ← BitVec.and_assoc, hbits]

/-- The present bit is set or not. -/
theorem present_iff (e : BitVec 64) : e &&& 1 = 1 ↔ ¬e &&& 1 = 0 := by
  simp only [← BitVec.toNat_inj, BitVec.toNat_and]
  simp [Nat.and_one_is_mod]

/-- The index of `va & !0xfff` at a shift of the loop is that of `va` at the level. -/
theorem tableIndex_pageStart (va : BitVec 64) {l : ℕ} (hl : l ≤ 3) :
    tableIndex (pageStart va) (12 + 9 * l) = pageIndex va l := by
  have hmask : (~~~0xfff : BitVec 64) >>> (12 + 9 * l) &&& 0x1ff = 0x1ff := by
    obtain rfl | rfl | rfl | rfl : l = 0 ∨ l = 1 ∨ l = 2 ∨ l = 3 := by omega
    all_goals decide
  have hstart : (pageStart va >>> (12 + 9 * l)) &&& 0x1ff = va >>> (12 + 9 * l) &&& 0x1ff := by
    rw [pageStart, BitVec.ushiftRight_and_distrib, BitVec.and_assoc, hmask]
  have hlow : (0x1ff : BitVec 64).toNat = 2 ^ 9 - 1 := by decide
  apply Fin.ext
  rw [tableIndex, hstart, pageIndex, Fin.val_ofNat, BitVec.toNat_and, hlow,
    Nat.and_two_pow_sub_one_eq_mod, Nat.mod_mod]

/-- An address and the start of its page have the same indices. -/
theorem agree_pageStart (va : BitVec 64) : Agree 3 (pageIndex va) (pageIndex (pageStart va)) := by
  intro l _
  rw [pageIndex_pageStart]

theorem pageNumber_pageStart (va : BitVec 64) : pageNumber (pageStart va) = pageNumber va :=
  pageStart_ushiftRight va

/-- Canonical addresses on different pages differ in an index. -/
theorem agree_iff (va w : VirtAddr) :
    Agree 3 (pageIndex va.addr) (pageIndex w.addr) ↔ pageNumber va.addr = pageNumber w.addr := by
  have hva := va.canonical
  have hw := w.canonical
  simp only [Agree, pageIndex, Fin.mk.injEq, pageNumber, ← BitVec.toNat_inj,
    BitVec.toNat_ushiftRight, Nat.shiftRight_eq_div_pow]
  constructor
  · intro h
    have h0 := h 0 (by omega)
    have h1 := h 1 (by omega)
    have h2 := h 2 (by omega)
    have h3 := h 3 (by omega)
    have hva' := va.addr.isLt
    have hw' := w.addr.isLt
    omega
  · intro h k _
    rw [Nat.pow_add, ← Nat.div_div_eq_div_mul, ← Nat.div_div_eq_div_mul, h]

/-- A walk of four entries ends at the frame of the last one. -/
theorem containing_physAddr (va e : BitVec 64) {above : List (BitVec 64)} (h : above.length = 3) :
    PhysFrame.containing (physAddr (pageStart va) (e :: above)) = entryFrame e := by
  have hoff : pageStart va &&& 0xfff = 0#64 := by
    rw [pageStart, BitVec.and_assoc, show ~~~0xfff &&& 0xfff = (0#64 : BitVec 64) by decide,
      BitVec.and_zero]
  simp only [physAddr, h, hoff, BitVec.or_zero, entryFrame]

theorem physAddr_freshEntry (w : BitVec 64) (f : ℕ) {above : List (BitVec 64)}
    (h : above.length = 3) :
    physAddr w (freshEntry f :: above) = PhysFrame.start (.ofNat 40 f) ||| (w &&& 0xfff) := by
  rw [← entryFrame_freshEntry, start_entryFrame]
  simp only [physAddr, h]

/-! ### The walk of the source -/

/-- The table a path leads to, from `CR3`. -/
def reach (m : Mmu) (p : List (Fin 512)) : Option PhysFrame :=
  TableMemory.reach decodeEntry m.mem 3 m.cr3 p

/-- The path of an address to its level-1 table. -/
def pathOf (va : BitVec 64) : List (Fin 512) := path (pageIndex va) 3

/-- The shifts of the levels from `n` down to 1. -/
def shiftsFrom : ℕ → List ℕ
  | 0 => []
  | n + 1 => (12 + 9 * (n + 1)) :: shiftsFrom n

theorem walkTables_shiftsFrom (m : Mmu) (va : BitVec 64) {n : ℕ} (hn : n ≤ 3)
    (table : PhysFrame) :
    m.walkTables (pageStart va) (shiftsFrom n) table
      = TableMemory.reach decodeEntry m.mem n table (path (pageIndex va) n) := by
  induction n generalizing table with
  | zero => rfl
  | succ n ih =>
    rw [shiftsFrom, walkTables, tableIndex_pageStart va hn, path, TableMemory.reach, decodeEntry]
    by_cases hpresent : m.mem table (pageIndex va (n + 1)) &&& 1 = 0
    · simp only [hpresent, true_or, if_true]
    · by_cases hhuge : m.mem table (pageIndex va (n + 1)) >>> 7 &&& 1 = 1
      · simp only [hpresent, hhuge, or_true, if_true, if_false, Nat.succ_ne_zero]
        split <;> first | rfl | (rename_i h; split at h <;> cases h)
      · simp only [hpresent, hhuge, or_self, if_false, Nat.succ_ne_zero, ih (Nat.le_of_succ_le hn)]

/-- The loop of both functions follows the path of the address. -/
theorem walkTables_eq (m : Mmu) (va : BitVec 64) :
    m.walkTables (pageStart va) [39, 30, 21] m.cr3 = m.reach (pathOf va) :=
  m.walkTables_shiftsFrom va (Nat.le_refl 3) m.cr3

/-- The entries of the walk of an address above level 0. -/
def entriesAbove (m : Mmu) (va : BitVec 64) : List (BitVec 64) :=
  above decodeEntry m.mem (pageIndex va) 3 m.cr3 []

/-- What a page with entry `e` at level 0 is translated by. -/
def leafWalk (m : Mmu) (va e : BitVec 64) : Option (List (BitVec 64)) :=
  if e &&& 1 = 0 then none else some (e :: m.entriesAbove va)

theorem leafWalk_freshEntry (m : Mmu) (va : BitVec 64) (f : ℕ) :
    m.leafWalk va (freshEntry f) = some (freshEntry f :: m.entriesAbove va) :=
  if_neg ((present_iff _).mp (freshEntry_present f))

theorem mapped_leafEntry (m : Mmu) (va e : BitVec 64) :
    (leafEntry decodeEntry id (m.entriesAbove va) e : Entry (Fin 512) _ 0).mapped
      = m.leafWalk va e := by
  rw [leafEntry, decodeEntry, leafWalk]
  split <;> simp_all [Entry.mapped]

/-- Where the tables are there, an address is translated by its entry at level 0. -/
theorem walk_of_reach {m : Mmu} {va : BitVec 64} {l1 : PhysFrame}
    (h : m.reach (pathOf va) = some l1) :
    m.walk va = m.leafWalk va (m.mem l1 (pageIndex va 0)) := by
  rw [walk, TableMemory.walk_of_reach h]
  exact m.mapped_leafEntry va _

/-! ### One page -/

/-- No table is reached by two paths. -/
def Unshared (m : Mmu) : Prop := TableMemory.Unshared decodeEntry m.mem 3 m.cr3

/-- **A write to the last table of a walk changes one page.** -/
theorem walk_write {m : Mmu} (hm : m.Unshared) {va : BitVec 64} {l1 : PhysFrame}
    (h : m.reach (pathOf va) = some l1) (e w : BitVec 64) :
    (m.write l1 (pageIndex va 0) e).walk w
      = if Agree 3 (pageIndex va) (pageIndex w) then m.leafWalk va e else m.walk w := by
  rw [walk, walk_eq_translate, write, tree_write id hm h, translate_put (walks_tree.mpr ⟨l1, h⟩),
    ← walk_eq_translate, ← mapped_leafEntry]
  rfl

/-- The page of `va` is translated by `r`, every other page as before; no table has moved, and
the TLB has forgotten the page. -/
structure Edited (m : Mmu) (va : BitVec 64) (r : Option (List (BitVec 64))) (m' : Mmu) :
    Prop where
  walk : ∀ w, m'.walk w = if Agree 3 (pageIndex va) (pageIndex w) then r else m.walk w
  reach : ∀ p, m'.reach p = m.reach p
  tlb : m'.tlb = Function.update m.tlb (pageNumber va) none

/-- The write and the flush that both functions end with. -/
theorem edited_write {m : Mmu} (hm : m.Unshared) {va : BitVec 64} {l1 : PhysFrame}
    (h : m.reach (pathOf va) = some l1) (e : BitVec 64) :
    Edited m va (m.leafWalk va e)
      ((m.write l1 (tableIndex (pageStart va) 12) e).flush (pageStart va)) where
  walk w := by
    rw [tableIndex_pageStart va (Nat.zero_le 3), ← walk_write hm h]
    rfl
  reach p := reach_write hm h _ e p
  tlb := by rw [flush, pageNumber_pageStart, write]

/-- What is written to a frame that is no table changes no translation. -/
theorem Edited.of_outside {m m' : Mmu} {va : BitVec 64} {r : Option (List (BitVec 64))}
    (h : Edited m va r m') {f : PhysFrame} (hf : ∀ p, m.reach p ≠ some f)
    (words : Fin 512 → BitVec 64) :
    Edited m va r { m' with mem := Function.update m'.mem f words } := by
  have hsame : ∀ p b, TableMemory.reach decodeEntry m'.mem 3 m'.cr3 p = some b →
      Function.update m'.mem f words b = m'.mem b := by
    intro p b hb
    refine Function.update_of_ne ?_ _ _
    rintro rfl
    exact hf p ((h.reach p).symm.trans hb)
  refine ⟨fun w => ?_, fun p => ?_, h.tlb⟩
  · rw [← h.walk w, Mmu.walk, Mmu.walk, walk_eq_translate, walk_eq_translate,
      tree_congr id hsame]
  · exact (reach_congr (fun q b _ hb => hsame q b hb) p).trans (h.reach p)

/-- No table is reached by two paths, and the frames of the pool are no tables. -/
structure Separated (m : Mmu) (fa : FrameAllocator) : Prop where
  unshared : m.Unshared
  pool : ∀ f ∈ fa.freeSet, ∀ p, m.reach p ≠ some (.ofNat 40 f)

/-- **The two ends of `unmap_page`.** -/
theorem unmapPage_cases {m : Mmu} (hm : m.Unshared) (va : BitVec 64) :
    m.unmapPage va = (false, m) ∨
      ∃ m', m.unmapPage va = (true, m') ∧ Edited m va none m' := by
  rw [unmapPage]
  simp only [walkTables_eq]
  cases h : m.reach (pathOf va) with
  | none => exact Or.inl rfl
  | some l1 => exact Or.inr ⟨_, rfl, edited_write hm h 0⟩

theorem zeroPage_edited {m m' : Mmu} {va e : BitVec 64} {above : List (BitVec 64)}
    (h : Edited m va (some (e :: above)) m') (habove : above.length = 3) :
    m'.zeroPage (pageStart va)
      = some { m' with mem := Function.update m'.mem (entryFrame e) fun _ => 0 } := by
  have hresolve : m'.resolve (pageStart va) = some (e :: above) := by
    rw [resolve, h.tlb, pageNumber_pageStart, Function.update_self, Option.none_or, h.walk,
      if_pos (agree_pageStart va)]
  rw [zeroPage, hresolve, Option.map_some, containing_physAddr va e habove]

/-- **The three ends of `manual_map`**: nothing was done, the page was mapped already, or it is
mapped to a frame of the pool. -/
theorem manualMap_cases {m : Mmu} {fa : FrameAllocator} (h : m.Separated fa) (va : BitVec 64) :
    (∃ fa', m.manualMap va fa = some (false, m, fa') ∧ fa'.freeSet ⊆ fa.freeSet) ∨
      (∃ entries, m.walk va = some entries ∧ m.manualMap va fa = some (true, m, fa)) ∨
      ∃ f m' above, fa.alloc.1 = some f ∧ m.walk va = none ∧ above.length = 3 ∧
        m.manualMap va fa = some (true, m', fa.alloc.2) ∧
        Edited m va (some (freshEntry f :: above)) m' := by
  rw [manualMap]
  simp only [walkTables_eq]
  cases hl1 : m.reach (pathOf va) with
  | none => exact Or.inl ⟨fa, rfl, Finset.Subset.refl _⟩
  | some l1 =>
    dsimp only
    have hwalk := walk_of_reach hl1
    rw [← tableIndex_pageStart va (Nat.zero_le 3), leafWalk] at hwalk
    by_cases hpresent : m.mem l1 (tableIndex (pageStart va) 12) &&& 1 = 1
    · rw [if_pos hpresent]
      rw [if_neg ((present_iff _).mp hpresent)] at hwalk
      exact Or.inr (Or.inl ⟨_, hwalk, rfl⟩)
    · rw [if_neg hpresent]
      rw [if_pos (not_not.mp ((present_iff _).not.mp hpresent))] at hwalk
      rcases halloc : fa.alloc with ⟨_ | f, fa'⟩
      · refine Or.inl ⟨fa', rfl, ?_⟩
        rw [show fa' = fa.alloc.2 by rw [halloc]]
        exact fa.freeSet_alloc_subset
      · have hfree : f ∈ fa.freeSet := fa.mem_freeSet_of_alloc (by rw [halloc])
        have hedit := edited_write h.unshared hl1 (freshEntry f)
        rw [leafWalk_freshEntry] at hedit
        have hzero := zeroPage_edited hedit (length_above hl1)
        rw [entryFrame_freshEntry] at hzero
        exact Or.inr (Or.inr ⟨f, _, m.entriesAbove va, rfl, hwalk, length_above hl1,
          by simp only [hzero, Option.map_some], hedit.of_outside (h.pool f hfree) fun _ => 0⟩)

/-! ### What an edit keeps -/

variable {m m' : Mmu} {fa fa' : FrameAllocator} {va : BitVec 64} {r : Option (List (BitVec 64))}

/-- An edit moves no table. -/
theorem Edited.separated (h : Edited m va r m') (hs : m.Separated fa)
    (hfa : fa'.freeSet ⊆ fa.freeSet) : m'.Separated fa' where
  unshared p q b hp hq :=
    hs.unshared p q b ((h.reach p).symm.trans hp) ((h.reach q).symm.trans hq)
  pool f hf p := by
    rw [h.reach]
    exact hs.pool f (hfa hf) p

/-- The TLB remembers only what a walk would find. -/
def Coherent (m : Mmu) : Prop :=
  ∀ (w : VirtAddr) (entries : List (BitVec 64)),
    m.tlb (pageNumber w.addr) = some entries → m.walk w.addr = some entries

/-- With a coherent TLB an access uses the entries of the walk. -/
theorem Coherent.resolve_eq (h : m.Coherent) (w : VirtAddr) :
    m.resolve w.addr = m.walk w.addr := by
  rw [resolve]
  cases hw : m.tlb (pageNumber w.addr) with
  | none => exact Option.none_or
  | some entries => rw [h w entries hw, Option.some_or]

/-- One flush is enough: only the page that is edited could be remembered wrongly. -/
theorem Edited.coherent {va : VirtAddr} (h : Edited m va.addr r m') (hm : m.Coherent) :
    m'.Coherent := by
  intro w entries hw
  rw [h.tlb] at hw
  by_cases hpage : pageNumber w.addr = pageNumber va.addr
  · rw [hpage, Function.update_self] at hw
    cases hw
  · rw [Function.update_of_ne hpage] at hw
    rw [h.walk, if_neg fun hagree => hpage ((agree_iff va w).mp hagree).symm]
    exact hm w entries hw

/-- An address on the page that is edited. -/
theorem Edited.translate_same {va w : VirtAddr} (h : Edited m va.addr r m')
    (hw : pageNumber w.addr = pageNumber va.addr) :
    m'.translate w.addr = r.map fun entries => (physAddr w.addr entries, entries) := by
  rw [translate, h.walk, if_pos ((agree_iff va w).mpr hw.symm)]

/-- An address on another page. -/
theorem Edited.translate_other {va w : VirtAddr} (h : Edited m va.addr r m')
    (hw : pageNumber w.addr ≠ pageNumber va.addr) : m'.translate w.addr = m.translate w.addr := by
  rw [translate, h.walk, if_neg fun hagree => hw ((agree_iff va w).mp hagree).symm, translate]

/-- Addresses of one page have one walk. -/
theorem walk_congr (m : Mmu) {va w : VirtAddr} (h : pageNumber w.addr = pageNumber va.addr) :
    m.walk w.addr = m.walk va.addr :=
  walk_agree ((agree_iff w va).mpr h) _ _

end Mmu

/-! ### Runs of edits -/

/-- A call of one of the functions. -/
inductive PageEdit
  | unmapPage (va : VirtAddr)
  | manualMap (va : VirtAddr)

/-- One call. After a fault nothing follows; the state is left as it was. -/
def PageEdit.step (s : Mmu × FrameAllocator) : PageEdit → Mmu × FrameAllocator
  | unmapPage va => ((s.1.unmapPage va.addr).2, s.2)
  | manualMap va => ((s.1.manualMap va.addr s.2).map Prod.snd).getD s

/-- One call keeps the tables apart from each other and from the pool, and the TLB coherent. -/
theorem PageEdit.separated_step {s : Mmu × FrameAllocator} (hs : s.1.Separated s.2)
    (hc : s.1.Coherent) (op : PageEdit) :
    (op.step s).1.Separated (op.step s).2 ∧ (op.step s).1.Coherent := by
  cases op with
  | unmapPage va =>
    rcases Mmu.unmapPage_cases hs.unshared va.addr with hend | ⟨m', hend, hedit⟩
    · rw [PageEdit.step, hend]
      exact ⟨hs, hc⟩
    · rw [PageEdit.step, hend]
      exact ⟨hedit.separated hs (Finset.Subset.refl _), hedit.coherent hc⟩
  | manualMap va =>
    rcases Mmu.manualMap_cases hs va.addr with
      ⟨fa', hend, hfa⟩ | ⟨entries, -, hend⟩ | ⟨f, m', above, -, -, -, hend, hedit⟩
    · rw [PageEdit.step, hend]
      exact ⟨⟨hs.unshared, fun f hf => hs.pool f (hfa hf)⟩, hc⟩
    · rw [PageEdit.step, hend]
      exact ⟨hs, hc⟩
    · rw [PageEdit.step, hend]
      exact ⟨hedit.separated hs s.2.freeSet_alloc_subset, hedit.coherent hc⟩

theorem separated_after_edits {m : Mmu} {fa : FrameAllocator} (hs : m.Separated fa)
    (hc : m.Coherent) (h : List PageEdit) :
    (Runs.after PageEdit.step (m, fa) h).1.Separated (Runs.after PageEdit.step (m, fa) h).2 ∧
      (Runs.after PageEdit.step (m, fa) h).1.Coherent := by
  induction h with
  | nil => exact ⟨hs, hc⟩
  | cons op h ih => exact PageEdit.separated_step ih.1 ih.2 op

/-- **After every run of edits** each access goes where the tables say, and the next call does not
fault. -/
theorem access_after_edits {m : Mmu} {fa : FrameAllocator} (hs : m.Separated fa)
    (hc : m.Coherent) (h : List PageEdit) (w : VirtAddr) :
    (Runs.after PageEdit.step (m, fa) h).1.resolve w.addr
        = (Runs.after PageEdit.step (m, fa) h).1.walk w.addr ∧
      ((Runs.after PageEdit.step (m, fa) h).1.manualMap w.addr
        (Runs.after PageEdit.step (m, fa) h).2).isSome = true := by
  obtain ⟨hs, hc⟩ := separated_after_edits hs hc h
  refine ⟨hc.resolve_eq w, ?_⟩
  rcases Mmu.manualMap_cases hs w.addr with
    ⟨fa', hend, -⟩ | ⟨entries, -, hend⟩ | ⟨f, m', above, -, -, -, hend, -⟩ <;>
  rw [hend, Option.isSome_some]

/-! ### The tree of the kernel's machine -/

/-- The hierarchy at `CR3` as a tree, whatever is read off the entries of a page. -/
def Mmu.tables (m : Mmu) (leaf : List (BitVec 64) → Leaf) : Table (Fin 512) Leaf 3 :=
  tree decodeEntry leaf m.mem 3 m.cr3 []

/-- **`Paged.unmapPage` is `unmap_page`** on the tree that memory holds. -/
theorem Mmu.unmapPage_tables {μ : Type} {m : Mmu} (hm : m.Unshared)
    (leaf : List (BitVec 64) → Leaf) (va : BitVec 64) (rest : μ) :
    Paged.unmapPage va ⟨m.tables leaf, rest⟩
      = ((m.unmapPage va).1, ⟨(m.unmapPage va).2.tables leaf, rest⟩) := by
  rw [Paged.unmapPage, Mmu.unmapPage]
  simp only [walkTables_eq]
  cases h : m.reach (pathOf va) with
  | none =>
    have hnot : ¬Walks (pageIndex va) 3 (m.tables leaf) := by
      rw [Mmu.tables, walks_tree]
      rintro ⟨b, hb⟩
      cases h.symm.trans hb
    rw [unmap_of_not_walks hnot]
  | some l1 =>
    have hw : Walks (pageIndex va) 3 (m.tables leaf) := walks_tree.mpr ⟨l1, h⟩
    rw [unmap_of_walks hw]
    simp only [tableIndex_pageStart va (Nat.zero_le 3), Mmu.tables, flush, Mmu.write,
      tree_write leaf hm h]
    rfl

/-! ### One page only -/

/-- **Page-table edits touch one page.** Let the tables be reached by one path each and the frames
of the pool be no tables. When `unmap_page` answers true, the page is not mapped any more; when
`manual_map` answers true, which it does or refuses but never faults, the page is mapped as it was,
or to a frame just taken from the pool, present and writable. Every other page is translated as
before, and when one of them answers false so is every page. -/
theorem page_edits_touch_one_page (m : Mmu) (fa : FrameAllocator) (h : m.Separated fa)
    (va : VirtAddr) :
    ((m.unmapPage va.addr).1 = true →
      (∀ w : VirtAddr, pageNumber w.addr = pageNumber va.addr →
        (m.unmapPage va.addr).2.translate w.addr = none) ∧
      ∀ w : VirtAddr, pageNumber w.addr ≠ pageNumber va.addr →
        (m.unmapPage va.addr).2.translate w.addr = m.translate w.addr) ∧
    ((m.unmapPage va.addr).1 = false →
      ∀ w : VirtAddr, (m.unmapPage va.addr).2.translate w.addr = m.translate w.addr) ∧
    ∃ ok m' fa', m.manualMap va.addr fa = some (ok, m', fa') ∧
      (ok = true →
        ((∀ w : VirtAddr, pageNumber w.addr = pageNumber va.addr →
            ∃ t, m.translate w.addr = some t ∧ m'.translate w.addr = some t) ∨
          ∃ f e above, fa.alloc = (some f, fa') ∧ e &&& 3 = 3 ∧
            ∀ w : VirtAddr, pageNumber w.addr = pageNumber va.addr →
              m.translate w.addr = none ∧
              m'.translate w.addr
                = some (PhysFrame.start (.ofNat 40 f) ||| (w.addr &&& 0xfff), e :: above)) ∧
        ∀ w : VirtAddr, pageNumber w.addr ≠ pageNumber va.addr →
          m'.translate w.addr = m.translate w.addr) ∧
      (ok = false → ∀ w : VirtAddr, m'.translate w.addr = m.translate w.addr) := by
  refine ⟨fun hok => ?_, fun hok w => ?_, ?_⟩
  · rcases Mmu.unmapPage_cases h.unshared va.addr with hend | ⟨m', hend, hedit⟩
    · rw [hend] at hok
      cases hok
    · rw [hend]
      exact ⟨fun w => hedit.translate_same, fun w => hedit.translate_other⟩
  · rcases Mmu.unmapPage_cases h.unshared va.addr with hend | ⟨m', hend, -⟩
    · rw [hend]
    · rw [hend] at hok
      cases hok
  · rcases Mmu.manualMap_cases h va.addr with
      ⟨fa', hend, -⟩ | ⟨entries, hwalk, hend⟩ | ⟨f, m', above, halloc, hwalk, hlen, hend, hedit⟩
    · exact ⟨false, m, fa', hend, fun hok => absurd hok (by decide), fun _ _ => rfl⟩
    · refine ⟨true, m, fa, hend, fun _ => ⟨Or.inl fun w hw => ?_, fun _ _ => rfl⟩, fun _ _ => rfl⟩
      have ht : m.translate w.addr = some (physAddr w.addr entries, entries) := by
        rw [Mmu.translate, m.walk_congr hw, hwalk, Option.map_some]
      exact ⟨_, ht, ht⟩
    · refine ⟨true, m', fa.alloc.2, hend, fun _ => ⟨Or.inr ⟨f, Mmu.freshEntry f, above,
        Prod.ext halloc rfl, Mmu.or_and_self _ _, fun w hw => ⟨?_, ?_⟩⟩,
        fun w => hedit.translate_other⟩, fun hok => absurd hok (by decide)⟩
      · rw [Mmu.translate, m.walk_congr hw, hwalk, Option.map_none]
      · rw [hedit.translate_same hw, Option.map_some, Mmu.physAddr_freshEntry _ _ hlen]

/-! ### One table of each level -/

/-- The level-4 table in frame 1, and the tables for address 0 in the frames after it. -/
def lowTables : Mmu where
  mem table i := if i = 0 ∧ table.toNat < 4 then Mmu.freshEntry (table.toNat + 1) else 0
  cr3 := 1
  tlb _ := none

theorem entryFrame_of_table {level : ℕ} {e : BitVec 64} {table : PhysFrame}
    (h : decodeEntry level e = .table table) : table = entryFrame e := by
  rw [decodeEntry] at h
  repeat' split at h
  all_goals cases h
  rfl

/-- A path through these tables takes index 0 at each level. -/
theorem reach_lowTables {n : ℕ} {a b : PhysFrame} {p : List (Fin 512)}
    (h : TableMemory.reach decodeEntry lowTables.mem n a p = some b) :
    p = List.replicate p.length 0 ∧ b.toNat = a.toNat + p.length ∧ p.length ≤ n := by
  induction n generalizing a p with
  | zero =>
    cases p with
    | nil =>
      cases h
      exact ⟨rfl, rfl, Nat.le_refl 0⟩
    | cons j p => cases h
  | succ n ih =>
    cases p with
    | nil =>
      cases h
      exact ⟨rfl, rfl, Nat.zero_le _⟩
    | cons j p =>
      obtain ⟨c, hd, hc⟩ := exists_of_reach_cons h
      obtain ⟨hp, hb, hlen⟩ := ih hc
      by_cases hj : j = 0 ∧ a.toNat < 4
      · have hmem : lowTables.mem a j = Mmu.freshEntry (a.toNat + 1) := if_pos hj
        rw [hmem] at hd
        have hnext : c.toNat = a.toNat + 1 := by
          rw [entryFrame_of_table hd, Mmu.entryFrame_freshEntry, BitVec.toNat_ofNat]
          omega
        refine ⟨?_, ?_, ?_⟩
        · rw [List.length_cons, List.replicate_succ, ← hp, hj.1]
        · rw [List.length_cons]
          omega
        · rw [List.length_cons]
          omega
      · have hmem : lowTables.mem a j = 0 := if_neg hj
        rw [hmem, decodeEntry, if_pos (by decide)] at hd
        cases hd

/-- A pool with one frame. -/
def onePool : FrameAllocator := .init [⟨0x100000, 0x1000, memmapUsable⟩]

theorem separated_lowTables : lowTables.Separated onePool where
  unshared p q b hp hq := by
    obtain ⟨hp, hbp, -⟩ := reach_lowTables hp
    obtain ⟨hq, hbq, -⟩ := reach_lowTables hq
    have hlen : p.length = q.length := by omega
    rw [hp, hq, hlen]
  pool f hf p hp := by
    have hpool : onePool.freeSet = {256} := by decide +kernel
    rw [hpool, Finset.mem_singleton] at hf
    subst hf
    obtain ⟨-, hb, hlen⟩ := reach_lowTables hp
    have hone : lowTables.cr3.toNat = 1 := by decide
    have hframe : (BitVec.ofNat 40 256).toNat = 256 := by decide
    omega

/-- Address 0. -/
def lowAddr : VirtAddr := ⟨0, Or.inl (by decide)⟩

/-- Page 0 is mapped to the frame of the pool, and every other page is translated as before. -/
theorem page_edits_touch_one_page_lowTables :
    ∃ m' fa', lowTables.manualMap 0 onePool = some (true, m', fa') ∧
      (m'.translate 0).isSome = true ∧
      ∀ w : VirtAddr, pageNumber w.addr ≠ 0 → m'.translate w.addr = lowTables.translate w.addr := by
  obtain ⟨-, -, ok, m', fa', hend, htrue, -⟩ :=
    page_edits_touch_one_page lowTables onePool separated_lowTables lowAddr
  have hok : (lowTables.manualMap 0 onePool).map Prod.fst = some true := by decide +kernel
  have hend' : lowTables.manualMap 0 onePool = some (ok, m', fa') := hend
  rw [hend', Option.map_some] at hok
  cases hok
  obtain ⟨hpage, hother⟩ := htrue rfl
  refine ⟨m', fa', hend', ?_, hother⟩
  rcases hpage with hsame | ⟨f, e, above, -, -, hfresh⟩
  · obtain ⟨t, -, ht⟩ := hsame lowAddr rfl
    exact Option.isSome_iff_exists.mpr ⟨t, ht⟩
  · exact Option.isSome_iff_exists.mpr ⟨_, (hfresh lowAddr rfl).2⟩

end Cairn
