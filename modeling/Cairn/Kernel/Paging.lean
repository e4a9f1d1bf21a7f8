import Cairn.Internal.PageTable
import Cairn.Kernel.Capspace

/-!
# Paging

`map_user_phys` and `unmap_page` of `kernel/src/paging.rs`, on a machine with page tables. The
hierarchy has four levels with 512 entries each; below it is the rest of the machine, which hands
out frames and which is again arbitrary.

`unmap_page` walks the tables by hand. `map_user_phys` leaves the work to `map_to_with_table_flags`
of the `x86_64` crate, which is not part of the kernel: it is a parameter (`MapTo`), and what is
assumed of it is `MapTo.Lawful`. A mapper that creates the tables it misses, `PageTable.mapTo`,
shows that the assumptions can be met.

The six pages that `DQ_MAP` and `X_MAP` grant share their tables down to level `0`: they lie in one
region of 2 MiB. Once one of them is mapped, mapping another one takes no frame.

## Main definitions

* `Paged`, `Paged.mapUserPhys`, `Paged.unmapPage` — the machine and the two functions
* `MapTo`, `MapTo.Lawful` — the mapper, and what is assumed of it
* `Platform.paged` — the platform of that machine
* `dqVas`, `grantVas` — the pages that are granted

## Main results

* `Paged.mapped_mapUserPhys`, `Paged.mapped_unmapPage` — what the functions do to every address
* `Paged.mapUserPhys_of_hasTables` — where the tables are there, mapping cannot run out of frames
* `MapTo.lawful_creating` — the assumptions can be met
-/

namespace Cairn

open PageTable

/-- What an entry at level `0` says of its page. Every such page is present and accessible to
ring 3. -/
structure Leaf where
  frame : BitVec 64
  writable : Bool
  noExecute : Bool
  noCache : Bool
  deriving DecidableEq, Repr

/-- The flags of a table on the way to a page, which is present. -/
structure TableFlags where
  writable : Bool
  userAccessible : Bool
  deriving DecidableEq, Repr

/-- A machine with page tables, which the four-level hierarchy at `CR3` stands for. -/
structure Paged (μ : Type) where
  /-- The table at level `3`. -/
  tables : Table (Fin 512) Leaf 3
  /-- The rest of the machine. -/
  rest : μ

/-- `va & !0xfff`. -/
def pageStart (va : BitVec 64) : BitVec 64 := va &&& ~~~0xfff

/-- The index of an address in the tables of a level. -/
def pageIndex (va : BitVec 64) (level : ℕ) : Fin 512 :=
  ⟨(va >>> (12 + 9 * level)).toNat % 512, Nat.mod_lt _ (by decide)⟩

/-- Two addresses lie in one page. -/
def SamePage (va w : BitVec 64) : Prop := Agree 3 (pageIndex va) (pageIndex w)

instance (va w : BitVec 64) : Decidable (SamePage va w) :=
  inferInstanceAs (Decidable (Agree 3 (pageIndex va) (pageIndex w)))

/-- The tables an address goes through depend on its page only. -/
theorem pageIndex_congr {va va' : BitVec 64} (h : va.toNat / 4096 = va'.toNat / 4096) :
    pageIndex va = pageIndex va' := by
  funext level
  have hshift : ∀ a : BitVec 64,
      (a >>> (12 + 9 * level)).toNat = a.toNat / 4096 / 2 ^ (9 * level) := by
    intro a
    rw [BitVec.toNat_ushiftRight, Nat.shiftRight_eq_div_pow, Nat.pow_add, ← Nat.div_div_eq_div_mul]
  rw [pageIndex, pageIndex]
  simp only [hshift, h]

/-- An address and the start of its page have the same number of pages below them. -/
theorem pageStart_ushiftRight (va : BitVec 64) : pageStart va >>> 12 = va >>> 12 := by
  have hmask : (~~~0xfff : BitVec 64) >>> 12 = BitVec.allOnes 64 >>> 12 := by decide
  rw [pageStart, BitVec.ushiftRight_and_distrib, hmask, ← BitVec.ushiftRight_and_distrib,
    BitVec.and_allOnes]

theorem pageIndex_pageStart (va : BitVec 64) : pageIndex (pageStart va) = pageIndex va := by
  refine pageIndex_congr ?_
  have h := congrArg BitVec.toNat (pageStart_ushiftRight va)
  simpa only [BitVec.toNat_ushiftRight, Nat.shiftRight_eq_div_pow] using h

theorem samePage_pageStart (va w : BitVec 64) : SamePage (pageStart va) w ↔ SamePage va w := by
  rw [SamePage, SamePage, pageIndex_pageStart]

namespace Paged

variable {μ : Type}

/-- The address is mapped. -/
def mapped (m : Paged μ) (va : BitVec 64) : Bool := (translate (pageIndex va) 3 m.tables).isSome

/-- The tables down to the entry of the address are there. -/
def HasTables (m : Paged μ) (va : BitVec 64) : Prop := Walks (pageIndex va) 3 m.tables

end Paged

/-! ### The mapper -/

/-- `map_to_with_table_flags` of the `x86_64` crate. It is given a frame allocator, a page, what the
entry of the page is to say, and the flags of the tables on the way, and answers whether the page
is mapped now. -/
abbrev MapTo (μ : Type) : Type :=
  (μ → Option (BitVec 64) × μ) → BitVec 64 → Leaf → TableFlags → Paged μ → Bool × Paged μ

/-- What is assumed of the mapper. It maps the page or changes no translation, it refuses a page
that is mapped, and frames are needed for missing tables only. -/
structure MapTo.Lawful {μ : Type} (mapTo : MapTo μ) : Prop where
  /-- On success the page is mapped as asked; every other translation is as before, and if it fails
  so are all of them. -/
  translate_eq : ∀ alloc page leaf parent m w,
    translate (pageIndex w) 3 (mapTo alloc page leaf parent m).2.tables
      = if (mapTo alloc page leaf parent m).1 = true ∧ SamePage page w then some leaf
        else translate (pageIndex w) 3 m.tables
  /-- A page that is mapped is refused. -/
  unmapped : ∀ alloc page leaf parent m,
    (mapTo alloc page leaf parent m).1 = true → m.mapped page = false
  /-- With the tables there, nothing but a page that is mapped is refused. -/
  ok : ∀ alloc page leaf parent m,
    m.HasTables page → m.mapped page = false → (mapTo alloc page leaf parent m).1 = true
  /-- The page gets an entry at level `0`. -/
  created : ∀ alloc page leaf parent m,
    (mapTo alloc page leaf parent m).1 = true → (mapTo alloc page leaf parent m).2.HasTables page
  /-- No table goes away. -/
  kept : ∀ alloc page leaf parent m w,
    m.HasTables w → (mapTo alloc page leaf parent m).2.HasTables w

/-- The mapper that creates the tables it misses, each from a frame. -/
def MapTo.creating {μ : Type} : MapTo μ := fun alloc page leaf _ m =>
  let r := PageTable.mapTo (fun s => ((alloc s).1.isSome, (alloc s).2)) (pageIndex page) leaf 3
    m.tables m.rest
  (r.1, ⟨r.2.1, r.2.2⟩)

/-- **The assumptions can be met.** -/
theorem MapTo.lawful_creating {μ : Type} : (MapTo.creating (μ := μ)).Lawful where
  translate_eq _ page leaf _ m w := translate_mapTo _ (pageIndex page) leaf 3 m.tables m.rest _
  unmapped _ page leaf _ m h := by
    rw [Paged.mapped, (mapTo_ok _ _ _ h).1]
    rfl
  ok _ page leaf _ m htables h :=
    mapTo_of_walks _ _ _ htables
      (Option.isNone_iff_eq_none.mp (Option.isSome_eq_false_iff.mp h))
  created _ page leaf _ m h := (mapTo_ok _ _ _ h).2
  kept _ page leaf _ m w htables := walks_mapTo _ _ _ htables

/-! ### The two functions -/

namespace Paged

variable {μ : Type}

/-- `KernelFrames::allocate_frame`: the address of a frame of the pool. -/
def kernelFrames (p : Platform μ) (m : μ) : Option (BitVec 64) × μ :=
  ((p.allocateFrame m).1.map (· * 4096), (p.allocateFrame m).2)

/-- `map_user_phys`. -/
def mapUserPhys (mapTo : MapTo μ) (p : Platform μ) (virt phys : BitVec 64)
    (writable exec noCache : Bool) (m : Paged μ) : Bool × Paged μ :=
  let leaf : Leaf := ⟨pageStart phys, writable, !exec, noCache⟩
  let parent : TableFlags := ⟨true, true⟩
  mapTo (kernelFrames p) (pageStart virt) leaf parent m

/-- `unmap_page`. -/
def unmapPage (va : BitVec 64) (m : Paged μ) : Bool × Paged μ :=
  let r := unmap (pageIndex va) 3 m.tables
  (r.1, { m with tables := r.2 })

end Paged

/-- The platform of a machine with page tables: the two functions above, and below the page tables
the platform `p`. -/
def Platform.paged {μ : Type} (p : Platform μ) (mapTo : MapTo μ) : Platform (Paged μ) where
  mapUserPhys := Paged.mapUserPhys mapTo p
  unmapPage := Paged.unmapPage
  allocateFrame m :=
    ((p.allocateFrame m.rest).1, { m with rest := (p.allocateFrame m.rest).2 })
  readSector lba m :=
    ((p.readSector lba m.rest).1, { m with rest := (p.readSector lba m.rest).2 })
  deviceQueueDesc m := p.deviceQueueDesc m.rest
  tickNs := p.tickNs
  stackTop := p.stackTop
  taskKstackTop := p.taskKstackTop

/-! ### What the functions do to every address -/

namespace Paged

section Map

variable {μ : Type} {mapTo : MapTo μ} (hmapTo : mapTo.Lawful) (p : Platform μ)
  (va phys : BitVec 64) (writable exec noCache : Bool)

include hmapTo

/-- **Mapping** maps the page if it succeeds, and changes no other translation. -/
theorem translate_mapUserPhys (m : Paged μ) (w : BitVec 64) :
    translate (pageIndex w) 3 (mapUserPhys mapTo p va phys writable exec noCache m).2.tables
      = if (mapUserPhys mapTo p va phys writable exec noCache m).1 = true ∧ SamePage va w
        then some ⟨pageStart phys, writable, !exec, noCache⟩
        else translate (pageIndex w) 3 m.tables := by
  have h := hmapTo.translate_eq (kernelFrames p) (pageStart va)
    ⟨pageStart phys, writable, !exec, noCache⟩ ⟨true, true⟩ m w
  simp only [samePage_pageStart] at h
  exact h

theorem mapped_mapUserPhys (m : Paged μ) (w : BitVec 64) :
    (mapUserPhys mapTo p va phys writable exec noCache m).2.mapped w = true ↔
      ((mapUserPhys mapTo p va phys writable exec noCache m).1 = true ∧ SamePage va w) ∨
        m.mapped w = true := by
  rw [mapped, translate_mapUserPhys hmapTo]
  split
  · rename_i hc
    exact ⟨fun _ => Or.inl hc, fun _ => rfl⟩
  · rename_i hc
    exact ⟨Or.inr, fun hw => hw.resolve_left hc⟩

/-- A page is mapped only if it was not. -/
theorem mapUserPhys_ok (m : Paged μ)
    (h : (mapUserPhys mapTo p va phys writable exec noCache m).1 = true) :
    m.mapped va = false ∧
      (mapUserPhys mapTo p va phys writable exec noCache m).2.HasTables va := by
  have hfree := hmapTo.unmapped _ _ _ _ _ h
  have htables := hmapTo.created _ _ _ _ _ h
  rw [mapped, pageIndex_pageStart] at hfree
  rw [HasTables, pageIndex_pageStart] at htables
  exact ⟨hfree, htables⟩

/-- **Where the tables are there**, a page that is not mapped can be mapped. -/
theorem mapUserPhys_of_hasTables {m : Paged μ} (ht : m.HasTables va) (h : m.mapped va = false) :
    (mapUserPhys mapTo p va phys writable exec noCache m).1 = true := by
  refine hmapTo.ok _ _ _ _ _ ?_ ?_
  · rw [HasTables, pageIndex_pageStart]
    exact ht
  · rw [mapped, pageIndex_pageStart]
    exact h

theorem hasTables_mapUserPhys (m : Paged μ) {w : BitVec 64} (ht : m.HasTables w) :
    (mapUserPhys mapTo p va phys writable exec noCache m).2.HasTables w :=
  hmapTo.kept _ _ _ _ _ _ ht

end Map

section Unmap

variable {μ : Type} (va : BitVec 64)

/-- **Unmapping** where the tables are there unmaps the page, and changes no other translation. -/
theorem mapped_unmapPage {m : Paged μ} (ht : m.HasTables va) (w : BitVec 64) :
    (unmapPage va m).2.mapped w = true ↔ ¬SamePage va w ∧ m.mapped w = true := by
  have h : translate (pageIndex w) 3 (unmapPage va m).2.tables
      = if SamePage va w then none else translate (pageIndex w) 3 m.tables :=
    translate_unmap ht (pageIndex w)
  rw [mapped, h]
  split
  · rename_i hc
    exact ⟨nofun, fun hw => absurd hc hw.1⟩
  · rename_i hc
    exact ⟨fun hw => ⟨hc, hw⟩, fun hw => hw.2⟩

theorem hasTables_unmapPage (m : Paged μ) {w : BitVec 64} (ht : m.HasTables w) :
    (unmapPage va m).2.HasTables w :=
  walks_unmap ht

end Unmap

end Paged

/-! ### The pages that are granted -/

/-- The five pages of a DeviceQueue, in the order in which `devqueue_map` maps them. -/
def dqVas : List (BitVec 64) :=
  [Kernel.dqBase, Kernel.dqBase + 0x1000, Kernel.dqBase + 0x2000, Kernel.dqBase + 0x3000,
    Kernel.dqBase + 0x4000]

/-- The pages that `DQ_MAP` and `X_MAP` grant. -/
def grantVas : List (BitVec 64) := dqVas ++ [Kernel.extentMapBase]

theorem nodup_dqVas : dqVas.Nodup := by decide

theorem map_pageIndex_zero :
    grantVas.map (fun va => pageIndex va 0) = [0, 1, 2, 3, 4, 256] := rfl

theorem map_pageIndex_above :
    grantVas.map (fun va => (pageIndex va 1, pageIndex va 2, pageIndex va 3))
      = List.replicate 6 (8, 0, 0) := rfl

/-- They are different pages. -/
theorem samePage_iff {va w : BitVec 64} (hva : va ∈ grantVas) (hw : w ∈ grantVas) :
    SamePage va w ↔ va = w := by
  refine ⟨fun h => ?_, fun h _ _ => by rw [h]⟩
  have hnodup : (grantVas.map fun va => pageIndex va 0).Nodup := by
    rw [map_pageIndex_zero]
    decide
  exact List.inj_on_of_nodup_map hnodup hva hw (h 0 (by decide))

/-- They share their tables. -/
theorem Paged.HasTables.grant {μ : Type} {m : Paged μ} {va w : BitVec 64} (h : m.HasTables va)
    (hva : va ∈ grantVas) (hw : w ∈ grantVas) : m.HasTables w := by
  have habove : ∀ va ∈ grantVas,
      (pageIndex va 1, pageIndex va 2, pageIndex va 3) = (8, 0, 0) := fun va hva =>
    List.eq_of_mem_replicate (map_pageIndex_above ▸ List.mem_map_of_mem hva)
  have heq := (habove va hva).trans (habove w hw).symm
  simp only [Prod.mk.injEq] at heq
  refine Walks.congr h fun k hk hk3 => ?_
  obtain rfl | rfl | rfl : k = 1 ∨ k = 2 ∨ k = 3 := by omega
  · exact heq.1
  · exact heq.2.1
  · exact heq.2.2

end Cairn
