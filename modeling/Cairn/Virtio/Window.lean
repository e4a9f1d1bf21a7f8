import Cairn.Internal.UserCode
import Cairn.Kernel.Ledger
import Cairn.Virtio.Completion

/-!
# The queue through the pages of `DQ_MAP`

A program in ring 3 that `DQ_MAP` has mapped the queue for sees the rings, the request buffer and
the doorbell through five pages at `DQ_BASE`. An access goes through the page tables to a frame of
the queue, and there to a field of the memory the driver shares with the device (`Cell`). Accesses
to anything but one whole field are not described. The kernel leaves four parameters behind the
request, at `+2048` of the buffer; nobody writes them afterwards.

The addresses of the rings and of the buffer are the frames that `Virtio.init` allocates
(`initDesc`).

## Main definitions

* `Cell`, `cellAt`, `Cell.get`, `Cell.put` — the fields of the shared memory
* `Window`, `Window.bus` — what an access in ring 3 means
* `initDesc` — the addresses of the queue
* `Laid` — the queue is laid out in these frames

## Main results

* `Window.cell_window`, `Window.cell_doorbell` — where the pages of the window lead
* `mapped_devqueueMap` — what `DQ_MAP` maps
* `apart_initDesc`, `laid_init`, `laid_after` — the frames are different, and stay the queue's
-/

namespace Cairn

namespace Virtio

open Amd64 (Addr Bus)
open PageTable (Table translate)
open Shared (Prog Stable Triple)
open Block (Device)
open Kernel (dqBase)

/-! ### The fields -/

/-- A field of the shared memory. -/
inductive Cell
  | descAddr (i : BitVec 16)
  | descLen (i : BitVec 16)
  | descFlags (i : BitVec 16)
  | descNext (i : BitVec 16)
  | availIdx
  | availRing (slot : BitVec 16)
  | usedIdx
  | hdrType
  | hdrReserved
  | hdrSector
  /-- Eight bytes of the data buffer. -/
  | data (off : ℕ)
  | status
  /-- A parameter the kernel has left for the driver. -/
  | param (j : ℕ)
  | doorbell
  deriving DecidableEq, Repr

/-- The descriptor table. -/
def descCell (off n : ℕ) : Option Cell :=
  let i := BitVec.ofNat 16 (off / 16)
  if off % 16 = 0 ∧ n = 8 then some (.descAddr i)
  else if off % 16 = 8 ∧ n = 4 then some (.descLen i)
  else if off % 16 = 12 ∧ n = 2 then some (.descFlags i)
  else if off % 16 = 14 ∧ n = 2 then some (.descNext i)
  else none

/-- The avail ring. -/
def availCell (off n : ℕ) : Option Cell :=
  if off = 2 ∧ n = 2 then some .availIdx
  else if 4 ≤ off ∧ off % 2 = 0 ∧ n = 2 then some (.availRing (.ofNat 16 ((off - 4) / 2)))
  else none

/-- The used ring. -/
def usedCell (off n : ℕ) : Option Cell := if off = 2 ∧ n = 2 then some .usedIdx else none

/-- The request buffer: header at `+0`, data at `+512`, status at `+1024`, parameters at `+2048`. -/
def bufCell (off n : ℕ) : Option Cell :=
  if off = 0 ∧ n = 4 then some .hdrType
  else if off = 4 ∧ n = 4 then some .hdrReserved
  else if off = 8 ∧ n = 8 then some .hdrSector
  else if 512 ≤ off ∧ off + 8 ≤ 1024 ∧ n = 8 then some (.data (off - 512))
  else if off = 1024 ∧ n = 1 then some .status
  else if 2048 ≤ off ∧ off < 2080 ∧ off % 8 = 0 ∧ n = 8 then some (.param ((off - 2048) / 8))
  else none

/-- The field at an offset into a frame. -/
def cellAt (g : DeviceQueueDesc) (frame : BitVec 64) (off n : ℕ) : Option Cell :=
  if frame = g.descPhys then descCell off n
  else if frame = g.availPhys then availCell off n
  else if frame = g.usedPhys then usedCell off n
  else if frame = g.bufPhys then bufCell off n
  else if frame = pageStart g.doorbellPhys ∧ off = (g.doorbellPhys &&& 0xfff).toNat ∧ n = 2 ∧
      off + 2 ≤ 4096 then some .doorbell
  else none

/-- The field at an offset into the first four pages of the window. -/
def windowCell (off n : ℕ) : Option Cell :=
  match off / 4096 with
  | 0 => descCell (off % 4096) n
  | 1 => availCell (off % 4096) n
  | 2 => usedCell (off % 4096) n
  | 3 => bufCell (off % 4096) n
  | _ => none

/-- The parameters the kernel leaves in the buffer. -/
def params (g : DeviceQueueDesc) (lba : BitVec 64) : ℕ → BitVec 64
  | 0 => g.bufPhys
  | 1 => lba
  | 2 => g.qsize.setWidth 64
  | _ => g.doorbellPhys &&& 0xfff

/-- Read a field. The doorbell is not for reading. -/
def Cell.get (params : ℕ → BitVec 64) : Cell → Option (Queue → BitVec 64)
  | .descAddr i => some fun q => (q.mem.desc i).addr
  | .descLen i => some fun q => (q.mem.desc i).len.setWidth 64
  | .descFlags i => some fun q => (q.mem.desc i).flags.setWidth 64
  | .descNext i => some fun q => (q.mem.desc i).next.setWidth 64
  | .availIdx => some fun q => q.availIdx.setWidth 64
  | .availRing slot => some fun q => (q.availRing slot).setWidth 64
  | .usedIdx => some fun q => q.usedIdx.setWidth 64
  | .hdrType => some fun q => q.mem.hdr.type.setWidth 64
  | .hdrReserved => some fun q => q.mem.hdr.reserved.setWidth 64
  | .hdrSector => some fun q => q.mem.hdr.sector
  | .data off => some fun q => q.data.rdU64 off
  | .status => some fun q => q.status.setWidth 64
  | .param j => some fun _ => params j
  | .doorbell => none

/-- Publish what is in the avail ring: the request is the one the device makes out of the chain. -/
def Queue.publish (idx : BitVec 16) (q : Queue) : Queue :=
  { q with
    availIdx := idx
    published :=
      (q.mem.request (q.availRing (q.availIdx % q.qsize))).toList ++ q.published }

/-- Write a field. -/
def Cell.put (v : BitVec 64) : Cell → Option (Queue → Queue)
  | .descAddr i => some (Queue.onMem fun m =>
      { m with desc := Function.update m.desc i { m.desc i with addr := v } })
  | .descLen i => some (Queue.onMem fun m =>
      { m with desc := Function.update m.desc i { m.desc i with len := v.setWidth 32 } })
  | .descFlags i => some (Queue.onMem fun m =>
      { m with desc := Function.update m.desc i { m.desc i with flags := v.setWidth 16 } })
  | .descNext i => some (Queue.onMem fun m =>
      { m with desc := Function.update m.desc i { m.desc i with next := v.setWidth 16 } })
  | .availIdx => some (Queue.publish (v.setWidth 16))
  | .availRing slot => some fun q =>
      { q with availRing := Function.update q.availRing slot (v.setWidth 16) }
  | .usedIdx => none
  | .hdrType => some (Queue.onMem fun m => { m with hdr := { m.hdr with type := v.setWidth 32 } })
  | .hdrReserved =>
      some (Queue.onMem fun m => { m with hdr := { m.hdr with reserved := v.setWidth 32 } })
  | .hdrSector => some (Queue.onMem fun m => { m with hdr := { m.hdr with sector := v } })
  | .data off => some fun q => { q with data := q.data.wrU64 off v }
  | .status => some fun q => { q with status := v.setWidth 8 }
  | .param _ => none
  | .doorbell => some id

/-! ### Accesses in ring 3 -/

/-- The page tables, the frames of the queue and the sector among the parameters. -/
structure Window where
  tables : Table (Fin 512) Leaf 3
  desc : DeviceQueueDesc
  lba : BitVec 64

namespace Window

/-- The field at an address, if the access is allowed. -/
def cell (w : Window) (va : Addr) (n : ℕ) (write : Bool) : Option Cell :=
  match translate (pageIndex va) 3 w.tables with
  | none => none
  | some leaf =>
    if write = true ∧ leaf.writable = false then none
    else cellAt w.desc leaf.frame (va.toNat % 4096) n

/-- What accesses mean. -/
def bus (w : Window) : Bus Queue where
  read va n := (w.cell va n false).bind (Cell.get (params w.desc w.lba))
  write va n v := (w.cell va n true).bind (Cell.put v)

end Window

/-- **An access inside a mapped page** is an access to its frame. -/
theorem Window.cell_page (w : Window) {page : BitVec 64} {leaf : Leaf}
    (hleaf : translate (pageIndex page) 3 w.tables = some leaf) (hpage : page.toNat % 4096 = 0)
    {off : BitVec 64} (hoff : off.toNat < 4096) {write : Bool}
    (hwrite : write = true → leaf.writable = true) (n : ℕ) :
    w.cell (page + off) n write = cellAt w.desc leaf.frame off.toNat n := by
  have hadd : (page + off).toNat = page.toNat + off.toNat := by
    rw [BitVec.toNat_add, Nat.mod_eq_of_lt]
    have := page.isLt
    omega
  have hindex : pageIndex (page + off) = pageIndex page := by
    refine pageIndex_congr ?_
    omega
  have hmod : (page + off).toNat % 4096 = off.toNat := by omega
  rw [Window.cell, hindex, hleaf]
  dsimp only
  rw [hmod, if_neg]
  rintro ⟨hw, hro⟩
  rw [hwrite hw] at hro
  cases hro

/-! ### The five pages -/

/-- The frames of the queue are different pages, and the doorbell does not cross one. -/
structure Apart (g : DeviceQueueDesc) : Prop where
  aligned : ∀ a ∈ [g.descPhys, g.availPhys, g.usedPhys, g.bufPhys], pageStart a = a
  nodup : [g.descPhys, g.availPhys, g.usedPhys, g.bufPhys, pageStart g.doorbellPhys].Nodup
  doorbell : (g.doorbellPhys &&& 0xfff).toNat + 2 ≤ 4096

/-- The frames of the queue are mapped as `DQ_MAP` maps them. -/
structure Mapped (tables : Table (Fin 512) Leaf 3) (g : DeviceQueueDesc) : Prop where
  desc : translate (pageIndex dqBase) 3 tables = some ⟨pageStart g.descPhys, true, true, false⟩
  avail : translate (pageIndex (dqBase + 0x1000)) 3 tables
    = some ⟨pageStart g.availPhys, true, true, false⟩
  used : translate (pageIndex (dqBase + 0x2000)) 3 tables
    = some ⟨pageStart g.usedPhys, false, true, false⟩
  buf : translate (pageIndex (dqBase + 0x3000)) 3 tables
    = some ⟨pageStart g.bufPhys, true, true, false⟩
  doorbell : translate (pageIndex (dqBase + 0x4000)) 3 tables
    = some ⟨pageStart g.doorbellPhys, true, true, true⟩

namespace Window

variable {w : Window} (hmap : Mapped w.tables w.desc) (hapart : Apart w.desc) {off : BitVec 64}
  (hoff : off.toNat < 4096) (n : ℕ)

include hmap hapart hoff

theorem cell_desc (write : Bool) : w.cell (dqBase + off) n write = descCell off.toNat n := by
  rw [w.cell_page hmap.desc (by decide) hoff (fun _ => rfl), cellAt,
    if_pos (hapart.aligned _ (by simp))]

theorem cell_avail (write : Bool) :
    w.cell (dqBase + 0x1000 + off) n write = availCell off.toNat n := by
  have hne := hapart.nodup
  simp only [List.nodup_cons, List.mem_cons, not_or] at hne
  rw [w.cell_page hmap.avail (by decide) hoff (fun _ => rfl), hapart.aligned _ (by simp), cellAt,
    if_neg (Ne.symm hne.1.1), if_pos rfl]

theorem cell_used : w.cell (dqBase + 0x2000 + off) n false = usedCell off.toNat n := by
  have hne := hapart.nodup
  simp only [List.nodup_cons, List.mem_cons, not_or] at hne
  rw [w.cell_page hmap.used (by decide) hoff (fun h => absurd h Bool.false_ne_true),
    hapart.aligned _ (by simp), cellAt, if_neg (Ne.symm hne.1.2.1), if_neg (Ne.symm hne.2.1.1),
    if_pos rfl]

theorem cell_buf (write : Bool) :
    w.cell (dqBase + 0x3000 + off) n write = bufCell off.toNat n := by
  have hne := hapart.nodup
  simp only [List.nodup_cons, List.mem_cons, not_or] at hne
  rw [w.cell_page hmap.buf (by decide) hoff (fun _ => rfl), hapart.aligned _ (by simp), cellAt,
    if_neg (Ne.symm hne.1.2.2.1), if_neg (Ne.symm hne.2.1.2.1), if_neg (Ne.symm hne.2.2.1.1),
    if_pos rfl]

omit hoff in
theorem cell_doorbell (write : Bool) :
    w.cell (dqBase + 0x4000 + (w.desc.doorbellPhys &&& 0xfff)) 2 write = some .doorbell := by
  have hne := hapart.nodup
  simp only [List.nodup_cons, List.mem_cons, not_or] at hne
  have hdoor := hapart.doorbell
  rw [w.cell_page hmap.doorbell (by decide) (by omega) (fun _ => rfl), cellAt,
    if_neg (Ne.symm hne.1.2.2.2.1), if_neg (Ne.symm hne.2.1.2.2.1),
    if_neg (Ne.symm hne.2.2.1.2.1), if_neg (Ne.symm hne.2.2.2.1.1), if_pos ⟨rfl, rfl, rfl, hdoor⟩]

omit hoff in
/-- **The first four pages.** The used ring is not for writing. -/
theorem cell_window {write : Bool} (hoff : off.toNat < 16384)
    (hwrite : write = true → off.toNat / 4096 ≠ 2) :
    w.cell (dqBase + off) n write = windowCell off.toNat n := by
  have hsplit : ∀ j : ℕ, off.toNat / 4096 = j → dqBase + off
      = dqBase + BitVec.ofNat 64 (j * 4096) + BitVec.ofNat 64 (off.toNat % 4096) := by
    rintro j rfl
    rw [BitVec.add_assoc, ← BitVec.ofNat_add, Nat.div_add_mod', BitVec.ofNat_toNat,
      BitVec.setWidth_eq]
  have hmod : (BitVec.ofNat 64 (off.toNat % 4096)).toNat = off.toNat % 4096 := by
    rw [BitVec.toNat_ofNat]
    omega
  have hlt : (BitVec.ofNat 64 (off.toNat % 4096)).toNat < 4096 := by omega
  obtain h | h | h | h : off.toNat / 4096 = 0 ∨ off.toNat / 4096 = 1 ∨ off.toNat / 4096 = 2 ∨
      off.toNat / 4096 = 3 := by omega
  · rw [hsplit 0 h, windowCell, h]
    exact (cell_desc hmap hapart hlt n write).trans (congrArg (descCell · n) hmod)
  · rw [hsplit 1 h, windowCell, h]
    exact (cell_avail hmap hapart hlt n write).trans (congrArg (availCell · n) hmod)
  · cases write with
    | true => exact absurd h (hwrite rfl)
    | false =>
      rw [hsplit 2 h, windowCell, h]
      exact (cell_used hmap hapart hlt n).trans (congrArg (usedCell · n) hmod)
  · rw [hsplit 3 h, windowCell, h]
    exact (cell_buf hmap hapart hlt n write).trans (congrArg (bufCell · n) hmod)

end Window

/-! ### What `DQ_MAP` maps -/

section Map

variable {μ : Type} {mapTo : MapTo μ} (hmapTo : mapTo.Lawful) (p : Platform μ)
  (d : Fin maxDomains)

include hmapTo

/-- **The loop of `devqueue_map`**, if it gets to its end: its pages are mapped to their frames, and
the other pages of the window as before. -/
theorem translate_mapPages (pages : List (BitVec 64 × BitVec 64 × Bool × Bool))
    {k : Kernel (Paged μ)} (hnodup : (pages.map Prod.fst).Nodup)
    (hgrant : ∀ va ∈ pages.map Prod.fst, va ∈ grantVas)
    (hok : (Kernel.mapPages (p.paged mapTo) d pages k).1 = true) :
    (∀ page ∈ pages,
      translate (pageIndex page.1) 3 (Kernel.mapPages (p.paged mapTo) d pages k).2.machine.tables
        = some ⟨pageStart page.2.1, page.2.2.1, true, page.2.2.2⟩) ∧
      ∀ va ∈ grantVas, va ∉ pages.map Prod.fst →
        translate (pageIndex va) 3 (Kernel.mapPages (p.paged mapTo) d pages k).2.machine.tables
          = translate (pageIndex va) 3 k.machine.tables := by
  induction pages generalizing k with
  | nil => exact ⟨by simp, fun _ _ _ => rfl⟩
  | cons page pages ih =>
    obtain ⟨va, phys, writable, nc⟩ := page
    rw [List.map_cons] at hnodup hgrant
    obtain ⟨hva, hnodup'⟩ := List.nodup_cons.mp hnodup
    have htr := Paged.translate_mapUserPhys hmapTo p va phys writable false nc k.machine
    rcases hstep : Paged.mapUserPhys mapTo p va phys writable false nc k.machine with ⟨b, m⟩
    rw [hstep] at htr
    have hstep' : (p.paged mapTo).mapUserPhys va phys writable false nc k.machine = (b, m) := hstep
    rw [Kernel.mapPages, hstep'] at hok ⊢
    cases b with
    | false => cases hok
    | true =>
      obtain ⟨hpages, hothers⟩ := ih hnodup' (fun v hv => hgrant v (List.mem_cons_of_mem _ hv)) hok
      have hmachine : ({ k with machine := m }.recordDomainMap d va).machine = m := rfl
      rw [hmachine] at hothers
      refine ⟨fun page hpage => ?_, fun v hv hnot => ?_⟩
      · rcases List.mem_cons.mp hpage with rfl | hpage
        · rw [hothers va (hgrant va (List.mem_cons_self ..)) hva, htr va,
            if_pos ⟨rfl, fun _ _ => rfl⟩]
          rfl
        · exact hpages page hpage
      · rw [List.map_cons, List.mem_cons, not_or] at hnot
        rw [hothers v hv hnot.2, htr v, if_neg]
        rintro ⟨-, hsame⟩
        exact hnot.1 ((samePage_iff (hgrant va (List.mem_cons_self ..)) hv).mp hsame).symm

/-- **After `DQ_MAP`** the frames of the queue are mapped. -/
theorem mapped_devqueueMap {k : Kernel (Paged μ)} {oid : Fin objectTableSize}
    (hok : (k.devqueueMap (p.paged mapTo) d oid).1.1 = .ok) :
    Mapped (k.devqueueMap (p.paged mapTo) d oid).2.machine.tables
      (k.devqueues oid).toDeviceQueueDesc := by
  rw [Kernel.devqueueMap, dif_pos oid.isLt] at hok ⊢
  dsimp only at hok ⊢
  split at hok
  · cases hok
  · rename_i hbuf
    rw [if_neg hbuf]
    rcases hmap : Kernel.mapPages (p.paged mapTo) d (Kernel.dqPages (k.devqueues oid)) k
      with ⟨b, k'⟩
    rw [hmap] at hok
    cases b with
    | false => cases hok
    | true =>
      have hpages := (translate_mapPages hmapTo p d (Kernel.dqPages (k.devqueues oid)) (k := k)
        nodup_dqVas (fun va hva => Owners.mem_grantVas.mpr (Or.inl hva)) (by rw [hmap])).1
      rw [hmap] at hpages
      simp only [Kernel.dqPages, List.forall_mem_cons] at hpages
      obtain ⟨hdesc, havail, hused, hbuf, hdoor, -⟩ := hpages
      exact ⟨hdesc, havail, hused, hbuf, hdoor⟩

end Map

/-! ### The frames of the queue -/

/-- `device_queue_desc` of the queue `init` sets up: the frames it allocates, the doorbell and the
size. -/
def initDesc (max : BitVec 16) (doorbellPhys : BitVec 64) (fa : FrameAllocator) :
    Option DeviceQueueDesc :=
  (allocRings fa).1.map fun r =>
    ⟨r.descPhys, r.availPhys, r.usedPhys, r.bufPhys, doorbellPhys, initQsize max⟩

theorem exists_of_allocRings {fa : FrameAllocator} {r : RingFrames}
    (h : (allocRings fa).1 = some r) :
    ∃ fa₁ fa₂ fa₃ fa₄, allocFrame fa = (some r.descPhys, fa₁) ∧
      allocFrame fa₁ = (some r.availPhys, fa₂) ∧ allocFrame fa₂ = (some r.usedPhys, fa₃) ∧
      allocFrame fa₃ = (some r.bufPhys, fa₄) := by
  rw [allocRings] at h
  split at h
  · cases h
  rename_i desc fa₁ hdesc
  split at h
  · cases h
  rename_i avail fa₂ havail
  split at h
  · cases h
  rename_i used fa₃ hused
  split at h
  · cases h
  rename_i buf fa₄ hbuf
  cases h
  exact ⟨fa₁, fa₂, fa₃, fa₄, hdesc, havail, hused, hbuf⟩

theorem exists_of_initDesc {max : BitVec 16} {doorbellPhys : BitVec 64} {fa : FrameAllocator}
    {g : DeviceQueueDesc} (h : initDesc max doorbellPhys fa = some g) :
    ∃ r, (allocRings fa).1 = some r ∧
      g = ⟨r.descPhys, r.availPhys, r.usedPhys, r.bufPhys, doorbellPhys, initQsize max⟩ := by
  obtain ⟨r, hr, rfl⟩ := Option.map_eq_some_iff.mp h
  exact ⟨r, hr, rfl⟩

/-- The address of a frame. -/
def frameAddr (f : ℕ) : BitVec 64 := BitVec.ofNat 64 (f * 4096)

theorem frameAddr_inj {f f' : ℕ} (hf : f < 2 ^ 52) (hf' : f' < 2 ^ 52)
    (h : frameAddr f = frameAddr f') : f = f' := by
  have hnat := congrArg BitVec.toNat h
  simp only [frameAddr, BitVec.toNat_ofNat] at hnat
  omega

theorem pageStart_frameAddr (f : ℕ) : pageStart (frameAddr f) = frameAddr f := by
  have hshift : frameAddr f = BitVec.ofNat 64 f <<< 12 := by
    apply BitVec.eq_of_toNat_eq
    simp only [frameAddr, BitVec.toNat_ofNat, BitVec.toNat_shiftLeft, Nat.shiftLeft_eq]
    omega
  rw [pageStart, hshift]
  refine BitVec.eq_of_getLsbD_eq fun i hi => ?_
  have hmask : (0xfff : BitVec 64).getLsbD i = decide (i < 12) := by
    have hbit := Nat.testBit_two_pow_sub_one 12 i
    rw [BitVec.ofNat_eq_ofNat, BitVec.getLsbD_ofNat]
    simpa [hi] using hbit
  rw [BitVec.getLsbD_and, BitVec.getLsbD_not, BitVec.getLsbD_shiftLeft, hmask]
  by_cases h : i < 12
  · simp [h]
  · simp [h, hi]

/-- A frame is taken from the free ones. -/
theorem allocFrame_some {fa fa' : FrameAllocator} {a : BitVec 64} (hgood : fa.Good (2 ^ 52))
    (h : allocFrame fa = (some a, fa')) :
    ∃ f ∈ fa.freeSet, a = frameAddr f ∧ fa'.freeSet = fa.freeSet.erase f ∧ fa'.Good (2 ^ 52) := by
  have htakes := FrameAllocator.takes_alloc (by decide) hgood
  have hgood' := hgood.alloc (by decide)
  rw [allocFrame] at h
  rcases hal : fa.alloc with ⟨r, fa₁⟩
  rw [hal] at h htakes hgood'
  cases r with
  | none => cases h
  | some f =>
    cases h
    dsimp only at htakes
    generalize fa'.freeSet = s at htakes ⊢
    cases htakes with
    | least mem _ => exact ⟨f, mem, rfl, rfl, hgood'⟩

/-- **The frames of the queue are different**, and none is the doorbell's if that is not memory. -/
theorem apart_initDesc {max : BitVec 16} {doorbellPhys : BitVec 64} {fa : FrameAllocator}
    {g : DeviceQueueDesc} (hgood : fa.Good (2 ^ 52))
    (hmmio : ∀ f ∈ fa.freeSet, pageStart doorbellPhys ≠ frameAddr f)
    (hdoor : (doorbellPhys &&& 0xfff).toNat + 2 ≤ 4096)
    (h : initDesc max doorbellPhys fa = some g) : Apart g := by
  obtain ⟨r, hr, rfl⟩ := exists_of_initDesc h
  obtain ⟨fa₁, fa₂, fa₃, fa₄, hdesc, havail, hused, hbuf⟩ := exists_of_allocRings hr
  obtain ⟨f₁, hf₁, hdesc, hfree₁, hgood₁⟩ := allocFrame_some hgood hdesc
  obtain ⟨f₂, hf₂, havail, hfree₂, hgood₂⟩ := allocFrame_some hgood₁ havail
  obtain ⟨f₃, hf₃, hused, hfree₃, hgood₃⟩ := allocFrame_some hgood₂ hused
  obtain ⟨f₄, hf₄, hbuf, -, -⟩ := allocFrame_some hgood₃ hbuf
  simp only [hfree₃, hfree₂, hfree₁, Finset.mem_erase] at hf₂ hf₃ hf₄
  have hinj : ∀ {f f' : ℕ}, f ∈ fa.freeSet → f' ∈ fa.freeSet → f' ≠ f →
      frameAddr f ≠ frameAddr f' := fun hf hf' hne heq =>
    hne (frameAddr_inj (hgood.bounded _ hf) (hgood.bounded _ hf') heq).symm
  refine ⟨?_, ?_, hdoor⟩
  · simp [hdesc, havail, hused, hbuf, pageStart_frameAddr]
  · rw [hdesc, havail, hused, hbuf]
    simp only [List.nodup_cons, List.mem_cons, List.not_mem_nil, or_false, not_or, List.nodup_nil,
      not_false_eq_true, and_true]
    exact ⟨⟨hinj hf₁ hf₂.2 hf₂.1, hinj hf₁ hf₃.2.2 hf₃.2.1, hinj hf₁ hf₄.2.2.2 hf₄.2.2.1,
      (hmmio _ hf₁).symm⟩, ⟨hinj hf₂.2 hf₃.2.2 hf₃.1, hinj hf₂.2 hf₄.2.2.2 hf₄.2.1,
        (hmmio _ hf₂.2).symm⟩, ⟨hinj hf₃.2.2 hf₄.2.2.2 hf₄.1, (hmmio _ hf₃.2.2).symm⟩,
      (hmmio _ hf₄.2.2.2).symm⟩

/-! ### The layout of the queue -/

/-- The request is laid out in the buffer, and the size of the queue is that of the frames. -/
structure Laid (g : DeviceQueueDesc) (q : Queue) : Prop where
  hdr : q.mem.hdrPhys = g.bufPhys
  data : q.mem.dataPhys = g.bufPhys + 512
  status : q.mem.statusPhys = g.bufPhys + 1024
  qsize : q.qsize = g.qsize

theorem laid_init {devLo devHi : BitVec 32} {featuresOk : Bool} {max : BitVec 16}
    {fa : FrameAllocator} {disk : Device Sector} {q : Queue} {g : DeviceQueueDesc}
    {doorbellPhys : BitVec 64} (hinit : (init devLo devHi featuresOk max fa disk).1 = some q)
    (hdesc : initDesc max doorbellPhys fa = some g) : Laid g q ∧ 0 < g.qsize ∧ g.qsize ≤ 128 := by
  obtain ⟨r, hr, rfl⟩ := exists_of_initDesc hdesc
  rw [init] at hinit
  split at hinit
  · cases hinit
  split at hinit
  · cases hinit
  split at hinit
  · cases hinit
  rename_i hmax
  split at hinit
  · cases hinit
  rename_i r' fa' hr'
  rw [hr'] at hr
  cases hr
  cases hinit
  refine ⟨⟨rfl, rfl, rfl, rfl⟩, ?_⟩
  dsimp only
  rw [initQsize, maxQsize]
  split
  · rename_i hlt
    bv_omega
  · decide

/-! What the device and the calls of the driver leave alone. -/

theorem laid_stable (g : DeviceQueueDesc) : Stable move (Laid g) := by
  rintro e q ⟨hhdr, hdata, hstatus, hqsize⟩
  cases e with
  | fetch =>
    rw [move, Queue.fetch]
    split
    · exact ⟨hhdr, hdata, hstatus, hqsize⟩
    · split
      · exact ⟨hhdr, hdata, hstatus, hqsize⟩
      · exact ⟨hhdr, hdata, hstatus, hqsize⟩
  | serve status effect junk =>
    rw [move, Queue.serve]
    split
    · exact ⟨hhdr, hdata, hstatus, hqsize⟩
    · exact ⟨hhdr, hdata, hstatus, hqsize⟩
  | complete =>
    rw [move, Queue.complete]
    split
    · exact ⟨hhdr, hdata, hstatus, hqsize⟩
    · exact ⟨hhdr, hdata, hstatus, hqsize⟩

theorem keeps_poll {P : Queue → Prop} (target : BitVec 16) (n : ℕ) : (poll target n).Keeps P := by
  induction n with
  | zero => exact .bind .read fun _ => trivial
  | succ n ih => exact .bind .read fun _ => .ite (fun _ => trivial) fun _ => ih

theorem Laid.congr {g : DeviceQueueDesc} {q q' : Queue} (h : Laid g q)
    (hhdr : q'.mem.hdrPhys = q.mem.hdrPhys) (hdata : q'.mem.dataPhys = q.mem.dataPhys)
    (hstatus : q'.mem.statusPhys = q.mem.statusPhys) (hqsize : q'.qsize = q.qsize) : Laid g q' :=
  ⟨hhdr.trans h.hdr, hdata.trans h.data, hstatus.trans h.status, hqsize.trans h.qsize⟩

theorem keeps_writeMem {g : DeviceQueueDesc} {fs : List (RequestMem → RequestMem)}
    (hfs : ∀ f ∈ fs, ∀ m : RequestMem, (f m).hdrPhys = m.hdrPhys ∧ (f m).dataPhys = m.dataPhys ∧
      (f m).statusPhys = m.statusPhys) : (writeMem fs).Keeps (Laid g) := by
  refine .modifyAll fun f' hf' q hq => ?_
  obtain ⟨f, hf, rfl⟩ := List.mem_map.mp hf'
  obtain ⟨hhdr, hdata, hstatus⟩ := hfs f hf q.mem
  exact hq.congr hhdr hdata hstatus rfl

theorem keeps_submit (g : DeviceQueueDesc) (reqType : BitVec 32) (lba : BitVec 64)
    (hasData : Bool) : (submit reqType lba hasData).Keeps (Laid g) := by
  have hdesc : ∀ i d, ∀ f ∈ writeDescriptor i d, ∀ m : RequestMem, (f m).hdrPhys = m.hdrPhys ∧
      (f m).dataPhys = m.dataPhys ∧ (f m).statusPhys = m.statusPhys := by
    intro i d f hf m
    simp only [writeDescriptor, List.mem_cons, List.not_mem_nil, or_false] at hf
    rcases hf with rfl | rfl | rfl | rfl <;> exact ⟨rfl, rfl, rfl⟩
  refine .bind .read fun v => .ite (fun _ => trivial) fun _ => ?_
  refine .bind (keeps_writeMem ?_) fun _ => .bind (.modify fun q hq => hq.congr rfl rfl rfl rfl)
    fun _ => .bind (keeps_writeMem ?_) fun _ => .bind .read fun i =>
    .bind (.modify fun q hq => hq.congr rfl rfl rfl rfl) fun _ =>
    .bind (.modify fun q hq => hq.congr rfl rfl rfl rfl) fun _ => .bind (.modify fun q hq => hq)
    fun _ => .bind (keeps_poll _ _) fun b => .ite (fun _ => .bind .read fun _ => trivial)
    fun _ => .bind (.modify fun q hq => hq.congr rfl rfl rfl rfl) fun _ => trivial
  · intro f hf m
    simp only [writeHeader, List.mem_cons, List.not_mem_nil, or_false] at hf
    rcases hf with rfl | rfl | rfl <;> exact ⟨rfl, rfl, rfl⟩
  · intro f hf
    rw [writeChain, List.mem_append] at hf
    rcases hf with hf | hf
    · exact hdesc _ _ f hf
    · split at hf
      · rcases List.mem_append.mp hf with hf | hf
        · exact hdesc _ _ f hf
        · exact hdesc _ _ f hf
      · exact hdesc _ _ f hf

theorem keeps_call (g : DeviceQueueDesc) (c : Call) : c.prog.Keeps (Laid g) := by
  cases c with
  | read lba =>
    exact .bind (.bind (keeps_submit g _ _ _) fun _ =>
      .ite (fun _ => .bind .read fun _ => trivial) fun _ => trivial) fun _ => trivial
  | write lba src =>
    exact .bind (.bind .read fun _ => .ite (fun _ => trivial) fun _ =>
      .bind (.modify fun q hq => hq.congr rfl rfl rfl rfl) fun _ => keeps_submit g _ _ _)
      fun _ => trivial
  | flush =>
    exact .bind (.bind .read fun _ => .ite (fun _ => trivial) fun _ =>
      .ite (fun _ => trivial) fun _ => keeps_submit g _ _ _) fun _ => trivial

/-- **The queue stays where it is** in every run of calls. -/
theorem laid_after {g : DeviceQueueDesc} {q₀ : Queue} (h₀ : Laid g q₀) (h : List Turn) :
    Laid g (Runs.after Queue.step q₀ h) := by
  induction h with
  | nil => exact h₀
  | cons t h ih => exact Triple.of_keeps (laid_stable g) (keeps_call g t.1) t.2 _ ih

end Virtio

end Cairn
