import Cairn.Objstore.ReadError
import Mathlib

/-!
# The record headers chain the committed extents

Behind the data sectors of an extent `put` writes a record header that names the extent's length
and hash and points back to the root it was committed on. No code of `kernel/src/objstore.rs` reads
a header, so what they say is a matter of the layout alone: `RecordChain` walks it forward, from a
first sector over one extent and its header after the other.

A device that holds a list of byte strings shows such a chain over its extents
(`Stored.recordChain`). Since every run commits a list, so does every mounted state of a run; the
half-written records of interrupted commits lie behind the log head and are overwritten.

## Main definitions

* `IsRecordHeader` — a sector read as a record header
* `RecordChain` — extents and headers that follow each other and point back

## Main results

* `recordChain_of_mounted` — the chain of every mounted state
-/

namespace Cairn

open Block

/-- The sector reads as the record header of an extent committed on top of the root at `prev`. -/
structure IsRecordHeader (s : Sector) (e : Extent) (prev : BitVec 64) : Prop where
  /-- `REC_MAGIC`. -/
  magic : s.rdU64 0 = recMagic
  /-- The length of the extent. -/
  len : s.rdU32 8 = e.len
  /-- Its content hash. -/
  hash : s.rdU64 16 = e.hash
  /-- The root before it. -/
  prev_lba : s.rdU64 24 = prev
  /-- The header's own hash. -/
  hdr_hash : s.rdU64 32 = fnv1a (s.take 32)

/-- **A written record header is read back.** -/
theorem isRecordHeader_recordHeader (e : Extent) (prev : BitVec 64) :
    IsRecordHeader (recordHeader e.len e.hash prev) e prev where
  magic := by
    simp only [recordHeader, recordHeaderBody, Sector.wrU64, Sector.wrU32, Sector.rdU64]
    repeat rw [Sector.rd_wr_of_disjoint _ _ _ _ _ _ (by decide) (by decide)]
    exact Sector.rd_wr_self _ 0 8 _ rfl (by decide)
  len := by
    simp only [recordHeader, recordHeaderBody, Sector.wrU64, Sector.wrU32, Sector.rdU32]
    repeat rw [Sector.rd_wr_of_disjoint _ _ _ _ _ _ (by decide) (by decide)]
    exact Sector.rd_wr_self _ 8 4 _ rfl (by decide)
  hash := by
    simp only [recordHeader, recordHeaderBody, Sector.wrU64, Sector.wrU32, Sector.rdU64]
    repeat rw [Sector.rd_wr_of_disjoint _ _ _ _ _ _ (by decide) (by decide)]
    exact Sector.rd_wr_self _ 16 8 _ rfl (by decide)
  prev_lba := by
    simp only [recordHeader, recordHeaderBody, Sector.wrU64, Sector.rdU64]
    rw [Sector.rd_wr_of_disjoint _ _ _ _ _ _ (by decide) (by decide)]
    exact Sector.rd_wr_self _ 24 8 _ rfl (by decide)
  hdr_hash := by
    rw [recordHeader, Sector.wrU64, Sector.take_wr _ _ _ _ (Nat.le_refl 32) (by decide)]
    exact Sector.rd_wr_self _ 32 8 _ rfl (by decide)

/-- The sectors of an extent: its data and its record header. -/
def Extent.sectors (e : Extent) : Set ℕ :=
  Set.Icc e.lba.toNat (e.lba.toNat + ndata e.len.toNat)

/-- The extents follow each other from sector `start` to sector `stop`, and the header behind each
points back to the one before it, the first to `prev`. -/
def RecordChain (medium : ℕ → Sector) (prev : BitVec 64) (start : ℕ) :
    List Extent → ℕ → Prop
  | [], stop => start = stop
  | e :: es, stop =>
    e.lba.toNat = start ∧ IsRecordHeader (medium (start + ndata e.len.toNat)) e prev ∧
      RecordChain medium e.lba (start + ndata e.len.toNat + 1) es stop

namespace RecordChain

variable {medium : ℕ → Sector} {es : List Extent} {stop : ℕ}

theorem le_lba {prev : BitVec 64} {start : ℕ} (h : RecordChain medium prev start es stop) :
    ∀ e ∈ es, start ≤ e.lba.toNat := by
  induction es generalizing prev start with
  | nil => simp
  | cons e es ih =>
    obtain ⟨hlba, -, hrest⟩ := h
    intro e' he'
    rcases List.mem_cons.mp he' with rfl | he'
    · exact hlba.ge
    · have := ih hrest e' he'
      omega

/-- The extents of a chain do not overlap. -/
theorem pairwise_disjoint {prev : BitVec 64} {start : ℕ}
    (h : RecordChain medium prev start es stop) :
    es.Pairwise fun e e' => Disjoint e.sectors e'.sectors := by
  induction es generalizing prev start with
  | nil => exact List.Pairwise.nil
  | cons e es ih =>
    obtain ⟨hlba, -, hrest⟩ := h
    refine List.Pairwise.cons (fun e' he' => ?_) (ih hrest)
    have hle := hrest.le_lba e' he'
    refine Set.disjoint_left.mpr fun x hx hx' => ?_
    have h1 : x ≤ e.lba.toNat + ndata e.len.toNat := hx.2
    have h2 : e'.lba.toNat ≤ x := hx'.1
    omega

/-- A chain lies below its last sector. -/
theorem start_le {prev : BitVec 64} {start : ℕ} (h : RecordChain medium prev start es stop) :
    start ≤ stop := by
  induction es generalizing prev start with
  | nil => exact h.le
  | cons e es ih =>
    have := ih h.2.2
    omega

/-- A chain depends only on the sectors below its last one. -/
theorem congr {prev : BitVec 64} {start : ℕ} (h : RecordChain medium prev start es stop)
    {medium' : ℕ → Sector} (heq : ∀ x < stop, medium' x = medium x) :
    RecordChain medium' prev start es stop := by
  induction es generalizing prev start with
  | nil => exact h
  | cons e es ih =>
    obtain ⟨hlba, hhdr, hrest⟩ := h
    have hle := hrest.start_le
    refine ⟨hlba, ?_, ih hrest⟩
    rw [heq _ (by omega)]
    exact hhdr

end RecordChain

theorem Fits.toNat_len {pre rest : List (List Byte)} {b : List Byte}
    (h : Fits (pre ++ b :: rest)) : (extentOf pre b).len.toNat = b.length := by
  rw [extentOf, BitVec.toNat_ofNat, Nat.mod_eq_of_lt (h.len b (by simp))]

/-- **A medium that shows a list chains its extents**, those on top of any older part of it from
the log head of that part on. -/
theorem Stored.recordChain {medium : ℕ → Sector} (pre rest : List (List Byte))
    (hfits : Fits (pre ++ rest)) (hstored : Stored (pre ++ rest) medium) :
    RecordChain medium (sbOf pre).rootLba (logHead pre) ((extentsOn pre rest).map Prod.fst)
      (logHead (pre ++ rest)) := by
  induction rest generalizing pre with
  | nil => exact congrArg logHead (List.append_nil pre).symm
  | cons b rest ih =>
    have hsplit : pre ++ b :: rest = (pre ++ [b]) ++ rest := by simp
    have hlen := hfits.toNat_len
    refine ⟨hfits.of_append.toNat_logHead, ?_, ?_⟩
    · rw [hlen, (hstored pre b rest rfl).2]
      exact isRecordHeader_recordHeader (extentOf pre b) _
    · have hroot : (sbOf (pre ++ [b])).rootLba = (extentOf pre b).lba :=
        congrArg Extent.lba (root_sbOf_append pre b)
      rw [hlen, ← logHead_append, ← hroot, hsplit]
      rw [hsplit] at hfits hstored
      exact ih (pre ++ [b]) hfits hstored

/-- **The record headers chain all committed extents.** In every mounted state of every run from
a blank disk, the extents committed so far follow each other from sector `2` up to the mounted log
head, each with the header that names it behind it and points back to the extent before, the first
to `0`; this is on the medium as well as in what a read returns. No two of them share a sector. The
mounted superblock counts them, and its root is the last. -/
theorem recordChain_of_mounted {d₀ : Device Sector} (hblank : Blank d₀) {h : List StoreOp}
    (hrun : Runs.Every Machine.step ⟨d₀, none⟩ Allowed h) {st : Store}
    (hst : (machineAfter d₀ h).store = some st) :
    RecordChain (machineAfter d₀ h).disk.durable 0 2 ((committed d₀ h).map Prod.fst)
        st.mounted.logHeadLba.toNat ∧
      RecordChain (machineAfter d₀ h).disk.view 0 2 ((committed d₀ h).map Prod.fst)
        st.mounted.logHeadLba.toNat ∧
      ((committed d₀ h).map Prod.fst).Pairwise (fun e e' => Disjoint e.sectors e'.sectors) ∧
      st.mounted.seq.toNat = (committed d₀ h).length + 1 ∧
      ∀ p, (committed d₀ h).getLast? = some p → st.mounted.root = p.1 := by
  obtain ⟨recs, hc⟩ := exists_commits hblank hrun
  obtain ⟨hholds, rfl⟩ := (hc.fate.reflects hst).2.of_store hst
  have hchain := Stored.recordChain [] recs hholds.fits hholds.stored
  have hhead : (storeOf recs).mounted.logHeadLba.toNat = logHead recs := hholds.fits.toNat_logHead
  rw [hc.committed_eq, hhead]
  refine ⟨hchain, hchain.congr fun x hx => hholds.view_eq hx, hchain.pairwise_disjoint, ?_, ?_⟩
  · rw [length_extentsOn]
    exact hholds.fits.toNat_seq
  · intro p hp
    rw [getLast?_extentsOn] at hp
    rcases List.eq_nil_or_concat recs with rfl | ⟨init, b, hrecs⟩
    · cases hp
    · rw [List.concat_eq_append] at hrecs
      rw [hrecs, lastExtent_append] at hp
      cases hp
      rw [hrecs]
      exact root_sbOf_append init b

/-- One commit on a fresh disk: the extent is sector `2`, its header sector `3`. -/
theorem recordChain_of_mounted_one_put :
    (machineAfter zeroDisk [.put [1], .boot]).store = some (storeOf [[1]]) ∧
      committed zeroDisk [.put [1], .boot] = [(extentOf [] [1], [1])] ∧
      RecordChain (machineAfter zeroDisk [.put [1], .boot]).disk.durable 0 2 [extentOf [] [1]]
        4 := by
  obtain ⟨hrun, -, -, hst, -⟩ := one_put_zeroDisk
  have hans : ((machineAfter zeroDisk [.boot]).put [] [1]).1 = some (extentOf [] [1]) := by
    have hroom : Room (storeOf []) [1] := by decide
    rcases reflects_boot_zeroDisk.put boot_zeroDisk.2 hroom with ⟨-, -, hlong⟩ | ⟨hsome, -, -⟩
    · exact absurd hlong (by decide)
    · exact hsome
  have hcomm : committed zeroDisk [.put [1], .boot] = [(extentOf [] [1], [1])] := by
    simp only [committed, hans, pending, List.nil_append]
  have hchain := (recordChain_of_mounted blank_zeroDisk hrun hst).1
  rw [hcomm] at hchain
  exact ⟨hst, hcomm, hchain⟩

end Cairn
