import Mathlib.Data.BitVec
import Cairn.Internal.BlockDevice

/-!
# Sectors, hashes and superblocks of the object store

The byte layouts of `kernel/src/objstore.rs`: little-endian words inside a 512-byte sector, the
FNV-1a content hash, the superblock with its own hash, and the check a slot has to pass on mount.

Writing a word and reading words is related once and for all by `rd_wr_self` and
`rd_wr_of_disjoint`; `checkSuperblock_encode` follows, that a written superblock is read back. Each
step of the hash is injective in the running value (`fnv1aStep_injective`), so changing the first
byte of a string changes its hash.

## Main definitions

* `Sector`, `Sector.wr`, `Sector.rd` — sectors and the words in them
* `fnv1aStep`, `fnv1a` — the content hash
* `Superblock`, `Superblock.encode`, `checkSuperblock` — a slot on disk
* `recordHeader` — the record header behind the data sectors of an extent

## Main results

* `checkSuperblock_encode` — reading back a written superblock
* `fnv1a_cons_ne` — a different first byte, a different hash
-/

namespace Cairn

/-- A byte. -/
abbrev Byte := BitVec 8

/-- A 512-byte sector. -/
abbrev Sector := Fin 512 → Byte

/-! ### Words in a sector -/

namespace Sector

/-- The byte at offset `i`. -/
def byte (s : Sector) (i : ℕ) : Byte := if h : i < 512 then s ⟨i, h⟩ else 0

/-- The sector of zeros. -/
def zero : Sector := fun _ => 0

/-- Assign one byte. -/
def set (s : Sector) (i : ℕ) (b : Byte) : Sector := fun j => if (j : ℕ) = i then b else s j

/-- The bytes before offset `n`. -/
def take (s : Sector) (n : ℕ) : List Byte := (List.range n).map s.byte

/-- The loop of `wr_u64` and `wr_u32`: the `n` low bytes of `v`, the lowest first, from offset
`o` on. -/
def wr {w : ℕ} (v : BitVec w) (o : ℕ) : ℕ → Sector → Sector
  | 0, s => s
  | i + 1, s => (wr v o i s).set (o + i) ((v >>> (i * 8)).setWidth 8)

/-- The loop of `rd_u64` and `rd_u32`. -/
def rd (w : ℕ) (s : Sector) (o : ℕ) : ℕ → BitVec w
  | 0 => 0
  | i + 1 => rd w s o i ||| (s.byte (o + i)).setWidth w <<< (i * 8)

/-- `wr_u64`. -/
def wrU64 (s : Sector) (o : ℕ) (v : BitVec 64) : Sector := wr v o 8 s

/-- `wr_u32`. -/
def wrU32 (s : Sector) (o : ℕ) (v : BitVec 32) : Sector := wr v o 4 s

/-- `rd_u64`. -/
def rdU64 (s : Sector) (o : ℕ) : BitVec 64 := rd 64 s o 8

/-- `rd_u32`. -/
def rdU32 (s : Sector) (o : ℕ) : BitVec 32 := rd 32 s o 4

theorem byte_set (s : Sector) (i : ℕ) (b : Byte) {j : ℕ} (hj : j < 512) :
    (s.set i b).byte j = if j = i then b else s.byte j := by
  simp [byte, set, hj]

theorem byte_wr {w : ℕ} (v : BitVec w) (o n : ℕ) (s : Sector) {j : ℕ} (hj : j < 512) :
    (wr v o n s).byte j
      = if o ≤ j ∧ j < o + n then (v >>> ((j - o) * 8)).setWidth 8 else s.byte j := by
  induction n with
  | zero => rw [wr, if_neg (by omega)]
  | succ n ih =>
    rw [wr, byte_set _ _ _ hj, ih]
    by_cases h : j = o + n
    · rw [if_pos h, if_pos (by omega), h, Nat.add_sub_cancel_left]
    · rw [if_neg h]
      exact if_congr (by omega) rfl rfl

theorem getLsbD_rd (w : ℕ) (s : Sector) (o n : ℕ) {j : ℕ} (hj : j < w) :
    (rd w s o n).getLsbD j
      = (decide (j < n * 8) && (s.byte (o + j / 8)).getLsbD (j % 8)) := by
  induction n with
  | zero => simp [rd]
  | succ n ih =>
    rw [rd, BitVec.getLsbD_or, ih, BitVec.getLsbD_shiftLeft, BitVec.getLsbD_setWidth]
    rcases Nat.lt_trichotomy (j / 8) n with h | h | h
    · -- an earlier byte
      have h1 : j < n * 8 := by omega
      have h2 : j < (n + 1) * 8 := by omega
      simp [h1, h2]
    · -- the byte of this round
      have h1 : ¬ j < n * 8 := by omega
      have h2 : j < (n + 1) * 8 := by omega
      have h3 : j - n * 8 = j % 8 := by omega
      have h4 : j % 8 < w := by omega
      simp [h1, h2, h3, h4, hj, h]
    · -- a later byte
      have h1 : ¬ j < n * 8 := by omega
      have h2 : ¬ j < (n + 1) * 8 := by omega
      have h3 : 8 ≤ j - n * 8 := by omega
      simp [h1, h2, BitVec.getLsbD_of_ge _ _ h3]

/-- Reading the word just written. -/
theorem rd_wr_self {w : ℕ} (v : BitVec w) (o n : ℕ) (s : Sector) (hw : w = n * 8)
    (ho : o + n ≤ 512) : rd w (wr v o n s) o n = v := by
  refine BitVec.eq_of_getLsbD_eq fun j hj => ?_
  have hdiv : j / 8 < n := by omega
  have hbit : j / 8 * 8 + j % 8 = j := by omega
  have hmod : j % 8 < 8 := by omega
  rw [getLsbD_rd _ _ _ _ hj, byte_wr _ _ _ _ (by omega), if_pos (by omega),
    Nat.add_sub_cancel_left, BitVec.getLsbD_setWidth, BitVec.getLsbD_ushiftRight, hbit]
  simp [hmod, hw ▸ hj]

/-- Reading a word beside the one written. -/
theorem rd_wr_of_disjoint {w w' : ℕ} (v : BitVec w') (o n o' n' : ℕ) (s : Sector)
    (hdis : o + n ≤ o' ∨ o' + n' ≤ o) (ho : o + n ≤ 512) :
    rd w (wr v o' n' s) o n = rd w s o n := by
  induction n with
  | zero => rfl
  | succ n ih =>
    rw [rd, rd, ih (by omega) (by omega), byte_wr _ _ _ _ (by omega), if_neg (by omega)]

theorem take_wr {w : ℕ} (v : BitVec w) (o m : ℕ) (s : Sector) {n : ℕ} (hn : n ≤ o)
    (ho : n ≤ 512) : (wr v o m s).take n = s.take n := by
  refine List.map_congr_left fun i hi => ?_
  have hi := List.mem_range.mp hi
  rw [byte_wr _ _ _ _ (by omega), if_neg (by omega)]

@[simp] theorem length_take (s : Sector) (n : ℕ) : (s.take n).length = n := by simp [take]

end Sector

/-! ### The content hash -/

/-- `FNV1A_BASIS`. -/
def fnv1aBasis : BitVec 64 := 0xcbf29ce484222325#64

/-- The FNV-1a prime. -/
def fnv1aPrime : BitVec 64 := 0x00000100000001b3#64

/-- `fnv1a_step`: fold bytes into a running hash. -/
def fnv1aStep (h : BitVec 64) (data : List Byte) : BitVec 64 :=
  data.foldl (fun h b => (h ^^^ b.setWidth 64) * fnv1aPrime) h

/-- `fnv1a`. -/
def fnv1a (data : List Byte) : BitVec 64 := fnv1aStep fnv1aBasis data

theorem fnv1aStep_append (h : BitVec 64) (xs ys : List Byte) :
    fnv1aStep h (xs ++ ys) = fnv1aStep (fnv1aStep h xs) ys := List.foldl_append

/-- The prime is odd, so multiplying by it loses nothing. -/
theorem mul_fnv1aPrime_injective : Function.Injective fun h : BitVec 64 => h * fnv1aPrime := by
  have hinv : fnv1aPrime * 0xce965057aff6957b#64 = 1#64 := by decide
  intro x y hxy
  have h := congrArg (· * 0xce965057aff6957b#64) hxy
  simpa only [BitVec.mul_assoc, hinv, BitVec.mul_one] using h

/-- The running value determines the hash one to one. -/
theorem fnv1aStep_injective (data : List Byte) :
    Function.Injective fun h => fnv1aStep h data := by
  induction data with
  | nil => exact fun _ _ h => h
  | cons b data ih =>
    intro x y hxy
    have h := mul_fnv1aPrime_injective (ih hxy)
    simpa using congrArg (· ^^^ b.setWidth 64) h

/-- A different first byte, a different hash. -/
theorem fnv1a_cons_ne {a b : Byte} (hab : a ≠ b) (data : List Byte) :
    fnv1a (a :: data) ≠ fnv1a (b :: data) := by
  intro h
  have h := mul_fnv1aPrime_injective (fnv1aStep_injective data h)
  have h : a.setWidth 64 = b.setWidth 64 := by
    simpa using congrArg (fnv1aBasis ^^^ ·) h
  refine hab (BitVec.eq_of_toNat_eq ?_)
  have := congrArg BitVec.toNat h
  simp only [BitVec.toNat_setWidth] at this
  omega

/-! ### Superblocks -/

/-- `SB_MAGIC`. -/
def sbMagic : BitVec 64 := 0x436169726E4C67#64

/-- `SB_VERSION`. -/
def sbVersion : BitVec 32 := 1

/-- The five fields of a superblock, in RAM. -/
structure Superblock where
  /-- The commit counter. -/
  seq : BitVec 64
  /-- The next free log sector. -/
  logHeadLba : BitVec 64
  /-- The first data sector of the root extent. -/
  rootLba : BitVec 64
  /-- The length of the root extent in bytes. -/
  rootLen : BitVec 32
  /-- The content hash of the root extent. -/
  rootHash : BitVec 64
deriving DecidableEq, Repr

/-- The sector before its own hash is written into it. -/
def Superblock.body (sb : Superblock) : Sector :=
  ((((((Sector.zero.wrU64 0 sbMagic).wrU32 8 sbVersion).wrU64 16 sb.seq).wrU64 24
    sb.logHeadLba).wrU64 32 sb.rootLba).wrU32 40 sb.rootLen).wrU64 48 sb.rootHash

/-- The sector `write_superblock` writes. -/
def Superblock.encode (sb : Superblock) : Sector := sb.body.wrU64 56 (fnv1a (sb.body.take 56))

/-- `SlotRead`: what reading a slot says about it. -/
inductive SlotRead
  /-- The device could not read it: its contents are unknown. -/
  | io
  /-- It was read, but the magic or the hash is wrong. -/
  | invalid
  /-- It holds a superblock. -/
  | valid (sb : Superblock)
deriving DecidableEq, Repr

/-- The check of `read_superblock` on a sector that was read. -/
def checkSuperblock (s : Sector) : SlotRead :=
  if s.rdU64 0 ≠ sbMagic then .invalid
  else if fnv1a (s.take 56) ≠ s.rdU64 56 then .invalid
  else .valid
    { seq := s.rdU64 16
      logHeadLba := s.rdU64 24
      rootLba := s.rdU64 32
      rootLen := s.rdU32 40
      rootHash := s.rdU64 48 }

/-- **A written superblock is read back.** -/
theorem checkSuperblock_encode (sb : Superblock) : checkSuperblock sb.encode = .valid sb := by
  have hhash : fnv1a (sb.encode.take 56) = sb.encode.rdU64 56 := by
    rw [Superblock.encode, Sector.wrU64, Sector.take_wr _ _ _ _ (Nat.le_refl 56) (by decide)]
    exact (Sector.rd_wr_self _ 56 8 _ rfl (by decide)).symm
  have hmagic : sb.encode.rdU64 0 = sbMagic := by
    simp only [Superblock.encode, Superblock.body, Sector.wrU64, Sector.wrU32, Sector.rdU64]
    repeat rw [Sector.rd_wr_of_disjoint _ _ _ _ _ _ (by decide) (by decide)]
    exact Sector.rd_wr_self _ 0 8 _ rfl (by decide)
  rw [checkSuperblock, if_neg (not_not.mpr hmagic), if_neg (not_not.mpr hhash)]
  congr 1
  simp only [Superblock.encode, Superblock.body, Sector.wrU64, Sector.wrU32, Sector.rdU64,
    Sector.rdU32]
  cases sb
  simp [Sector.rd_wr_of_disjoint, Sector.rd_wr_self]

/-! ### Extents -/

/-- `REC_MAGIC`. -/
def recMagic : BitVec 64 := 0x436169726E5265#64

/-- The record header before its own hash is written into it. -/
def recordHeaderBody (len : BitVec 32) (hash prev : BitVec 64) : Sector :=
  (((Sector.zero.wrU64 0 recMagic).wrU32 8 len).wrU64 16 hash).wrU64 24 prev

/-- The record header `put` writes behind the data sectors. -/
def recordHeader (len : BitVec 32) (hash prev : BitVec 64) : Sector :=
  (recordHeaderBody len hash prev).wrU64 32 (fnv1a ((recordHeaderBody len hash prev).take 32))

/-- A zeroed sector with bytes copied to its front. -/
def Sector.ofBytes (bytes : List Byte) : Sector := fun j => bytes.getD j 0

/-- The number of data sectors of an extent. -/
def ndata (len : ℕ) : ℕ := (len + 511) / 512

/-- Data sector `i` of an extent. -/
def chunk (bytes : List Byte) (i : ℕ) : Sector := .ofBytes ((bytes.drop (i * 512)).take 512)

/-- The first `len` bytes on a medium from sector `lba` on. -/
def bytesAt (medium : ℕ → Sector) (lba len : ℕ) : List Byte :=
  (List.range len).map fun j => (medium (lba + j / 512)).byte (j % 512)

theorem byte_chunk (bytes : List Byte) (i : ℕ) {j : ℕ} (hj : j < 512) :
    (chunk bytes i).byte j = bytes.getD (i * 512 + j) 0 := by
  simp [chunk, Sector.ofBytes, Sector.byte, hj, List.getD_eq_getElem?_getD]

/-- The data sectors of an extent hold its bytes. -/
theorem bytesAt_eq {medium : ℕ → Sector} {lba : ℕ} {bytes : List Byte}
    (h : ∀ i < ndata bytes.length, medium (lba + i) = chunk bytes i) :
    bytesAt medium lba bytes.length = bytes := by
  refine List.ext_getElem (by simp [bytesAt]) fun j hj hj' => ?_
  have hlt : j / 512 < ndata bytes.length := by
    rw [ndata]
    omega
  have hsum : j / 512 * 512 + j % 512 = j := by omega
  simp only [bytesAt, List.getElem_map, List.getElem_range]
  rw [h _ hlt, byte_chunk _ _ (Nat.mod_lt _ (by decide)), hsum]
  simp [hj']

end Cairn
