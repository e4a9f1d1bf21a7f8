import Cairn.Objstore.Superblock

/-!
# The object store

`mount`, `put`, `extent_content_hash` and `recover` of `kernel/src/objstore.rs`, as programs on a
block device. The three statics of the source, the mounted superblock, the flag that it is valid
and the slot it lives in, are the state `Store`, which the programs take and return.

## Main definitions

* `Store` — the store's state in RAM
* `readSuperblock`, `writeSuperblock`, `mount`, `put`, `extentContentHash`, `recover`
-/

namespace Cairn

open Block

/-- `LBA_SB_A`. -/
def lbaSbA : BitVec 64 := 0

/-- `LBA_SB_B`. -/
def lbaSbB : BitVec 64 := 1

/-- `LBA_LOG_START`. -/
def lbaLogStart : BitVec 64 := 2

/-- `MOUNTED`, `MOUNTED_OK` and `MOUNTED_SLOT`. -/
structure Store where
  /-- The mounted superblock. -/
  mounted : Superblock
  /-- Whether a superblock is mounted. -/
  mountedOk : Bool
  /-- The slot that holds it. -/
  mountedSlot : BitVec 64
deriving DecidableEq, Repr

/-- The initial values of the statics. -/
def Store.boot : Store := ⟨⟨0, 0, 0, 0, 0⟩, false, lbaSbA⟩

/-- The location, length and content hash of a committed extent. -/
structure Extent where
  /-- Its first data sector. -/
  lba : BitVec 64
  /-- Its length in bytes. -/
  len : BitVec 32
  /-- Its content hash. -/
  hash : BitVec 64
deriving DecidableEq, Repr

/-- The root extent of a superblock. -/
def Superblock.root (sb : Superblock) : Extent := ⟨sb.rootLba, sb.rootLen, sb.rootHash⟩

/-- `write_superblock`: write the slot, then flush. -/
def writeSuperblock (slotLba : BitVec 64) (sb : Superblock) : Prog Sector Bool := do
  let written ← writeSector slotLba.toNat sb.encode
  if written then flush else return false

/-- `read_superblock`. -/
def readSuperblock (slotLba : BitVec 64) : Prog Sector SlotRead := do
  match ← readSector slotLba.toNat with
  | none => return .io
  | some s => return checkSuperblock s

/-- The superblock `mount` picks: the valid one with the higher `seq`, with its slot. -/
def pickSuperblock : SlotRead → SlotRead → Option (Superblock × BitVec 64)
  | .valid x, .valid y => some (if y.seq ≤ x.seq then (x, lbaSbA) else (y, lbaSbB))
  | .valid x, _ => some (x, lbaSbA)
  | _, .valid y => some (y, lbaSbB)
  | _, _ => none

/-- The superblock of a freshly formatted disk. -/
def Superblock.formatted : Superblock := ⟨1, lbaLogStart, 0, 0, 0⟩

/-- `mount`: adopt the better superblock; format only when both slots were read and neither is
valid. -/
def mount (st : Store) : Prog Sector Store := do
  let a ← readSuperblock lbaSbA
  let b ← readSuperblock lbaSbB
  match pickSuperblock a b with
  | some (sb, slot) => return ⟨sb, true, slot⟩
  | none =>
    if a = .invalid ∧ b = .invalid then
      let formatted ← writeSuperblock lbaSbA .formatted
      if formatted then return ⟨.formatted, true, lbaSbA⟩ else return st
    else return st

/-- The data loop of `put`: `todo` more sectors, `s` of them and `written` bytes already done. -/
def writeData (dataLba : BitVec 64) (bytes : List Byte) : ℕ → ℕ → ℕ → Prog Sector Bool
  | 0, _, _ => return true
  | todo + 1, s, written => do
    let remaining := bytes.length - written
    let n := if 512 ≤ remaining then 512 else remaining
    let ok ← writeSector (dataLba + BitVec.ofNat 64 s).toNat
      (.ofBytes ((bytes.drop written).take n))
    if ok then writeData dataLba bytes todo (s + 1) (written + n) else return false

/-- The superblock that commits `bytes` on top of `cur`. -/
def Superblock.commit (cur : Superblock) (bytes : List Byte) : Superblock where
  seq := cur.seq + 1
  logHeadLba := cur.logHeadLba + BitVec.ofNat 64 (ndata bytes.length) + 1
  rootLba := cur.logHeadLba
  rootLen := BitVec.ofNat 32 bytes.length
  rootHash := fnv1a bytes

/-- The slot that is not `slot`. -/
def otherSlot (slot : BitVec 64) : BitVec 64 := if slot = lbaSbA then lbaSbB else lbaSbA

/-- The slot a commit writes is sector `0` or `1`. -/
theorem otherSlot_lt_two (slot : BitVec 64) : (otherSlot slot).toNat < 2 := by
  rw [otherSlot]
  split <;> decide

/-- Sector numbers add up as long as they fit. -/
theorem toNat_lba_add {lba : BitVec 64} {i : ℕ} (h : lba.toNat + i < 2 ^ 64) :
    (lba + BitVec.ofNat 64 i).toNat = lba.toNat + i := by
  rw [BitVec.toNat_add, BitVec.toNat_ofNat, Nat.mod_eq_of_lt (a := i) (by omega),
    Nat.mod_eq_of_lt h]

/-- `put`: data sectors, record header, flush, superblock in the other slot, flush. Any failure
before the end answers nothing and leaves the store as it is. -/
def put (st : Store) (bytes : List Byte) : Prog Sector (Option Extent × Store) := do
  if st.mountedOk = false then return (none, st)
  else if 2 ^ 32 ≤ bytes.length then return (none, st)
  else
    let cur := st.mounted
    let dataLba := cur.logHeadLba
    if ← writeData dataLba bytes (ndata bytes.length) 0 0 then
      let hdrLba := dataLba + BitVec.ofNat 64 (ndata bytes.length)
      if ← writeSector hdrLba.toNat
          (recordHeader (BitVec.ofNat 32 bytes.length) (fnv1a bytes) cur.rootLba) then
        if ← flush then
          let newSb := cur.commit bytes
          let other := otherSlot st.mountedSlot
          if ← writeSuperblock other newSb then
            return (some ⟨dataLba, BitVec.ofNat 32 bytes.length, fnv1a bytes⟩,
              { st with mounted := newSb, mountedSlot := other })
          else return (none, st)
        else return (none, st)
      else return (none, st)
    else return (none, st)

/-- The loop of `extent_content_hash`: `todo` more sectors, `s` of them and `consumed` bytes
already hashed into `h`. -/
def hashExtent (lba : BitVec 64) (len : ℕ) :
    ℕ → ℕ → ℕ → BitVec 64 → Prog Sector (Option (BitVec 64))
  | 0, _, _, h => return some h
  | todo + 1, s, consumed, h => do
    match ← readSector (lba + BitVec.ofNat 64 s).toNat with
    | none => return none
    | some sect =>
      let remaining := len - consumed
      let n := if 512 ≤ remaining then 512 else remaining
      hashExtent lba len todo (s + 1) (consumed + n) (fnv1aStep h (sect.take n))

/-- `extent_content_hash`: the hash of an extent as it is on disk. -/
def extentContentHash (lba : BitVec 64) (len : BitVec 32) : Prog Sector (Option (BitVec 64)) :=
  hashExtent lba len.toNat (ndata len.toNat) 0 0 fnv1aBasis

/-- `recover`: the mounted root, if it is not empty and its bytes still have its hash. -/
def recover (st : Store) : Prog Sector (Option Extent) := do
  if st.mountedOk = false ∨ st.mounted.rootLen = 0 then return none
  else
    match ← extentContentHash st.mounted.rootLba st.mounted.rootLen with
    | some h => if h = st.mounted.rootHash then return some st.mounted.root else return none
    | none => return none

end Cairn
