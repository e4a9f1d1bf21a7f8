import Cairn.FrameAlloc.RangeList
import Cairn.Internal.Interference
import Cairn.Objstore.Superblock

/-!
# The polled virtqueue

The block driver of `kernel/src/virtio_blk.rs` on its one queue, and the device at the other end.
The driver and the device share the rings, the descriptors and one request buffer. The driver's
functions are programs on that memory, one action for each access, and the device may move before
any of them; accesses are seen in the order they are made.

The device fetches published requests in ring order, carries each out once, and then counts it in
`used.idx`. It may have fetched several before it carries out the first, and every move may come
late or never. Which of the three stages a request has reached is the device's own affair; the
driver sees only the counter and the status byte.

The addresses of the rings and of the doorbell are not part of the state, nor are the entries of
the used ring: the driver never reads them. Discovery over PCI is left out.

## Main definitions

* `Queue` — the driver's state, the shared memory, the device and what has happened so far
* `RequestMem.request`, `Queue.fetch`, `Queue.serve`, `Queue.complete` — the device
* `submit`, `readSector`, `writeSector`, `flush` — the driver
* `init` — how a queue is set up
-/

namespace Cairn

namespace Virtio

open Shared (Prog)
open Block (Device)

/-! ### Constants -/

/-- `VIRTIO_F_VERSION_1_HI`. -/
def fVersion1Hi : BitVec 32 := 1

/-- `VIRTIO_BLK_F_FLUSH_BIT`. -/
def blkFFlush : BitVec 32 := 512

/-- `VIRTQ_DESC_F_NEXT`. -/
def descFNext : BitVec 16 := 1

/-- `VIRTQ_DESC_F_WRITE`. -/
def descFWrite : BitVec 16 := 2

/-- `VIRTIO_BLK_T_IN`: a read. -/
def blkTIn : BitVec 32 := 0

/-- `VIRTIO_BLK_T_OUT`: a write. -/
def blkTOut : BitVec 32 := 1

/-- `VIRTIO_BLK_T_FLUSH`. -/
def blkTFlush : BitVec 32 := 4

/-- `QSIZE`: the largest queue the driver sets up. -/
def maxQsize : BitVec 16 := 128

/-- The rounds of the polling loop after the first. -/
def pollGuard : ℕ := 50000000

/-! ### The state -/

/-- A descriptor. -/
structure Descriptor where
  /-- The address of the buffer. -/
  addr : BitVec 64
  /-- Its length. -/
  len : BitVec 32
  /-- `VIRTQ_DESC_F_NEXT` and `VIRTQ_DESC_F_WRITE`. -/
  flags : BitVec 16
  /-- The next descriptor of the chain. -/
  next : BitVec 16
deriving DecidableEq, Repr

/-- The 16-byte request header. -/
structure ReqHeader where
  /-- The request type. -/
  type : BitVec 32
  /-- Reserved, zero. -/
  reserved : BitVec 32
  /-- The sector. -/
  sector : BitVec 64
deriving DecidableEq, Repr

/-- A request, as the device decodes it. -/
structure Request where
  /-- The request type. -/
  type : BitVec 32
  /-- The sector. -/
  sector : BitVec 64
  /-- Whether the chain has a data buffer. -/
  hasData : Bool
deriving DecidableEq, Repr

/-- A request the device has fetched, with its position among all it has fetched. -/
structure Job where
  /-- The number of requests fetched before it. -/
  serial : ℕ
  /-- The request. -/
  req : Request
deriving DecidableEq, Repr

/-- Where the driver lays out a request: the addresses of the three buffers, the header and the
descriptor table. -/
structure RequestMem where
  /-- `VBLK.hdr_phys`. -/
  hdrPhys : BitVec 64
  /-- `VBLK.data_phys`. -/
  dataPhys : BitVec 64
  /-- `VBLK.status_phys`. -/
  statusPhys : BitVec 64
  /-- The request header. -/
  hdr : ReqHeader
  /-- The descriptor table. -/
  desc : BitVec 16 → Descriptor

/-- The driver, the memory it shares with the device, and the device. -/
structure Queue where
  /-- `VBLK.present`. -/
  present : Bool
  /-- `VBLK.qsize`. -/
  qsize : BitVec 16
  /-- `VBLK.flush_ok`. -/
  flushOk : Bool
  -- the shared memory
  /-- The request. -/
  mem : RequestMem
  /-- The data buffer. -/
  data : Sector
  /-- The status byte. -/
  status : Byte
  /-- The entries of the avail ring. -/
  availRing : BitVec 16 → BitVec 16
  /-- `avail.idx`. -/
  availIdx : BitVec 16
  /-- `used.idx`. -/
  usedIdx : BitVec 16
  -- the device
  /-- The device's own index into the avail ring. -/
  lastAvail : BitVec 16
  /-- Fetched requests not carried out yet, oldest first. -/
  fetched : List Job
  /-- Requests carried out and not counted yet, oldest first. -/
  served : List Job
  /-- The sectors. -/
  disk : Device Sector
  -- what has happened
  /-- The requests the driver has published, latest first. -/
  published : List Request
  /-- The completions the device has counted, latest first. -/
  completed : List Job

/-! ### The device -/

namespace RequestMem

/-- The descriptors of a chain, at most `n` of them. -/
def chain (m : RequestMem) : ℕ → BitVec 16 → List Descriptor
  | 0, _ => []
  | n + 1, i =>
    if (m.desc i).flags &&& descFNext ≠ 0 then m.desc i :: chain m n (m.desc i).next
    else [m.desc i]

/-- The descriptor is of the request header, for the device to read. -/
def IsHeader (m : RequestMem) (d : Descriptor) : Prop :=
  d.addr = m.hdrPhys ∧ d.len = 16 ∧ d.flags &&& descFWrite = 0

/-- The descriptor is of the data buffer, for the device to write when it is a read. -/
def IsData (m : RequestMem) (d : Descriptor) : Prop :=
  d.addr = m.dataPhys ∧ d.len = 512 ∧ (d.flags &&& descFWrite ≠ 0 ↔ m.hdr.type = blkTIn)

/-- The descriptor is of the status byte, for the device to write. -/
def IsStatus (m : RequestMem) (d : Descriptor) : Prop :=
  d.addr = m.statusPhys ∧ d.len = 1 ∧ d.flags &&& descFWrite ≠ 0

instance (m : RequestMem) (d : Descriptor) : Decidable (m.IsHeader d) :=
  inferInstanceAs (Decidable (_ ∧ _))

instance (m : RequestMem) (d : Descriptor) : Decidable (m.IsData d) :=
  inferInstanceAs (Decidable (_ ∧ _))

instance (m : RequestMem) (d : Descriptor) : Decidable (m.IsStatus d) :=
  inferInstanceAs (Decidable (_ ∧ _))

/-- The request a chain is, if it is laid out as one. A descriptor table has room for `256`. -/
def request (m : RequestMem) (head : BitVec 16) : Option Request :=
  match m.chain 256 head with
  | [h, s] =>
    if m.IsHeader h ∧ m.IsStatus s then some ⟨m.hdr.type, m.hdr.sector, false⟩ else none
  | [h, b, s] =>
    if m.IsHeader h ∧ m.IsData b ∧ m.IsStatus s then some ⟨m.hdr.type, m.hdr.sector, true⟩
    else none
  | _ => none

end RequestMem

namespace Queue

/-- Fetch the next published request. A chain the device cannot make sense of stays where it is. -/
def fetch (q : Queue) : Queue :=
  if q.lastAvail = q.availIdx then q
  else
    match q.mem.request (q.availRing (q.lastAvail % q.qsize)) with
    | none => q
    | some r =>
      { q with
        lastAvail := q.lastAvail + 1
        fetched := q.fetched ++
          [⟨q.completed.length + q.served.length + q.fetched.length, r⟩] }

end Queue

/-- What a request does to the sectors, with the contents of the data buffer. -/
def Request.apply (r : Request) (d : Device Sector) (data : Sector) : Device Sector :=
  if r.type = blkTOut then d.write r.sector.toNat data
  else if r.type = blkTFlush then d.flush
  else d

namespace Queue

/-- Carry out the oldest fetched request and write its status. A request whose status is not `0`
may have taken effect or not, and a read may then leave anything in the data buffer. -/
def serve (q : Queue) (status : Byte) (effect : Bool) (junk : Sector) : Queue :=
  match q.fetched with
  | [] => q
  | job :: rest =>
    { q with
      fetched := rest
      served := q.served ++ [job]
      disk := if status = 0 ∨ effect then job.req.apply q.disk q.data else q.disk
      data := if job.req.type = blkTIn then
          (if status = 0 then q.disk.view job.req.sector.toNat else junk)
        else q.data
      status := status }

/-- Count the oldest request that was carried out. -/
def complete (q : Queue) : Queue :=
  match q.served with
  | [] => q
  | job :: rest =>
    { q with
      served := rest
      usedIdx := q.usedIdx + 1
      completed := job :: q.completed }

end Queue

/-- What the device can do. -/
inductive DeviceMove
  /-- Fetch a request. -/
  | fetch
  /-- Carry out a request. -/
  | serve (status : Byte) (effect : Bool) (junk : Sector)
  /-- Count a request. -/
  | complete

/-- One move of the device. -/
def move : DeviceMove → Queue → Queue
  | .fetch, q => q.fetch
  | .serve status effect junk, q => q.serve status effect junk
  | .complete, q => q.complete

/-! ### The driver -/

/-- Write one descriptor, field by field. -/
def writeDescriptor (i : BitVec 16) (d : Descriptor) : List (RequestMem → RequestMem) :=
  [fun m => { m with desc := Function.update m.desc i { m.desc i with addr := d.addr } },
    fun m => { m with desc := Function.update m.desc i { m.desc i with len := d.len } },
    fun m => { m with desc := Function.update m.desc i { m.desc i with flags := d.flags } },
    fun m => { m with desc := Function.update m.desc i { m.desc i with next := d.next } }]

/-- Write the request header, field by field. -/
def writeHeader (reqType : BitVec 32) (lba : BitVec 64) : List (RequestMem → RequestMem) :=
  [fun m => { m with hdr := { m.hdr with type := reqType } },
    fun m => { m with hdr := { m.hdr with reserved := 0 } },
    fun m => { m with hdr := { m.hdr with sector := lba } }]

/-- Write the descriptor chain of a request: header, data if there is any, status. -/
def writeChain (v : RequestMem) (reqType : BitVec 32) (hasData : Bool) :
    List (RequestMem → RequestMem) :=
  writeDescriptor 0 ⟨v.hdrPhys, 16, descFNext, 1⟩ ++
    if hasData then
      writeDescriptor 1
          ⟨v.dataPhys, 512, descFNext ||| (if reqType = blkTIn then descFWrite else 0), 2⟩ ++
        writeDescriptor 2 ⟨v.statusPhys, 1, descFWrite, 0⟩
    else writeDescriptor 1 ⟨v.statusPhys, 1, descFWrite, 0⟩

/-- A write to the request's memory. -/
def Queue.onMem (f : RequestMem → RequestMem) (q : Queue) : Queue := { q with mem := f q.mem }

/-- Writes to the request's memory, one action each. -/
def writeMem (fs : List (RequestMem → RequestMem)) : Prog Queue Unit :=
  Shared.modifyAll (fs.map Queue.onMem)

/-- The polling loop: `n` more rounds after this one. -/
def poll (target : BitVec 16) : ℕ → Prog Queue Bool
  | 0 => do
    let idx ← Shared.read Queue.usedIdx
    return idx = target
  | n + 1 => do
    let idx ← Shared.read Queue.usedIdx
    if idx = target then return true else poll target n

/-- `submit`: write the request, publish it, ring the doorbell and poll for its completion. When the
loop gives up, the request is still in flight, and the driver stops using the device. -/
def submit (reqType : BitVec 32) (lba : BitVec 64) (hasData : Bool) : Prog Queue Bool := do
  let v ← Shared.read id
  if v.present = false then return false
  else
    writeMem (writeHeader reqType lba)
    Shared.modify fun q => { q with status := 0xff }
    writeMem (writeChain v.mem reqType hasData)
    let availIdx ← Shared.read Queue.availIdx
    Shared.modify fun q =>
      { q with availRing := Function.update q.availRing (availIdx % v.qsize) 0 }
    let target := availIdx + 1
    Shared.modify fun q =>
      { q with availIdx := target, published := ⟨reqType, lba, hasData⟩ :: q.published }
    -- the doorbell
    Shared.modify id
    if ← poll target pollGuard then
      let st ← Shared.read Queue.status
      return st = 0
    else
      Shared.modify fun q => { q with present := false }
      return false

/-- `read_sector`: the sector, if the request succeeds. -/
def readSector (lba : BitVec 64) : Prog Queue (Option Sector) := do
  if ← submit blkTIn lba true then
    let dst ← Shared.read Queue.data
    return some dst
  else return none

/-- `write_sector`. -/
def writeSector (lba : BitVec 64) (src : Sector) : Prog Queue Bool := do
  let v ← Shared.read id
  if v.present = false then return false
  else
    Shared.modify fun q => { q with data := src }
    submit blkTOut lba true

/-- `flush`: nothing to do when the device has no cache to flush. -/
def flush : Prog Queue Bool := do
  let v ← Shared.read id
  if v.present = false then return false
  else if v.flushOk = false then return true
  else submit blkTFlush 0 false

/-! ### Initialisation -/

/-- `alloc_frame`: a zeroed frame, by its physical address. -/
def allocFrame (fa : FrameAllocator) : Option (BitVec 64) × FrameAllocator :=
  match fa.alloc with
  | (none, fa) => (none, fa)
  | (some fnum, fa) => (some (BitVec.ofNat 64 (fnum * 4096)), fa)

/-- The frames of a queue, by their physical addresses. -/
structure RingFrames where
  /-- The descriptor table. -/
  descPhys : BitVec 64
  /-- The avail ring. -/
  availPhys : BitVec 64
  /-- The used ring. -/
  usedPhys : BitVec 64
  /-- The request buffer. -/
  bufPhys : BitVec 64

/-- The allocations of `init`, in order. The frames of a setup that fails halfway stay allocated. -/
def allocRings (fa : FrameAllocator) : Option RingFrames × FrameAllocator :=
  match allocFrame fa with
  | (none, fa) => (none, fa)
  | (some descPhys, fa) =>
    match allocFrame fa with
    | (none, fa) => (none, fa)
    | (some availPhys, fa) =>
      match allocFrame fa with
      | (none, fa) => (none, fa)
      | (some usedPhys, fa) =>
        match allocFrame fa with
        | (none, fa) => (none, fa)
        | (some bufPhys, fa) => (some ⟨descPhys, availPhys, usedPhys, bufPhys⟩, fa)

/-- The size of the queue: that of the device, and at most `QSIZE`. -/
def initQsize (max : BitVec 16) : BitVec 16 := if max < maxQsize then max else maxQsize

/-- The queue `init` leaves: the rings and the request buffer in zeroed frames. -/
def Queue.ready (qsize : BitVec 16) (flushOk : Bool) (bufPhys : BitVec 64)
    (disk : Device Sector) : Queue where
  present := true
  qsize := qsize
  flushOk := flushOk
  mem := ⟨bufPhys, bufPhys + 512, bufPhys + 1024, ⟨0, 0, 0⟩, fun _ => ⟨0, 0, 0, 0⟩⟩
  data := .zero
  status := 0
  availRing := fun _ => 0
  availIdx := 0
  usedIdx := 0
  lastAvail := 0
  fetched := []
  served := []
  disk := disk
  published := []
  completed := []

/-- `init` from the feature negotiation on: `devLo` and `devHi` are the features the device offers,
`featuresOk` whether it keeps `FEATURES_OK`, `max` the size of its queue `0`. -/
def init (devLo devHi : BitVec 32) (featuresOk : Bool) (max : BitVec 16) (fa : FrameAllocator)
    (disk : Device Sector) : Option Queue × FrameAllocator :=
  if devHi &&& fVersion1Hi = 0 then (none, fa)
  else if featuresOk = false then (none, fa)
  else if max = 0 then (none, fa)
  else
    match allocRings fa with
    | (none, fa) => (none, fa)
    | (some rings, fa) =>
      (some (.ready (initQsize max) (decide (devLo &&& blkFFlush ≠ 0)) rings.bufPhys disk), fa)

/-! ### Runs of calls -/

/-- A call of the driver. -/
inductive Call
  /-- `read_sector`. -/
  | read (lba : BitVec 64)
  /-- `write_sector`. -/
  | write (lba : BitVec 64) (src : Sector)
  /-- `flush`. -/
  | flush

/-- What a call returns. -/
structure Answer where
  /-- The flag it returns. -/
  ok : Bool
  /-- What it has copied out. -/
  dst : Option Sector

/-- The program of a call. -/
def Call.prog : Call → Prog Queue Answer
  | .read lba => do
    let dst ← readSector lba
    return ⟨dst.isSome, dst⟩
  | .write lba src => do
    let ok ← writeSector lba src
    return ⟨ok, none⟩
  | .flush => do
    let ok ← Virtio.flush
    return ⟨ok, none⟩

/-- The request of a call. -/
def Call.request : Call → Request
  | .read lba => ⟨blkTIn, lba, true⟩
  | .write lba _ => ⟨blkTOut, lba, true⟩
  | .flush => ⟨blkTFlush, 0, false⟩

/-- The moves of the device before each action of a call. -/
abbrev Schedule := List (List DeviceMove)

/-- A call with the moves of the device during it. -/
abbrev Turn := Call × Schedule

namespace Queue

/-- What a call answers. -/
def answer (q : Queue) (t : Turn) : Answer := (Shared.run move t.2 t.1.prog q).1

/-- The queue after a call. -/
def step (q : Queue) (t : Turn) : Queue := (Shared.run move t.2 t.1.prog q).2.1

end Queue

end Virtio

end Cairn
