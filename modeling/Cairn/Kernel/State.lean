import Cairn.CapCore.Derivation
import Cairn.Objstore.Superblock

/-!
# The state of the kernel

`kernel/src/capspace.rs`, `sched.rs`, `supervisor.rs` and `syscall.rs` keep their state in
statics: the object table and the per-domain capability tables, one side table for each kind of
object, the task table, the per-CPU block and the restart registry. They are the fields of
`Kernel` here. The object table and the capability tables together are a `Space` of the
capability core, indexed by the domains.

What the kernel calls but does not contain (page tables, the frame pool, the disk) is a
`Platform` over an arbitrary type of machine states, so nothing below depends on how it answers.

Two fields stand for the contents of kernel stacks, which the source reaches through saved stack
pointers only: `frames`, the context `build_task_frame_inner` writes for a new task, and
`parkedIn`, whether the saved context of a task is the one `block_and_switch` pushed in the
middle of a syscall. Counters that only throttle log lines are left out.

Indices and identifiers stored in `u16` fields (task numbers, domains, object ids) are natural
numbers; times are natural numbers with the saturation of `u64` written out.

## Main definitions

* `Task`, `Scheduler`, `EpSlot`, `DomainMaps` — the tables
* `Platform` — the functions of the surrounding machine
* `Kernel`, `Kernel.init` — the state, and its value after `sched::init`
-/

namespace Cairn

/-- `MAX_DOMAINS`. -/
def maxDomains : ℕ := 6

/-- `MAX_TASKS`. -/
def maxTasks : ℕ := 5

/-- `MAX_MAPS_PER_DOMAIN`. -/
def maxMapsPerDomain : ℕ := 8

instance : NeZero maxDomains := ⟨by decide⟩

instance : NeZero maxTasks := ⟨by decide⟩

/-- `CPTR_NONE`: no capability. -/
def cptrNone : BitVec 16 := 0xffff#16

/-- `u64::MAX`. -/
def u64Max : ℕ := 2 ^ 64 - 1

/-- `a.saturating_add(b)` on `u64`. -/
def satAdd (a b : ℕ) : ℕ := min u64Max (a + b)

/-- `a.saturating_mul(b)` on `u64`. -/
def satMul (a b : ℕ) : ℕ := min u64Max (a * b)

/-! ### Side tables of the objects -/

/-- `EpState`. -/
inductive EpState
  | idle
  /-- A sender is parked, its message staged. -/
  | sendWait
  /-- A receiver is parked. -/
  | recvWait
  deriving DecidableEq, Repr

/-- `EpSlot`: the rendezvous state of one endpoint. -/
structure EpSlot where
  state : EpState
  /-- The task number of the parked partner. -/
  peerTask : ℕ
  /-- The protection domain of the parked partner. -/
  peerDomain : ℕ
  /-- The staged message of a parked sender. -/
  msg0 : BitVec 64
  /-- The staged slot of a parked sender, or `cptrNone`. -/
  xferCptr : BitVec 16
  deriving DecidableEq, Repr

/-- `EP_EMPTY`. -/
def EpSlot.empty : EpSlot := ⟨.idle, 0, 0, 0, 0⟩

/-- `ExtentMeta`. -/
structure ExtentMeta where
  lba : BitVec 64
  len : BitVec 32
  hash : BitVec 64
  /-- The frame that holds the bytes for `X_MAP`, or `0` when they are not loaded. -/
  dataFramePhys : BitVec 64
  deriving DecidableEq, Repr

/-- `DeviceQueueDesc`, as `virtio_blk::device_queue_desc` reports it. -/
structure DeviceQueueDesc where
  descPhys : BitVec 64
  availPhys : BitVec 64
  usedPhys : BitVec 64
  bufPhys : BitVec 64
  doorbellPhys : BitVec 64
  qsize : BitVec 16
  deriving DecidableEq, Repr

/-- `DqMeta`. -/
structure DqMeta extends DeviceQueueDesc where
  /-- The value seeded at `scratchLba`. -/
  magic : BitVec 64
  scratchLba : BitVec 64
  deriving DecidableEq, Repr

/-- `DomainMaps`: the addresses mapped on behalf of a domain, oldest first. Entries of the array
beyond `count` are never read, so they are not kept. -/
structure DomainMaps where
  vas : List (BitVec 64)
  size : vas.length ≤ maxMapsPerDomain

/-- `DM_EMPTY`. -/
def DomainMaps.empty : DomainMaps := ⟨[], Nat.zero_le _⟩

/-- The body of `record_domain_map` for one domain: a full ledger drops the record. -/
def DomainMaps.record (dm : DomainMaps) (va : BitVec 64) : DomainMaps :=
  if h : dm.vas.length < maxMapsPerDomain then
    ⟨dm.vas ++ [va], by rw [List.length_append]; exact h⟩
  else dm

/-! ### Tasks -/

/-- What a blocking syscall returns: `(status, reply, reply_cptr)`. -/
structure IpcResult where
  status : ℕ
  reply : BitVec 64
  replyCptr : BitVec 16
  deriving DecidableEq, Repr

/-- A refusal: the status, no reply, no capability. -/
def IpcResult.refused (st : Status) : IpcResult := ⟨st.code, 0, cptrNone⟩

/-- `Task`. -/
structure Task where
  /-- The saved-context pointer. -/
  rsp : BitVec 64
  present : Bool
  runnable : Bool
  periodNs : ℕ
  relDeadlineNs : ℕ
  absDeadlineNs : ℕ
  budgetNs : ℕ
  activations : ℕ
  deadlineMisses : ℕ
  kstackTop : BitVec 64
  domain : ℕ
  /-- Parked in a blocking syscall; independent of `runnable`. -/
  blocked : Bool
  blockReason : ℕ
  waitEp : ℕ
  ipcStatus : ℕ
  ipcReply : BitVec 64
  ipcReplyCptr : BitVec 16
  deriving DecidableEq, Repr

/-- `Task::EMPTY`. -/
def Task.empty : Task where
  rsp := 0
  present := false
  runnable := false
  periodNs := 0
  relDeadlineNs := 0
  absDeadlineNs := u64Max
  budgetNs := 0
  activations := 0
  deadlineMisses := 0
  kstackTop := 0
  domain := 0
  blocked := false
  blockReason := 0
  waitEp := 0
  ipcStatus := 0
  ipcReply := 0
  ipcReplyCptr := 0

/-- The result staged for a task. -/
def Task.ipcResult (t : Task) : IpcResult := ⟨t.ipcStatus, t.ipcReply, t.ipcReplyCptr⟩

/-- `BLOCK_RECV`. -/
def blockRecv : ℕ := 1

/-- `BLOCK_SEND`. -/
def blockSend : ℕ := 2

/-- `Scheduler`. -/
structure Scheduler where
  tasks : Fin maxTasks → Task
  num : ℕ
  current : Fin maxTasks

/-- The words of the saved context that `build_task_frame_inner` does not clear. -/
structure TaskFrame where
  rdi : BitVec 64
  rip : BitVec 64
  cs : BitVec 16
  rflags : BitVec 64
  rsp : BitVec 64
  ss : BitVec 16
  deriving DecidableEq, Repr

/-- A frame returns to ring 3 when the selector in its `CS` word asks for privilege level 3. -/
def TaskFrame.ring3 (f : TaskFrame) : Bool := f.cs &&& 3 == 3

/-- The writable words of `PerCpu`; `user_rsp_scratch` is only used by the entry stub. -/
structure PerCpu where
  kernelRsp0 : BitVec 64
  replyCptr : BitVec 64
  deriving DecidableEq, Repr

/-- The restart registry of `supervisor.rs`. -/
structure Faulter where
  entry : BitVec 64
  stackTop : BitVec 64
  restarts : ℕ
  deriving DecidableEq, Repr

/-! ### The machine around the kernel, and the state -/

/-- What the kernel calls but does not contain, over machine states `μ`. -/
structure Platform (μ : Type) where
  /-- `paging::map_user_phys virt phys writable exec no_cache`. -/
  mapUserPhys : BitVec 64 → BitVec 64 → Bool → Bool → Bool → μ → Bool × μ
  /-- `paging::unmap_page`. -/
  unmapPage : BitVec 64 → μ → Bool × μ
  /-- `memory::allocate_frame`. -/
  allocateFrame : μ → Option (BitVec 64) × μ
  /-- `virtio_blk::read_sector`. -/
  readSector : BitVec 64 → μ → Option Sector × μ
  /-- `virtio_blk::device_queue_desc`. -/
  deviceQueueDesc : μ → Option DeviceQueueDesc
  /-- `apic::tick_ns`. -/
  tickNs : ℕ
  /-- `stack_top`, the top of the boot stack. -/
  stackTop : BitVec 64
  /-- `task_kstack_top`. -/
  taskKstackTop : Fin maxTasks → BitVec 64

/-- The state of the kernel. -/
structure Kernel (μ : Type) where
  /-- `OBJECTS` and `DOMAINS`. -/
  space : Space (Fin maxDomains)
  /-- `NOTIFY`. -/
  notify : Fin objectTableSize → BitVec 64
  /-- `ENDPOINTS`. -/
  endpoints : Fin objectTableSize → EpSlot
  /-- `EXTENTS`. -/
  extents : Fin objectTableSize → ExtentMeta
  /-- `DEVQUEUES`. -/
  devqueues : Fin objectTableSize → DqMeta
  /-- `DOMAIN_MAPS`. -/
  domainMaps : Fin maxDomains → DomainMaps
  /-- `CURRENT_DOMAIN`. -/
  currentDomain : ℕ
  /-- `SCHED`. -/
  sched : Scheduler
  /-- `apic::TICKS`. -/
  ticks : ℕ
  /-- `TSS.privilege_stack_table[0]`. -/
  rsp0 : BitVec 64
  /-- `PER_CPU`. -/
  perCpu : PerCpu
  /-- The first saved context of each task. -/
  frames : Fin maxTasks → TaskFrame
  /-- The saved context of the task was pushed by `block_and_switch`. -/
  parkedIn : Fin maxTasks → Bool
  /-- `FAULTER_ENTRY`, `FAULTER_STACK_TOP` and `FAULTER_RESTARTS`. -/
  faulter : Faulter
  /-- Everything outside the kernel. -/
  machine : μ

namespace Kernel

variable {μ : Type}

/-- The statics of the kernel once `sched::init` has registered the boot thread as task 0. -/
def init (p : Platform μ) (m : μ) : Kernel μ where
  space := .new
  notify := fun _ => 0
  endpoints := fun _ => .empty
  extents := fun _ => ⟨0, 0, 0, 0⟩
  devqueues := fun _ => ⟨⟨0, 0, 0, 0, 0, 0⟩, 0, 0⟩
  domainMaps := fun _ => .empty
  currentDomain := 0
  sched :=
    { tasks := Function.update (fun _ => Task.empty) 0
        { Task.empty with present := true, runnable := true, kstackTop := p.stackTop }
      num := 1
      current := 0 }
  ticks := 0
  rsp0 := p.stackTop
  perCpu := ⟨0, 0⟩
  frames := fun _ => ⟨0, 0, 0, 0, 0, 0⟩
  parkedIn := fun _ => false
  faulter := ⟨0, 0, 0⟩
  machine := m

/-- The task in a slot. -/
def task (k : Kernel μ) (t : Fin maxTasks) : Task := k.sched.tasks t

/-- The running task. -/
def current (k : Kernel μ) : Fin maxTasks := k.sched.current

/-- Replace the task in a slot. -/
def setTask (k : Kernel μ) (t : Fin maxTasks) (task : Task) : Kernel μ :=
  { k with sched := { k.sched with tasks := Function.update k.sched.tasks t task } }

/-- The entry in a slot of a domain's table. -/
def slot (k : Kernel μ) (d : Fin maxDomains) (i : Fin capTableSlots) : Option CapEntry :=
  k.space.slot d i

/-- `domain.min(MAX_DOMAINS - 1)`: the domain whose table is used for a domain id. -/
def clampDomain (domain : ℕ) : Fin maxDomains :=
  ⟨min domain (maxDomains - 1), by
    have hpos : 0 < maxDomains := by decide
    omega⟩

/-- `current_domain`. -/
def domainOf (k : Kernel μ) : Fin maxDomains := clampDomain k.currentDomain

end Kernel

end Cairn
