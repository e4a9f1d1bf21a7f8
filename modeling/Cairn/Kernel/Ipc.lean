import Cairn.Kernel.Sched

/-!
# Endpoints, syscalls and termination

The rest of the kernel's transitions: the endpoint rendezvous and the move of a capability with
it (`capspace.rs`), the syscall entry (`syscall.rs`), the reaping of a dead domain, the restart
hook (`supervisor.rs`) and the termination of a faulting task (`sched.rs`). `Kernel.step` puts
them together with the boot-time operations into one transition function.

In the source `ep_send` and `ep_recv` call `block_current` and read the staged result when it
returns. Here they answer `Reply.park` and the syscall entry blocks the task; the read of the
staged result is in `Kernel.resume`.

## Main definitions

* `Kernel.doCapTransfer`, `Kernel.epSend`, `Kernel.epRecv`, `Kernel.capInvokeIpc`
* `Kernel.syscall`, `Kernel.terminateCurrent`
* `Op`, `Kernel.step`, `kernelAfter` — operations, one step, and the state after a run
-/

namespace Cairn

/-- How a call of `cap_invoke_ipc` ends: with a result, after a call of `unblock` if it met a
parked partner, or in `block_current` with a reason and an object id. -/
inductive Reply
  | done (woke : Option (ℕ × IpcResult)) (r : IpcResult)
  | park (reason epOid : ℕ)
  deriving DecidableEq, Repr

namespace Kernel

variable {μ : Type}

/-! ### Rendezvous -/

/-- `do_cap_transfer`: copy by `delegate` with every right in the mask, then clear the source. -/
def doCapTransfer (k : Kernel μ) (srcDom : ℕ) (srcCptr : BitVec 16) (dstDom : ℕ) :
    Except Status (BitVec 16) × Kernel μ :=
  if h : srcDom ≠ dstDom ∧ srcDom < maxDomains ∧ dstDom < maxDomains then
    match (k.space.tables ⟨srcDom, h.2.1⟩).delegate k.space.objects srcCptr.toNat .all 0
        (k.space.tables ⟨dstDom, h.2.2⟩) with
    | .ok (slot, table) =>
      let space := k.space.setTable ⟨dstDom, h.2.2⟩ table
      let cleared := (space.tables ⟨srcDom, h.2.1⟩).set (Fin.ofNat capTableSlots srcCptr.toNat) none
      (.ok (.ofNat 16 slot), { k with space := space.setTable ⟨srcDom, h.2.1⟩ cleared })
    | .error st => (.error st, k)
  else (.error .errBadCPtr, k)

/-- The transfer of a rendezvous: nothing to do when no slot is named. -/
def transfer (k : Kernel μ) (srcDom : ℕ) (xfer : BitVec 16) (dstDom : ℕ) :
    Except Status (BitVec 16) × Kernel μ :=
  if xfer ≠ cptrNone then k.doCapTransfer srcDom xfer dstDom else (.ok cptrNone, k)

/-- Write the rendezvous state of an endpoint. -/
def setEndpoint (k : Kernel μ) (i : Fin objectTableSize) (ep : EpSlot) : Kernel μ :=
  { k with endpoints := Function.update k.endpoints i ep }

/-- `ep_send`. -/
def epSend (k : Kernel μ) (sendDom : Fin maxDomains) (oid : ℕ) (msg0 : BitVec 64)
    (xfer : BitVec 16) (rights : Rights) : Reply × Kernel μ :=
  if h : oid < objectTableSize then
    if xfer ≠ cptrNone ∧ !rights.contains .grantCap then (.done none (.refused .errRights), k)
    else if xfer ≠ cptrNone ∧ capTableSlots ≤ xfer.toNat then
      (.done none (.refused .errBadCPtr), k)
    else
      let ep := k.endpoints ⟨oid, h⟩
      match ep.state with
      | .recvWait =>
        match (k.setEndpoint ⟨oid, h⟩ { ep with state := .idle }).transfer sendDom xfer
            ep.peerDomain with
        | (.ok dstCptr, k) =>
          (.done (some (ep.peerTask, ⟨Status.ok.code, msg0, dstCptr⟩)) (.refused .ok),
            k.unblock ep.peerTask ⟨Status.ok.code, msg0, dstCptr⟩)
        | (.error e, k) =>
          (.done (some (ep.peerTask, .refused e)) (.refused e),
            k.unblock ep.peerTask (.refused e))
      | .sendWait => (.done none (.refused .errRights), k)
      | .idle =>
        (.park blockSend oid, k.setEndpoint ⟨oid, h⟩ ⟨.sendWait, k.current, sendDom, msg0, xfer⟩)
  else (.done none (.refused .errBadCPtr), k)

/-- `ep_recv`. -/
def epRecv (k : Kernel μ) (recvDom : Fin maxDomains) (oid : ℕ) : Reply × Kernel μ :=
  if h : oid < objectTableSize then
    let ep := k.endpoints ⟨oid, h⟩
    match ep.state with
    | .sendWait =>
      match (k.setEndpoint ⟨oid, h⟩ { ep with state := .idle }).transfer ep.peerDomain
          ep.xferCptr recvDom with
      | (.ok dstCptr, k) =>
        (.done (some (ep.peerTask, .refused .ok)) ⟨Status.ok.code, ep.msg0, dstCptr⟩,
          k.unblock ep.peerTask (.refused .ok))
      | (.error e, k) =>
        (.done (some (ep.peerTask, .refused e)) (.refused e), k.unblock ep.peerTask (.refused e))
    | .recvWait => (.done none (.refused .errRights), k)
    | .idle =>
      (.park blockRecv oid, k.setEndpoint ⟨oid, h⟩
        { ep with state := .recvWait, peerTask := k.current, peerDomain := recvDom })
  else (.done none (.refused .errBadCPtr), k)

/-- `cap_invoke_ipc`. -/
def capInvokeIpc (p : Platform μ) (k : Kernel μ) (cptr method : BitVec 16) (arg0 : BitVec 64)
    (xfer : BitVec 16) : Reply × Kernel μ :=
  match k.resolve k.domainOf cptr method with
  | .error st => (.done none (.refused st), k)
  | .ok e =>
    if e.typeTag = .endpoint ∧ method = eSend then
      k.epSend k.domainOf e.objectId arg0 xfer e.rights
    else if e.typeTag = .endpoint ∧ method = eRecv then k.epRecv k.domainOf e.objectId
    else if xfer ≠ cptrNone then (.done none (.refused .errMethod), k)
    else
      let r := k.dispatchMethod p k.domainOf e method arg0
      (.done none ⟨r.1.1.code, r.1.2, cptrNone⟩, r.2)

/-! ### The syscall entry -/

/-- `PER_CPU.reply_cptr.write(..)`. -/
def setReplyCptr (k : Kernel μ) (c : BitVec 16) : Kernel μ :=
  { k with perCpu := { k.perCpu with replyCptr := c.setWidth 64 } }

/-- The end of a syscall: return to ring 3 with the result, or block. -/
def finish (p : Platform μ) (savedRsp : BitVec 64) : Reply × Kernel μ → Trace × Kernel μ
  | (.done woke r, k) =>
    ({ woke := woke, sysret := some (k.current, r) }, k.setReplyCptr r.replyCptr)
  | (.park reason epOid, k) => k.blockCurrent p reason epOid savedRsp

/-- `syscall_dispatch` and the entry stub around it, for the running task. `savedRsp` is the
context `block_and_switch` pushes if the call blocks. -/
def syscall (p : Platform μ) (k : Kernel μ) (nr cptr method arg0 xfer : BitVec 64)
    (savedRsp : BitVec 64) : Trace × Kernel μ :=
  let k := k.setReplyCptr cptrNone
  if nr ≠ 1 then ({ sysret := some (k.current, .refused .errMethod) }, k)
  else if 0xffff < cptr ∨ 0xffff < method ∨ 0xffff < xfer then
    ({ sysret := some (k.current, .refused .errBadCPtr) }, k)
  else
    finish p savedRsp
      (k.capInvokeIpc p (cptr.setWidth 16) (method.setWidth 16) arg0 (xfer.setWidth 16))

/-! ### Termination and restart -/

/-- `reap_domain`. -/
def reapDomain (p : Platform μ) (k : Kernel μ) (domain taskIdx : ℕ) : Kernel μ :=
  let k := { k with endpoints := fun i =>
    if (k.endpoints i).state ≠ .idle ∧ (k.endpoints i).peerTask = taskIdx then .empty
    else k.endpoints i }
  if h : domain < maxDomains then
    { k with
      space := k.space.setTable ⟨domain, h⟩ .new
      machine := (k.domainMaps ⟨domain, h⟩).vas.foldl (fun m va => (p.unmapPage va m).2) k.machine
      domainMaps := Function.update k.domainMaps ⟨domain, h⟩ .empty }
  else k

/-- `FAULT_DOMAIN`. -/
def faultDomain : ℕ := 4

/-- `register_faulter`. -/
def registerFaulter (k : Kernel μ) (entry stackTop : BitVec 64) (budget : ℕ) : Kernel μ :=
  { k with faulter := ⟨entry, stackTop, budget⟩ }

/-- The Memory capability of a restart: a fresh root capability, delegated with `INVOKE` only. -/
def regrant (k : Kernel μ) : Option (Fin capTableSlots) × Kernel μ :=
  match k.initRoot with
  | (some m, k) => k.delegateFromRoot faultDomain m .invoke 0
  | (none, k) => (none, k)

/-- `on_domain_death`: re-grant and re-admit the restartable domain while its budget lasts. The
time-slice capability is minted even when the Memory capability could not be. -/
def onDomainDeath (p : Platform μ) (k : Kernel μ) (domain : ℕ) : Kernel μ :=
  if domain ≠ faultDomain ∨ k.faulter.restarts = 0 then k
  else
    let k := { k with faulter := { k.faulter with restarts := k.faulter.restarts - 1 } }
    let mem := k.regrant
    let ts := mem.2.mintTimeslice
    match mem.1, ts.1 with
    | some fm, some ft =>
      (ts.2.admitUser p k.faulter.entry k.faulter.stackTop (.ofNat 16 fm) ft faultDomain 5000000
        5000000 1000000).2
    | _, _ => ts.2

/-- The first part of `terminate_current`: free the slot of the running task. -/
def dropCurrent (k : Kernel μ) : Kernel μ :=
  let k := k.setTask k.current
    { k.task k.current with present := false, runnable := false, blocked := false }
  { k with sched := { k.sched with num := k.sched.num - 1 } }

/-- `terminate_current`. -/
def terminateCurrent (p : Platform μ) (k : Kernel μ) : Trace × Kernel μ :=
  let domain := (k.task k.current).domain
  (((k.dropCurrent.reapDomain p domain k.current).onDomainDeath p domain).reschedule p).restore

end Kernel

/-! ### Operations and runs -/

/-- What can happen to the kernel: the boot-time calls of `main.rs`, and the three events of a
running system. `outside` is anything done by user code or devices. -/
inductive Op (μ : Type)
  | initRoot
  | createNotification
  | createEndpoint
  | mintTimeslice
  | mintExtent (info : ExtentMeta)
  | createDeviceQueue (magic scratchLba : BitVec 64)
  | delegateFromRoot (dstDomain srcCptr : ℕ) (mask : Rights) (badge : BitVec 16)
  | sealCap (d : Fin maxDomains) (cptr : ℕ)
  | revoke (oid : ℕ)
  | capInvokeIn (domain : ℕ) (cptr method : BitVec 16) (arg : BitVec 64)
  | setCurrentDomain (domain : ℕ)
  | registerFaulter (entry stackTop : BitVec 64) (budget : ℕ)
  | admitTask (entry : BitVec 64) (cptr periodNs relDeadlineNs budgetNs : ℕ)
  | admitUser (userEntryVa userStackTop : BitVec 64) (memCptr : BitVec 16)
      (cptr domain periodNs relDeadlineNs budgetNs : ℕ)
  | syscall (nr cptr method arg0 xfer savedRsp : BitVec 64)
  | tick (currentRsp : BitVec 64)
  | fault
  | outside (m : μ)

/-- The operations that neither switch tasks nor admit one. -/
def Op.background {μ : Type} : Op μ → Bool
  | .setCurrentDomain _ | .admitTask .. | .admitUser .. | .syscall .. | .tick _ | .fault => false
  | _ => true

namespace Kernel

variable {μ : Type}

/-- One operation. -/
def step (p : Platform μ) (k : Kernel μ) : Op μ → Trace × Kernel μ
  | .initRoot => ({}, k.initRoot.2)
  | .createNotification => ({}, k.createNotification.2)
  | .createEndpoint => ({}, k.createEndpoint.2)
  | .mintTimeslice => ({}, k.mintTimeslice.2)
  | .mintExtent info => ({}, (k.mintExtent info).2)
  | .createDeviceQueue magic lba => ({}, (k.createDeviceQueue p magic lba).2)
  | .delegateFromRoot dst src mask badge => ({}, (k.delegateFromRoot dst src mask badge).2)
  | .sealCap d c =>
    ({}, { k with space := k.space.setTable d (CapTable.seal (k.space.tables d) c).2 })
  | .revoke oid =>
    ({}, { k with space := { k.space with objects := (k.space.objects.revoke oid).2 } })
  | .capInvokeIn d c method arg => ({}, (k.capInvokeIn p d c method arg).2)
  | .setCurrentDomain d => ({}, k.setCurrentDomain d)
  | .registerFaulter entry stackTop budget => ({}, k.registerFaulter entry stackTop budget)
  | .admitTask entry c period rel budget => ({}, (k.admitTask p entry c period rel budget).2)
  | .admitUser entry stackTop mem c d period rel budget =>
    ({}, (k.admitUser p entry stackTop mem c d period rel budget).2)
  | .syscall nr c method arg0 xfer rsp => k.syscall p nr c method arg0 xfer rsp
  | .tick rsp => k.scheduleTick p rsp
  | .fault => k.terminateCurrent p
  | .outside m => ({}, { k with machine := m })

/-- The running task is a ring-3 task. -/
def InRing3 (k : Kernel μ) : Prop := (k.frames k.current).ring3 = true

end Kernel

/-- The state after a run, latest operation first, on a platform whose machine starts in `m₀`. -/
def kernelAfter {μ : Type} (p : Platform μ) (m₀ : μ) (h : List (Op μ)) : Kernel μ :=
  Runs.after (fun k op => (k.step p op).2) (Kernel.init p m₀) h

end Cairn
