import Cairn.Kernel.Capspace

/-!
# The scheduler

`kernel/src/sched.rs`: admission on a time-slice capability, earliest-deadline-first selection,
the timer tick, and the block and wake primitives of the endpoint path.

`schedule_tick`, `block_current` and `terminate_current` end in the same way: roll the
deadlines, pick the next task, point the kernel stacks and the current domain at it, and restore
its saved context. That tail is `Kernel.reschedule` followed by `Kernel.restore`. When the saved
context was pushed by `block_and_switch`, restoring it runs the rest of the interrupted syscall
with interrupts still off, so the return to ring 3 belongs to the same step.

`roll_deadlines` catches up in a loop that does not end when the clock has saturated at
`u64::MAX`. It runs here on fuel that is enough in every other case; where it is not, the kernel
hangs with interrupts off, and the model leaves the task as it was and goes on.

## Main definitions

* `Kernel.admitTask`, `Kernel.admitUser`
* `rollDeadlines`, `pickNext`
* `Trace` — what a step does besides changing the state
* `Kernel.scheduleTick`, `Kernel.blockCurrent`, `Kernel.unblock`
-/

namespace Cairn

/-! ### Selection -/

namespace Scheduler

/-- `free_slot`. -/
def freeSlot (s : Scheduler) : Option (Fin maxTasks) :=
  Fin.find? fun i => i ≠ 0 && !(s.tasks i).present

/-- The catch-up loop of `roll_deadlines` for one task, `none` when the fuel runs out. -/
def rollLoop (now : ℕ) : ℕ → Task → Option Task
  | 0, _ => none
  | fuel + 1, t =>
    if t.absDeadlineNs ≤ now then
      rollLoop now fuel { t with
        activations := (t.activations + 1) % 2 ^ 64
        absDeadlineNs := satAdd t.absDeadlineNs t.periodNs
        runnable := t.runnable || !t.blocked }
    else some t

/-- The body of `roll_deadlines` for one task. -/
def rollTask (now : ℕ) (t : Task) : Task :=
  if !t.present || t.periodNs == 0 then t
  else (rollLoop now (now + 2 - t.absDeadlineNs) t).getD t

/-- `roll_deadlines`: every task but the idle one. -/
def rollDeadlines (s : Scheduler) (now : ℕ) : Scheduler :=
  { s with tasks := fun i => if i = 0 then s.tasks i else rollTask now (s.tasks i) }

/-- A task `pick_next` does not skip. -/
def Eligible (t : Task) : Prop := t.present = true ∧ t.runnable = true ∧ t.blocked = false

instance (t : Task) : Decidable (Eligible t) := by
  unfold Eligible
  infer_instance

/-- One round of the scan of `pick_next`: the best task so far and its deadline, if any. -/
def pickStep (s : Scheduler) (best : Fin maxTasks × Option ℕ) (i : Fin maxTasks) :
    Fin maxTasks × Option ℕ :=
  if Eligible (s.tasks i) then
    match best.2 with
    | none => (i, some (s.tasks i).absDeadlineNs)
    | some deadline =>
      if (s.tasks i).absDeadlineNs < deadline then (i, some (s.tasks i).absDeadlineNs) else best
  else best

/-- `pick_next`: the eligible task with the earliest deadline, the lowest index on ties, and the
idle task if there is none. -/
def pickNext (s : Scheduler) : Fin maxTasks :=
  ((List.finRange maxTasks).tail.foldl s.pickStep (0, none)).1

end Scheduler

/-- What a step does besides changing the state: the arguments of its call of `unblock`, the
saved-context pointer it restores, and the syscall it returns from. -/
structure Trace where
  woke : Option (ℕ × IpcResult) := none
  restored : Option (BitVec 64) := none
  sysret : Option (Fin maxTasks × IpcResult) := none

namespace Kernel

variable {μ : Type}

/-- `now_ns`. -/
def nowNs (p : Platform μ) (k : Kernel μ) : ℕ := satMul k.ticks p.tickNs

/-! ### Admission -/

/-- `build_task_frame_inner`, with `gdt::user_selectors` and `gdt::kernel_selectors`. -/
def buildTaskFrame (p : Platform μ) (i : Fin maxTasks) (entry : BitVec 64) (user : Bool)
    (userRsp rdi : BitVec 64) : TaskFrame where
  rdi := rdi
  rip := entry
  cs := if user then 0x23 else 0x08
  rflags := 0x202
  rsp := if user then userRsp - 8 else p.taskKstackTop i - 8
  ss := if user then 0x1b else 0x10

/-- The common body of `admit` and `admit_user`. -/
def admitWith (p : Platform μ) (k : Kernel μ) (frame : Fin maxTasks → TaskFrame) (cptr domain : ℕ)
    (periodNs relDeadlineNs budgetNs : ℕ) : Option (Fin maxTasks) × Kernel μ :=
  if periodNs = 0 then (none, k)
  else if k.admitCheck cptr ≠ .ok then (none, k)
  else
    match k.sched.freeSlot with
    | none => (none, k)
    | some i =>
      (some i, { k with
        sched :=
          { k.sched with
            tasks := Function.update k.sched.tasks i { Task.empty with
              rsp := p.taskKstackTop i - 160
              present := true
              runnable := true
              periodNs := periodNs
              relDeadlineNs := relDeadlineNs
              absDeadlineNs := satAdd (k.nowNs p) relDeadlineNs
              budgetNs := budgetNs
              kstackTop := p.taskKstackTop i
              domain := domain }
            num := k.sched.num + 1 }
        frames := Function.update k.frames i (frame i)
        parkedIn := Function.update k.parkedIn i false })

/-- `admit`: a ring-0 task, in the root domain. -/
def admitTask (p : Platform μ) (k : Kernel μ) (entry : BitVec 64)
    (cptr periodNs relDeadlineNs budgetNs : ℕ) : Option (Fin maxTasks) × Kernel μ :=
  k.admitWith p (fun i => buildTaskFrame p i entry false 0 0) cptr 0 periodNs relDeadlineNs
    budgetNs

/-- `admit_user`: a ring-3 task, with a capability pointer in its first argument register. -/
def admitUser (p : Platform μ) (k : Kernel μ) (userEntryVa userStackTop : BitVec 64)
    (memCptr : BitVec 16) (cptr domain periodNs relDeadlineNs budgetNs : ℕ) :
    Option (Fin maxTasks) × Kernel μ :=
  k.admitWith p
    (fun i => buildTaskFrame p i userEntryVa true userStackTop (memCptr.setWidth 64)) cptr domain
    periodNs relDeadlineNs budgetNs

/-! ### Switching -/

/-- `set_kernel_stack`. -/
def setKernelStack (k : Kernel μ) (ktop : BitVec 64) : Kernel μ :=
  { k with rsp0 := ktop, perCpu := { k.perCpu with kernelRsp0 := ktop } }

/-- `set_current_domain`. -/
def setCurrentDomain (k : Kernel μ) (domain : ℕ) : Kernel μ := { k with currentDomain := domain }

/-- `take_ipc_result`. -/
def takeIpcResult (k : Kernel μ) (t : Fin maxTasks) : IpcResult := (k.task t).ipcResult

/-- Publish the kernel stack and the domain of the running task. -/
def publish (k : Kernel μ) : Kernel μ :=
  (k.setKernelStack (k.task k.current).kstackTop).setCurrentDomain (k.task k.current).domain

/-- The common tail of the three switches: roll the deadlines, pick the next task and publish
it. -/
def reschedule (p : Platform μ) (k : Kernel μ) : Kernel μ :=
  let s := k.sched.rollDeadlines (k.nowNs p)
  publish { k with sched := { s with current := s.pickNext } }

/-- Restore the saved context of the running task. If it was saved in the middle of a syscall,
`block_current` returns, `take_ipc_result` is read, `syscall_dispatch` stores the reply CPtr, and
the entry stub returns to ring 3. -/
def resume (k : Kernel μ) : Option (Fin maxTasks × IpcResult) × Kernel μ :=
  if k.parkedIn k.current then
    let r := k.takeIpcResult k.current
    (some (k.current, r),
      { k with
        parkedIn := Function.update k.parkedIn k.current false
        perCpu := { k.perCpu with replyCptr := r.replyCptr.setWidth 64 } })
  else (none, k)

/-- Load the saved-context pointer of the running task and resume it. -/
def restore (k : Kernel μ) : Trace × Kernel μ :=
  ({ restored := some (k.task k.current).rsp, sysret := k.resume.1 }, k.resume.2)

/-- `schedule_tick`, with the saved-context pointer of the interrupted task. -/
def scheduleTick (p : Platform μ) (k : Kernel μ) (currentRsp : BitVec 64) : Trace × Kernel μ :=
  let k := { k with ticks := (k.ticks + 1) % 2 ^ 64 }
  if k.sched.num ≤ 1 then ({ restored := some currentRsp }, k.publish)
  else ((k.setTask k.current { k.task k.current with rsp := currentRsp }).reschedule p).restore

/-- The part of `block_current` in front of the switch: park the running task. -/
def parkCurrent (k : Kernel μ) (reason epOid : ℕ) : Kernel μ :=
  k.setTask k.current
    { k.task k.current with blocked := true, blockReason := reason, waitEp := epOid }

/-- `block_current`, with the saved-context pointer `block_and_switch` stores. The pointer of the
next task is read before that store. -/
def blockCurrent (p : Platform μ) (k : Kernel μ) (reason epOid : ℕ) (savedRsp : BitVec 64) :
    Trace × Kernel μ :=
  let cur := k.current
  let k := (k.parkCurrent reason epOid).reschedule p
  let next := (k.task k.current).rsp
  let k := { k.setTask cur { k.task cur with rsp := savedRsp } with
    parkedIn := Function.update k.parkedIn cur true }
  ({ restored := some next, sysret := k.resume.1 }, k.resume.2)

/-- `unblock`. -/
def unblock (k : Kernel μ) (task : ℕ) (r : IpcResult) : Kernel μ :=
  if h : task < maxTasks then
    k.setTask ⟨task, h⟩ { k.task ⟨task, h⟩ with
      ipcStatus := r.status, ipcReply := r.reply, ipcReplyCptr := r.replyCptr, blocked := false }
  else k

end Kernel

end Cairn
