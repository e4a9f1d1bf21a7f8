import Cairn.Kernel.Scheduling
import Cairn.Kernel.Stubs

/-!
# The kernel on its processor, and a processor for every task

Two machines. The first one is real: one processor, one memory with the kernel stacks in it, and
the state of the kernel. Everything that happens goes through the stubs: an interrupt or a
`syscall` is delivered, a stub saves registers and calls Rust, and what Rust has decided is
carried out by the tail of a stub. The second one is what the kernel pretends to be: every task
has a processor of its own, a switch only changes whose turn it is, and a syscall changes the
registers that the interface says it changes.

The registers of both machines are those of a `Context`: the general registers, RIP, RFLAGS, CS and
SS. The stubs neither save nor clear the x87, MMX and SSE registers, MXCSR and the selectors in DS,
ES, FS and GS, so tasks that use them share them. `Code` is code that works on a `Context` and on
memory, and nothing is said here about a task that keeps anything elsewhere.

Rust code is compiled code, and all a stub may assume about it is the calling convention. So a
function that a stub calls is any `Callee`: it keeps the callee-saved registers, the stack pointer
and the GS bases, and writes below its stack pointer, into its stack arguments and into the
kernel's own data only. What it decides is in the state of the kernel. Code that blocks is left in
the middle and gone back to later; a `BlockingPath` is its two halves, and the second half relies
on the registers and on the part of the stack that the first half has left for it, and on nothing
else.

A handler for a fatal fault runs on the stack of the dead task, and a restart may put the first
context of a new task at the top of that very stack while the handler is still running. The source
relies on the handler not needing those `160` bytes any more; so does `FaultPath.after`.

An event that cannot happen in a state changes nothing: there is no `syscall` from ring 0.

## Main definitions

* `Linked` — where the linker has put stacks, data and code
* `Callee`, `BlockingPath`, `FaultPath`, `Code` — compiled code and user code
* `Hart`, `HartEvent`, `Hart.step` — the processor, the memory and the kernel
* `Virtual`, `Virtual.step` — a processor for every task
-/

namespace Cairn

open Amd64 (Addr Mem Reg Context Machine Instr load store InRange below execAll)

/-! ### Memory layout -/

/-- The size of the kernel stack of a slot, less what rounding its top to 16 may cost. -/
def stackRoom (t : Fin maxTasks) : ℕ := if t = 0 then kstackUsable - 16 else taskStackSize - 16

/-- The address is in the kernel stack of a slot. -/
def InStack {μ : Type} (p : Platform μ) (t : Fin maxTasks) (x : Addr) : Prop :=
  InRange (below (Kernel.kstackOf p t) (stackRoom t)) (stackRoom t) x

/-- Where the linker has put what the stubs touch. -/
structure Linked {μ : Type} (p : Platform μ) extends StackLayout p where
  /-- The address of `PER_CPU`. -/
  perCpu : Addr
  /-- The addresses of `SCHED.tasks[i].rsp`. -/
  saveSlot : Fin maxTasks → Addr
  /-- What the kernel keeps outside the kernel stacks: its statics, its heap, and the stacks for
  exceptions. -/
  Data : Addr → Prop
  /-- `timer_isr`. -/
  timerIsr : BitVec 64
  /-- `syscall_entry`. -/
  lstar : BitVec 64
  /-- Where `schedule_tick` returns to. -/
  tickReturn : BitVec 64
  /-- Where `syscall_dispatch` returns to. -/
  dispatchReturn : BitVec 64
  /-- The label `2` of `block_and_switch`. -/
  resumePoint : BitVec 64
  /-- The most stack that Rust code below a stub needs. -/
  reserve : ℕ
  reserve_le : reserve + 512 ≤ taskStackSize
  perCpu_data : ∀ x, InRange perCpu 24 x → Data x
  saveSlot_data : ∀ t x, InRange (saveSlot t) 8 x → Data x
  saveSlot_perCpu : ∀ t x, InRange (saveSlot t) 8 x → ¬InRange perCpu 24 x
  data_stack : ∀ t x, Data x → ¬InStack p t x

namespace Linked

variable {μ : Type} {p : Platform μ}

/-- Memory of the kernel. -/
def Private (l : Linked p) (x : Addr) : Prop := (∃ t, InStack p t x) ∨ l.Data x

/-- The memory a task can read: what is not the kernel's, and in ring 0 the stack it runs on. The
word at the very top is the return address of a function that does not return. -/
def Visible (l : Linked p) (t : Fin maxTasks) (c : Context) (x : Addr) : Prop :=
  ¬l.Private x ∨
    ¬c.Ring3 ∧ InRange (c.regs .rsp) ((Kernel.kstackOf p t - c.regs .rsp).toNat - 8) x

/-- A ring-0 task has enough of its stack left to be interrupted. -/
def Roomy (l : Linked p) (t : Fin maxTasks) (rsp : BitVec 64) : Prop :=
  (Kernel.kstackOf p t - rsp).toNat + l.reserve + 256 ≤ stackRoom t

instance (l : Linked p) (t : Fin maxTasks) (rsp : BitVec 64) : Decidable (l.Roomy t rsp) :=
  inferInstanceAs (Decidable (_ ≤ _))

/-- A context a task may be in outside the kernel: in ring 3, or in ring 0 with room on its
stack. -/
def Allowed (l : Linked p) (t : Fin maxTasks) (c : Context) : Prop :=
  c.Ring3 ∨ c.rip ≠ l.resumePoint ∧ l.Roomy t (c.regs .rsp)

instance (l : Linked p) (t : Fin maxTasks) (c : Context) : Decidable (l.Allowed t c) :=
  inferInstanceAs (Decidable (_ ∨ _))

/-- The operations that are calls from the boot thread, and not events of a running system. -/
def fromBoot (l : Linked p) : Op μ → Bool
  | .syscall .. | .tick _ | .fault => false
  | .admitTask entry .. => entry ≠ l.resumePoint
  | _ => true

end Linked

/-! ### Compiled code and user code -/

/-- The registers a function gives back as it found them. -/
def calleeSaved : List Reg := [.rbx, .rbp, .r12, .r13, .r14, .r15]

section Code

variable {μ : Type} {p : Platform μ}

/-- A function that follows the calling convention, with `args` bytes of arguments on the stack. It
runs from its first instruction to behind its `ret`. -/
structure Callee (l : Linked p) (args : ℕ) where
  run : Machine → Machine
  callee : ∀ s, ∀ r ∈ calleeSaved, (run s).regs r = s.regs r
  rsp : ∀ s, (run s).regs .rsp = s.regs .rsp + 8
  gs : ∀ s, (run s).gsBase = s.gsBase ∧ (run s).kernelGsBase = s.kernelGsBase
  mem : ∀ s x, ¬InRange (below (s.regs .rsp) l.reserve) (l.reserve + 8 + args) x → ¬l.Data x →
    (run s).mem x = s.mem x

/-- The way from `syscall_dispatch` down to `block_and_switch`, and from its return back up. The way
back needs the callee-saved registers and the stack as the way down has left them. -/
structure BlockingPath (l : Linked p) where
  /-- From the first instruction of `syscall_dispatch` to that of `block_and_switch`. -/
  enter : Machine → Machine
  /-- From the return of `block_and_switch` to that of `syscall_dispatch`. -/
  leave : Machine → Machine
  /-- The stack between the two return addresses. -/
  depth : ℕ
  eight_le : 8 ≤ depth
  depth_le : depth + 160 ≤ l.reserve
  enter_rsp : ∀ s, (enter s).regs .rsp = below (s.regs .rsp) depth
  enter_gs : ∀ s, (enter s).gsBase = s.gsBase ∧ (enter s).kernelGsBase = s.kernelGsBase
  enter_mem : ∀ s x, ¬InRange (below (s.regs .rsp) l.reserve) (l.reserve + 16) x → ¬l.Data x →
    (enter s).mem x = s.mem x
  leave_gs : ∀ s, (leave s).gsBase = s.gsBase ∧ (leave s).kernelGsBase = s.kernelGsBase
  leave_spec : ∀ s s', s'.regs .rsp = (enter s).regs .rsp + 8 →
    (∀ r ∈ calleeSaved, s'.regs r = (enter s).regs r) →
    (∀ x, InRange (below (s.regs .rsp) depth) (depth + 16) x → s'.mem x = (enter s).mem x) →
    (∀ r ∈ calleeSaved, (leave s').regs r = s.regs r) ∧
      (leave s').regs .rsp = s.regs .rsp + 8 ∧
      ∀ x, ¬InRange (below (s.regs .rsp) l.reserve) (l.reserve + 16) x → ¬l.Data x →
        (leave s').mem x = s'.mem x

/-- The handler of a fatal fault on a stack with this top, from the delivery of the exception to the
call of `jump_to_task`: what it does before a restart has written the first context of a new task,
and after. -/
structure FaultPath (l : Linked p) where
  before : Addr → Machine → Machine
  after : Addr → Machine → Machine
  before_gs : ∀ top s, (before top s).gsBase = s.gsBase ∧
    (before top s).kernelGsBase = s.kernelGsBase
  after_gs : ∀ top s, (after top s).gsBase = s.gsBase ∧
    (after top s).kernelGsBase = s.kernelGsBase
  before_mem : ∀ top s x, ¬InRange (below top (taskStackSize - 16)) (taskStackSize - 16) x →
    ¬l.Data x → (before top s).mem x = s.mem x
  after_mem : ∀ top s x, ¬InRange (below top (taskStackSize - 16)) (taskStackSize - 16 - 160) x →
    ¬l.Data x → (after top s).mem x = s.mem x

/-- What the task in a slot computes by itself, in the registers of its `Context` and in memory. It
stays in its ring, writes no memory of the kernel but its own stack in ring 0, and what it does
depends on the memory it can read only. -/
structure Code (l : Linked p) (t : Fin maxTasks) where
  run : Context → Mem → Context × Mem
  cs : ∀ c m, (run c m).1.cs = c.cs
  keeps : ∀ c m x, l.Private x → (c.Ring3 ∨ ¬InStack p t x) → (run c m).2 x = m x
  blind : ∀ c m m', (∀ x, l.Visible t c x → m x = m' x) → (run c m).1 = (run c m').1 ∧
    ∀ x, l.Visible t (run c m).1 x → (run c m).2 x = (run c m').2 x

/-- What can happen. -/
inductive HartEvent (l : Linked p)
  /-- The running task computes, if it is the one in slot `t`. -/
  | compute (t : Fin maxTasks) (code : Code l t)
  /-- The timer fires; `f` is the code of `schedule_tick`. -/
  | tick (f : Callee l 0)
  /-- The running task executes `syscall`; the code of `syscall_dispatch` is `f` if the call
  returns, and `path` if it blocks. -/
  | syscall (f : Callee l 8) (path : BlockingPath l)
  /-- The running task faults. -/
  | fault (f : FaultPath l)
  /-- The boot thread calls into the kernel. -/
  | boot (op : Op μ)

end Code

/-- The slot an operation fills with a new task, if it does. -/
def Kernel.newcomer {μ : Type} (p : Platform μ) (k : Kernel μ) : Op μ → Option (Fin maxTasks)
  | .admitTask entry c period rel budget => (k.admitTask p entry c period rel budget).1
  | .admitUser entry stackTop mem c d period rel budget =>
    (k.admitUser p entry stackTop mem c d period rel budget).1
  | .fault => (k.afterDeath p).1
  | _ => none

/-! ### The real machine -/

/-- The processor with its memory, and the state of the kernel. For a task that is parked in a
syscall, `path` is the code it is parked in. -/
structure Hart {μ : Type} {p : Platform μ} (l : Linked p) where
  cpu : Machine
  kernel : Kernel μ
  path : Fin maxTasks → Option (BlockingPath l)

namespace Hart

variable {μ : Type} {p : Platform μ}

/-- Rust has written the words of `PER_CPU` that the state of the kernel says. -/
def sync (l : Linked p) (k : Kernel μ) (m : Mem) : Mem :=
  store (store m l.perCpu (n := 8) k.perCpu.kernelRsp0) (l.perCpu + 16) (n := 8)
    k.perCpu.replyCptr

/-- `build_task_frame_inner`, if a task is admitted. -/
def install (p : Platform μ) (k : Kernel μ) (i : Option (Fin maxTasks)) (m : Mem) : Mem :=
  match i with
  | some i => writeTaskFrame m (p.taskKstackTop i) (k.frames i)
  | none => m

/-- `syscall_dispatch` has returned `r`. -/
def returned (l : Linked p) (k : Kernel μ) (r : IpcResult) (s : Machine) : Machine :=
  { (s.set .rax (BitVec.ofNat 64 r.status)).set .rdx r.reply with mem := sync l k s.mem }

/-- A context has been restored. If it is that of a parked call, the call goes on behind the label
of `block_and_switch`, returns, and the exit stub goes back to ring 3. -/
def land (l : Linked p) (r : Trace × Kernel μ) (path : Fin maxTasks → Option (BlockingPath l))
    (s : Machine) : Machine :=
  if s.cs = 0x08 ∧ s.rip = l.resumePoint then
    match path r.2.current, r.1.sysret with
    | some code, some (_, res) =>
      execAll syscallExit (returned l r.2 res (code.leave (execAll resumeBlocked s)))
    | _, _ => s
  else s

/-- The timer interrupt. -/
def tick (l : Linked p) (h : Hart l) (f : Callee l 0) : Hart l :=
  let s := execAll (timerIsrSave l.tickReturn) (h.cpu.interrupt h.kernel.rsp0 0x08 l.timerIsr)
  let r := h.kernel.step p (.tick (s.regs .rdi))
  let s := f.run s
  let s := { s.set .rax (r.1.restored.getD 0) with mem := sync l r.2 s.mem }
  ⟨land l r h.path (execAll timerIsrRestore s), r.2, h.path⟩

/-- A `syscall`. The first half of `block_current` does not depend on the pointer that
`block_and_switch` stores, so whether the call blocks and what is next is asked first. -/
def syscall (l : Linked p) (h : Hart l) (f : Callee l 8) (path : BlockingPath l) : Hart l :=
  let s := execAll (syscallEntry l.dispatchReturn) (h.cpu.syscall l.lstar sfMask 0x08 0x10)
  let dispatch := fun ptr => h.kernel.step p (.syscall (s.regs .rdi) (s.regs .rsi) (s.regs .rdx)
    (s.regs .rcx) (load s.mem 8 (s.regs .rsp + 8)) ptr)
  match (dispatch 0).1.restored, (dispatch 0).1.sysret with
  | some next, _ =>
    let slot := l.saveSlot h.kernel.current
    let s := path.enter s
    let s := { (s.set .rdi slot).set .rsi next with mem := sync l (dispatch 0).2 s.mem }
    let s := execAll (blockAndSwitch l.resumePoint) s
    let r := dispatch (load s.mem 8 slot)
    let path := Function.update h.path h.kernel.current (some path)
    ⟨land l r path s, r.2, path⟩
  | none, some (_, res) =>
    ⟨execAll syscallExit (returned l (dispatch 0).2 res (f.run s)), (dispatch 0).2, h.path⟩
  | none, none => h

/-- A fatal fault. -/
def fault (l : Linked p) (h : Hart l) (f : FaultPath l) : Hart l :=
  let r := h.kernel.step p .fault
  let s := f.before h.kernel.rsp0 h.cpu
  let s := { s with mem := install p r.2 (h.kernel.newcomer p .fault) s.mem }
  let s := f.after h.kernel.rsp0 s
  let s := { s.set .rdi (r.1.restored.getD 0) with mem := sync l r.2 s.mem }
  ⟨land l r h.path (execAll jumpToTask s), r.2, h.path⟩

/-- A call of the boot thread. -/
def boot (l : Linked p) (h : Hart l) (op : Op μ) : Hart l :=
  let r := h.kernel.step p op
  ⟨{ h.cpu with mem := sync l r.2 (install p r.2 (h.kernel.newcomer p op) h.cpu.mem) }, r.2,
    h.path⟩

/-- The running task computes. -/
def compute (l : Linked p) (h : Hart l) {t : Fin maxTasks} (code : Code l t) : Hart l :=
  let r := code.run h.cpu.toContext h.cpu.mem
  if t = h.kernel.current ∧ l.Allowed t r.1 then
    { h with cpu := { h.cpu with toContext := r.1, mem := r.2 } }
  else h

/-- One event. -/
def step (l : Linked p) (h : Hart l) : HartEvent l → Hart l
  | .compute _ code => h.compute l code
  | .tick f => h.tick l f
  | .syscall f path => if h.cpu.Ring3 then h.syscall l f path else h
  | .fault f => if h.cpu.Ring3 then h.fault l f else h
  | .boot op => if h.kernel.current = 0 ∧ l.fromBoot op then h.boot l op else h

end Hart

/-- The processor when `sched::init` has made the boot thread a task: in ring 0, on the boot stack,
with the per-CPU block behind `swapgs`. -/
structure BootContext {μ : Type} {p : Platform μ} (l : Linked p) where
  context : Context
  mem : Mem
  ring0 : ¬context.Ring3
  allowed : l.Allowed 0 context

/-- The machine at boot. -/
def Hart.init {μ : Type} {p : Platform μ} (l : Linked p) (m₀ : μ) (b : BootContext l) : Hart l where
  cpu := ⟨b.context, 0, l.perCpu, b.mem⟩
  kernel := .init p m₀
  path := fun _ => none

/-! ### A processor for every task -/

/-- The registers behind a syscall that returns `r`. The result is in `rax`, `rsi` and `rdx`, `rcx`
and `r11` hold what `sysretq` has loaded, and `rdi` and `r8` to `r10` are cleared. Whatever the
kernel has done, the other general registers are the caller's. -/
def Amd64.Context.sysret (c : Context) (r : IpcResult) : Context where
  regs
    | .rax => BitVec.ofNat 64 r.status
    | .rsi => r.reply
    | .rdx => r.replyCptr.setWidth 64
    | .rcx => c.rip
    | .r11 => c.rflags
    | .rdi | .r8 | .r9 | .r10 => 0
    | reg => c.regs reg
  rip := c.rip
  rflags := Amd64.sysretFlags c.rflags
  cs := 0x23
  ss := 0x1b

/-- The context behind a `syscall` instruction. -/
def behindSyscall (c : Context) : Context := { c with rip := c.rip + 2 }

/-- The syscall that the registers of a task ask for. If it blocks, the context goes to `ptr`. -/
def Amd64.Context.syscallOp {μ : Type} (c : Context) (ptr : Addr) : Op μ :=
  .syscall (c.regs .rax) (c.regs .rdi) (c.regs .rsi) (c.regs .rdx) (c.regs .r9) ptr

/-- The kernel, a processor for every task, and the memory of the tasks. -/
structure Virtual (μ : Type) where
  kernel : Kernel μ
  ctx : Fin maxTasks → Context
  mem : Mem

namespace Virtual

variable {μ : Type} {p : Platform μ}

/-- The context of the running task. -/
def running (v : Virtual μ) : Context := v.ctx v.kernel.current

/-- The registers of the task that returns from a syscall, if one does. -/
def deliver (ret : Option (Fin maxTasks × IpcResult)) (ctx : Fin maxTasks → Context) :
    Fin maxTasks → Context :=
  match ret with
  | some (t, r) => Function.update ctx t ((ctx t).sysret r)
  | none => ctx

/-- The registers of a task that is admitted, if one is. -/
def enrol (k : Kernel μ) (i : Option (Fin maxTasks)) (ctx : Fin maxTasks → Context) :
    Fin maxTasks → Context :=
  match i with
  | some i => Function.update ctx i (k.frames i).context
  | none => ctx

/-- Where the context of the running task goes when it is interrupted. -/
def interruptedAt (p : Platform μ) (v : Virtual μ) : Addr :=
  ((if v.running.Ring3 then Kernel.kstackOf p v.kernel.current else v.running.regs .rsp)
    &&& ~~~15) - 160

/-- Where it goes when it blocks. -/
def blockedAt (p : Platform μ) (v : Virtual μ) (depth : ℕ) : Addr :=
  below (Kernel.kstackOf p v.kernel.current) (200 + depth)

/-- At boot there is one task. -/
def init {l : Linked p} (m₀ : μ) (b : BootContext l) : Virtual μ where
  kernel := .init p m₀
  ctx := fun _ => b.context
  mem := b.mem

/-- One event: the kernel decides, and registers change only where the interface says so. -/
def step (l : Linked p) (v : Virtual μ) : HartEvent l → Virtual μ
  | .compute t code =>
    let r := code.run v.running v.mem
    if t = v.kernel.current ∧ l.Allowed t r.1 then
      { v with ctx := Function.update v.ctx t r.1, mem := r.2 }
    else v
  | .tick _ =>
    let r := v.kernel.step p (.tick (v.interruptedAt p))
    { v with kernel := r.2, ctx := deliver r.1.sysret v.ctx }
  | .syscall _ path =>
    if v.running.Ring3 then
      let r := v.kernel.step p (v.running.syscallOp (v.blockedAt p path.depth))
      { v with
        kernel := r.2
        ctx := deliver r.1.sysret
          (Function.update v.ctx v.kernel.current (behindSyscall v.running)) }
    else v
  | .fault _ =>
    if v.running.Ring3 then
      let r := v.kernel.step p .fault
      { v with
        kernel := r.2
        ctx := deliver r.1.sysret (enrol r.2 (v.kernel.newcomer p .fault) v.ctx) }
    else v
  | .boot op =>
    if v.kernel.current = 0 ∧ l.fromBoot op then
      let r := v.kernel.step p op
      { v with kernel := r.2, ctx := enrol r.2 (v.kernel.newcomer p op) v.ctx }
    else v

end Virtual

end Cairn
