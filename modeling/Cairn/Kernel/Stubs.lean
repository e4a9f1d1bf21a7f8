import Cairn.Internal.Amd64
import Cairn.Kernel.Sched

/-!
# The naked stubs

The assembly of `kernel/src/sched.rs` and `syscall.rs`, instruction by instruction: the timer
interrupt, the switch inside a blocking syscall, the jump out of a dead task, and the entry and
exit of a syscall. Rust code that a stub calls is not here; a stub that calls is cut in two.

A saved context is twenty words on a kernel stack: fifteen registers and what `iretq` pops. There
are three producers of that layout, `timer_isr`, `block_and_switch` and `build_task_frame_inner`,
and one consumer, the tail that three of the stubs share.

## Main definitions

* `timerIsrSave`, `timerIsrRestore`, `blockAndSwitch`, `resumeBlocked`, `jumpToTask`
* `syscallEntry`, `syscallExit`
* `writeTaskFrame` — the stores of `build_task_frame_inner`
* `Amd64.Context.words`, `HoldsContext` — the layout of a saved context

## Main results

* `execAll_restoreContext` — the tail loads the context that the stack pointer points to
* `execAll_timerIsrSave`, `execAll_blockAndSwitch`, `holdsContext_writeTaskFrame` — the three
  producers agree on the layout
* `execAll_syscallEntry`, `execAll_syscallExit` — the way into the kernel and back
-/

namespace Cairn

open Amd64 (Addr Mem Reg Context Machine Instr load store loadWords storeWords InRange execAll)

/-! ### Code -/

/-- The registers of a saved context, in the order the stubs push them. -/
def savedRegs : List Reg :=
  [.rax, .rbx, .rcx, .rdx, .rsi, .rdi, .rbp, .r8, .r9, .r10, .r11, .r12, .r13, .r14, .r15]

/-- `push rax` to `push r15`. -/
def saveContext : List Instr := savedRegs.map .push

/-- `pop r15` to `pop rax`, and `iretq`. -/
def restoreContext : List Instr := savedRegs.reverse.map .pop ++ [.iretq]

/-- `timer_isr` up to the call of `schedule_tick`, which returns to `next`. -/
def timerIsrSave (next : BitVec 64) : List Instr :=
  saveContext ++ [.mov .rdi .rsp, .andImm .rsp (-16), .call next]

/-- `timer_isr` from there on. -/
def timerIsrRestore : List Instr := .mov .rsp .rax :: restoreContext

/-- `block_and_switch` up to the store through `save_slot`; `resumePoint` is its label `2`. -/
def blockAndSwitchSave (resumePoint : BitVec 64) : List Instr :=
  [.mov .rax .rsp, .pushImm 0x10, .push .rax, .pushImm 0x2, .pushImm 0x8, .lea .rax resumePoint,
    .push .rax] ++ saveContext ++ [.movToMem .rdi .rsp]

/-- `block_and_switch` up to its `iretq`. -/
def blockAndSwitch (resumePoint : BitVec 64) : List Instr :=
  blockAndSwitchSave resumePoint ++ [.swapgs, .mov .rsp .rsi] ++ restoreContext

/-- `block_and_switch` behind its label `2`. -/
def resumeBlocked : List Instr := [.swapgs, .ret]

/-- `jump_to_task`. -/
def jumpToTask : List Instr := .mov .rsp .rdi :: restoreContext

/-- `syscall_entry` up to the call of `syscall_dispatch`, which returns to `next`. -/
def syscallEntry (next : BitVec 64) : List Instr :=
  [.swapgs, .movToGs 8 .rsp, .movFromGs .rsp 0, .pushGs 8, .push .r11, .push .rcx, .push .r9,
    .mov .r9 .r8, .mov .r8 .r10, .mov .rcx .rdx, .mov .rdx .rsi, .mov .rsi .rdi, .mov .rdi .rax,
    .call next]

/-- `syscall_entry` from there on. -/
def syscallExit : List Instr :=
  [.addImm .rsp 8, .mov .rsi .rdx, .movFromGs .rdx 16, .pop .rcx, .pop .r11, .pop .rdi, .clear .r8,
    .clear .r9, .clear .r10, .mov .rsp .rdi, .clear .rdi, .swapgs, .sysretq 0x23 0x1b]

/-- The flags `syscall` clears: `IF`, `DF`, `TF`, `AC` and `NT`. -/
def sfMask : BitVec 64 := 0x44700

/-- The stores of `build_task_frame_inner`, below the top of a kernel stack. -/
def writeTaskFrame (m : Mem) (top : Addr) (f : TaskFrame) : Mem :=
  let framePtr := top - 160
  let m := storeWords m framePtr (List.replicate 15 0)
  let m := store m (framePtr + BitVec.ofNat 64 (8 * 9)) (n := 8) f.rdi
  let m := store m (framePtr + BitVec.ofNat 64 (8 * 15)) (n := 8) f.rip
  let m := store m (framePtr + BitVec.ofNat 64 (8 * 16)) (n := 8) (f.cs.setWidth 64)
  let m := store m (framePtr + BitVec.ofNat 64 (8 * 17)) (n := 8) f.rflags
  let m := store m (framePtr + BitVec.ofNat 64 (8 * 18)) (n := 8) f.rsp
  store m (framePtr + BitVec.ofNat 64 (8 * 19)) (n := 8) (f.ss.setWidth 64)

/-! ### Saved contexts -/

/-- A context as it lies on a kernel stack, lowest address first. -/
def Amd64.Context.words (c : Context) : List (BitVec 64) :=
  savedRegs.reverse.map c.regs ++
    [c.rip, c.cs.setWidth 64, c.rflags, c.regs .rsp, c.ss.setWidth 64]

theorem length_words (c : Context) : c.words.length = 20 := rfl

/-- The saved context at `p` is `c`. -/
def HoldsContext (m : Mem) (p : Addr) (c : Context) : Prop := loadWords m p 20 = c.words

theorem HoldsContext.congr {m m' : Mem} {p : Addr} {c : Context} (h : HoldsContext m p c)
    (heq : ∀ x, InRange p 160 x → m' x = m x) : HoldsContext m' p c :=
  (Amd64.loadWords_congr heq).trans h

theorem holdsContext_storeWords (m : Mem) (p : Addr) (c : Context) :
    HoldsContext (storeWords m p c.words) p c :=
  Amd64.loadWords_storeWords m p c.words (by rw [length_words]; decide)

theorem mem_savedRegs {r : Reg} (h : r ≠ .rsp) : r ∈ savedRegs := by
  cases r <;> first | decide | exact absurd rfl h

/-- **The tail of every switch** loads the context the stack pointer points to. -/
theorem execAll_restoreContext {s : Machine} {c : Context}
    (h : HoldsContext s.mem (s.regs .rsp) c) :
    execAll restoreContext s = { s with toContext := c } := by
  have hwords := (Amd64.loadWords_add s.mem (s.regs .rsp) 15 5).symm.trans h
  obtain ⟨hregs, hframe⟩ := List.append_inj hwords rfl
  have hpops : execAll (savedRegs.reverse.map .pop) s = _ :=
    Amd64.execAll_pops (by decide) s
  have hlen : savedRegs.reverse.length = 15 := rfl
  rw [hlen, hregs, Amd64.assign_map] at hpops
  rw [restoreContext, Amd64.execAll_append, hpops]
  simp only [loadWords, List.cons.injEq, and_true, BitVec.add_assoc, BitVec.reduceAdd,
    Nat.reduceMul] at hframe
  obtain ⟨hrip, hcs, hflags, hrsp, hss⟩ := hframe
  have hall : Function.update (fun r => if r ∈ savedRegs.reverse then c.regs r else s.regs r) .rsp
      (c.regs .rsp) = c.regs := by
    funext r
    by_cases hr : r = .rsp
    · rw [hr, Function.update_self]
    · rw [Function.update_of_ne hr, if_pos (List.mem_reverse.mpr (mem_savedRegs hr))]
  simp only [Amd64.execAll_cons, Amd64.execAll_nil, Instr.exec, Machine.set, Machine.top,
    Function.update_self, Function.update_idem, BitVec.add_assoc, BitVec.reduceAdd, Nat.reduceMul,
    hrip, hcs, hflags, hrsp, hss, hall]
  simp

/-- **The timer interrupt** saves the interrupted context below the stack it is delivered on, and
calls `schedule_tick` with its address. -/
theorem execAll_timerIsrSave (s : Machine) (rsp0 handler next : BitVec 64) (cs : BitVec 16) :
    ∃ c : Context, execAll (timerIsrSave next) (s.interrupt rsp0 cs handler) =
      { s with
        toContext := c
        mem := store (storeWords s.mem (s.stackFor rsp0 - 160) s.toContext.words)
          (((s.stackFor rsp0 - 160) &&& -16) - 8) (n := 8) next } ∧
      c.regs .rdi = s.stackFor rsp0 - 160 ∧
      c.regs .rsp = ((s.stackFor rsp0 - 160) &&& -16) - 8 := by
  have hpush : execAll saveContext (s.interrupt rsp0 cs handler) = _ :=
    Amd64.execAll_pushes (by decide) _
  have hlen : savedRegs.length = 15 := rfl
  have hsub : s.stackFor rsp0 - 40 - BitVec.ofNat 64 (8 * 15) = s.stackFor rsp0 - 160 := by
    rw [← sub_add_eq_sub_sub]
    rfl
  -- the processor's five words end where the fifteen registers begin
  have hwords : storeWords s.mem (s.stackFor rsp0 - 160) s.toContext.words
      = storeWords (storeWords s.mem (s.stackFor rsp0 - 40)
          [s.rip, s.cs.setWidth 64, s.rflags, s.regs .rsp, s.ss.setWidth 64])
        (s.stackFor rsp0 - 160) (savedRegs.reverse.map s.regs) := by
    rw [Context.words, Amd64.storeWords_append, ← hsub, List.length_map, List.length_reverse, hlen,
      sub_add_cancel]
  have hkept : savedRegs.reverse.map (Function.update s.regs .rsp (s.stackFor rsp0 - 40))
      = savedRegs.reverse.map s.regs := rfl
  simp only [Machine.interrupt, Machine.set, Function.update_self, Function.update_idem, hlen,
    hsub, hkept, ← hwords] at hpush
  rw [timerIsrSave, Amd64.execAll_append, Machine.interrupt, Machine.set, hpush]
  simp only [Amd64.execAll_cons, Amd64.execAll_nil, Instr.exec, Machine.set, Machine.push,
    Function.update_self, Function.update_idem]
  exact ⟨_, rfl, rfl, rfl⟩

/-- The context `block_and_switch` saves: a return to its label `2` at ring 0 with interrupts off,
with the stack as it was. -/
def blockedContext (resumePoint : BitVec 64) (regs : Reg → BitVec 64) : Context where
  regs := Function.update regs .rax resumePoint
  rip := resumePoint
  rflags := 0x2
  cs := 0x8
  ss := 0x10

/-- `block_and_switch` in front of its pushes: the words for `iretq`. -/
theorem execAll_blockFrame (s : Machine) (resumePoint : BitVec 64) :
    execAll [.mov .rax .rsp, .pushImm 0x10, .push .rax, .pushImm 0x2, .pushImm 0x8,
      .lea .rax resumePoint, .push .rax] s =
      { s with
        regs := Function.update (Function.update s.regs .rax resumePoint) .rsp (s.regs .rsp - 40)
        mem := storeWords s.mem (s.regs .rsp - 40)
          [resumePoint, 0x8, 0x2, s.regs .rsp, 0x10] } := by
  have hregs : ∀ a b, Function.update (Function.update (Function.update (Function.update s.regs
      .rax (s.regs .rsp)) .rsp a) .rax resumePoint) .rsp b
      = Function.update (Function.update s.regs .rax resumePoint) .rsp b := by
    intro a b
    funext r
    cases r <;> rfl
  simp only [Amd64.execAll_cons, Amd64.execAll_nil, Instr.exec, Machine.set, Machine.push,
    storeWords, Function.update_self, Function.update_idem, ne_eq, reduceCtorEq, not_false_eq_true,
    Function.update_of_ne, sub_sub, sub_add, BitVec.reduceAdd, BitVec.reduceSub, hregs]
  rfl

/-- **A blocking call** saves its context below its return address, stores where through
`save_slot`, and is left for the context that `next_rsp` points to. -/
theorem execAll_blockAndSwitch {s : Machine} {resumePoint : BitVec 64} {c : Context} {m : Mem}
    (hm : m = store (storeWords s.mem (s.regs .rsp - 160) (blockedContext resumePoint s.regs).words)
      (s.regs .rdi) (n := 8) (s.regs .rsp - 160))
    (h : HoldsContext m (s.regs .rsi) c) :
    execAll (blockAndSwitch resumePoint) s =
      { s with toContext := c, gsBase := s.kernelGsBase, kernelGsBase := s.gsBase, mem := m } := by
  have hpush : execAll saveContext _ = _ := Amd64.execAll_pushes (by decide)
    { s with
        regs := Function.update (Function.update s.regs .rax resumePoint) .rsp (s.regs .rsp - 40)
        mem := storeWords s.mem (s.regs .rsp - 40) [resumePoint, 0x8, 0x2, s.regs .rsp, 0x10] }
  have hlen : savedRegs.length = 15 := rfl
  have hsub : s.regs .rsp - 40 - BitVec.ofNat 64 (8 * 15) = s.regs .rsp - 160 := by
    rw [← sub_add_eq_sub_sub]
    rfl
  have hwords : storeWords s.mem (s.regs .rsp - 160) (blockedContext resumePoint s.regs).words
      = storeWords (storeWords s.mem (s.regs .rsp - 40) [resumePoint, 0x8, 0x2, s.regs .rsp, 0x10])
        (s.regs .rsp - 160) (savedRegs.reverse.map (Function.update s.regs .rax resumePoint)) := by
    rw [Context.words, Amd64.storeWords_append, ← hsub, List.length_map, List.length_reverse, hlen,
      sub_add_cancel]
    rfl
  have hkept : ∀ a, savedRegs.reverse.map (Function.update (Function.update s.regs .rax resumePoint)
      .rsp a) = savedRegs.reverse.map (Function.update s.regs .rax resumePoint) := fun _ => rfl
  simp only [Function.update_self, Function.update_idem, hlen, hsub, hkept, ← hwords] at hpush
  rw [blockAndSwitch, blockAndSwitchSave, List.append_assoc, List.append_assoc, List.append_assoc,
    Amd64.execAll_append, execAll_blockFrame, Amd64.execAll_append, hpush, Amd64.execAll_append,
    Amd64.execAll_append]
  simp only [Amd64.execAll_cons, Amd64.execAll_nil, Instr.exec, Machine.set, Function.update_self,
    ne_eq, reduceCtorEq, not_false_eq_true, Function.update_of_ne, ← hm]
  rw [execAll_restoreContext (c := c) (by simpa using h)]

theorem execAll_timerIsrRestore {s : Machine} {c : Context}
    (h : HoldsContext s.mem (s.regs .rax) c) :
    execAll timerIsrRestore s = { s with toContext := c } := by
  rw [timerIsrRestore, Amd64.execAll_cons, execAll_restoreContext (c := c)]
  · rfl
  · simpa [Instr.exec, Machine.set] using h

theorem execAll_jumpToTask {s : Machine} {c : Context} (h : HoldsContext s.mem (s.regs .rdi) c) :
    execAll jumpToTask s = { s with toContext := c } := by
  rw [jumpToTask, Amd64.execAll_cons, execAll_restoreContext (c := c)]
  · rfl
  · simpa [Instr.exec, Machine.set] using h

/-! ### The first context of a task -/

/-- The context a task starts in. -/
def TaskFrame.context (f : TaskFrame) : Context where
  regs := Function.update (Function.update (fun _ => 0) .rdi f.rdi) .rsp f.rsp
  rip := f.rip
  rflags := f.rflags
  cs := f.cs
  ss := f.ss

/-- **A new task** has its first context where the switch looks for it. -/
theorem holdsContext_writeTaskFrame (m : Mem) (top : Addr) (f : TaskFrame) :
    HoldsContext (writeTaskFrame m top f) (top - 160) f.context := by
  have hzero : loadWords (storeWords m (top - 160) (List.replicate 15 0)) (top - 160) 20
      = List.replicate 15 0 ++ loadWords (storeWords m (top - 160) (List.replicate 15 0))
          (top - 160 + BitVec.ofNat 64 (8 * 15)) 5 := by
    rw [Amd64.loadWords_add _ _ 15 5]
    congr 1
    exact Amd64.loadWords_storeWords m (top - 160) (List.replicate 15 0) (by decide)
  rw [HoldsContext, writeTaskFrame]
  rw [Amd64.loadWords_store _ _ (by decide) (by decide), Amd64.loadWords_store _ _ (by decide)
    (by decide), Amd64.loadWords_store _ _ (by decide) (by decide), Amd64.loadWords_store _ _
    (by decide) (by decide), Amd64.loadWords_store _ _ (by decide) (by decide),
    Amd64.loadWords_store _ _ (by decide) (by decide), hzero]
  rfl

/-- The words of a first context lie in the `160` bytes below the top of the stack. -/
theorem writeTaskFrame_of_not_inRange {m : Mem} {top x : Addr} {f : TaskFrame}
    (h : ¬InRange (top - 160) 160 x) : writeTaskFrame m top f x = m x := by
  have hword : ∀ {j : ℕ}, j < 20 → ¬InRange (top - 160 + BitVec.ofNat 64 (8 * j)) 8 x := by
    intro j hj hx
    refine h (hx.mono ?_)
    rw [Amd64.toNat_add_ofNat_sub _ (by omega)]
    omega
  have hzero : ¬InRange (top - 160) (8 * (List.replicate 15 (0 : BitVec 64)).length) x := by
    intro hx
    refine h (hx.mono ?_)
    rw [BitVec.sub_self]
    decide
  simp only [writeTaskFrame]
  rw [Amd64.store_of_not_inRange (n := 8) (hword (by decide)), Amd64.store_of_not_inRange (n := 8)
    (hword (by decide)), Amd64.store_of_not_inRange (n := 8) (hword (by decide)),
    Amd64.store_of_not_inRange (n := 8) (hword (by decide)), Amd64.store_of_not_inRange (n := 8)
    (hword (by decide)), Amd64.store_of_not_inRange (n := 8) (hword (by decide)),
    Amd64.storeWords_of_not_inRange hzero]

/-! ### Syscalls -/

/-- **The way into the kernel**: with the per-CPU block at `g` and the top of the kernel stack in
its first word, the arguments of the call arrive in the registers and the stack slot where
`syscall_dispatch` looks for them, and what the way back needs is on the stack. -/
theorem execAll_syscallEntry (s : Machine) {g k : Addr} (entry next : BitVec 64)
    (hg : s.kernelGsBase = g) (hk : load s.mem 8 g = k) :
    ∃ c : Context, execAll (syscallEntry next) (s.syscall entry sfMask 0x08 0x10) =
      { s with
        toContext := c
        gsBase := g
        kernelGsBase := s.gsBase
        mem := storeWords (store s.mem (g + 8) (n := 8) (s.regs .rsp)) (k - 40)
          [next, s.regs .r9, s.rip + 2, s.rflags, s.regs .rsp] } ∧
      c.regs = (fun
        | .rdi => s.regs .rax
        | .rsi => s.regs .rdi
        | .rdx => s.regs .rsi
        | .rcx => s.regs .rdx
        | .r8 => s.regs .r10
        | .r9 => s.regs .r8
        | .r11 => s.rflags
        | .rsp => k - 40
        | r => s.regs r) := by
  have hstack : load (store s.mem (g + 8) (n := 8) (s.regs .rsp)) 8 g = k := by
    refine (Amd64.load_store_of_apart (n := 8) (k := 8) (by decide) fun x hx hx' => ?_).trans hk
    exact Amd64.InRange.not_head (n := 1) (by decide) hx' hx
  have huser : load (store s.mem (g + 8) (n := 8) (s.regs .rsp)) 8 (g + 8) = s.regs .rsp :=
    Amd64.load_store_self s.mem (g + 8) (n := 8) (by decide) (s.regs .rsp)
  simp only [syscallEntry, Amd64.execAll_cons, Amd64.execAll_nil, Instr.exec, Machine.syscall,
    Machine.set, Machine.push, hg, add_zero, hstack, huser, Function.update_self,
    Function.update_idem, ne_eq, reduceCtorEq, not_false_eq_true, Function.update_of_ne,
    storeWords, sub_sub, sub_add, BitVec.reduceAdd, BitVec.reduceSub]
  refine ⟨_, rfl, ?_⟩
  funext r
  cases r <;> rfl

/-- **The way back**: the user's registers are as they were, up to the three results, the two
registers that `sysretq` reads, and four registers that are cleared. -/
theorem execAll_syscallExit {s : Machine} {k rip rflags rsp : BitVec 64}
    (hrsp : s.regs .rsp = k - 32) (hstack : loadWords s.mem (k - 24) 3 = [rip, rflags, rsp]) :
    execAll syscallExit s =
      { s with
        regs := fun
          | .rsi => s.regs .rdx
          | .rdx => load s.mem 8 (s.gsBase + 16)
          | .rcx => rip
          | .r11 => rflags
          | .rsp => rsp
          | .rdi | .r8 | .r9 | .r10 => 0
          | r => s.regs r
        rip := rip
        rflags := Amd64.sysretFlags rflags
        cs := 0x23
        ss := 0x1b
        gsBase := s.kernelGsBase
        kernelGsBase := s.gsBase } := by
  simp only [loadWords, List.cons.injEq, and_true] at hstack
  obtain ⟨hrip, hflags, hursp⟩ := hstack
  have h24 : k - 32 + 8 = k - 24 := by
    rw [sub_add]
    rfl
  simp only [syscallExit, Amd64.execAll_cons, Amd64.execAll_nil, Instr.exec, Machine.set,
    Machine.top, hrsp, h24, hrip, hflags, hursp, Function.update_self, ne_eq, reduceCtorEq,
    not_false_eq_true, Function.update_of_ne]
  congr 2
  funext r
  cases r <;> rfl

end Cairn
