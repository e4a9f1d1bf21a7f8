import Cairn.Internal.Contexts
import Cairn.Kernel.Parking
import Mathlib.Algebra.BigOperators.Ring.Finset
import Mathlib.Data.Fintype.Card

/-!
# The scheduler as a system of its own

Seen from the task table, the kernel does little: an operation leaves the table alone, wakes a
task, admits one, or switches. A switch first does something to the running task (it is saved,
parked or dropped, and in the last case the restart hook may admit a task) and then runs the same
tail: roll the deadlines, pick, publish, restore. `Kernel.Move` lists these possibilities, and
`Kernel.move_schedStep` says that every operation is one of them. What is said about whole runs of
the scheduler is derived from `Move` alone.

The system here is larger than the kernel: besides all its operations, `block_current` and
`unblock` may be called at any time, with any arguments, and not only by the endpoint path.

## Main definitions

* `Task.Rolled` — two versions of a task differ in what `roll_deadlines` updates
* `Kernel.Published` — the current domain and both kernel-stack words are the running task's
* `Kernel.Dispatch` — the tail of a switch
* `SchedOp`, `Kernel.schedStep`, `schedAfter` — operations, one step, and the state after a run
* `Kernel.events` — the contexts a step stores, resumes and loses
* `Kernel.Move` — what a step can do to the task table
* `Kernel.Tally`, `Kernel.Scheduled` — the invariant, without and with the running task

## Main results

* `Kernel.move_schedStep` — every step is a move
* `scheduler_invariant` — the scheduler invariant holds after every run
-/

namespace Cairn

/-- `t'` is `t` up to the fields `roll_deadlines` updates. -/
def Task.Rolled (t t' : Task) : Prop :=
  ∃ a d r, t' = { t with activations := a, absDeadlineNs := d, runnable := r }

theorem Task.Rolled.refl (t : Task) : t.Rolled t := ⟨_, _, _, rfl⟩

theorem Task.Rolled.trans {t₁ t₂ t₃ : Task} (h₁ : t₁.Rolled t₂) (h₂ : t₂.Rolled t₃) :
    t₁.Rolled t₃ := by
  obtain ⟨_, _, _, rfl⟩ := h₁
  obtain ⟨a, d, r, rfl⟩ := h₂
  exact ⟨a, d, r, rfl⟩

namespace Task.Rolled

variable {t t' : Task} (h : t.Rolled t')
include h

theorem present : t'.present = t.present := by obtain ⟨_, _, _, rfl⟩ := h; rfl

theorem blocked : t'.blocked = t.blocked := by obtain ⟨_, _, _, rfl⟩ := h; rfl

theorem kstackTop : t'.kstackTop = t.kstackTop := by obtain ⟨_, _, _, rfl⟩ := h; rfl

theorem rsp : t'.rsp = t.rsp := by obtain ⟨_, _, _, rfl⟩ := h; rfl

theorem domain : t'.domain = t.domain := by obtain ⟨_, _, _, rfl⟩ := h; rfl

theorem seat : t'.seat = t.seat := by obtain ⟨_, _, _, rfl⟩ := h; rfl

end Task.Rolled

namespace Scheduler

theorem rolled_rollLoop (now : ℕ) {fuel : ℕ} {t t' : Task} (h : rollLoop now fuel t = some t') :
    t.Rolled t' := by
  induction fuel generalizing t with
  | zero => cases h
  | succ fuel ih =>
    rw [rollLoop] at h
    split at h
    · exact Task.Rolled.trans ⟨_, _, _, rfl⟩ (ih h)
    · cases h
      exact .refl _

theorem rolled_rollDeadlines (s : Scheduler) (now : ℕ) (t : Fin maxTasks) :
    (s.tasks t).Rolled ((s.rollDeadlines now).tasks t) := by
  simp only [rollDeadlines]
  split
  · exact .refl _
  · rw [rollTask]
    split
    · exact .refl _
    · cases h : rollLoop now (now + 2 - (s.tasks t).absDeadlineNs) (s.tasks t) with
      | none => exact .refl _
      | some t' => exact rolled_rollLoop now h

end Scheduler

namespace Kernel

variable {μ : Type}

/-! ### The tail of a switch -/

/-- The current domain, the `rsp0` of the TSS and that of the per-CPU block belong to the running
task. -/
structure Published (k : Kernel μ) : Prop where
  domain : k.currentDomain = (k.task k.current).domain
  rsp0 : k.rsp0 = (k.task k.current).kstackTop
  kernelRsp0 : k.perCpu.kernelRsp0 = (k.task k.current).kstackTop

/-- The words of the running task do not depend on another one. -/
theorem Published.setTask {k : Kernel μ} (h : k.Published) {t : Fin maxTasks} (ht : k.current ≠ t)
    (a : Task) : (k.setTask t a).Published := by
  have htask : (k.setTask t a).task k.current = k.task k.current := by
    rw [task_setTask, if_neg ht]
  exact ⟨h.domain.trans (congrArg Task.domain htask.symm),
    h.rsp0.trans (congrArg Task.kstackTop htask.symm),
    h.kernelRsp0.trans (congrArg Task.kstackTop htask.symm)⟩

/-- What the tail of a switch does: deadlines are rolled, the idle task or one that is present and
not parked runs, its words are published, and its saved context is restored. -/
structure Dispatch (k : Kernel μ) (r : Trace × Kernel μ) : Prop where
  rest : ∃ s d rsp0 perCpu parkedIn, r.2 = { k with
    sched := s, currentDomain := d, rsp0 := rsp0, perCpu := perCpu, parkedIn := parkedIn }
  tasks : ∀ t, (k.task t).Rolled (r.2.task t)
  num : r.2.sched.num = k.sched.num
  eligible : r.2.current = 0 ∨
    (k.task r.2.current).present = true ∧ (k.task r.2.current).blocked = false
  published : r.2.Published
  restored : r.1.restored = some (k.task r.2.current).rsp

theorem Dispatch.frames {k : Kernel μ} {r : Trace × Kernel μ} (h : Dispatch k r) :
    r.2.frames = k.frames := by
  obtain ⟨_, _, _, _, _, heq⟩ := h.rest
  rw [heq]

/-- Resuming the running task changes its syscall flag and the word for the reply CPtr. -/
theorem resume_snd (k : Kernel μ) : ∃ parkedIn reply, k.resume.2 =
    { k with parkedIn := parkedIn, perCpu := { k.perCpu with replyCptr := reply } } := by
  rw [resume]
  split
  · exact ⟨_, _, rfl⟩
  · exact ⟨k.parkedIn, k.perCpu.replyCptr, rfl⟩

/-- The tail, from a state that has picked and published: `k₁` is such a state, and it goes on
by resuming the running task. -/
theorem Dispatch.of_resume {k k₁ : Kernel μ}
    (hrest : ∃ s d rsp0 perCpu parkedIn, k₁ = { k with
      sched := s, currentDomain := d, rsp0 := rsp0, perCpu := perCpu, parkedIn := parkedIn })
    (htasks : ∀ t, (k.task t).Rolled (k₁.task t)) (hnum : k₁.sched.num = k.sched.num)
    (helig : k₁.current = 0 ∨
      (k.task k₁.current).present = true ∧ (k.task k₁.current).blocked = false)
    (hpub : k₁.Published) {rsp : BitVec 64} (hrsp : rsp = (k.task k₁.current).rsp)
    (ret : Option (Fin maxTasks × IpcResult)) :
    Dispatch k ({ restored := some rsp, sysret := ret }, k₁.resume.2) := by
  obtain ⟨s, d, rsp0, pc, pi, rfl⟩ := hrest
  obtain ⟨pi', reply, heq⟩ := resume_snd ({ k with
    sched := s, currentDomain := d, rsp0 := rsp0, perCpu := pc, parkedIn := pi } : Kernel μ)
  rw [heq]
  exact ⟨⟨_, _, _, _, _, rfl⟩, htasks, hnum, helig,
    ⟨hpub.domain, hpub.rsp0, hpub.kernelRsp0⟩, congrArg some hrsp⟩

theorem rolled_reschedule (p : Platform μ) (k : Kernel μ) (t : Fin maxTasks) :
    (k.task t).Rolled ((k.reschedule p).task t) :=
  k.sched.rolled_rollDeadlines (k.nowNs p) t

theorem eligible_reschedule (p : Platform μ) (k : Kernel μ) :
    (k.reschedule p).current = 0 ∨ (k.task (k.reschedule p).current).present = true ∧
      (k.task (k.reschedule p).current).blocked = false := by
  have hroll := k.rolled_reschedule p (k.reschedule p).current
  rcases (k.sched.rollDeadlines (k.nowNs p)).pickNext_eligible with h | ⟨hp, -, hb⟩
  · exact Or.inl h
  · exact Or.inr ⟨hroll.present.symm.trans hp, hroll.blocked.symm.trans hb⟩

theorem dispatch_restore (p : Platform μ) (k : Kernel μ) : Dispatch k (k.reschedule p).restore :=
  Dispatch.of_resume ⟨_, _, _, _, _, rfl⟩ (k.rolled_reschedule p) rfl (k.eligible_reschedule p)
    ⟨rfl, rfl, rfl⟩ (k.rolled_reschedule p _).rsp _

/-- The running task as `block_current` leaves it: parked, its context saved. -/
def parkSaved (k : Kernel μ) (reason epOid : ℕ) (savedRsp : BitVec 64) : Kernel μ :=
  k.setTask k.current { k.task k.current with
    blocked := true, blockReason := reason, waitEp := epOid, rsp := savedRsp }

/-- `block_current` reads the context of the next task before it saves that of the running one.
They are different tasks, because the running one is parked and not the idle one. -/
theorem dispatch_blockCurrent (p : Platform μ) (k : Kernel μ) (hne : k.current ≠ 0)
    (reason epOid : ℕ) (rsp : BitVec 64) :
    Dispatch (k.parkSaved reason epOid rsp) (k.blockCurrent p reason epOid rsp) := by
  have hroll := (k.parkCurrent reason epOid).rolled_reschedule p
  have helig := (k.parkCurrent reason epOid).eligible_reschedule p
  rw [blockCurrent]
  dsimp only
  generalize hk₁ : (k.parkCurrent reason epOid).reschedule p = k₁ at hroll helig
  have hsame : ∀ t ≠ k.current, (k.parkSaved reason epOid rsp).task t
      = (k.parkCurrent reason epOid).task t := fun t ht => by
    rw [parkSaved, task_setTask, if_neg ht, parkCurrent, task_setTask, if_neg ht]
  have hself : (k.parkCurrent reason epOid).task k.current
      = { k.task k.current with blocked := true, blockReason := reason, waitEp := epOid } := by
    rw [parkCurrent, task_setTask, if_pos rfl]
  -- the next task is not the one that parks
  have hnext : k₁.current ≠ k.current := by
    intro h
    rcases helig with h0 | ⟨-, hb⟩
    · exact hne (h ▸ h0)
    · rw [h, hself] at hb
      cases hb
  refine Dispatch.of_resume ?_ (fun t => ?_) ?_ ?_ ?_ ?_ _
  · exact ⟨_, _, _, _, _, by rw [← hk₁]; rfl⟩
  · show Task.Rolled _ ((k₁.setTask k.current _).task t)
    rw [task_setTask]
    by_cases ht : t = k.current
    · subst ht
      obtain ⟨a, d, r, heq⟩ := hroll k.current
      rw [if_pos rfl, heq, hself, parkSaved, task_setTask, if_pos rfl]
      exact ⟨a, d, r, rfl⟩
    · rw [if_neg ht, hsame t ht]
      exact hroll t
  · rw [← hk₁]
    rfl
  · show k₁.current = 0 ∨ _
    rw [show ({ k₁.setTask k.current _ with parkedIn := _ } : Kernel μ).current = k₁.current
      from rfl, hsame _ hnext]
    exact helig
  · have hpub : k₁.Published := by
      rw [← hk₁]
      exact ⟨rfl, rfl, rfl⟩
    have hsaved := hpub.setTask hnext { k₁.task k.current with rsp := rsp }
    exact ⟨hsaved.domain, hsaved.rsp0, hsaved.kernelRsp0⟩
  · show (k₁.task k₁.current).rsp = ((k.parkSaved reason epOid rsp).task k₁.current).rsp
    rw [hsame _ hnext]
    exact (hroll _).rsp

end Kernel

/-! ### Operations and events -/

/-- An operation of the scheduler: one of the kernel's, or a direct call of `block_current` or
`unblock`. -/
inductive SchedOp (μ : Type)
  | op (op : Op μ)
  | block (reason epOid : ℕ) (savedRsp : BitVec 64)
  | unblock (task : ℕ) (r : IpcResult)

namespace Kernel

variable {μ : Type}

/-- One operation. -/
def schedStep (p : Platform μ) (k : Kernel μ) : SchedOp μ → Trace × Kernel μ
  | .op op => k.step p op
  | .block reason epOid savedRsp => k.blockCurrent p reason epOid savedRsp
  | .unblock task r => ({}, k.unblock task r)

/-- Only ring-3 tasks make syscalls, block or fault. -/
def Fair (k : Kernel μ) : SchedOp μ → Prop
  | .op (.syscall ..) | .op .fault | .block .. => k.InRing3
  | _ => True

/-- The context an admission stores, if it is not refused. -/
def admitted (r : Option (Fin maxTasks) × Kernel μ) :
    List (Contexts.Event (Fin maxTasks) (BitVec 64)) :=
  match r.1 with
  | some i => [.store i (r.2.task i).rsp]
  | none => []

/-- The contexts an operation stores and loses in front of its switch, latest first: admission
stores the first context of a task, a tick and a call that parks store that of the running task,
and a fault loses it. -/
def storeEvents (p : Platform μ) (k : Kernel μ) :
    SchedOp μ → List (Contexts.Event (Fin maxTasks) (BitVec 64))
  | .op (.admitTask entry c period rel budget) => admitted (k.admitTask p entry c period rel budget)
  | .op (.admitUser entry stackTop mem c d period rel budget) =>
    admitted (k.admitUser p entry stackTop mem c d period rel budget)
  | .op (.tick rsp) => if k.sched.num ≤ 1 then [] else [.store k.current rsp]
  | .op (.syscall nr c method arg0 xfer rsp) =>
    if (k.syscall p nr c method arg0 xfer rsp).1.restored = none then [] else [.store k.current rsp]
  | .op .fault => admitted (k.afterDeath p) ++ [.drop k.current]
  | .block _ _ rsp => [.store k.current rsp]
  | _ => []

/-- The operation may switch: a tick with one task left continues that task. -/
def switches (k : Kernel μ) : SchedOp μ → Bool
  | .op (.tick _) => 1 < k.sched.num
  | _ => true

/-- The context an operation switches to, if it does. -/
def resumeEvents (p : Platform μ) (k : Kernel μ) (op : SchedOp μ) :
    List (Contexts.Event (Fin maxTasks) (BitVec 64)) :=
  if k.switches op then
    ((k.schedStep p op).1.restored.map (.resume (k.schedStep p op).2.current)).toList
  else []

/-- What an operation does to the saved contexts, latest first. -/
def events (p : Platform μ) (k : Kernel μ) (op : SchedOp μ) :
    List (Contexts.Event (Fin maxTasks) (BitVec 64)) :=
  k.resumeEvents p op ++ k.storeEvents p op

end Kernel

/-- The state after a run of the scheduler, latest operation first. -/
def schedAfter {μ : Type} (p : Platform μ) (m₀ : μ) (h : List (SchedOp μ)) : Kernel μ :=
  Runs.after (fun k op => (k.schedStep p op).2) (Kernel.init p m₀) h

/-! ### Moves -/

namespace Kernel

variable {μ : Type}

theorem SameTasks.unblock {k k' : Kernel μ} (h : SameTasks k k') (t : ℕ) (r : IpcResult) :
    SameTasks (k.unblock t r) (k'.unblock t r) := by
  by_cases ht : t < maxTasks
  · simp only [Kernel.unblock, dif_pos ht, setTask, h.task]
    exact ⟨by rw [h.sched], h.frames⟩
  · simpa only [Kernel.unblock, dif_neg ht] using h

theorem SameTasks.admitInto {k k' : Kernel μ} (h : SameTasks k k') (i : Fin maxTasks) (a : Task)
    (frame : TaskFrame) : SameTasks (k.admitInto i a frame) (k'.admitInto i a frame) :=
  ⟨by simp only [Kernel.admitInto, h.sched], by simp only [Kernel.admitInto, h.frames]⟩

/-- `a` is a task as an admission writes it into slot `i`. -/
structure New (p : Platform μ) (i : Fin maxTasks) (a : Task) : Prop where
  present : a.present = true
  free : a.blocked = false
  kstackTop : a.kstackTop = p.taskKstackTop i

theorem new_newTask (p : Platform μ) (k : Kernel μ) (i : Fin maxTasks) (d period rel budget : ℕ) :
    New p i (k.newTask p i d period rel budget) := ⟨rfl, rfl, rfl⟩

/-- **What a step can do to the task table**, with the events of the step. -/
inductive Move (p : Platform μ) (k : Kernel μ) :
    List (Contexts.Event (Fin maxTasks) (BitVec 64)) → Trace × Kernel μ → Prop
  | still {r} (same : SameTasks k r.2) (restored : r.1.restored = none) : Move p k [] r
  | continues {r} (one : k.sched.num ≤ 1) (same : SameTasks k r.2) (pub : r.2.Published) :
    Move p k [] r
  | wakes {r} (t : ℕ) (res : IpcResult) (same : SameTasks (k.unblock t res) r.2)
      (restored : r.1.restored = none) : Move p k [] r
  | admits {r} (i : Fin maxTasks) (a : Task) (frame : TaskFrame)
      (free : k.sched.freeSlot = some i) (new : New p i a)
      (same : SameTasks (k.admitInto i a frame) r.2) (restored : r.1.restored = none) :
    Move p k [.store i a.rsp] r
  | preempts {r k₁} (rsp : BitVec 64)
      (same : SameTasks (k.setTask k.current { k.task k.current with rsp := rsp }) k₁)
      (tail : Dispatch k₁ r) :
    Move p k [.resume r.2.current (k₁.task r.2.current).rsp, .store k.current rsp] r
  | parks {r k₁} (reason epOid : ℕ) (rsp : BitVec 64) (ring3 : k.InRing3)
      (same : SameTasks (k.parkSaved reason epOid rsp) k₁) (tail : Dispatch k₁ r) :
    Move p k [.resume r.2.current (k₁.task r.2.current).rsp, .store k.current rsp] r
  | dies {r k₁} (ring3 : k.InRing3) (same : SameTasks k.dropCurrent k₁) (tail : Dispatch k₁ r) :
    Move p k [.resume r.2.current (k₁.task r.2.current).rsp, .drop k.current] r
  | restarts {r k₁} (i : Fin maxTasks) (a : Task) (frame : TaskFrame) (ring3 : k.InRing3)
      (free : k.dropCurrent.sched.freeSlot = some i) (new : New p i a)
      (same : SameTasks (k.dropCurrent.admitInto i a frame) k₁) (tail : Dispatch k₁ r) :
    Move p k [.resume r.2.current (k₁.task r.2.current).rsp, .store i a.rsp, .drop k.current] r

theorem events_of_restored_none {p : Platform μ} {k : Kernel μ} {op : SchedOp μ}
    (h : (k.schedStep p op).1.restored = none) : k.events p op = k.storeEvents p op := by
  rw [events, resumeEvents, h]
  split <;> rfl

theorem events_of_dispatch {p : Platform μ} {k k₁ : Kernel μ} {op : SchedOp μ}
    (hsw : k.switches op = true) (h : Dispatch k₁ (k.schedStep p op)) :
    k.events p op = .resume (k.schedStep p op).2.current
      (k₁.task (k.schedStep p op).2.current).rsp :: k.storeEvents p op := by
  rw [events, resumeEvents, if_pos hsw, h.restored]
  rfl

theorem task_admitInto (k : Kernel μ) (i t : Fin maxTasks) (a : Task) (frame : TaskFrame) :
    (k.admitInto i a frame).task t = if t = i then a else k.task t := by
  simp only [Kernel.task, Kernel.admitInto, Function.update_apply]

theorem admitted_admitInto (k : Kernel μ) (i : Fin maxTasks) (a : Task) (frame : TaskFrame) :
    admitted (some i, k.admitInto i a frame) = [.store i a.rsp] := by
  show [Contexts.Event.store i ((k.admitInto i a frame).task i).rsp] = _
  rw [task_admitInto, if_pos rfl]

/-- Admission is a move. -/
theorem move_admitWith {p : Platform μ} {k : Kernel μ} {op : SchedOp μ}
    (frame : Fin maxTasks → TaskFrame) (cptr domain period rel budget : ℕ)
    (hstep : k.schedStep p op = ({}, (k.admitWith p frame cptr domain period rel budget).2))
    (hstore : k.storeEvents p op = admitted (k.admitWith p frame cptr domain period rel budget)) :
    Move p k (k.events p op) (k.schedStep p op) := by
  rw [events_of_restored_none (by rw [hstep]), hstep, hstore]
  rcases k.admitWith_eq p frame cptr domain period rel budget with h | ⟨i, -, -, hfree, h⟩
  · rw [h]
    exact .still ⟨rfl, rfl⟩ rfl
  · rw [h, admitted_admitInto]
    exact .admits i _ _ hfree (k.new_newTask p i domain period rel budget) ⟨rfl, rfl⟩ rfl

/-- A call that blocks is a move. -/
theorem move_block {p : Platform μ} {k k₀ : Kernel μ} {op : SchedOp μ} (hne : k.current ≠ 0)
    (h3 : k.InRing3) (hsame : SameTasks k k₀) (hsw : k.switches op = true) {reason epOid : ℕ}
    {rsp : BitVec 64} (hstep : k.schedStep p op = k₀.blockCurrent p reason epOid rsp)
    (hstore : k.storeEvents p op = [.store k.current rsp]) :
    Move p k (k.events p op) (k.schedStep p op) := by
  have hcur : k₀.current = k.current := congrArg Scheduler.current hsame.sched
  have hdisp := k₀.dispatch_blockCurrent p (hcur ▸ hne) reason epOid rsp
  rw [← hstep] at hdisp
  rw [events_of_dispatch hsw hdisp, hstore]
  refine .parks reason epOid rsp h3 ⟨?_, hsame.frames⟩ hdisp
  simp only [parkSaved, setTask, Kernel.task, Kernel.current, hsame.sched]

/-- A rendezvous changes the task table by waking the partner. -/
theorem sameTasks_meet (k : Kernel μ) (c : Call) :
    SameTasks (k.unblock (k.endpoints c.ep).peerTask (k.partnerResult c)) (k.meet c) := by
  obtain ⟨s, -, -, heq⟩ := k.meet_eq c
  rw [heq]
  refine SameTasks.unblock ?_ _ _
  exact ⟨rfl, rfl⟩

theorem sameTasks_setReplyCptr (k : Kernel μ) (c : BitVec 16) : SameTasks k (k.setReplyCptr c) :=
  ⟨rfl, rfl⟩

theorem move_syscall (p : Platform μ) (k : Kernel μ) (hne : k.current ≠ 0) (h3 : k.InRing3)
    (nr cptr method arg0 xfer rsp : BitVec 64) :
    Move p k (k.events p (.op (.syscall nr cptr method arg0 xfer rsp)))
      (k.schedStep p (.op (.syscall nr cptr method arg0 xfer rsp))) := by
  have hcases : SyscallIs p k rsp _ (k.schedStep p (.op (.syscall nr cptr method arg0 xfer rsp))) :=
    k.syscall_cases p nr cptr method arg0 xfer rsp
  have hstore : k.storeEvents p (.op (.syscall nr cptr method arg0 xfer rsp))
      = if (k.schedStep p (.op (.syscall nr cptr method arg0 xfer rsp))).1.restored = none then []
        else [.store k.current rsp] := rfl
  have hnone : (k.schedStep p (.op (.syscall nr cptr method arg0 xfer rsp))).1.restored = none →
      k.events p (.op (.syscall nr cptr method arg0 xfer rsp)) = [] := by
    intro h
    rw [events_of_restored_none h, hstore, if_pos h]
  generalize k.callOf (.syscall nr cptr method arg0 xfer rsp) = call at hcases
  generalize hr : k.schedStep p (.op (.syscall nr cptr method arg0 xfer rsp)) = r
    at hcases hstore hnone
  rw [← hr]
  cases hcases with
  | other st reply k' hk _ =>
    rw [hnone rfl, hr]
    exact .still hk.aside.toSameTasks rfl
  | refused c st k' _ _ hk =>
    rw [hnone rfl, hr]
    exact .still hk.aside.toSameTasks rfl
  | met c hw reply =>
    rw [hnone rfl, hr]
    have hwake := ((sameTasks_setReplyCptr k cptrNone).unblock (k.endpoints c.ep).peerTask
      (k.entered.partnerResult c)).trans (k.entered.sameTasks_meet c)
    exact .wakes _ _ (hwake.trans (sameTasks_setReplyCptr _ reply)) rfl
  | parks c hw =>
    refine move_block hne h3 ?_ rfl hr ?_
    · exact (sameTasks_setReplyCptr k cptrNone).trans ⟨rfl, rfl⟩
    · have hblocked := (dispatch_blockCurrent p (k.entered.setEndpoint c.ep
        (c.offer (k.endpoints c.ep))) hne c.side.reason c.ep rsp).restored
      rw [hstore, if_neg (by rw [hblocked]; exact nofun)]

/-- The state a termination switches from: the running task has been dropped, and perhaps a task
admitted. -/
theorem afterDeath_cases (p : Platform μ) (k : Kernel μ) :
    ∃ k₀, SameTasks k.dropCurrent k₀ ∧ (k.afterDeath p = (none, k₀) ∨
      ∃ (i : Fin maxTasks) (a : Task) (frame : TaskFrame), k₀.sched.freeSlot = some i ∧
        New p i a ∧ k.afterDeath p = (some i, k₀.admitInto i a frame)) := by
  have hreaped : SameTasks k.dropCurrent (k.reaped p) := by
    obtain ⟨_, _, _, _, heq⟩ := k.reaped_eq p
    rw [heq]
    exact ⟨rfl, rfl⟩
  rw [afterDeath]
  split
  · exact ⟨_, hreaped, Or.inl rfl⟩
  · have hgranted := hreaped.trans ((k.reaped p).aside_spend.trans
      (k.reaped p).spend.spaceOnly_granted.aside).toSameTasks
    refine ⟨_, hgranted, ?_⟩
    rcases (k.reaped p).spend.restart_cases p with h | ⟨fm, ft, i, -, -, -, hfree, h⟩
    · exact Or.inl h
    · exact Or.inr ⟨i, _, _, hfree, new_newTask .., h⟩

/-- A tick goes on with the only task there is, or preempts the running one. -/
theorem move_tick (p : Platform μ) (k : Kernel μ) (rsp : BitVec 64) :
    Move p k (k.events p (.op (.tick rsp))) (k.schedStep p (.op (.tick rsp))) := by
  by_cases hnum : k.sched.num ≤ 1
  · have hstep : k.schedStep p (.op (.tick rsp))
        = ({ restored := some rsp }, publish { k with ticks := (k.ticks + 1) % 2 ^ 64 }) := by
      rw [schedStep, step, scheduleTick]
      exact if_pos hnum
    have hevents : k.events p (.op (.tick rsp)) = [] := by
      rw [events, resumeEvents, if_neg (by simpa [switches] using hnum), storeEvents,
        if_pos hnum]
      rfl
    rw [hevents, hstep]
    exact .continues hnum ⟨rfl, rfl⟩ ⟨rfl, rfl, rfl⟩
  · have hstep : k.schedStep p (.op (.tick rsp))
        = ((setTask { k with ticks := (k.ticks + 1) % 2 ^ 64 } k.current
          { k.task k.current with rsp := rsp }).reschedule p).restore := by
      rw [schedStep, step, scheduleTick]
      exact if_neg hnum
    have hdisp := dispatch_restore p (setTask { k with ticks := (k.ticks + 1) % 2 ^ 64 }
      k.current { k.task k.current with rsp := rsp })
    rw [← hstep] at hdisp
    rw [events_of_dispatch (by simpa [switches] using Nat.lt_of_not_le hnum) hdisp,
      storeEvents, if_neg hnum]
    exact .preempts rsp ⟨rfl, rfl⟩ hdisp

/-- A fault drops the running task, and the restart hook may admit another in the same step. -/
theorem move_fault (p : Platform μ) (k : Kernel μ) (h3 : k.InRing3) :
    Move p k (k.events p (.op .fault)) (k.schedStep p (.op .fault)) := by
  have hdisp : Dispatch (k.afterDeath p).2 (k.schedStep p (.op .fault)) := by
    rw [schedStep, step, terminateCurrent_eq]
    exact dispatch_restore p (k.afterDeath p).2
  rw [events_of_dispatch rfl hdisp, storeEvents]
  obtain ⟨k₀, hsame, h | ⟨i, a, frame, hfree, hnew, h⟩⟩ := k.afterDeath_cases p
  · rw [h] at hdisp ⊢
    exact .dies h3 hsame hdisp
  · rw [h] at hdisp ⊢
    rw [admitted_admitInto]
    exact .restarts i a frame h3 (hsame.sched ▸ hfree) hnew (hsame.admitInto i a frame) hdisp

/-- **Every step is a move.** -/
theorem move_schedStep (p : Platform μ) (k : Kernel μ) (hidle : (k.frames 0).ring3 = false)
    (op : SchedOp μ) (hop : k.Fair op) : Move p k (k.events p op) (k.schedStep p op) := by
  have hne : k.InRing3 → k.current ≠ 0 := by
    intro h3 h0
    rw [InRing3, h0, hidle] at h3
    cases h3
  cases op with
  | block reason epOid rsp => exact move_block (hne hop) hop ⟨rfl, rfl⟩ rfl rfl rfl
  | unblock t res => exact .wakes t res ⟨rfl, rfl⟩ rfl
  | op op =>
    by_cases hbg : op.background = true
    · obtain ⟨haside, htrace⟩ := k.aside_step p hbg
      have hnone : (k.schedStep p (.op op)).1.restored = none := congrArg Trace.restored htrace
      rw [events_of_restored_none hnone,
        show k.storeEvents p (.op op) = [] by cases op <;> first | rfl | cases hbg]
      exact .still haside.toSameTasks hnone
    cases op with
    | setCurrentDomain d => exact .still ⟨rfl, rfl⟩ rfl
    | admitTask entry c period rel budget => exact move_admitWith _ c 0 period rel budget rfl rfl
    | admitUser entry stackTop mem c d period rel budget =>
      exact move_admitWith _ c d period rel budget rfl rfl
    | syscall nr c method arg0 xfer rsp =>
      exact move_syscall p k (hne hop) hop nr c method arg0 xfer rsp
    | tick rsp => exact move_tick p k rsp
    | fault => exact move_fault p k hop
    | _ => exact absurd rfl hbg

/-! ### The invariant -/

/-- Changing one member of a finite family of flags changes the number of set flags by that
flag. -/
theorem card_filter_update {α : Type*} [Fintype α] [DecidableEq α] (f : α → Bool) (t : α)
    (b : Bool) :
    (Finset.univ.filter fun u => Function.update f t b u = true).card + (f t).toNat
      = (Finset.univ.filter fun u => f u = true).card + b.toNat := by
  have hsum : ∀ g : α → Bool, (Finset.univ.filter fun u => g u = true).card
      = (g t).toNat + ∑ u ∈ Finset.univ.erase t, (g u).toNat := by
    intro g
    rw [Finset.card_filter, ← Finset.add_sum_erase _ _ (Finset.mem_univ t)]
    congr 1
    · cases g t <;> rfl
    · exact Finset.sum_congr rfl fun u _ => by cases g u <;> rfl
  have hrest : ∑ u ∈ Finset.univ.erase t, (Function.update f t b u).toNat
      = ∑ u ∈ Finset.univ.erase t, (f u).toNat :=
    Finset.sum_congr rfl fun u hu => by rw [Function.update_of_ne (Finset.ne_of_mem_erase hu)]
  rw [hsum, hsum f, hrest, Function.update_self]
  omega

/-- The tasks that are present. -/
def presentTasks (k : Kernel μ) : Finset (Fin maxTasks) :=
  Finset.univ.filter fun t => (k.task t).present = true

/-- The top of the kernel stack of the task in a slot. -/
def kstackOf (p : Platform μ) (t : Fin maxTasks) : BitVec 64 :=
  if t = 0 then p.stackTop else p.taskKstackTop t

/-- The part of the invariant that does not mention who runs, so that it also holds in the middle
of a switch. -/
structure Tally (p : Platform μ) (k : Kernel μ) : Prop where
  num : k.sched.num = k.presentTasks.card
  idle_present : (k.task 0).present = true
  idle_free : (k.task 0).blocked = false
  idle_ring0 : (k.frames 0).ring3 = false
  kstack : ∀ t, (k.task t).present = true → (k.task t).kstackTop = kstackOf p t

/-- The invariant: a running task that is present and not parked. -/
structure Scheduled (p : Platform μ) (k : Kernel μ) : Prop extends Tally p k where
  current_present : (k.task k.current).present = true
  current_free : (k.task k.current).blocked = false

theorem Tally.congr {p : Platform μ} {k k' : Kernel μ} (h : Tally p k)
    (htasks : ∀ t, (k.task t).Rolled (k'.task t)) (hnum : k'.sched.num = k.sched.num)
    (hframes : k'.frames = k.frames) : Tally p k' where
  num := by
    rw [hnum, h.num, presentTasks, presentTasks]
    simp only [(htasks _).present]
  idle_present := (htasks 0).present.trans h.idle_present
  idle_free := (htasks 0).blocked.trans h.idle_free
  idle_ring0 := hframes ▸ h.idle_ring0
  kstack t ht := (htasks t).kstackTop.trans (h.kstack t ((htasks t).present.symm.trans ht))

theorem Tally.of_same {p : Platform μ} {k k' : Kernel μ} (h : Tally p k) (hs : SameTasks k k') :
    Tally p k' :=
  h.congr (fun t => hs.task t ▸ .refl _) (congrArg Scheduler.num hs.sched) hs.frames

/-- One slot is rewritten, and `num` keeps count. -/
theorem Tally.rewrite {p : Platform μ} {k k' : Kernel μ} (h : Tally p k) {t : Fin maxTasks}
    {a : Task} (htasks : ∀ u, k'.task u = if u = t then a else k.task u)
    (hnum : k'.sched.num + (k.task t).present.toNat = k.sched.num + a.present.toNat)
    (hidle : t = 0 → a.present = true ∧ a.blocked = false)
    (hstack : a.present = true → a.kstackTop = kstackOf p t)
    (hframe : k'.frames 0 = k.frames 0) : Tally p k' := by
  have hflags : (fun u => (k'.task u).present)
      = Function.update (fun u => (k.task u).present) t a.present := by
    funext u
    rw [htasks, Function.update_apply]
    split <;> rfl
  refine ⟨?_, ?_, ?_, hframe ▸ h.idle_ring0, fun u hu => ?_⟩
  · have hcount := card_filter_update (fun u => (k.task u).present) t a.present
    rw [← hflags, show (Finset.univ.filter fun u => (k.task u).present = true).card
      = k.sched.num from h.num.symm, ← hnum] at hcount
    exact (Nat.add_right_cancel hcount).symm
  · rw [htasks]
    split
    · exact (hidle (by assumption : (0 : Fin maxTasks) = t).symm).1
    · exact h.idle_present
  · rw [htasks]
    split
    · exact (hidle (by assumption : (0 : Fin maxTasks) = t).symm).2
    · exact h.idle_free
  · rw [htasks] at hu ⊢
    split at hu
    · rename_i htu
      rw [if_pos htu, htu]
      exact hstack hu
    · rename_i htu
      rw [if_neg htu]
      exact h.kstack u hu

/-- The running task is rewritten without leaving. -/
theorem Scheduled.rewrite_current {p : Platform μ} {k : Kernel μ} (h : Scheduled p k) {a : Task}
    (hpres : a.present = true) (hstack : a.kstackTop = (k.task k.current).kstackTop)
    (hidle : k.current = 0 → a.blocked = false) : Tally p (k.setTask k.current a) := by
  refine h.toTally.rewrite (fun u => k.task_setTask _ u a) ?_ (fun h0 => ⟨hpres, hidle h0⟩)
    (fun _ => hstack.trans (h.kstack _ h.current_present)) rfl
  rw [h.current_present, hpres]
  rfl

theorem Scheduled.dropCurrent {p : Platform μ} {k : Kernel μ} (h : Scheduled p k)
    (hne : k.current ≠ 0) : Tally p k.dropCurrent := by
  refine h.toTally.rewrite (t := k.current) (a := { k.task k.current with
    present := false, runnable := false, blocked := false }) (fun u => ?_) ?_
    (fun h0 => absurd h0 hne) nofun rfl
  · exact k.task_setTask _ u _
  · have hpos : 0 < k.sched.num := by
      rw [h.num]
      exact Finset.card_pos.mpr ⟨0, by simp [presentTasks, h.idle_present]⟩
    show k.sched.num - 1 + (k.task k.current).present.toNat = k.sched.num + Bool.toNat false
    rw [h.current_present]
    simp only [Bool.toNat_true, Bool.toNat_false]
    omega

theorem Tally.admitInto {p : Platform μ} {k : Kernel μ} (h : Tally p k) {i : Fin maxTasks}
    {a : Task} (hfree : k.sched.freeSlot = some i) (hnew : New p i a) (frame : TaskFrame) :
    Tally p (k.admitInto i a frame) := by
  obtain ⟨hi, habs⟩ := Scheduler.freeSlot_eq_some hfree
  refine h.rewrite (k.task_admitInto i · a frame) ?_ (fun h0 => absurd h0 hi) (fun _ => ?_) ?_
  · show k.sched.num + 1 + (k.sched.tasks i).present.toNat = k.sched.num + a.present.toNat
    rw [habs, hnew.present]
    rfl
  · rw [hnew.kstackTop, kstackOf, if_neg hi]
  · exact Function.update_of_ne hi.symm _ _

/-- Waking keeps the count, and who runs is still present and not parked. -/
theorem Scheduled.unblock {p : Platform μ} {k : Kernel μ} (h : Scheduled p k) (t : ℕ)
    (r : IpcResult) : Scheduled p (k.unblock t r) := by
  rw [Kernel.unblock]
  split
  · rename_i ht
    have htask := k.task_setTask ⟨t, ht⟩
    refine ⟨h.toTally.rewrite (fun u => htask u _) rfl (fun h0 => ?_) (h.kstack _) rfl, ?_, ?_⟩
    · exact ⟨h0 ▸ h.idle_present, rfl⟩
    · show (Kernel.task _ k.current).present = true
      rw [htask]
      split
      · rename_i hcur
        exact hcur ▸ h.current_present
      · exact h.current_present
    · show (Kernel.task _ k.current).blocked = false
      rw [htask]
      split
      · rfl
      · exact h.current_free
  · exact h

/-- The tail of a switch establishes the invariant from the part that does not mention who
runs. -/
theorem Tally.scheduled {p : Platform μ} {k : Kernel μ} {r : Trace × Kernel μ} (h : Tally p k)
    (hd : Dispatch k r) : Scheduled p r.2 := by
  have hroll := hd.tasks r.2.current
  refine ⟨h.congr hd.tasks hd.num hd.frames, ?_, ?_⟩
  · rw [hroll.present]
    rcases hd.eligible with h0 | ⟨hp, -⟩
    · exact h0 ▸ h.idle_present
    · exact hp
  · rw [hroll.blocked]
    rcases hd.eligible with h0 | ⟨-, hb⟩
    · exact h0 ▸ h.idle_free
    · exact hb

theorem Scheduled.of_same {p : Platform μ} {k k' : Kernel μ} (h : Scheduled p k)
    (hs : SameTasks k k') : Scheduled p k' := by
  refine ⟨h.toTally.of_same hs, ?_, ?_⟩
  · rw [hs.current, hs.task]
    exact h.current_present
  · rw [hs.current, hs.task]
    exact h.current_free

theorem Scheduled.current_ne_zero {p : Platform μ} {k : Kernel μ} (h : Scheduled p k)
    (h3 : k.InRing3) : k.current ≠ 0 := by
  intro h0
  rw [InRing3, h0, h.idle_ring0] at h3
  cases h3

/-- A move keeps the invariant. -/
theorem Scheduled.move {p : Platform μ} {k : Kernel μ} (h : Scheduled p k)
    {log : List (Contexts.Event (Fin maxTasks) (BitVec 64))} {r : Trace × Kernel μ}
    (hm : Move p k log r) : Scheduled p r.2 := by
  cases hm with
  | still same _ => exact h.of_same same
  | continues _ same _ => exact h.of_same same
  | wakes t res same _ => exact (h.unblock t res).of_same same
  | admits i a frame free new same _ =>
    have hne : k.current ≠ i := by
      intro hcur
      have habs : (k.task i).present = false := (Scheduler.freeSlot_eq_some free).2
      rw [← hcur, h.current_present] at habs
      cases habs
    have hcur : (k.admitInto i a frame).task k.current = k.task k.current := by
      rw [task_admitInto, if_neg hne]
    refine Scheduled.of_same ⟨h.toTally.admitInto free new frame, ?_, ?_⟩ same
    · exact (congrArg Task.present hcur).trans h.current_present
    · exact (congrArg Task.blocked hcur).trans h.current_free
  | preempts rsp same tail =>
    refine (Tally.of_same ?_ same).scheduled tail
    exact h.rewrite_current h.current_present rfl fun _ => h.current_free
  | parks reason epOid rsp ring3 same tail =>
    refine (Tally.of_same ?_ same).scheduled tail
    exact h.rewrite_current h.current_present rfl fun h0 => absurd h0 (h.current_ne_zero ring3)
  | dies ring3 same tail =>
    exact ((h.dropCurrent (h.current_ne_zero ring3)).of_same same).scheduled tail
  | restarts i a frame ring3 free new same tail =>
    exact (((h.dropCurrent (h.current_ne_zero ring3)).admitInto free new frame).of_same
      same).scheduled tail

/-- After a switch the words of the running task are published. -/
theorem Move.published {p : Platform μ} {k : Kernel μ}
    {log : List (Contexts.Event (Fin maxTasks) (BitVec 64))} {r : Trace × Kernel μ}
    (hm : Move p k log r) (hr : r.1.restored ≠ none) : r.2.Published := by
  cases hm with
  | still _ restored | wakes _ _ _ restored | admits _ _ _ _ _ _ restored =>
    exact absurd restored hr
  | continues _ _ pub => exact pub
  | preempts _ _ tail | parks _ _ _ _ _ tail | dies _ _ tail | restarts _ _ _ _ _ _ _ tail =>
    exact tail.published

/-- At boot there is the idle task only. -/
theorem task_init (p : Platform μ) (m₀ : μ) {t : Fin maxTasks} (ht : t ≠ 0) :
    (init p m₀).task t = Task.empty := by
  show Function.update (fun _ => Task.empty) 0 _ t = _
  rw [Function.update_of_ne ht]

theorem scheduled_init (p : Platform μ) (m₀ : μ) : Scheduled p (init p m₀) := by
  have hpres : (init p m₀).presentTasks = {0} := by
    ext t
    by_cases ht : t = 0
    · simp only [presentTasks, Finset.mem_filter, Finset.mem_univ, true_and, ht,
        Finset.mem_singleton, iff_true]
      rfl
    · simp [presentTasks, ht, task_init p m₀ ht, Task.empty]
  refine ⟨⟨?_, rfl, rfl, ?_, fun t ht => ?_⟩, rfl, rfl⟩
  · rw [hpres]
    rfl
  · show (⟨0, 0, 0, 0, 0, 0⟩ : TaskFrame).ring3 = false
    decide
  · by_cases h0 : t = 0
    · subst h0
      rfl
    · rw [task_init p m₀ h0] at ht
      cases ht

end Kernel

/-- The invariant holds after every run of the scheduler. -/
theorem scheduled_after {μ : Type} (p : Platform μ) (m₀ : μ) {h : List (SchedOp μ)}
    (hrun : Runs.Every (fun k op => (k.schedStep p op).2) (Kernel.init p m₀) Kernel.Fair h) :
    (schedAfter p m₀ h).Scheduled p :=
  Runs.invariant (Kernel.scheduled_init p m₀)
    (fun k op hop hk => hk.move (k.move_schedStep p hk.idle_ring0 op hop)) hrun

/-! ### Kernel stacks -/

/-- `TASK_STACK_SIZE`. -/
def taskStackSize : ℕ := 64 * 1024

/-- `KSTACK_USABLE`. -/
def kstackUsable : ℕ := 512 * 1024

/-- Where the linker has put the stacks: `TASK_STACKS` and the usable part of `KERNEL_STACK` are
two disjoint ranges of the address space, and the platform's stack tops are their ends, rounded
down to 16. -/
structure StackLayout {μ : Type} (p : Platform μ) where
  /-- The address of `TASK_STACKS`. -/
  taskStacks : ℕ
  /-- The address of `KERNEL_STACK.usable`. -/
  kernelStack : ℕ
  tasks_end : taskStacks + maxTasks * taskStackSize < 2 ^ 64
  kernel_end : kernelStack + kstackUsable < 2 ^ 64
  disjoint : taskStacks + maxTasks * taskStackSize ≤ kernelStack ∨
    kernelStack + kstackUsable ≤ taskStacks
  taskKstackTop : ∀ i, p.taskKstackTop i
    = BitVec.ofNat 64 (taskStacks + i * taskStackSize + taskStackSize) &&& ~~~15#64
  stackTop : p.stackTop = BitVec.ofNat 64 (kernelStack + kstackUsable) &&& ~~~15#64

/-- Clearing the four low bits rounds down to a multiple of 16. -/
theorem toNat_and_not_fifteen (x : BitVec 64) : (x &&& ~~~15#64).toNat = x.toNat / 16 * 16 := by
  have hshift : x &&& ~~~15#64 = x >>> 4 <<< 4 := by
    refine BitVec.eq_of_getLsbD_eq fun i hi => ?_
    have h15 : (15#64).getLsbD i = decide (i < 4) := by
      have hbit := Nat.testBit_two_pow_sub_one 4 i
      rw [BitVec.getLsbD_ofNat]
      simpa [hi] using hbit
    rw [BitVec.getLsbD_and, BitVec.getLsbD_not, BitVec.getLsbD_shiftLeft,
      BitVec.getLsbD_ushiftRight, h15]
    by_cases h4 : i < 4
    · simp [h4]
    · simp [h4, hi, Nat.add_sub_cancel' (Nat.le_of_not_lt h4)]
  rw [hshift, BitVec.toNat_shiftLeft, BitVec.toNat_ushiftRight, Nat.shiftLeft_eq,
    Nat.shiftRight_eq_div_pow]
  have hlt := x.isLt
  omega

namespace StackLayout

variable {μ : Type} {p : Platform μ}

/-- The end of the stack of a slot. -/
def stackEnd (l : StackLayout p) (t : Fin maxTasks) : ℕ :=
  if t = 0 then l.kernelStack + kstackUsable
  else l.taskStacks + t * taskStackSize + taskStackSize

theorem toNat_kstackOf (l : StackLayout p) (t : Fin maxTasks) :
    (Kernel.kstackOf p t).toNat = l.stackEnd t / 16 * 16 := by
  have ht := t.isLt
  have hend := l.tasks_end
  have hkend := l.kernel_end
  simp only [maxTasks, taskStackSize, kstackUsable] at ht hend hkend
  rw [Kernel.kstackOf, stackEnd]
  split
  · rw [l.stackTop, toNat_and_not_fifteen, BitVec.toNat_ofNat, Nat.mod_eq_of_lt l.kernel_end]
  · rw [l.taskKstackTop, toNat_and_not_fifteen, BitVec.toNat_ofNat, Nat.mod_eq_of_lt]
    simp only [taskStackSize]
    omega

/-- Distinct slots have distinct kernel stacks: the ends differ by more than the rounding. -/
theorem kstackOf_injective (l : StackLayout p) : Function.Injective (Kernel.kstackOf p) := by
  intro t u heq
  have htop := congrArg BitVec.toNat heq
  rw [l.toNat_kstackOf, l.toNat_kstackOf, stackEnd, stackEnd] at htop
  have ht := t.isLt
  have hu := u.isLt
  have hdis := l.disjoint
  simp only [maxTasks, taskStackSize, kstackUsable] at ht hu hdis
  simp only [taskStackSize, kstackUsable] at htop
  refine Fin.ext ?_
  by_cases h0 : t = 0
  · by_cases h0' : u = 0
    · rw [h0, h0']
    · rw [if_pos h0, if_neg h0'] at htop
      omega
  · by_cases h0' : u = 0
    · rw [if_neg h0, if_pos h0'] at htop
      omega
    · rw [if_neg h0, if_neg h0'] at htop
      omega

end StackLayout

/-! ### Every run -/

/-- What the scheduler promises about its state, in the words of its fields. -/
structure Kernel.SchedulerOk {μ : Type} (k : Kernel μ) : Prop where
  num_eq : k.sched.num = k.presentTasks.card
  idle : (k.task 0).present = true ∧ (k.task 0).blocked = false
  running : (k.task k.current).present = true ∧ (k.task k.current).blocked = false
  alone : k.sched.num = 1 → k.current = 0
  ownStack : ∀ t u, t ≠ u → (k.task t).present = true → (k.task u).present = true →
    (k.task t).kstackTop ≠ (k.task u).kstackTop

theorem Kernel.Scheduled.ok {μ : Type} {p : Platform μ} {k : Kernel μ} (h : k.Scheduled p)
    (layout : StackLayout p) : k.SchedulerOk := by
  refine ⟨h.num, ⟨h.idle_present, h.idle_free⟩, ⟨h.current_present, h.current_free⟩,
    fun hone => ?_, fun t u hne ht hu heq => hne (layout.kstackOf_injective ?_)⟩
  · have hmem : ∀ t, (k.task t).present = true → t ∈ k.presentTasks := fun t ht =>
      Finset.mem_filter.mpr ⟨Finset.mem_univ t, ht⟩
    have hcard : k.presentTasks.card ≤ 1 := (h.num.symm.trans hone).le
    exact Finset.card_le_one.mp hcard _ (hmem _ h.current_present) _ (hmem _ h.idle_present)
  · rw [← h.kstack t ht, ← h.kstack u hu, heq]

/-- **The scheduler invariant.** After every run of admissions, ticks, blocks, wakes, faults with
restarts and everything else the kernel does, in which only ring-3 tasks block or fault: `num`
counts the present tasks, the idle task and the running one are present and not parked, the idle
task runs when it is alone, and present tasks have stacks of their own. Whatever happens next
makes no parked or absent task current, and publishes the running task's words if it switches. -/
theorem scheduler_invariant {μ : Type} (p : Platform μ) (layout : StackLayout p) (m₀ : μ)
    {h : List (SchedOp μ)}
    (hrun : Runs.Every (fun k op => (k.schedStep p op).2) (Kernel.init p m₀) Kernel.Fair h) :
    (schedAfter p m₀ h).SchedulerOk ∧ ∀ op, (schedAfter p m₀ h).Fair op →
      ((schedAfter p m₀ h).schedStep p op).2.SchedulerOk ∧
      (((schedAfter p m₀ h).schedStep p op).1.restored ≠ none →
        ((schedAfter p m₀ h).schedStep p op).2.Published) := by
  have hs := scheduled_after p m₀ hrun
  refine ⟨hs.ok layout, fun op hop => ?_⟩
  have hmove := (schedAfter p m₀ h).move_schedStep p hs.idle_ring0 op hop
  exact ⟨(hs.move hmove).ok layout, hmove.published⟩

/-- The bare machine, with its boot stack above the task stacks. -/
def stackedMachine : Platform Unit := { bareMachine with stackTop := 0x180000 }

/-- The stacks of `stackedMachine`. -/
def stackedLayout : StackLayout stackedMachine where
  taskStacks := 0x10000
  kernelStack := 0x100000
  tasks_end := by decide
  kernel_end := by decide
  disjoint := by decide
  taskKstackTop := by decide
  stackTop := by decide

/-- A ring-3 task is admitted, scheduled, blocked, woken and scheduled again, and then faults. -/
def blockingRun : List (SchedOp Unit) :=
  [.op .fault, .op (.tick 0x200), .unblock 1 ⟨0, 7, cptrNone⟩, .block blockRecv 3 0x300,
    .op (.tick 0x100), .op (.admitUser 0 0 0 0 1 1000000 1000000 0), .op .mintTimeslice]

theorem fair_blockingRun : Runs.Every (fun k op => (k.schedStep stackedMachine op).2)
    (Kernel.init stackedMachine ()) Kernel.Fair blockingRun := by
  refine ⟨?_, trivial, trivial, ?_, trivial, trivial, trivial, trivial⟩
  · show TaskFrame.ring3 _ = true
    decide +kernel
  · show TaskFrame.ring3 _ = true
    decide +kernel

theorem scheduler_invariant_blockingRun :
    (schedAfter stackedMachine () blockingRun.tail).current = 1 ∧
      (schedAfter stackedMachine () blockingRun).SchedulerOk :=
  ⟨by decide +kernel, (scheduler_invariant stackedMachine stackedLayout () fair_blockingRun).1⟩

end Cairn
