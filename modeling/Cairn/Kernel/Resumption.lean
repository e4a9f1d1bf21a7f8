import Cairn.Kernel.VirtualCpus

/-!
# What a task notices of a switch

A task that loses the processor gets it back with its registers as they were, if the timer took it
away, or behind its syscall with the result that its waker has left, if it was parked in one.
Between the two there may be any number of events of other tasks: they compute, block, wake each
other, die and are restarted.

The registers are those of a `Context`. A syscall that returns clears some of them and overwrites
others, and `Context.sysret` says which.

## Main definitions

* `Hart.Wakes`, `Woken` — an event that wakes a task, and the last one in a run
* `Bystander` — what one event does to a task that is not running

## Main results

* `bystander_step` — every event leaves the others alone
* `Left.woken` — a parked task is taken up with the result of its last waker
* `resumed_as_left` — a task is taken up where it was left
-/

namespace Cairn

open Amd64 (Context Reg)

/-! ### Bystanders -/

section Bystanders

variable {μ : Type} {p : Platform μ} {l : Linked p}

/-- The event is a syscall in which the kernel calls `unblock` for the task in slot `t`, with the
result `r`. Such a call returns, and the pointer that a blocking call stores is not used. -/
def Hart.Wakes (h : Hart l) (e : HartEvent l) (t : Fin maxTasks) (r : IpcResult) : Prop :=
  match e with
  | .syscall _ _ =>
    h.cpu.Ring3 ∧ (h.kernel.step p (h.cpu.toContext.syscallOp 0)).1.woke = some ((t : ℕ), r)
  | _ => False

/-- What an event does to a task that is present and not running, if `Wakes r` says that the event
wakes it with the result `r`. -/
structure Bystander (Wakes : IpcResult → Prop) (t : Fin maxTasks) (v v' : Virtual μ) : Prop where
  kept : (∀ r, ¬Wakes r) → v'.kernel.seat t = v.kernel.seat t
  woken : ∀ r, Wakes r → v'.kernel.seat t = (v.kernel.seat t).wake r
  away : v'.kernel.current ≠ t → v'.ctx t = v.ctx t ∧ v'.kernel.parkedIn t = v.kernel.parkedIn t
  back : v'.kernel.current = t → v'.ctx t =
    if v.kernel.parkedIn t then (v.ctx t).sysret (v.kernel.seat t).ipc else v.ctx t
  eligible : v'.kernel.current = t → t = 0 ∨ (v.kernel.seat t).blocked = false

variable {Wakes : IpcResult → Prop} {t : Fin maxTasks} {v : Virtual μ}

theorem Bystander.present {v' : Virtual μ} (h : Bystander Wakes t v v')
    (ht : (v.kernel.task t).present = true) : (v'.kernel.task t).present = true := by
  by_cases hw : ∃ r, Wakes r
  · obtain ⟨r, hr⟩ := hw
    exact (congrArg Seat.present (h.woken r hr)).trans ht
  · exact (congrArg Seat.present (h.kept (not_exists.mp hw))).trans ht

/-- What happens beside the task, with the same task running. -/
theorem Bystander.of_same (hw : ∀ r, ¬Wakes r) (hne : v.kernel.current ≠ t) {k : Kernel μ}
    (hcur : k.current = v.kernel.current) (hseat : k.seat t = v.kernel.seat t)
    (hpark : k.parkedIn t = v.kernel.parkedIn t) {ctx : Fin maxTasks → Context}
    (hctx : ctx t = v.ctx t) (mem : Amd64.Mem) : Bystander Wakes t v ⟨k, ctx, mem⟩ where
  kept _ := hseat
  woken r hr := absurd hr (hw r)
  away _ := ⟨hctx, hpark⟩
  back h := absurd (hcur.symm.trans h) hne
  eligible h := absurd (hcur.symm.trans h) hne

theorem Bystander.refl (hw : ∀ r, ¬Wakes r) (hne : v.kernel.current ≠ t) : Bystander Wakes t v v :=
  .of_same hw hne rfl rfl rfl rfl v.mem

/-- The tail of a switch leaves the tasks alone that it does not take up. -/
theorem Tail.away {k : Kernel μ} {r : Trace × Kernel μ} (h : Tail k r) (hne : r.2.current ≠ t)
    (ctx : Fin maxTasks → Context) : Virtual.deliver r.1.sysret ctx t = ctx t := by
  cases hp : k.parkedIn r.2.current with
  | false =>
    rw [h.resumed.interrupted hp]
    rfl
  | true =>
    rw [(h.resumed.call hp).1]
    exact Function.update_of_ne hne.symm _ _

theorem Tail.seat {k : Kernel μ} {r : Trace × Kernel μ} (h : Tail k r) (t : Fin maxTasks) :
    r.2.seat t = k.seat t := (h.tasks t).seat

/-- The task that it takes up goes on where it was, or returns from its syscall with the result
staged for it. -/
theorem Tail.back {k : Kernel μ} {r : Trace × Kernel μ} (h : Tail k r)
    (ctx : Fin maxTasks → Context) : Virtual.deliver r.1.sysret ctx r.2.current =
      if k.parkedIn r.2.current then (ctx r.2.current).sysret (k.seat r.2.current).ipc
      else ctx r.2.current := by
  cases hp : k.parkedIn r.2.current with
  | false =>
    rw [h.resumed.interrupted hp]
    rfl
  | true =>
    rw [(h.resumed.call hp).1, h.seat]
    exact Function.update_self ..

theorem Tail.bystander {k : Kernel μ} {r : Trace × Kernel μ} (h : Tail k r) (hw : ∀ r, ¬Wakes r)
    {ctx : Fin maxTasks → Context} (htask : k.task t = v.kernel.task t) (hctx : ctx t = v.ctx t)
    (hpark : k.parkedIn t = v.kernel.parkedIn t) (mem : Amd64.Mem) :
    Bystander Wakes t v ⟨r.2, Virtual.deliver r.1.sysret ctx, mem⟩ where
  kept _ := (h.seat t).trans (congrArg Task.seat htask)
  woken r hr := absurd hr (hw r)
  away hne := ⟨(h.away hne ctx).trans hctx, (h.others t (Ne.symm hne)).trans hpark⟩
  back := by
    rintro rfl
    have hback := h.back ctx
    rw [hpark, hctx, Kernel.seat, htask] at hback
    exact hback
  eligible := by
    rintro rfl
    exact h.eligible.imp_right fun he => (congrArg Task.blocked htask).symm.trans he.2

/-- An admission fills another slot. -/
theorem Bystander.of_admitWith (hw : ∀ r, ¬Wakes r) (ht : (v.kernel.task t).present = true)
    (hne : v.kernel.current ≠ t) (frame : Fin maxTasks → TaskFrame)
    (cptr domain period rel budget : ℕ) {r : Option (Fin maxTasks) × Kernel μ}
    (hr : v.kernel.admitWith p frame cptr domain period rel budget = r) :
    Bystander Wakes t v ⟨r.2, Virtual.enrol r.2 r.1 v.ctx, v.mem⟩ := by
  rcases v.kernel.admitWith_eq p frame cptr domain period rel budget with hnone |
    ⟨i, -, -, hfree, hsome⟩
  · obtain rfl := hr.symm.trans hnone
    exact .refl hw hne
  · obtain rfl := hr.symm.trans hsome
    have hi : (v.kernel.task i).present = false := (Scheduler.freeSlot_eq_some hfree).2
    have hti : t ≠ i := by
      rintro rfl
      exact absurd (hi.symm.trans ht) Bool.false_ne_true
    refine .of_same hw hne ?_ ?_ (Function.update_of_ne hti _ _) (Function.update_of_ne hti _ _) _
    · rfl
    · rw [Kernel.seat, Kernel.task_admitInto, if_neg hti]
      rfl

theorem bystander_tick (hw : ∀ r, ¬Wakes r) (hne : v.kernel.current ≠ t) (f : Callee l 0) :
    Bystander Wakes t v (v.step l (.tick f)) := by
  rw [Virtual.step, Kernel.step]
  rcases scheduleTick_tail p v.kernel (v.interruptedAt p) with hone | htail
  · rw [hone]
    refine .of_same hw hne ?_ ?_ ?_ rfl _ <;> rfl
  · refine htail.bystander hw ?_ rfl rfl _
    rw [Kernel.task_setTask, if_neg hne.symm]
    rfl

/-- A syscall that returns leaves the seats of the other tasks alone, unless it wakes one. -/
theorem Kernel.seat_syscall_returns (p : Platform μ) (k : Kernel μ) (hne : k.current ≠ 0)
    (nr cptr method arg0 xfer rsp : BitVec 64) (t : Fin maxTasks) {r : Trace × Kernel μ}
    (hr : k.syscall p nr cptr method arg0 xfer rsp = r) (h : r.1.restored = none) :
    (∀ res, r.1.woke ≠ some ((t : ℕ), res)) ∧ r.2.seat t = k.seat t ∨
      ∃ res, r.1.woke = some ((t : ℕ), res) ∧ r.2.seat t = (k.seat t).wake res := by
  have hcases := k.syscall_cases p nr cptr method arg0 xfer rsp
  generalize k.callOf (.syscall nr cptr method arg0 xfer rsp) = call at hcases
  rw [hr] at hcases
  cases hcases with
  | other st reply k' hk _ =>
    exact Or.inl ⟨fun _ => (Option.some_ne_none _).symm, congrArg Task.seat (hk.aside.task t)⟩
  | refused c st k' _ _ hk =>
    exact Or.inl ⟨fun _ => (Option.some_ne_none _).symm, congrArg Task.seat (hk.aside.task t)⟩
  | met c hw reply =>
    have hseat : ((k.entered.meet c).setReplyCptr reply).seat = (k.entered.meet c).seat := rfl
    dsimp only
    rw [hseat]
    by_cases hpeer : (k.entered.endpoints c.ep).peerTask = t
    · refine Or.inr ⟨k.entered.partnerResult c, congrArg some (congrArg (·, _) hpeer), ?_⟩
      rw [k.entered.seat_meet hpeer, Function.update_self]
      rfl
    · refine Or.inl ⟨fun res heq => hpeer (congrArg Prod.fst (Option.some.inj heq)), ?_⟩
      obtain ⟨s, -, -, hs⟩ := k.entered.meet_eq c
      rw [hs, unblock]
      split
      · rw [seat_setTask, Function.update_of_ne fun heq => hpeer (congrArg Fin.val heq).symm]
        rfl
      · rfl
  | parks c hw =>
    rw [(dispatch_blockCurrent p (k.entered.setEndpoint c.ep (c.offer (k.endpoints c.ep))) hne
      c.side.reason c.ep rsp).restored] at h
    cases h

/-- A syscall that returns: it may wake the task, and leaves it alone otherwise. -/
theorem Bystander.of_returns (hne : v.kernel.current ≠ t) {r : Trace × Kernel μ} {res : IpcResult}
    (hcalm : Kernel.Calm v.kernel r.2) (hret : r.1.sysret = some (r.2.current, res))
    (hwakes : ∀ res', Wakes res' ↔ r.1.woke = some ((t : ℕ), res'))
    (hseat : (∀ res', r.1.woke ≠ some ((t : ℕ), res')) ∧ r.2.seat t = v.kernel.seat t ∨
      ∃ res', r.1.woke = some ((t : ℕ), res') ∧ r.2.seat t = (v.kernel.seat t).wake res')
    {ctx : Fin maxTasks → Context} (hctx : ctx t = v.ctx t) (mem : Amd64.Mem) :
    Bystander Wakes t v ⟨r.2, Virtual.deliver r.1.sysret ctx, mem⟩ := by
  have hback : r.2.current ≠ t := fun h => hne (hcalm.current.symm.trans h)
  refine ⟨fun hno => ?_, fun res' hw => ?_, fun _ => ⟨?_, congrFun hcalm.parkedIn t⟩,
    fun h => absurd h hback, fun h => absurd h hback⟩
  · rcases hseat with ⟨-, hsame⟩ | ⟨res', hw, -⟩
    · exact hsame
    · exact absurd ((hwakes res').mpr hw) (hno res')
  · rw [hwakes] at hw
    rcases hseat with ⟨hno, -⟩ | ⟨res'', hw', hwake⟩
    · exact absurd hw (hno res')
    · obtain rfl : res' = res'' := congrArg Prod.snd (Option.some.inj (hw.symm.trans hw'))
      exact hwake
  · rw [hret]
    exact (Function.update_of_ne hback.symm _ _).trans hctx

/-- Whom a syscall wakes can be read off the virtual processor. -/
theorem Sim.wakes_syscall {h : Hart l} (hsim : Sim l h v) (h3 : v.running.Ring3) (f : Callee l 8)
    (path : BlockingPath l) (res : IpcResult) : h.Wakes (.syscall f path) t res ↔
      (v.kernel.step p (v.running.syscallOp 0)).1.woke = some ((t : ℕ), res) := by
  rw [Hart.Wakes, hsim.kernel, hsim.running]
  exact and_iff_right h3

theorem bystander_syscall {h : Hart l} (hsim : Sim l h v) (h3 : v.running.Ring3)
    (hne : v.kernel.current ≠ t) (f : Callee l 8) (path : BlockingPath l) :
    Bystander (h.Wakes (.syscall f path) t) t v (v.step l (.syscall f path)) := by
  have hcur := hsim.scheduled.current_ne_zero
    ((hsim.ring3 _ hsim.scheduled.current_present).mp h3)
  have hctx : Function.update v.ctx v.kernel.current (behindSyscall v.running) t = v.ctx t :=
    Function.update_of_ne hne.symm _ _
  have hwakes := fun res => hsim.wakes_syscall (t := t) h3 f path res
  rw [Virtual.step, if_pos h3]
  simp only [Context.syscallOp, Kernel.step] at hwakes ⊢
  generalize hr : v.kernel.syscall p _ _ _ _ _ (v.blockedAt p path.depth) = r
  obtain ⟨r', heq, hnone, res, hret, -⟩ | ⟨k₀, reason, epOid, heq⟩ :=
    v.kernel.syscall_outcome p (v.running.regs .rax) (v.running.regs .rdi)
      (v.running.regs .rsi) (v.running.regs .rdx) (v.running.regs .r9)
  · obtain rfl := (heq _).symm.trans hr
    simp only [heq] at hwakes
    have hcalm := v.kernel.calm_syscall p hcur _ _ _ _ _ _ (hr.symm ▸ hnone)
    rw [hr] at hcalm
    exact .of_returns hne hcalm hret hwakes
      (v.kernel.seat_syscall_returns p hcur _ _ _ _ _ _ t hr hnone) hctx _
  · -- a call that blocks wakes nobody, wherever the context goes
    have hblocks : ∀ ptr, (v.kernel.syscall p (v.running.regs .rax) (v.running.regs .rdi)
        (v.running.regs .rsi) (v.running.regs .rdx) (v.running.regs .r9) ptr).1.restored
          ≠ none := by
      intro ptr
      rw [heq]
      exact Option.some_ne_none _
    obtain ⟨k₁, _, _, hsame, hpark, htail⟩ := v.kernel.syscall_blocks p hcur hr (hr ▸ hblocks _)
    refine htail.bystander (fun res hw => ?_) ?_ hctx ?_ _
    · obtain ⟨_, _, _, -, -, htail₀⟩ := v.kernel.syscall_blocks p hcur rfl (hblocks 0)
      exact absurd (htail₀.woke.symm.trans ((hwakes res).mp hw)) (Option.some_ne_none _).symm
    · rw [hsame.task, Kernel.parkSaved, Kernel.task_setTask, if_neg hne.symm]
    · rw [hpark, Function.update_of_ne hne.symm]

theorem bystander_fault (l : Linked p) (hw : ∀ r, ¬Wakes r)
    (ht : (v.kernel.task t).present = true) (hne : v.kernel.current ≠ t) {r : Trace × Kernel μ}
    (hr : v.kernel.step p .fault = r) :
    Bystander Wakes t v ⟨r.2, Virtual.deliver r.1.sysret
      (Virtual.enrol r.2 (v.kernel.newcomer p .fault) v.ctx), v.mem⟩ := by
  have htail := tail_fault p v.kernel
  rw [hr] at htail
  obtain ⟨k₀, hsame, hpark, hdeath⟩ := v.kernel.afterDeath_fresh l
  have hk₀ : k₀.task t = v.kernel.task t := by
    rw [hsame.task]
    exact (v.kernel.task_setTask v.kernel.current t _).trans (if_neg hne.symm)
  rcases hdeath with hnone | ⟨i, a, frame, hfree, -, -, -, hsome⟩
  · rw [show v.kernel.newcomer p .fault = none from congrArg Prod.fst hnone]
    rw [hnone] at htail
    exact htail.bystander hw hk₀ rfl (congrFun hpark t) _
  · rw [show v.kernel.newcomer p .fault = some i from congrArg Prod.fst hsome]
    rw [hsome] at htail
    have hti : t ≠ i := by
      rintro rfl
      have habs : (k₀.task t).present = false := (Scheduler.freeSlot_eq_some hfree).2
      rw [hk₀, ht] at habs
      cases habs
    refine htail.bystander hw ?_ (Function.update_of_ne hti _ _) ?_ _
    · rw [Kernel.task_admitInto, if_neg hti, hk₀]
    · exact (Function.update_of_ne hti _ _).trans (congrFun hpark t)

theorem bystander_boot (hw : ∀ r, ¬Wakes r) (ht : (v.kernel.task t).present = true)
    (hne : v.kernel.current ≠ t) {op : Op μ} (hop : l.fromBoot op = true) :
    Bystander Wakes t v ⟨(v.kernel.step p op).2,
      Virtual.enrol (v.kernel.step p op).2 (v.kernel.newcomer p op) v.ctx, v.mem⟩ := by
  by_cases hbg : op.background = true
  · have hnone : v.kernel.newcomer p op = none := by
      cases op <;> first | rfl | cases hbg
    have haside := (v.kernel.aside_step p hbg).1
    rw [hnone]
    exact .of_same hw hne haside.current (congrArg Task.seat (haside.task t))
      (congrFun haside.parkedIn t) rfl _
  cases op with
  | setCurrentDomain d => refine .of_same hw hne ?_ ?_ ?_ rfl _ <;> rfl
  | admitTask entry c period rel budget =>
    exact .of_admitWith hw ht hne _ c 0 period rel budget rfl
  | admitUser entry stackTop mem c d period rel budget =>
    exact .of_admitWith hw ht hne _ c d period rel budget rfl
  | syscall | tick | fault => cases hop
  | _ => exact absurd rfl hbg

/-- **Every event leaves the others alone**, except that a syscall may wake one. -/
theorem bystander_step {h : Hart l} (hsim : Sim l h v) (ht : (v.kernel.task t).present = true)
    (hne : v.kernel.current ≠ t) (e : HartEvent l) :
    Bystander (h.Wakes e t) t v (v.step l e) := by
  cases e with
  | compute u code =>
    have hw : ∀ r, ¬h.Wakes (.compute u code) t r := fun _ => id
    rw [Virtual.step]
    split
    · rename_i hu
      exact .of_same hw hne rfl rfl rfl (Function.update_of_ne (hu.1 ▸ hne.symm) _ _) _
    · exact .refl hw hne
  | tick f => exact bystander_tick (fun _ => id) hne f
  | syscall f path =>
    by_cases h3 : v.running.Ring3
    · exact bystander_syscall hsim h3 hne f path
    · have hw : ∀ r, ¬h.Wakes (.syscall f path) t r := fun r hw => h3 (hsim.running ▸ hw.1)
      rw [Virtual.step, if_neg h3]
      exact .refl hw hne
  | fault f =>
    have hw : ∀ r, ¬h.Wakes (.fault f) t r := fun _ => id
    rw [Virtual.step]
    split
    · exact bystander_fault l hw ht hne rfl
    · exact .refl hw hne
  | boot op =>
    have hw : ∀ r, ¬h.Wakes (.boot op) t r := fun _ => id
    rw [Virtual.step]
    split
    · rename_i hop
      exact bystander_boot hw ht hne hop.2
    · exact .refl hw hne

end Bystanders

/-! ### Leaving and coming back -/

section Resumption

variable {μ : Type} {p : Platform μ} {l : Linked p}

/-- The running task loses the processor, and is saved in the context `c`. -/
structure Left (t : Fin maxTasks) (v : Virtual μ) (c : Context) (parked : Bool) : Prop where
  present : (v.kernel.task t).present = true
  ctx : v.ctx t = c
  parkedIn : v.kernel.parkedIn t = parked

theorem left_tick {h : Hart l} {v : Virtual μ} (hsim : Sim l h v) {f : Callee l 0}
    (hne : (v.step l (.tick f)).kernel.current ≠ v.kernel.current) :
    Left v.kernel.current (v.step l (.tick f)) v.running false := by
  rw [Virtual.step, Kernel.step] at hne ⊢
  rcases scheduleTick_tail p v.kernel (v.interruptedAt p) with hone | htail
  · rw [hone] at hne
    exact absurd rfl hne
  · refine ⟨(htail.tasks _).present.trans ?_, htail.away hne v.ctx, ?_⟩
    · rw [Kernel.task_setTask, if_pos rfl]
      exact hsim.scheduled.current_present
    · exact (htail.others _ (Ne.symm hne)).trans hsim.outside

/-- A task that loses the processor in a syscall is parked, and waits to be woken. -/
theorem left_syscall {h : Hart l} {v : Virtual μ} (hsim : Sim l h v) (h3 : v.running.Ring3)
    {f : Callee l 8} {path : BlockingPath l}
    (hne : (v.step l (.syscall f path)).kernel.current ≠ v.kernel.current) :
    Left v.kernel.current (v.step l (.syscall f path)) (behindSyscall v.running) true ∧
      v.kernel.current ≠ 0 ∧
      ((v.step l (.syscall f path)).kernel.seat v.kernel.current).blocked = true := by
  have hcur := hsim.scheduled.current_ne_zero
    ((hsim.ring3 _ hsim.scheduled.current_present).mp h3)
  rw [Virtual.step, if_pos h3] at hne ⊢
  simp only [Context.syscallOp, Kernel.step] at hne ⊢
  generalize hr : v.kernel.syscall p _ _ _ _ _ _ = r at hne ⊢
  by_cases hnone : r.1.restored = none
  · have hcalm := v.kernel.calm_syscall p hcur _ _ _ _ _ _ (hr ▸ hnone)
    rw [hr] at hcalm
    exact absurd hcalm.current hne
  · obtain ⟨k₁, reason, epOid, hsame, hpark, htail⟩ := v.kernel.syscall_blocks p hcur hr hnone
    have htask := (hsame.task v.kernel.current).trans
      ((v.kernel.task_setTask v.kernel.current v.kernel.current _).trans (if_pos rfl))
    refine ⟨⟨(htail.tasks _).present.trans ?_, ?_, ?_⟩, hcur, ?_⟩
    · rw [htask]
      exact hsim.scheduled.current_present
    · exact (htail.away hne _).trans (Function.update_self ..)
    · rw [htail.others _ (Ne.symm hne), hpark, Function.update_self]
    · show (r.2.seat v.kernel.current).blocked = true
      rw [htail.seat, Kernel.seat, htask]
      rfl

/-- A call of the boot thread does not switch. -/
theorem current_fromBoot (k : Kernel μ) {op : Op μ} (hop : l.fromBoot op = true) :
    (k.step p op).2.current = k.current := by
  have hadmit : ∀ frame c d period rel budget,
      (k.admitWith p frame c d period rel budget).2.current = k.current := by
    intro frame c d period rel budget
    rcases k.admitWith_eq p frame c d period rel budget with h | ⟨i, -, -, -, h⟩
    · rw [h]
    · rw [h]
      rfl
  by_cases hbg : op.background = true
  · exact (k.aside_step p hbg).1.current
  cases op with
  | setCurrentDomain d => rfl
  | admitTask entry c period rel budget => exact hadmit _ c 0 period rel budget
  | admitUser entry stackTop mem c d period rel budget => exact hadmit _ c d period rel budget
  | syscall | tick | fault => cases hop
  | _ => exact absurd rfl hbg

/-- A task only loses the processor to the timer, in a syscall, or to its own fault. -/
theorem left_step {h : Hart l} {v : Virtual μ} (hsim : Sim l h v) {e : HartEvent l}
    (hne : (v.step l e).kernel.current ≠ v.kernel.current) :
    (∃ f, e = .tick f ∧ Left v.kernel.current (v.step l e) v.running false) ∨
      (∃ f path, e = .syscall f path ∧
        Left v.kernel.current (v.step l e) (behindSyscall v.running) true ∧
        v.kernel.current ≠ 0 ∧ ((v.step l e).kernel.seat v.kernel.current).blocked = true) ∨
      ∃ f, e = .fault f := by
  cases e with
  | compute t code =>
    refine absurd ?_ hne
    rw [Virtual.step]
    split <;> rfl
  | tick f => exact Or.inl ⟨f, rfl, left_tick hsim hne⟩
  | syscall f path =>
    by_cases h3 : v.running.Ring3
    · exact Or.inr (Or.inl ⟨f, path, rfl, left_syscall hsim h3 hne⟩)
    · refine absurd ?_ hne
      rw [Virtual.step, if_neg h3]
  | fault f => exact Or.inr (Or.inr ⟨f, rfl⟩)
  | boot op =>
    refine absurd ?_ hne
    rw [Virtual.step]
    split
    · rename_i hop
      exact current_fromBoot v.kernel hop.2
    · rfl

section Away

variable {m₀ : μ} {b : BootContext l} {run mid : List (HartEvent l)} {t : Fin maxTasks}
  {c : Context} {parked : Bool}

/-- While others run, a task stays as it was left. -/
theorem Left.stays (h : Left t (virtualAfter l m₀ b run) c parked)
    (haway : ∀ mid', mid' <:+ mid → (virtualAfter l m₀ b (mid' ++ run)).kernel.current ≠ t) :
    Left t (virtualAfter l m₀ b (mid ++ run)) c parked := by
  induction mid with
  | nil => exact h
  | cons e mid ih =>
    have hleft := ih fun mid' hmid' => haway mid' (hmid'.trans (List.suffix_cons e mid))
    have hby := bystander_step (sim_after m₀ b (mid ++ run)) hleft.present
      (haway mid (List.suffix_cons e mid)) e
    obtain ⟨hctx, hpark⟩ := hby.away (haway (e :: mid) List.suffix_rfl)
    exact ⟨hby.present hleft.present, hctx.trans hleft.ctx, hpark.trans hleft.parkedIn⟩

/-- Among the events that follow a run, latest first, there is one that wakes the task in slot `t`,
and the last such event leaves it the result `r`. -/
inductive Woken (l : Linked p) (m₀ : μ) (b : BootContext l) (run : List (HartEvent l))
    (t : Fin maxTasks) (r : IpcResult) : List (HartEvent l) → Prop
  | now {e : HartEvent l} {mid : List (HartEvent l)}
      (hw : (hartAfter l m₀ b (mid ++ run)).Wakes e t r) : Woken l m₀ b run t r (e :: mid)
  | before {e : HartEvent l} {mid : List (HartEvent l)} (h : Woken l m₀ b run t r mid)
      (hw : ∀ r', ¬(hartAfter l m₀ b (mid ++ run)).Wakes e t r') : Woken l m₀ b run t r (e :: mid)

/-- **A task that was parked and is not any more has been woken**, and the result staged for it is
the one that its last waker has left. -/
theorem Left.woken (h : Left t (virtualAfter l m₀ b run) c parked)
    (haway : ∀ mid', mid' <:+ mid → (virtualAfter l m₀ b (mid' ++ run)).kernel.current ≠ t)
    (hblocked : ((virtualAfter l m₀ b run).kernel.seat t).blocked = true)
    (hfree : ((virtualAfter l m₀ b (mid ++ run)).kernel.seat t).blocked = false) :
    Woken l m₀ b run t ((virtualAfter l m₀ b (mid ++ run)).kernel.seat t).ipc mid := by
  induction mid with
  | nil => exact absurd (hblocked.symm.trans hfree) (by decide)
  | cons e mid ih =>
    have haway' : ∀ mid', mid' <:+ mid → (virtualAfter l m₀ b (mid' ++ run)).kernel.current ≠ t :=
      fun mid' hmid' => haway mid' (hmid'.trans (List.suffix_cons e mid))
    have hby := bystander_step (sim_after m₀ b (mid ++ run)) (h.stays haway').present
      (haway mid (List.suffix_cons e mid)) e
    by_cases hw : ∃ r, (hartAfter l m₀ b (mid ++ run)).Wakes e t r
    · obtain ⟨r, hr⟩ := hw
      have hipc : ((virtualAfter l m₀ b (e :: mid ++ run)).kernel.seat t).ipc = r :=
        congrArg Seat.ipc (hby.woken r hr)
      rw [hipc]
      exact .now hr
    · have hsame : (virtualAfter l m₀ b (e :: mid ++ run)).kernel.seat t
          = (virtualAfter l m₀ b (mid ++ run)).kernel.seat t := hby.kept (not_exists.mp hw)
      rw [hsame] at hfree ⊢
      exact .before (ih haway' hfree) (not_exists.mp hw)

end Away

/-- **A task is taken up where it was left.** If the timer took the processor away, the general
registers, RIP, RFLAGS, CS and SS are as they were. If the task was parked in a syscall, somebody
has woken it, and it goes on behind the call with the result that its last waker has left; a syscall
that returns clears and overwrites registers as `Context.sysret` says. -/
theorem resumed_as_left (l : Linked p) (m₀ : μ) (b : BootContext l) {run mid : List (HartEvent l)}
    {first last : HartEvent l} {t : Fin maxTasks}
    (hrun : (hartAfter l m₀ b run).kernel.current = t)
    (haway : ∀ mid', mid' <:+ mid →
      (hartAfter l m₀ b (mid' ++ first :: run)).kernel.current ≠ t)
    (hback : (hartAfter l m₀ b (last :: (mid ++ first :: run))).kernel.current = t) :
    (∃ f, first = .tick f ∧ (hartAfter l m₀ b (last :: (mid ++ first :: run))).cpu.toContext
      = (hartAfter l m₀ b run).cpu.toContext) ∨
    (∃ f path r, first = .syscall f path ∧ Woken l m₀ b (first :: run) t r mid ∧
      (hartAfter l m₀ b (last :: (mid ++ first :: run))).cpu.toContext
        = (behindSyscall (hartAfter l m₀ b run).cpu.toContext).sysret r) ∨
    ∃ f, first = .fault f := by
  have hsim := sim_after (l := l) m₀ b
  simp only [(hsim _).kernel] at hrun haway hback
  subst hrun
  have hcome : ∀ {c parked}, Left (virtualAfter l m₀ b run).kernel.current
      (virtualAfter l m₀ b (first :: run)) c parked →
      Left (virtualAfter l m₀ b run).kernel.current
        (virtualAfter l m₀ b (mid ++ first :: run)) c parked ∧
      Bystander _ (virtualAfter l m₀ b run).kernel.current
        (virtualAfter l m₀ b (mid ++ first :: run))
        (virtualAfter l m₀ b (last :: (mid ++ first :: run))) := fun hleft =>
    ⟨hleft.stays haway, bystander_step (hsim (mid ++ first :: run)) (hleft.stays haway).present
      (haway mid List.suffix_rfl) last⟩
  rcases left_step (hsim run) (haway [] List.nil_suffix) with ⟨f, rfl, hleft⟩ |
    ⟨f, path, rfl, hleft, hne, hblocked⟩ | hfault
  · obtain ⟨hmid, hby⟩ := hcome hleft
    refine Or.inl ⟨f, rfl, ?_⟩
    rw [(hsim _).running, (hsim run).running, Virtual.running, hback, hby.back hback, hmid.ctx,
      hmid.parkedIn]
    rfl
  · obtain ⟨hmid, hby⟩ := hcome hleft
    have hfree := (hby.eligible hback).resolve_left hne
    refine Or.inr (Or.inl ⟨f, path, _, rfl, hleft.woken haway hblocked hfree, ?_⟩)
    rw [(hsim _).running, (hsim run).running, Virtual.running, hback, hby.back hback, hmid.ctx,
      hmid.parkedIn]
    rfl
  · exact Or.inr (Or.inr hfault)

end Resumption

theorem virtualAfter_senderRuns :
    (virtualAfter stackedLinked () stackedBoot receiverReady).kernel.current = 1 ∧
    (virtualAfter stackedLinked () stackedBoot (plainSyscall :: receiverReady)).kernel.current = 2 ∧
    (virtualAfter stackedLinked () stackedBoot
      (senderRuns.tail ++ plainSyscall :: receiverReady)).kernel.current = 2 ∧
    (virtualAfter stackedLinked () stackedBoot
      (senderRuns ++ plainSyscall :: receiverReady)).kernel.current = 2 := by
  decide +kernel

theorem suffix_senderRuns {mid : List (HartEvent stackedLinked)} (h : mid <:+ senderRuns) :
    mid = senderRuns ∨ mid = senderRuns.tail ∨ mid = [] := by
  rcases List.suffix_cons_iff.mp h with h | h
  · exact Or.inl h
  · rcases List.suffix_cons_iff.mp h with h | h
    · exact Or.inr (Or.inl h)
    · exact Or.inr (Or.inr (List.suffix_nil.mp h))

/-- The receiver is parked in its call, the sender wakes it, and it returns with the message. -/
theorem resumed_as_left_exchange : ∃ r, r.reply = 7 ∧
    Woken stackedLinked () stackedBoot (plainSyscall :: receiverReady) 1 r senderRuns ∧
    (hartAfter stackedLinked () stackedBoot exchange).cpu.toContext
      = (behindSyscall (hartAfter stackedLinked () stackedBoot receiverReady).cpu.toContext).sysret
        r := by
  obtain ⟨hready, hparked, hloaded, hsent⟩ := virtualAfter_senderRuns
  obtain ⟨hback, hregs⟩ := virtualAfter_exchange
  have hsim := sim_after (l := stackedLinked) () stackedBoot
  rw [← (hsim _).kernel] at hready hparked hloaded hsent hback
  rw [← (hsim _).running] at hregs
  have haway : ∀ mid', mid' <:+ senderRuns → (hartAfter stackedLinked () stackedBoot
      (mid' ++ plainSyscall :: receiverReady)).kernel.current ≠ 1 := by
    intro mid' hmid' hcur
    rcases suffix_senderRuns hmid' with rfl | rfl | rfl
    · exact absurd (hsent.symm.trans hcur) (by decide)
    · exact absurd (hloaded.symm.trans hcur) (by decide)
    · exact absurd (hparked.symm.trans hcur) (by decide)
  rcases resumed_as_left stackedLinked () stackedBoot hready haway hback with ⟨f, hfirst, -⟩ |
    ⟨f, path, r, -, hwoken, heq⟩ | ⟨f, hfirst⟩
  · cases hfirst
  · refine ⟨r, ?_, hwoken, heq⟩
    change (hartAfter stackedLinked () stackedBoot exchange).cpu.toContext = _ at heq
    rw [heq] at hregs
    exact (List.cons.inj (List.cons.inj hregs).2).1
  · cases hfirst

end Cairn
