import Cairn.Kernel.SyscallPath

/-!
# Every task has a processor of its own

The rest of the simulation: new tasks start at the top of their stacks, a fault runs its handler on
the stack of the dead task and may start a new one, the boot thread calls into the kernel, and tasks
compute. With the timer and the syscalls that is every event, so the real machine and the virtual
processors agree after every run.

A restart may put the first context of the new task on the stack that the handler is running on. The
`160` bytes at its top are written while the handler still runs, and read when it has jumped away.

## Main definitions

* `Fresh` — the first context of a task
* `hartAfter`, `virtualAfter` — the two machines after a run
* `Carries` — registers and memory are as a state of the kernel says

## Main results

* `sim_step` — every event keeps the two machines together
* `hart_refines_kernel` — a run of the machine is a run of the kernel
* `virtual_cpus` — every task has a processor of its own
-/

namespace Cairn

open Amd64 (Addr Mem Reg Context Machine load InRange below execAll)

/-! ### New tasks -/

section Newcomers

variable {μ : Type} {p : Platform μ} {l : Linked p}

/-- The first context of a task: in ring 3, or in ring 0 at the top of its stack. -/
structure Fresh (l : Linked p) (i : Fin maxTasks) (f : TaskFrame) : Prop where
  slot : i ≠ 0
  start : f.ring3 = true ∨
    f.ring3 = false ∧ f.rip ≠ l.resumePoint ∧ f.rsp = p.taskKstackTop i - 8

theorem ring3_context (f : TaskFrame) : f.context.Ring3 ↔ f.ring3 = true := beq_iff_eq.symm

theorem Fresh.kstackOf_eq {i : Fin maxTasks} {f : TaskFrame} (h : Fresh l i f) :
    Kernel.kstackOf p i = p.taskKstackTop i := if_neg h.slot

theorem Fresh.used_le {i : Fin maxTasks} {f : TaskFrame} (h : Fresh l i f) :
    Linked.used p i f.context ≤ 8 := by
  rw [Linked.used]
  split
  · exact Nat.zero_le 8
  · rename_i hring
    rcases h.start with h3 | ⟨-, -, hrsp⟩
    · exact absurd ((ring3_context f).mpr h3) hring
    · rw [h.kstackOf_eq, show f.context.regs .rsp = p.taskKstackTop i - 8 from hrsp, sub_sub_cancel]
      decide

theorem Fresh.allowed {i : Fin maxTasks} {f : TaskFrame} (h : Fresh l i f) :
    l.Allowed i f.context := by
  have hused := h.used_le
  have hres := l.reserve_le
  have hroom := taskStackSize_le_stackRoom i
  rcases h.start with h3 | ⟨h0, hrip, -⟩
  · exact Or.inl ((ring3_context f).mpr h3)
  · refine Or.inr ⟨hrip, ?_⟩
    rw [Linked.used, if_neg (by rw [ring3_context, h0]; exact Bool.false_ne_true)] at hused
    show _ + _ + _ ≤ _
    omega

/-- A new task sees nothing of its stack yet. -/
theorem Fresh.not_private {i : Fin maxTasks} {f : TaskFrame} (h : Fresh l i f) {x : Addr}
    (hx : l.Visible i f.context x) : ¬l.Private x := by
  rcases hx.cases with hx | hx
  · exact hx
  · have hused := h.used_le
    exact absurd (Nat.lt_of_lt_of_le hx (by omega : _ - 8 ≤ 0)) (Nat.not_lt_zero _)

theorem Fresh.interrupted {i : Fin maxTasks} {f : TaskFrame} (h : Fresh l i f) (m : Mem) :
    Interrupted p (writeTaskFrame m (p.taskKstackTop i) f) i (p.taskKstackTop i - 160)
      f.context := by
  refine ⟨holdsContext_writeTaskFrame m _ f, 160, ?_, le_rfl, ?_⟩
  · rw [h.kstackOf_eq]
    rfl
  · exact Nat.le_trans (by decide) (taskStackSize_le_stackRoom i)

theorem Fresh.of_not_inStack {i : Fin maxTasks} {f : TaskFrame} (h : Fresh l i f) (m : Mem)
    {x : Addr} (hx : ¬InStack p i x) : writeTaskFrame m (p.taskKstackTop i) f x = m x := by
  refine writeTaskFrame_of_not_inRange fun hr => hx ?_
  rw [← h.kstackOf_eq] at hr
  exact .of_below (Nat.le_trans (by decide) (taskStackSize_le_stackRoom i)) le_rfl hr

/-- A new task joins. -/
theorem Backed.admit {k k' : Kernel μ} {m m' mem : Mem} {ctx : Fin maxTasks → Context}
    (h : Backed l k m ctx mem) {i : Fin maxTasks} {a : Task} {f : TaskFrame} (hf : Fresh l i f)
    (hidle : (k.task 0).present = true)
    (htask : ∀ t, k'.task t = if t = i then a else k.task t)
    (hframes : k'.frames = Function.update k.frames i f)
    (hm : ∀ t, (k.task t).present = true → t ≠ i → ∀ x, l.Visible t (ctx t) x → m' x = m x) :
    Backed l k' m' (Function.update ctx i f.context) mem := by
  have hold : ∀ t ≠ i, (k'.task t).present = true → (k.task t).present = true := by
    intro t ht hp
    rwa [htask, if_neg ht] at hp
  refine ⟨fun t ht => ?_, fun t ht => ?_, fun t ht x hx => ?_⟩
  · by_cases hti : t = i
    · rw [hti, Function.update_self]
      exact hf.allowed
    · rw [Function.update_of_ne hti]
      exact h.allowed t (hold t hti ht)
  · by_cases hti : t = i
    · rw [hti, Function.update_self, hframes, Function.update_self]
      exact ring3_context f
    · rw [Function.update_of_ne hti, hframes, Function.update_of_ne hti]
      exact h.ring3 t (hold t hti ht)
  · by_cases hti : t = i
    · rw [hti, Function.update_self] at hx
      have hpriv : l.Visible 0 (ctx 0) x := Or.inl (hf.not_private hx)
      exact (hm 0 hidle hf.slot.symm x hpriv).trans (h.visible 0 hidle x hpriv)
    · rw [Function.update_of_ne hti] at hx
      have hp := hold t hti ht
      exact (hm t hp hti x hx).trans (h.visible t hp x hx)

/-- The state a termination switches from, with the first context of a restarted task. -/
theorem Kernel.afterDeath_fresh (l : Linked p) (k : Kernel μ) :
    ∃ k₀, SameTasks k.dropCurrent k₀ ∧ k₀.parkedIn = k.parkedIn ∧ (k.afterDeath p = (none, k₀) ∨
      ∃ (i : Fin maxTasks) (a : Task) (frame : TaskFrame), k₀.sched.freeSlot = some i ∧
        New p i a ∧ a.rsp = p.taskKstackTop i - 160 ∧ Fresh l i frame ∧
        k.afterDeath p = (some i, k₀.admitInto i a frame)) := by
  obtain ⟨_, _, _, _, heq⟩ := k.reaped_eq p
  have hreaped : SameTasks k.dropCurrent (k.reaped p) ∧ (k.reaped p).parkedIn = k.parkedIn := by
    rw [heq]
    exact ⟨⟨rfl, rfl⟩, rfl⟩
  rw [afterDeath]
  split
  · exact ⟨_, hreaped.1, hreaped.2, Or.inl rfl⟩
  · have haside := (k.reaped p).aside_spend.trans (k.reaped p).spend.spaceOnly_granted.aside
    refine ⟨_, hreaped.1.trans haside.toSameTasks, haside.parkedIn.trans hreaped.2, ?_⟩
    rcases (k.reaped p).spend.restart_cases p with h | ⟨fm, ft, i, -, -, -, hfree, h⟩
    · exact Or.inl h
    · refine Or.inr ⟨i, _, _, hfree, new_newTask .., rfl, ⟨?_, Or.inl ?_⟩, h⟩
      · exact (Scheduler.freeSlot_eq_some hfree).1
      · exact ring3_buildTaskFrame ..

/-- Behind the death of the running task, the present tasks are the others. -/
theorem Kernel.SameTasks.of_dropCurrent {k k' : Kernel μ} (h : SameTasks k.dropCurrent k')
    {t : Fin maxTasks} (ht : (k'.task t).present = true) :
    t ≠ k.current ∧ k'.task t = k.task t := by
  have htask := (h.task t).trans (k.task_setTask k.current t _)
  by_cases heq : t = k.current
  · rw [htask, if_pos heq] at ht
    cases ht
  · rw [if_neg heq] at htask
    exact ⟨heq, htask⟩

/-- A task is dropped, and every other one is saved. -/
theorem Sim.allSaved_drop {h : Hart l} {v : Virtual μ} (hsim : Sim l h v) (h3 : v.running.Ring3)
    {k : Kernel μ} (hsame : Kernel.SameTasks v.kernel.dropCurrent k)
    (hpark : k.parkedIn = v.kernel.parkedIn) {m : Mem}
    (hconf : l.Confined v.kernel.current 0 h.cpu.mem m) :
    AllSaved l k m h.path v.ctx v.mem := by
  have hne := hsim.scheduled.current_ne_zero
    ((hsim.ring3 _ hsim.scheduled.current_present).mp h3)
  have hold : ∀ t, (k.task t).present = true → t ≠ v.kernel.current ∧ k.task t = v.kernel.task t :=
    fun t ht => hsame.of_dropCurrent ht
  have hpres : ∀ t, (k.task t).present = true → (v.kernel.task t).present = true := fun t ht =>
    (hold t ht).2 ▸ ht
  exact {
    allowed := fun t ht => hsim.allowed t (hpres t ht)
    ring3 := fun t ht => by
      rw [hsame.frames]
      exact hsim.ring3 t (hpres t ht)
    visible := fun t ht x hx =>
      (hconf.visible (hsim.allowed t (hpres t ht)) (fun heq => absurd heq (hold t ht).1) hx).trans
        (hsim.visible t (hpres t ht) x hx)
    tally := (hsim.scheduled.dropCurrent hne).of_same hsame
    saved := fun t ht => by
      rw [(hold t ht).2, hpark]
      exact hsim.saved_of_confined hconf t (hpres t ht) (hold t ht).1 }

/-- A new task is saved at the top of its stack. -/
theorem AllSaved.admitInto {k : Kernel μ} {path : Fin maxTasks → Option (BlockingPath l)}
    {ctx : Fin maxTasks → Context} {m m' mem : Mem} (h : AllSaved l k m path ctx mem)
    {i : Fin maxTasks} {a : Task} {f : TaskFrame} (hfree : k.sched.freeSlot = some i)
    (hnew : Kernel.New p i a) (hrsp : a.rsp = p.taskKstackTop i - 160) (hf : Fresh l i f)
    (hstack : ∀ t, (k.task t).present = true → t ≠ i → ∀ x, InStack p t x → m' x = m x)
    (hpub : ∀ x, ¬l.Private x → m' x = m x)
    (hint : Interrupted p m' i (p.taskKstackTop i - 160) f.context) :
    AllSaved l (k.admitInto i a f) m' path (Function.update ctx i f.context) mem := by
  have htask := fun t => k.task_admitInto i t a f
  refine { h.toBacked.admit hf h.tally.idle_present htask rfl fun t ht hti x hx => ?_ with
    tally := h.tally.admitInto hfree hnew f, saved := fun t ht => ?_ }
  · exact hx.inStack_or (h.allowed t ht) |>.elim (hpub x) (hstack t ht hti x)
  · show Saved l m' t _ (Function.update k.parkedIn i false t) _ _
    rw [htask] at ht ⊢
    by_cases hti : t = i
    · subst hti
      rw [if_pos rfl, Function.update_self, Function.update_self, hrsp]
      exact hint
    · rw [if_neg hti] at ht ⊢
      rw [Function.update_of_ne hti, Function.update_of_ne hti]
      exact (h.saved t ht).congr (hstack t ht hti)

theorem FaultPath.confined_before (f : FaultPath l) (t : Fin maxTasks) (s : Machine) :
    l.Confined t 0 s.mem (f.before (Kernel.kstackOf p t) s).mem :=
  Linked.confined_of_range (taskStackSize_le_stackRoom t) le_rfl (f.before_mem _ s)

theorem FaultPath.confined_after (f : FaultPath l) (t : Fin maxTasks) (s : Machine) :
    l.Confined t 160 s.mem (f.after (Kernel.kstackOf p t) s).mem :=
  Linked.confined_of_range (taskStackSize_le_stackRoom t) (by decide) (f.after_mem _ s)

/-- A fault ends in the tail of a switch. -/
theorem tail_fault (p : Platform μ) (k : Kernel μ) :
    Tail (k.afterDeath p).2 (k.step p .fault) := by
  rw [Kernel.step, Kernel.terminateCurrent_eq]
  exact tail_restore p _

/-- A fault. -/
theorem sim_fault {h : Hart l} {v : Virtual μ} (hsim : Sim l h v) (h3 : v.running.Ring3)
    (f : FaultPath l) : Sim l (h.fault l f) (v.step l (.fault f)) := by
  rw [Hart.fault, Virtual.step]
  dsimp only
  rw [if_pos h3, hsim.kernel, hsim.rsp0 h3]
  have htail := tail_fault p v.kernel
  rw [show v.kernel.newcomer p .fault = (v.kernel.afterDeath p).1 from rfl]
  obtain ⟨k₀, hsame, hpark, hdeath⟩ := v.kernel.afterDeath_fresh l
  generalize v.kernel.step p .fault = r at htail ⊢
  have hbefore := f.confined_before v.kernel.current h.cpu
  have hgs := f.before_gs (Kernel.kstackOf p v.kernel.current) h.cpu
  generalize f.before (Kernel.kstackOf p v.kernel.current) h.cpu = s₁ at hbefore hgs ⊢
  generalize hs₂ : ({ s₁ with
    mem := Hart.install p r.2 (v.kernel.afterDeath p).1 s₁.mem } : Machine) = s₂
  have hafter := f.confined_after v.kernel.current s₂
  have hgs' := f.after_gs (Kernel.kstackOf p v.kernel.current) s₂
  generalize f.after (Kernel.kstackOf p v.kernel.current) s₂ = s₃ at hafter hgs' ⊢
  have hgs₃ : s₃.gsBase = 0 ∧ s₃.kernelGsBase = l.perCpu := by
    rw [← hs₂] at hgs'
    exact ⟨hgs'.1.trans (hgs.1.trans hsim.gsBase), hgs'.2.trans (hgs.2.trans hsim.kernelGsBase)⟩
  have hfinal := hafter.trans (confined_sync r.2 s₃.mem _ _)
  have hword := load_sync_kernelRsp0 (l := l) r.2 s₃.mem
  have hload : ∀ ptr, r.1.restored = some ptr → ∀ c, HoldsContext (Hart.sync l r.2 s₃.mem) ptr c →
      execAll jumpToTask
        { s₃.set .rdi (r.1.restored.getD 0) with mem := Hart.sync l r.2 s₃.mem }
        = ⟨c, 0, l.perCpu, Hart.sync l r.2 s₃.mem⟩ := by
    intro ptr hptr c hc
    rw [hptr, execAll_jumpToTask (c := c) (by simpa [Machine.set] using hc)]
    simp only [Machine.set, hgs₃.1, hgs₃.2]
  generalize Hart.sync l r.2 s₃.mem = m at *
  rcases hdeath with hnone | ⟨i, a, frame, hfree, hnew, hrsp, hfresh, hsome⟩
  · rw [hnone] at htail hs₂ ⊢
    refine AllSaved.switch ?_ htail hword hload
    refine hsim.allSaved_drop h3 hsame hpark (hbefore.trans ?_)
    rw [← hs₂] at hfinal
    exact hfinal.mono (Nat.zero_le 160)
  · rw [hsome] at htail hs₂ ⊢
    have hframe : r.2.frames i = frame := by
      rw [htail.frames]
      exact Function.update_self ..
    have hmem : s₂.mem = writeTaskFrame s₁.mem (p.taskKstackTop i) frame := by
      rw [← hs₂, ← hframe]
      rfl
    have hother : ∀ x, ¬InStack p v.kernel.current x → ¬InStack p i x → ¬l.Data x →
        m x = h.cpu.mem x := by
      intro x hcur hi hd
      rw [hfinal.of_not_inStack hcur hd, hmem, hfresh.of_not_inStack s₁.mem hi,
        hbefore.of_not_inStack hcur hd]
    have hint : Interrupted p m i (p.taskKstackTop i - 160) frame.context := by
      have hfirst := hfresh.interrupted s₁.mem
      rw [← hmem] at hfirst
      have h160 : 160 ≤ stackRoom i := Nat.le_trans (by decide) (taskStackSize_le_stackRoom i)
      refine ⟨hfirst.holds.congr fun x hx => ?_, hfirst.place⟩
      rw [← hfresh.kstackOf_eq] at hx
      by_cases hi : i = v.kernel.current
      · subst hi
        exact hfinal.of_above h160 le_rfl hx
      · exact hfinal.inStack_of_ne hi (.of_below h160 le_rfl hx)
    refine AllSaved.switch ?_ htail hword hload
    rw [Virtual.enrol, hframe]
    refine (hsim.allSaved_drop h3 hsame hpark (.refl _ 0 _)).admitInto hfree hnew hrsp hfresh
      (fun t ht hti x hx => ?_) (fun x hx => ?_) hint
    · have hne := (hsame.of_dropCurrent ht).1
      exact hother x (fun hx' => hne (l.inStack_unique hx hx'))
        (fun hx' => hti (l.inStack_unique hx hx')) fun hd => l.data_stack t x hd hx
    · exact hother x (fun hx' => hx (Or.inl ⟨_, hx'⟩)) (fun hx' => hx (Or.inl ⟨_, hx'⟩))
        fun hd => hx (Or.inr hd)

/-- A call that leaves the contexts alone. -/
theorem Sim.calm {h : Hart l} {v : Virtual μ} (hsim : Sim l h v) {k : Kernel μ}
    (hsched : k.Scheduled p) (hcalm : Kernel.Calm v.kernel k) :
    Sim l ⟨{ h.cpu with mem := Hart.sync l k h.cpu.mem }, k, h.path⟩ ⟨k, v.ctx, v.mem⟩ := by
  have hconf := confined_sync (l := l) k h.cpu.mem v.kernel.current
  have hrunning : (⟨k, v.ctx, v.mem⟩ : Virtual μ).running = v.running :=
    congrArg v.ctx hcalm.current
  refine { (hsim.backed_of_confined (hconf _)).congr hcalm.present hcalm.frames with
    kernel := rfl, scheduled := hsched, gsBase := hsim.gsBase, kernelGsBase := hsim.kernelGsBase
    running := hsim.running.trans hrunning.symm
    outside := ?_
    rsp0 := fun h3 => ?_
    kernelRsp0 := fun h3 => ?_
    word := fun _ => load_sync_kernelRsp0 k _
    saved := fun t ht hne => ?_ }
  · show k.parkedIn k.current = false
    rw [hcalm.parkedIn, hcalm.current, hsim.outside]
  · show k.rsp0 = Kernel.kstackOf p k.current
    rw [hcalm.rsp0, hcalm.current, hsim.rsp0 (hrunning ▸ h3)]
  · show k.perCpu.kernelRsp0 = Kernel.kstackOf p k.current
    rw [hcalm.kernelRsp0, hcalm.current, hsim.kernelRsp0 (hrunning ▸ h3)]
  · replace hne : t ≠ v.kernel.current := hcalm.current ▸ hne
    show Saved l _ t (k.task t).rsp (k.parkedIn t) _ _
    rw [hcalm.rsp, hcalm.parkedIn]
    exact hsim.saved_of_confined (hconf 0) t (hcalm.present t ▸ ht) hne

/-- An admission. -/
theorem Sim.admit {h : Hart l} {v : Virtual μ} (hsim : Sim l h v) {i : Fin maxTasks} {a : Task}
    {f : TaskFrame} (hfree : v.kernel.sched.freeSlot = some i)
    (hrsp : a.rsp = p.taskKstackTop i - 160) (hf : Fresh l i f)
    (hsched : (v.kernel.admitInto i a f).Scheduled p) :
    Sim l ⟨{ h.cpu with
          mem := Hart.sync l (v.kernel.admitInto i a f)
            (writeTaskFrame h.cpu.mem (p.taskKstackTop i) f) }, v.kernel.admitInto i a f, h.path⟩
      ⟨v.kernel.admitInto i a f, Function.update v.ctx i f.context, v.mem⟩ := by
  have hi : (v.kernel.task i).present = false := (Scheduler.freeSlot_eq_some hfree).2
  have hcur : v.kernel.current ≠ i := by
    rintro rfl
    exact absurd (hi.symm.trans hsim.scheduled.current_present) Bool.false_ne_true
  have htask := fun t => v.kernel.task_admitInto i t a f
  have hmem : ∀ x, ¬InStack p i x → ¬l.Data x → Hart.sync l (v.kernel.admitInto i a f)
      (writeTaskFrame h.cpu.mem (p.taskKstackTop i) f) x = h.cpu.mem x := by
    intro x hx hd
    rw [sync_of_not_data _ _ hd, hf.of_not_inStack _ hx]
  have hint := (hf.interrupted h.cpu.mem).congr fun x hx =>
    sync_of_not_data (l := l) (v.kernel.admitInto i a f) _ fun hd => l.data_stack i x hd hx
  have hstack : ∀ t ≠ i, ∀ x, InStack p t x → Hart.sync l (v.kernel.admitInto i a f)
      (writeTaskFrame h.cpu.mem (p.taskKstackTop i) f) x = h.cpu.mem x := fun t hti x hx =>
    hmem x (fun hx' => hti (l.inStack_unique hx hx')) fun hd => l.data_stack t x hd hx
  have hback := hsim.toBacked.admit hf hsim.scheduled.idle_present htask rfl
    fun t ht hti x hx => (hx.inStack_or (hsim.allowed t ht)).elim
      (fun hpub => hmem x (fun hx' => hpub (Or.inl ⟨i, hx'⟩)) fun hd => hpub (Or.inr hd))
      (hstack t hti x)
  have hrunning : (⟨v.kernel.admitInto i a f, Function.update v.ctx i f.context, v.mem⟩ :
      Virtual μ).running = v.running := Function.update_of_ne hcur _ _
  refine { hback with
    kernel := rfl, scheduled := hsched, gsBase := hsim.gsBase, kernelGsBase := hsim.kernelGsBase
    running := hsim.running.trans hrunning.symm
    outside := ?_
    rsp0 := fun h3 => hsim.rsp0 (hrunning ▸ h3)
    kernelRsp0 := fun h3 => hsim.kernelRsp0 (hrunning ▸ h3)
    word := fun _ => load_sync_kernelRsp0 _ _
    saved := fun t ht hne => ?_ }
  · show Function.update v.kernel.parkedIn i false v.kernel.current = false
    rw [Function.update_of_ne hcur, hsim.outside]
  · show Saved l _ t ((v.kernel.admitInto i a f).task t).rsp
      (Function.update v.kernel.parkedIn i false t) _ (Function.update v.ctx i f.context t)
    by_cases hti : t = i
    · subst hti
      rw [htask, if_pos rfl, Function.update_self, Function.update_self, hrsp]
      exact hint
    · replace ht : (v.kernel.task t).present = true := by
        rw [← if_neg hti (t := a) (e := v.kernel.task t), ← htask]
        exact ht
      rw [htask, if_neg hti, Function.update_of_ne hti, Function.update_of_ne hti]
      exact (hsim.saved t ht hne).congr (hstack t hti)

/-- An admission on behalf of the boot thread. -/
theorem Sim.admitWith {h : Hart l} {v : Virtual μ} (hsim : Sim l h v)
    {frame : Fin maxTasks → TaskFrame} (hf : ∀ i ≠ 0, Fresh l i (frame i))
    (cptr domain period rel budget : ℕ) {r : Option (Fin maxTasks) × Kernel μ}
    (hr : v.kernel.admitWith p frame cptr domain period rel budget = r)
    (hsched : r.2.Scheduled p) :
    Sim l ⟨{ h.cpu with mem := Hart.sync l r.2 (Hart.install p r.2 r.1 h.cpu.mem) }, r.2, h.path⟩
      ⟨r.2, Virtual.enrol r.2 r.1 v.ctx, v.mem⟩ := by
  rcases v.kernel.admitWith_eq p frame cptr domain period rel budget with hnone |
    ⟨i, -, -, hfree, hsome⟩
  · obtain rfl := hr.symm.trans hnone
    exact hsim.calm hsched (Kernel.Aside.refl v.kernel).calm
  · obtain rfl := hr.symm.trans hsome
    have hframe : (v.kernel.admitInto i (v.kernel.newTask p i domain period rel budget)
        (frame i)).frames i = frame i := Function.update_self ..
    simp only [Hart.install, Virtual.enrol, hframe]
    exact hsim.admit hfree rfl
      (hf i (Scheduler.freeSlot_eq_some hfree).1) hsched

/-- A call of the boot thread. -/
theorem sim_boot {h : Hart l} {v : Virtual μ} (hsim : Sim l h v) {op : Op μ}
    (hop : l.fromBoot op = true) :
    Sim l (h.boot l op) ⟨(v.kernel.step p op).2,
      Virtual.enrol (v.kernel.step p op).2 (v.kernel.newcomer p op) v.ctx, v.mem⟩ := by
  have hfair : v.kernel.Fair (.op op) := by
    cases op with
    | syscall | tick | fault => cases hop
    | _ => trivial
  have hsched : (v.kernel.step p op).2.Scheduled p :=
    hsim.scheduled.move (v.kernel.move_schedStep p hsim.scheduled.idle_ring0 (.op op) hfair)
  rw [Hart.boot, hsim.kernel]
  by_cases hbg : op.background = true
  · have hnone : v.kernel.newcomer p op = none := by
      cases op <;> first | rfl | cases hbg
    rw [hnone]
    exact hsim.calm hsched (v.kernel.aside_step p hbg).1.calm
  cases op with
  | setCurrentDomain d =>
    exact hsim.calm hsched ⟨rfl, fun _ => rfl, fun _ => rfl, rfl, rfl, rfl, rfl⟩
  | admitTask entry c period rel budget =>
    refine hsim.admitWith (fun i hi => ⟨hi, Or.inr ⟨?_, ?_, rfl⟩⟩) c 0 period rel budget rfl hsched
    · exact Kernel.ring3_buildTaskFrame ..
    · exact of_decide_eq_true hop
  | admitUser entry stackTop mem c d period rel budget =>
    refine hsim.admitWith (fun i hi => ⟨hi, Or.inl ?_⟩) c d period rel budget rfl hsched
    exact Kernel.ring3_buildTaskFrame ..
  | syscall | tick | fault => cases hop
  | _ => exact absurd rfl hbg

end Newcomers

/-! ### Every run -/

section Run

variable {μ : Type} {p : Platform μ} {l : Linked p}

/-- The running task has computed, and both machines show it the same memory. -/
theorem Sim.computed {h : Hart l} {v : Virtual μ} (hsim : Sim l h v)
    (code : Code l v.kernel.current)
    (hallow : l.Allowed v.kernel.current (code.run v.running v.mem).1)
    (hmem : ∀ x, l.Visible v.kernel.current (code.run v.running v.mem).1 x →
      (code.run v.running h.cpu.mem).2 x = (code.run v.running v.mem).2 x) :
    Sim l ⟨⟨(code.run v.running v.mem).1, h.cpu.gsBase, h.cpu.kernelGsBase,
        (code.run v.running h.cpu.mem).2⟩, v.kernel, h.path⟩
      ⟨v.kernel, Function.update v.ctx v.kernel.current (code.run v.running v.mem).1,
        (code.run v.running v.mem).2⟩ := by
  have hring : (code.run v.running v.mem).1.Ring3 ↔ v.running.Ring3 := by
    rw [Context.Ring3, code.cs, Context.Ring3]
  have hrunning : (⟨v.kernel, Function.update v.ctx v.kernel.current (code.run v.running v.mem).1,
      (code.run v.running v.mem).2⟩ : Virtual μ).running = (code.run v.running v.mem).1 :=
    Function.update_self ..
  have hstack : ∀ t ≠ v.kernel.current, ∀ x, InStack p t x → ∀ m,
      (code.run v.running m).2 x = m x := fun t ht x hx m =>
    code.keeps _ m x (Or.inl ⟨t, hx⟩) (Or.inr fun hx' => ht (l.inStack_unique hx hx'))
  refine {
    kernel := rfl, scheduled := hsim.scheduled, running := hrunning.symm
    gsBase := hsim.gsBase, kernelGsBase := hsim.kernelGsBase, outside := hsim.outside
    rsp0 := fun h3 => hsim.rsp0 (hring.mp (hrunning ▸ h3))
    kernelRsp0 := fun h3 => hsim.kernelRsp0 (hring.mp (hrunning ▸ h3))
    word := fun h3 => ?_
    allowed := fun t ht => ?_, ring3 := fun t ht => ?_, visible := fun t ht x hx => ?_
    saved := fun t ht hne => ?_ }
  · dsimp only
    by_cases heq : t = v.kernel.current
    · rw [heq, Function.update_self]
      exact hallow
    · rw [Function.update_of_ne heq]
      exact hsim.allowed t ht
  · dsimp only
    by_cases heq : t = v.kernel.current
    · subst heq
      rw [Function.update_self, hring]
      exact hsim.ring3 _ ht
    · rw [Function.update_of_ne heq]
      exact hsim.ring3 t ht
  · dsimp only at hx
    by_cases heq : t = v.kernel.current
    · subst heq
      rw [Function.update_self] at hx
      exact hmem x hx
    · rw [Function.update_of_ne heq] at hx
      rcases hx.inStack_or (hsim.allowed t ht) with hpub | hown
      · exact hmem x (Or.inl hpub)
      · show (code.run v.running h.cpu.mem).2 x = (code.run v.running v.mem).2 x
        rw [hstack t heq x hown, hstack t heq x hown]
        exact hsim.visible t ht x hx
  · have hc3 := hring.mp (hrunning ▸ h3)
    refine (Amd64.load_congr_of_inRange (n := 8) (by decide) fun x hx => ?_).trans (hsim.word hc3)
    refine code.keeps _ _ x (Or.inr (l.perCpu_data x (hx.mono ?_))) (Or.inl hc3)
    rw [BitVec.sub_self]
    decide
  · dsimp only
    rw [Function.update_of_ne hne]
    exact (hsim.saved t ht hne).congr fun x hx => hstack t hne x hx h.cpu.mem

/-- What a task computes by itself. -/
theorem sim_compute {h : Hart l} {v : Virtual μ} (hsim : Sim l h v) {t : Fin maxTasks}
    (code : Code l t) : Sim l (h.compute l code) (v.step l (.compute t code)) := by
  rw [Hart.compute, Virtual.step]
  dsimp only
  rw [hsim.kernel, hsim.running]
  by_cases ht : t = v.kernel.current
  · subst ht
    have hpres := hsim.scheduled.current_present
    obtain ⟨hctx, hmem⟩ := code.blind v.running h.cpu.mem v.mem (hsim.visible _ hpres)
    rw [hctx] at hmem ⊢
    by_cases hallow : l.Allowed v.kernel.current (code.run v.running v.mem).1
    · rw [if_pos ⟨rfl, hallow⟩, if_pos ⟨rfl, hallow⟩]
      exact hsim.computed code hallow hmem
    · rw [if_neg fun hc => hallow hc.2, if_neg fun hc => hallow hc.2]
      exact hsim
  · rw [if_neg fun hc => ht hc.1, if_neg fun hc => ht hc.1]
    exact hsim

/-- At boot. -/
theorem sim_init (m₀ : μ) (b : BootContext l) : Sim l (Hart.init l m₀ b) (Virtual.init m₀ b) := by
  have honly : ∀ t, ((Kernel.init p m₀).task t).present = true → t = 0 := by
    intro t ht
    by_contra hne
    rw [Kernel.task_init p m₀ hne] at ht
    cases ht
  have hsched := Kernel.scheduled_init p m₀
  refine {
    kernel := rfl, scheduled := hsched, running := rfl, gsBase := rfl, kernelGsBase := rfl
    outside := rfl
    rsp0 := fun h3 => absurd h3 b.ring0
    kernelRsp0 := fun h3 => absurd h3 b.ring0
    word := fun h3 => absurd h3 b.ring0
    allowed := fun t ht => ?_, ring3 := fun t ht => ?_, visible := fun _ _ _ _ => rfl
    saved := fun t ht hne => absurd (honly t ht) hne }
  · obtain rfl := honly t ht
    exact b.allowed
  · obtain rfl := honly t ht
    refine ⟨fun h3 => absurd h3 b.ring0, fun h3 => ?_⟩
    exact absurd (hsched.idle_ring0.symm.trans h3) Bool.false_ne_true

/-- Every event. -/
theorem sim_step {h : Hart l} {v : Virtual μ} (hsim : Sim l h v) (e : HartEvent l) :
    Sim l (h.step l e) (v.step l e) := by
  have hring : h.cpu.Ring3 ↔ v.running.Ring3 := by rw [hsim.running]
  cases e with
  | compute t code => exact sim_compute hsim code
  | tick f => exact sim_tick hsim f
  | syscall f path =>
    rw [Hart.step]
    by_cases h3 : v.running.Ring3
    · rw [if_pos (hring.mpr h3)]
      exact sim_syscall hsim h3 f path
    · rw [if_neg fun h => h3 (hring.mp h), Virtual.step]
      dsimp only
      rw [if_neg h3]
      exact hsim
  | fault f =>
    rw [Hart.step]
    by_cases h3 : v.running.Ring3
    · rw [if_pos (hring.mpr h3)]
      exact sim_fault hsim h3 f
    · rw [if_neg fun h => h3 (hring.mp h), Virtual.step, if_neg h3]
      exact hsim
  | boot op =>
    rw [Hart.step, Virtual.step, hsim.kernel]
    by_cases hop : v.kernel.current = 0 ∧ l.fromBoot op = true
    · rw [if_pos hop, if_pos hop]
      exact sim_boot hsim hop.2
    · rw [if_neg hop, if_neg hop]
      exact hsim

/-- The machine after a run, latest event first. -/
def hartAfter (l : Linked p) (m₀ : μ) (b : BootContext l) (run : List (HartEvent l)) : Hart l :=
  Runs.after (Hart.step l) (Hart.init l m₀ b) run

/-- The tasks' own processors after a run. -/
def virtualAfter (l : Linked p) (m₀ : μ) (b : BootContext l) (run : List (HartEvent l)) :
    Virtual μ := Runs.after (Virtual.step l) (Virtual.init m₀ b) run

theorem sim_after (m₀ : μ) (b : BootContext l) (run : List (HartEvent l)) :
    Sim l (hartAfter l m₀ b run) (virtualAfter l m₀ b run) := by
  induction run with
  | nil => exact sim_init m₀ b
  | cons e run ih => exact sim_step ih e

/-- What an event does to the kernel is one of its operations, or nothing; a syscall or a fault
comes from a ring-3 task, and the boot thread makes no other calls than those of the event. -/
theorem Sim.kernel_step {h : Hart l} {v : Virtual μ} (hsim : Sim l h v) (e : HartEvent l) :
    (v.step l e).kernel = v.kernel ∨
      ∃ op, v.kernel.Fair (.op op) ∧
        ((∀ op', e = .boot op' → l.fromBoot op' = true → v.kernel.Permitted op') →
          v.kernel.Permitted op) ∧
        (v.step l e).kernel = (v.kernel.step p op).2 := by
  have hring : v.running.Ring3 → v.kernel.InRing3 :=
    (hsim.ring3 _ hsim.scheduled.current_present).mp
  cases e with
  | compute t code =>
    refine Or.inl ?_
    rw [Virtual.step]
    split <;> rfl
  | tick f => exact Or.inr ⟨.tick (v.interruptedAt p), trivial, fun _ => trivial, rfl⟩
  | syscall f path =>
    rw [Virtual.step]
    split
    · rename_i h3
      exact Or.inr
        ⟨v.running.syscallOp (v.blockedAt p path.depth), hring h3, fun _ => hring h3, rfl⟩
    · exact Or.inl rfl
  | fault f =>
    rw [Virtual.step]
    split
    · rename_i h3
      exact Or.inr ⟨.fault, hring h3, fun _ => hring h3, rfl⟩
    · exact Or.inl rfl
  | boot op =>
    rw [Virtual.step]
    split
    · rename_i hop
      refine Or.inr ⟨op, ?_, fun hboot => hboot op rfl hop.2, rfl⟩
      cases op with
      | syscall | tick | fault => exact absurd hop.2 Bool.false_ne_true
      | _ => trivial
    · exact Or.inl rfl

/-- The operations of the kernel in a run of the machine. -/
theorem exists_ops (l : Linked p) (m₀ : μ) (b : BootContext l) (run : List (HartEvent l)) :
    ∃ ops, Runs.Every (fun k op => (k.step p op).2) (Kernel.init p m₀)
        (fun k op => k.Fair (.op op)) ops ∧
      ((∀ op, .boot op ∈ run → l.fromBoot op = true → ∀ k : Kernel μ, k.Permitted op) →
        Runs.Every (fun k op => (k.step p op).2) (Kernel.init p m₀) Kernel.Permitted ops) ∧
      (virtualAfter l m₀ b run).kernel = kernelAfter p m₀ ops := by
  induction run with
  | nil => exact ⟨[], trivial, fun _ => trivial, rfl⟩
  | cons e run ih =>
    obtain ⟨ops, hfair, hperm, hker⟩ := ih
    rcases (sim_after (l := l) m₀ b run).kernel_step e with hsame | ⟨op, hop, hop', hstep⟩
    · refine ⟨ops, hfair, fun hboot => hperm fun op hmem => hboot op (.tail e hmem), ?_⟩
      exact hsame.trans hker
    · rw [hker] at hop hop' hstep
      refine ⟨op :: ops, ⟨hop, hfair⟩, fun hboot => ⟨hop' ?_, hperm fun op' hmem => ?_⟩, hstep⟩
      · rintro op' rfl hfrom
        exact hboot op' (.head run) hfrom _
      · exact hboot op' (.tail e hmem)

/-- The machine is in the state `k` of the kernel. The running task is on the processor, in its
ring; in ring 3 the per-CPU block in memory and the word of the TSS name its kernel stack, which is
where the stubs go; and the saved-context pointer of every other task leads to a context of that
task in memory, directly or through the rest of a syscall. -/
structure Carries (l : Linked p) (h : Hart l) (k : Kernel μ) : Prop where
  kernel : h.kernel = k
  ring3 : h.cpu.Ring3 ↔ k.InRing3
  outside : k.parkedIn k.current = false
  gs : h.cpu.gsBase = 0 ∧ h.cpu.kernelGsBase = l.perCpu
  word : h.cpu.Ring3 → load h.cpu.mem 8 l.perCpu = Kernel.kstackOf p k.current
  rsp0 : h.cpu.Ring3 → k.rsp0 = Kernel.kstackOf p k.current
  saved : ∀ t, (k.task t).present = true → t ≠ k.current →
    ∃ c, (c.Ring3 ↔ (k.frames t).ring3 = true) ∧
      Saved l h.cpu.mem t (k.task t).rsp (k.parkedIn t) (h.path t) c

theorem Sim.carries {h : Hart l} {v : Virtual μ} (hsim : Sim l h v) : Carries l h v.kernel where
  kernel := hsim.kernel
  ring3 := by
    rw [hsim.running]
    exact hsim.ring3 _ hsim.scheduled.current_present
  outside := hsim.outside
  gs := ⟨hsim.gsBase, hsim.kernelGsBase⟩
  word h3 := by
    rw [hsim.running] at h3
    exact (hsim.word h3).trans (hsim.kernelRsp0 h3)
  rsp0 h3 := by
    rw [hsim.running] at h3
    exact hsim.rsp0 h3
  saved t ht hne := ⟨v.ctx t, hsim.ring3 t ht, hsim.saved t ht hne⟩

/-- **A run of the machine is a run of the kernel**, in which only ring-3 tasks make syscalls and
fault, and the machine is in the state that run ends in: registers, per-CPU block, kernel stacks and
saved contexts are as the kernel has them. If the calls of the boot thread are permitted, every
operation is, so what holds after every permitted run of the kernel holds on the machine, whatever
the compiled code does within its calling convention. -/
theorem hart_refines_kernel (l : Linked p) (m₀ : μ) (b : BootContext l)
    (run : List (HartEvent l)) :
    ∃ ops, Runs.Every (fun k op => (k.step p op).2) (Kernel.init p m₀)
        (fun k op => k.Fair (.op op)) ops ∧
      ((∀ op, .boot op ∈ run → l.fromBoot op = true → ∀ k : Kernel μ, k.Permitted op) →
        Runs.Every (fun k op => (k.step p op).2) (Kernel.init p m₀) Kernel.Permitted ops) ∧
      Carries l (hartAfter l m₀ b run) (kernelAfter p m₀ ops) := by
  obtain ⟨ops, hfair, hperm, hker⟩ := exists_ops l m₀ b run
  refine ⟨ops, hfair, hperm, ?_⟩
  rw [← hker]
  exact (sim_after m₀ b run).carries

end Run

/-! ### Two tasks exchange a message -/

section Plain

variable {μ : Type} {p : Platform μ}

theorem ne_rsp_of_calleeSaved {r : Reg} (hr : r ∈ calleeSaved) : r ≠ .rsp := by
  rintro rfl
  exact absurd hr (by decide)

/-- A function that only returns. -/
def Callee.plain (l : Linked p) (args : ℕ) : Callee l args where
  run := fun s => s.set .rsp (s.regs .rsp + 8)
  callee := fun _ _ hr => Function.update_of_ne (ne_rsp_of_calleeSaved hr) _ _
  rsp := fun _ => rfl
  gs := fun _ => ⟨rfl, rfl⟩
  mem := fun _ _ _ _ => rfl

/-- Eight bytes are taken from the stack and given back. -/
theorem plain_leave {s s' : Machine}
    (hrsp : s'.regs .rsp = (s.set .rsp (below (s.regs .rsp) 8)).regs .rsp + 8)
    (hcallee : ∀ r ∈ calleeSaved, s'.regs r = (s.set .rsp (below (s.regs .rsp) 8)).regs r) :
    (∀ r ∈ calleeSaved, (s'.set .rsp (s'.regs .rsp + 8)).regs r = s.regs r) ∧
      (s'.set .rsp (s'.regs .rsp + 8)).regs .rsp = s.regs .rsp + 8 := by
  have hkeep : ∀ (a : Machine) (v : BitVec 64), ∀ r ∈ calleeSaved,
      (a.set .rsp v).regs r = a.regs r := fun _ _ _ hr =>
    Function.update_of_ne (ne_rsp_of_calleeSaved hr) _ _
  have hback : s'.regs .rsp = s.regs .rsp := hrsp.trans (BitVec.sub_add_cancel _ _)
  refine ⟨fun r hr => ?_, congrArg (· + 8) hback⟩
  rw [hkeep s' _ r hr, hcallee r hr, hkeep s _ r hr]

/-- A `syscall_dispatch` that calls `block_and_switch` at once and returns behind it. -/
def BlockingPath.plain (l : Linked p) (hres : 168 ≤ l.reserve) : BlockingPath l where
  enter := fun s => s.set .rsp (below (s.regs .rsp) 8)
  leave := fun s => s.set .rsp (s.regs .rsp + 8)
  depth := 8
  eight_le := le_rfl
  depth_le := hres
  enter_rsp := fun _ => rfl
  enter_gs := fun _ => ⟨rfl, rfl⟩
  enter_mem := fun _ _ _ _ => rfl
  leave_gs := fun _ => ⟨rfl, rfl⟩
  leave_spec := fun _ _ hrsp hcallee _ =>
    ⟨(plain_leave hrsp hcallee).1, (plain_leave hrsp hcallee).2, fun _ _ _ => rfl⟩

/-- A fault handler that writes nothing. -/
def FaultPath.plain (l : Linked p) : FaultPath l where
  before := fun _ s => s
  after := fun _ s => s
  before_gs := fun _ _ => ⟨rfl, rfl⟩
  after_gs := fun _ _ => ⟨rfl, rfl⟩
  before_mem := fun _ _ _ _ _ => rfl
  after_mem := fun _ _ _ _ _ => rfl

/-- The registers with the arguments of a `cap_invoke` that transfers nothing, and a mark in
`rbx`. -/
def callRegs (cptr method arg0 mark : BitVec 64) (regs : Reg → BitVec 64) : Reg → BitVec 64
  | .rax => 1
  | .rdi => cptr
  | .rsi => method
  | .rdx => arg0
  | .r9 => 0xffff
  | .rbx => mark
  | r => regs r

/-- A task loads the arguments of a syscall. -/
def Code.load (l : Linked p) (t : Fin maxTasks) (cptr method arg0 mark : BitVec 64) : Code l t where
  run := fun c m => ({ c with regs := callRegs cptr method arg0 mark c.regs, rip := c.rip + 42 }, m)
  cs := fun _ _ => rfl
  keeps := fun _ _ _ _ _ => rfl
  blind := fun _ _ _ h => ⟨rfl, h⟩

end Plain

theorem toNat_lt_of_inRange {x : Addr} (h : InRange 0x1000 0x2000 x) : x.toNat < 0x3000 := by
  have hx := x.isLt
  rw [InRange, BitVec.toNat_sub] at h
  simp only [BitVec.reduceToNat] at h
  omega

theorem stackedMachine_stacks : ∀ t : Fin maxTasks,
    0x3000 ≤ (Kernel.kstackOf stackedMachine t).toNat - stackRoom t := by decide

/-- The save slots of `stackedLinked`, behind its per-CPU block. -/
def stackedSlot (t : Fin maxTasks) : Addr := 0x1000 + BitVec.ofNat 64 (8 * (t + 3))

theorem stackedSlot_data (t : Fin maxTasks) (x : Addr) (hx : InRange (stackedSlot t) 8 x) :
    InRange 0x1000 0x2000 x := by
  have ht := t.isLt
  unfold maxTasks at ht
  refine hx.mono ?_
  rw [stackedSlot, Amd64.toNat_add_ofNat_sub _ (by omega)]
  omega

theorem stackedSlot_perCpu (t : Fin maxTasks) (x : Addr) (hx : InRange (stackedSlot t) 8 x) :
    ¬InRange 0x1000 24 x := by
  have ht := t.isLt
  unfold maxTasks at ht
  intro hcpu
  rw [InRange, stackedSlot, sub_add_eq_sub_sub, BitVec.toNat_sub, BitVec.toNat_ofNat] at hx
  rw [InRange] at hcpu
  omega

theorem stackedData_stack (t : Fin maxTasks) (x : Addr) (hd : InRange 0x1000 0x2000 x) :
    ¬InStack stackedMachine t x := by
  have hlow := toNat_lt_of_inRange hd
  rw [stackedLayout.inStack_iff]
  intro hs
  exact absurd hs.1 (Nat.not_le.mpr (Nat.lt_of_lt_of_le hlow (stackedMachine_stacks t)))

/-- The linked image of `stackedMachine`: the data of the kernel lies below the stacks. -/
def stackedLinked : Linked stackedMachine where
  toStackLayout := stackedLayout
  perCpu := 0x1000
  saveSlot := stackedSlot
  Data := InRange 0x1000 0x2000
  timerIsr := 0x100
  lstar := 0x200
  tickReturn := 0x110
  dispatchReturn := 0x210
  resumePoint := 0x300
  reserve := 0x1000
  reserve_le := by decide
  perCpu_data := fun _ hx => hx.mono (by decide)
  saveSlot_data := stackedSlot_data
  saveSlot_perCpu := stackedSlot_perCpu
  data_stack := stackedData_stack

/-- A boot thread at the top of its stack. -/
def stackedBoot : BootContext stackedLinked where
  context := ⟨fun _ => 0x180000 - 8, 0x1234, 0x202, 0x08, 0x10⟩
  mem := fun _ => 0
  ring0 := by decide
  allowed := by decide

/-- The boot thread hands an endpoint to the domains `1` and `2` and admits a ring-3 task into
each. -/
def admitTwo : List (HartEvent stackedLinked) :=
  [.boot (.admitUser 0x600000 0x700000 0 2 2 2000000 2000000 0),
    .boot (.admitUser 0x400000 0x500000 0 1 1 1000000 1000000 0), .boot .mintTimeslice,
    .boot .mintTimeslice, .boot (.delegateFromRoot 2 0 .invoke 0),
    .boot (.delegateFromRoot 1 0 .invoke 0), .boot .createEndpoint]

/-- A syscall in code that does nothing else. -/
def plainSyscall : HartEvent stackedLinked := .syscall (.plain _ 8) (.plain _ (by decide))

/-- The first task is scheduled and loads the arguments of an `E_RECV`. -/
def receiverReady : List (HartEvent stackedLinked) :=
  .compute 1 (.load _ 1 0 2 0 0xbeef) :: .tick (.plain _ 0) :: admitTwo

/-- The second task sends `7`. -/
def senderRuns : List (HartEvent stackedLinked) :=
  [plainSyscall, .compute 2 (.load _ 2 0 1 7 0xf00d)]

/-- The call of the first task blocks, the second one runs, and the timer takes up the first one
again. -/
def exchange : List (HartEvent stackedLinked) :=
  .tick (.plain _ 0) :: (senderRuns ++ plainSyscall :: receiverReady)

theorem virtualAfter_exchange :
    (virtualAfter stackedLinked () stackedBoot exchange).kernel.current = 1 ∧
    [Reg.rax, .rsi, .rdx, .rbx].map
        (virtualAfter stackedLinked () stackedBoot exchange).running.regs
      = [0, 7, 0xffff, 0xbeef] := by
  decide +kernel

theorem permitted_exchange (op : Op Unit) (hop : .boot op ∈ exchange) (k : Kernel Unit) :
    k.Permitted op := by
  simp only [exchange, senderRuns, receiverReady, admitTwo, plainSyscall, List.cons_append,
    List.nil_append, List.mem_cons, HartEvent.boot.injEq, reduceCtorEq, List.not_mem_nil, false_or,
    or_false] at hop
  rcases hop with rfl | rfl | rfl | rfl | rfl | rfl | rfl
  · exact (by decide : 2 < maxDomains)
  · exact (by decide : 1 < maxDomains)
  all_goals trivial

theorem hart_refines_kernel_exchange : ∃ ops,
    Runs.Every (fun k op => (k.step stackedMachine op).2) (Kernel.init stackedMachine ())
        Kernel.Permitted ops ∧
      Carries stackedLinked (hartAfter stackedLinked () stackedBoot exchange)
        (kernelAfter stackedMachine () ops) := by
  obtain ⟨ops, -, hperm, hcarries⟩ := hart_refines_kernel stackedLinked () stackedBoot exchange
  exact ⟨ops, hperm fun op hop _ => permitted_exchange op hop, hcarries⟩

end Cairn
