import Cairn.Kernel.KernelStacks

/-!
# A switch on the processor

The relation between the real machine and the tasks' own processors: the running task is on the
processor, every other one is saved, and each of them sees the same memory on both. A switch goes
through a state in which every task is saved (`AllSaved`); its tail takes one of them up again,
whoever it is and in whichever way it was saved (`AllSaved.switch`).

## Main definitions

* `Sim` — the relation
* `AllSaved` — nobody is on the processor
* `Resumed`, `Tail` — what the kernel has decided when it takes up a task

## Main results

* `Sim.of_land` — a context that has been restored is that of the task's own processor
* `AllSaved.switch` — the tail of every switch
* `Sim.tick_save`, `sim_tick` — the timer interrupt
-/

namespace Cairn

open Amd64 (Addr Mem Reg Context Machine load store loadWords storeWords InRange below execAll
  below_below)

/-! ### The simulation -/

section Sim

variable {μ : Type} {p : Platform μ}

/-- What is true of the context of every task that is present. -/
structure Backed (l : Linked p) (k : Kernel μ) (m : Mem) (ctx : Fin maxTasks → Context)
    (mem : Mem) : Prop where
  allowed : ∀ t, (k.task t).present = true → l.Allowed t (ctx t)
  ring3 : ∀ t, (k.task t).present = true → ((ctx t).Ring3 ↔ (k.frames t).ring3 = true)
  visible : ∀ t, (k.task t).present = true → ∀ x, l.Visible t (ctx t) x → m x = mem x

/-- The real machine and the tasks' own processors show the same. The running task is on the
processor, and every other one can be brought back. -/
structure Sim (l : Linked p) (h : Hart l) (v : Virtual μ) : Prop
    extends Backed l v.kernel h.cpu.mem v.ctx v.mem where
  kernel : h.kernel = v.kernel
  scheduled : v.kernel.Scheduled p
  running : h.cpu.toContext = v.running
  gsBase : h.cpu.gsBase = 0
  kernelGsBase : h.cpu.kernelGsBase = l.perCpu
  outside : v.kernel.parkedIn v.kernel.current = false
  rsp0 : v.running.Ring3 → v.kernel.rsp0 = Kernel.kstackOf p v.kernel.current
  kernelRsp0 : v.running.Ring3 →
    v.kernel.perCpu.kernelRsp0 = Kernel.kstackOf p v.kernel.current
  word : v.running.Ring3 → load h.cpu.mem 8 l.perCpu = v.kernel.perCpu.kernelRsp0
  saved : ∀ t, (v.kernel.task t).present = true → t ≠ v.kernel.current →
    Saved l h.cpu.mem t (v.kernel.task t).rsp (v.kernel.parkedIn t) (h.path t) (v.ctx t)

/-- A switch has restored the running task: a task that was parked returns from its syscall, with
the result staged for it. -/
structure Resumed (parked : Bool) (r : Trace × Kernel μ) : Prop where
  outside : r.2.parkedIn r.2.current = false
  published : r.2.Published
  interrupted : parked = false → r.1.sysret = none
  call : parked = true → r.1.sysret = some (r.2.current, (r.2.seat r.2.current).ipc) ∧
    r.2.perCpu.replyCptr = (r.2.seat r.2.current).ipc.replyCptr.setWidth 64

variable {l : Linked p}

theorem ring3_sysret (c : Context) (r : IpcResult) : (c.sysret r).Ring3 := by
  show (0x23 : BitVec 16) &&& 3 = 3
  decide

/-- A context that a task may be in is not that of a parked call. -/
theorem Linked.Allowed.not_blocked {t : Fin maxTasks} {c : Context} (h : l.Allowed t c) :
    ¬(c.cs = 0x08 ∧ c.rip = l.resumePoint) := by
  rintro ⟨hcs, hrip⟩
  rcases h with h3 | ⟨hne, -⟩
  · rw [Context.Ring3, hcs] at h3
    exact absurd h3 (by decide)
  · exact hne hrip

theorem Linked.Visible.of_ring3 {t : Fin maxTasks} {c : Context} {x : Addr} (h : l.Visible t c x)
    (h3 : c.Ring3) : ¬l.Private x := h.resolve_right fun h' => h'.1 h3

/-- The registers of a ring-3 task change, and the memory on its kernel stack. -/
theorem Backed.update {k : Kernel μ} {m m' mem : Mem} {ctx : Fin maxTasks → Context}
    (h : Backed l k m ctx mem) {t : Fin maxTasks} (h3 : (ctx t).Ring3)
    (hconf : l.Confined t 0 m m') {c : Context} (hc : c.Ring3) :
    Backed l k m' (Function.update ctx t c) mem := by
  refine ⟨fun u hu => ?_, fun u hu => ?_, fun u hu x hx => ?_⟩
  · by_cases hut : u = t
    · rw [hut, Function.update_self]
      exact Or.inl hc
    · rw [Function.update_of_ne hut]
      exact h.allowed u hu
  · by_cases hut : u = t
    · subst hut
      rw [Function.update_self, ← h.ring3 u hu]
      exact ⟨fun _ => h3, fun _ => hc⟩
    · rw [Function.update_of_ne hut]
      exact h.ring3 u hu
  · by_cases hut : u = t
    · rw [hut, Function.update_self] at hx
      have hpriv := hx.of_ring3 hc
      exact (hconf.of_not_private hpriv).trans (h.visible u hu x (Or.inl hpriv))
    · rw [Function.update_of_ne hut] at hx
      exact (hconf.visible (h.allowed u hu) (fun heq => absurd heq hut) hx).trans
        (h.visible u hu x hx)

/-- **A switch lands.** When the context of the task that runs next has been restored, and
everything else is in its place, the machine shows what the task's own processor shows. -/
theorem Sim.of_land {r : Trace × Kernel μ} {path : Fin maxTasks → Option (BlockingPath l)}
    {ctx : Fin maxTasks → Context} {m mem : Mem} {s : Machine} {ptr : Addr} {parked : Bool}
    (hsched : r.2.Scheduled p) (hres : Resumed parked r) (hback : Backed l r.2 m ctx mem)
    (hword : load m 8 l.perCpu = r.2.perCpu.kernelRsp0)
    (hcur : Saved l m r.2.current ptr parked (path r.2.current) (ctx r.2.current))
    (hsaved : ∀ t, (r.2.task t).present = true → t ≠ r.2.current →
      Saved l m t (r.2.task t).rsp (r.2.parkedIn t) (path t) (ctx t))
    (hs : ∀ c, HoldsContext m ptr c → s = ⟨c, 0, l.perCpu, m⟩) :
    Sim l ⟨Hart.land l r path s, r.2, path⟩ ⟨r.2, Virtual.deliver r.1.sysret ctx, mem⟩ := by
  have hpres := hsched.current_present
  have htop : (r.2.task r.2.current).kstackTop = Kernel.kstackOf p r.2.current :=
    hsched.kstack _ hpres
  cases parked with
  | false =>
    have hint : Interrupted p m r.2.current ptr (ctx r.2.current) := hcur
    rw [hs _ hint.holds, hres.interrupted rfl, Hart.land,
      if_neg (hback.allowed _ hpres).not_blocked]
    exact { hback with
      kernel := rfl, scheduled := hsched, running := rfl, gsBase := rfl, kernelGsBase := rfl
      outside := hres.outside
      rsp0 := fun _ => hres.published.rsp0.trans htop
      kernelRsp0 := fun _ => hres.published.kernelRsp0.trans htop
      word := fun _ => hword
      saved := hsaved }
  | true =>
    obtain ⟨hsysret, hreply⟩ := hres.call rfl
    generalize (r.2.seat r.2.current).ipc = res at hsysret hreply
    obtain ⟨code, s₀, regs, hpath, hcall⟩ := hcur
    obtain ⟨hret, hconf⟩ := hcall.resume rfl
    have hland : Hart.land l r path s = ⟨(ctx r.2.current).sysret res, 0, l.perCpu,
        Hart.sync l r.2 (code.leave (execAll resumeBlocked
          ⟨blockedContext l.resumePoint regs, 0, l.perCpu, m⟩)).mem⟩ := by
      rw [hs _ hcall.holds, Hart.land, if_pos ⟨rfl, rfl⟩, hpath, hsysret]
      exact hret.exit hreply
    have hconf' := (hconf.trans (confined_sync r.2 _ _ _)).mono (Nat.zero_le 24)
    rw [hland, hsysret]
    exact { hback.update hcall.ring3 hconf' (ring3_sysret _ res) with
      kernel := rfl, scheduled := hsched, gsBase := rfl, kernelGsBase := rfl
      running := (Function.update_self r.2.current ((ctx r.2.current).sysret res) ctx).symm
      outside := hres.outside
      rsp0 := fun _ => hres.published.rsp0.trans htop
      kernelRsp0 := fun _ => hres.published.kernelRsp0.trans htop
      word := fun _ => load_sync_kernelRsp0 r.2 _
      saved := fun t ht hne => by
        show Saved l _ t _ _ _ (Function.update ctx _ _ t)
        rw [Function.update_of_ne hne]
        exact (hsaved t ht hne).congr fun x hx => hconf'.inStack_of_ne hne hx }

/-! ### The timer -/

/-- Where an interrupt leaves the stack pointer: below the stack in use. -/
theorem Sim.stackFor_eq {h : Hart l} {v : Virtual μ} (hsim : Sim l h v) : ∃ d ≤ 15,
    h.cpu.stackFor h.kernel.rsp0 = below (Kernel.kstackOf p v.kernel.current)
      (Linked.used p v.kernel.current v.running + d) ∧
    v.interruptedAt p = h.cpu.stackFor h.kernel.rsp0 - 160 := by
  have hbase : (if h.cpu.Ring3 then h.kernel.rsp0 else h.cpu.regs .rsp)
      = below (Kernel.kstackOf p v.kernel.current)
        (Linked.used p v.kernel.current v.running) ∧
      (if h.cpu.Ring3 then h.kernel.rsp0 else h.cpu.regs .rsp)
        = if v.running.Ring3 then Kernel.kstackOf p v.kernel.current else v.running.regs .rsp := by
    rw [hsim.running, hsim.kernel, Linked.used]
    by_cases h3 : v.running.Ring3
    · rw [if_pos h3, if_pos h3, if_pos h3, below_zero]
      exact ⟨hsim.rsp0 h3, hsim.rsp0 h3⟩
    · rw [if_neg h3, if_neg h3, if_neg h3, below_toNat_sub]
      exact ⟨rfl, rfl⟩
  obtain ⟨d, hd, heq⟩ := and_not_fifteen (below (Kernel.kstackOf p v.kernel.current)
    (Linked.used p v.kernel.current v.running))
  refine ⟨d, hd, ?_, ?_⟩
  · rw [← below_below, ← heq, ← hbase.1]
    rfl
  · rw [Virtual.interruptedAt, ← hbase.2]
    rfl

/-- **The timer interrupt saves the running task** below the stack it uses, and `schedule_tick`
runs below that. -/
theorem Sim.tick_save {h : Hart l} {v : Virtual μ} (hsim : Sim l h v) (f : Callee l 0) {s : Machine}
    (hs : s = execAll (timerIsrSave l.tickReturn)
      (h.cpu.interrupt h.kernel.rsp0 0x08 l.timerIsr)) :
    s.regs .rdi = v.interruptedAt p ∧ (f.run s).gsBase = 0 ∧ (f.run s).kernelGsBase = l.perCpu ∧
      Interrupted p (f.run s).mem v.kernel.current (v.interruptedAt p) v.running ∧
      l.Confined v.kernel.current (Linked.used p v.kernel.current v.running) h.cpu.mem
        (f.run s).mem := by
  obtain ⟨d, hd, hstack, hptr⟩ := hsim.stackFor_eq
  obtain ⟨c, hsave, hrdi, hrsp⟩ :=
    execAll_timerIsrSave h.cpu h.kernel.rsp0 l.timerIsr l.tickReturn 0x08
  have hroom := (hsim.allowed _ hsim.scheduled.current_present).used_le
  change Linked.used p v.kernel.current v.running + _ + _ ≤ _ at hroom
  generalize Linked.used p v.kernel.current v.running = a at hstack hroom ⊢
  -- the saved context, and the stack pointer at the start of `schedule_tick`
  have hframe : v.interruptedAt p = below (Kernel.kstackOf p v.kernel.current) (a + d + 160) := by
    rw [hptr, hstack]
    exact below_below _ (a + d) 160
  obtain ⟨d', hd', hround⟩ := and_not_fifteen (v.interruptedAt p)
  have hcall : (v.interruptedAt p &&& -16) - 8
      = below (Kernel.kstackOf p v.kernel.current) (a + d + 160 + (d' + 8)) := by
    rw [← below_below, ← hframe, ← below_below, ← hround]
    rfl
  rw [← hptr] at hsave hrdi hrsp
  rw [hcall] at hsave hrsp
  rw [hs, hsave]
  have hsaved : l.Confined v.kernel.current a h.cpu.mem
      (storeWords h.cpu.mem (v.interruptedAt p) h.cpu.toContext.words) := by
    refine Linked.confined_of_range (c := a + d + 160) (n := 160) (by omega) (by omega)
      fun x hx _ => Amd64.storeWords_of_not_inRange ?_
    rwa [hframe]
  have hpushed : l.Confined v.kernel.current (a + d + 160)
      (storeWords h.cpu.mem (v.interruptedAt p) h.cpu.toContext.words)
      (store (storeWords h.cpu.mem (v.interruptedAt p) h.cpu.toContext.words)
        (below (Kernel.kstackOf p v.kernel.current) (a + d + 160 + (d' + 8))) (n := 8)
        l.tickReturn) :=
    Linked.confined_of_range (c := a + d + 160 + (d' + 8)) (n := 8) (by omega) (by omega)
      fun x hx _ => Amd64.store_of_not_inRange hx
  generalize hm : store (storeWords h.cpu.mem (v.interruptedAt p) h.cpu.toContext.words)
        (below (Kernel.kstackOf p v.kernel.current) (a + d + 160 + (d' + 8))) (n := 8)
        l.tickReturn = m₁ at hpushed ⊢
  generalize hs₁ : ({ h.cpu with toContext := c, mem := m₁ } : Machine) = s₁
  have hran : l.Confined v.kernel.current (a + d + 160) m₁ (f.run s₁).mem := by
    refine Linked.confined_of_range (c := a + d + 160 + (d' + 8) + l.reserve)
      (n := l.reserve + 8 + 0) (by omega) (by omega) fun x hx hd => ?_
    refine (f.mem s₁ x ?_ hd).trans (by rw [← hs₁])
    rwa [← hs₁, hrsp, below_below]
  have hlow := hpushed.trans hran
  have hgs := f.gs s₁
  rw [← hs₁] at hgs
  refine ⟨?_, ?_, ?_, ⟨?_, _, hframe, by omega, by omega⟩, hsaved.trans (hlow.mono (by omega))⟩
  · rw [← hs₁]
    exact hrdi
  · rw [← hs₁]
    exact hgs.1.trans hsim.gsBase
  · rw [← hs₁]
    exact hgs.2.trans hsim.kernelGsBase
  · rw [← hsim.running]
    refine (holdsContext_storeWords h.cpu.mem (v.interruptedAt p) _).congr fun x hx => ?_
    exact hlow.of_above (by omega) (by omega) (hframe ▸ hx)

/-- The running task has been restored with what is in its saved context, or returns from its
syscall. -/
theorem resumed_resume {k : Kernel μ} (hpub : k.resume.2.Published) (rsp : Option (BitVec 64)) :
    Resumed (k.parkedIn k.current) ({ restored := rsp, sysret := k.resume.1 }, k.resume.2) := by
  refine ⟨?_, hpub, fun hp => ?_, fun hp => ?_⟩
  · show k.resume.2.parkedIn k.resume.2.current = false
    rw [k.current_resume, k.parkedIn_resume, Function.update_self]
  · show k.resume.1 = none
    rw [Kernel.resume, hp]
    rfl
  · show k.resume.1 = some (k.resume.2.current, (k.resume.2.seat k.resume.2.current).ipc) ∧
      k.resume.2.perCpu.replyCptr = (k.resume.2.seat k.resume.2.current).ipc.replyCptr.setWidth 64
    rw [k.sameBoard_resume.seat, k.current_resume, Kernel.resume, hp]
    exact ⟨rfl, rfl⟩

/-- **The tail of a switch** from the state `k`, with what becomes of the task that is taken up. -/
structure Tail (k : Kernel μ) (r : Trace × Kernel μ) : Prop extends Kernel.Dispatch k r where
  resumed : Resumed (k.parkedIn r.2.current) r
  others : ∀ t ≠ r.2.current, r.2.parkedIn t = k.parkedIn t
  woke : r.1.woke = none

/-- The tail of `schedule_tick` and `terminate_current`. -/
theorem tail_restore (p : Platform μ) (k : Kernel μ) : Tail k (k.reschedule p).restore := by
  have hd := k.dispatch_restore p
  have hcur : (k.reschedule p).restore.2.current = (k.reschedule p).current :=
    Kernel.current_resume _
  refine { hd with resumed := ?_, others := fun t ht => ?_, woke := rfl }
  · rw [hcur]
    exact resumed_resume (k := k.reschedule p) hd.published _
  · rw [(k.switched_restore p).parkedIn, Function.update_of_ne ht]

/-- A tick goes on with the only task there is, or saves the running task and switches. -/
theorem scheduleTick_tail (p : Platform μ) (k : Kernel μ) (rsp : BitVec 64) :
    k.scheduleTick p rsp
        = ({ restored := some rsp }, Kernel.publish { k with ticks := (k.ticks + 1) % 2 ^ 64 }) ∨
      Tail (Kernel.setTask { k with ticks := (k.ticks + 1) % 2 ^ 64 } k.current
        { k.task k.current with rsp := rsp }) (k.scheduleTick p rsp) := by
  rw [Kernel.scheduleTick]
  by_cases hnum : k.sched.num ≤ 1
  · exact Or.inl (if_pos hnum)
  · refine Or.inr ?_
    dsimp only
    rw [if_neg hnum]
    exact tail_restore p _

theorem Backed.congr {k k' : Kernel μ} {m mem : Mem} {ctx : Fin maxTasks → Context}
    (h : Backed l k m ctx mem) (hpres : ∀ t, (k'.task t).present = (k.task t).present)
    (hframes : k'.frames = k.frames) : Backed l k' m ctx mem :=
  ⟨fun t ht => h.allowed t (hpres t ▸ ht), fun t ht => hframes ▸ h.ring3 t (hpres t ▸ ht),
    fun t ht => h.visible t (hpres t ▸ ht)⟩

/-- Every task is saved: the processor is about to be given to one of them. -/
structure AllSaved (l : Linked p) (k : Kernel μ) (m : Mem)
    (path : Fin maxTasks → Option (BlockingPath l)) (ctx : Fin maxTasks → Context) (mem : Mem) :
    Prop extends Backed l k m ctx mem where
  tally : k.Tally p
  saved : ∀ t, (k.task t).present = true →
    Saved l m t (k.task t).rsp (k.parkedIn t) (path t) (ctx t)

/-- **A switch**, from a state in which every task is saved. -/
theorem AllSaved.switch {k : Kernel μ} {r : Trace × Kernel μ}
    {path : Fin maxTasks → Option (BlockingPath l)} {ctx : Fin maxTasks → Context} {m mem : Mem}
    {s : Machine} (h : AllSaved l k m path ctx mem) (ht : Tail k r)
    (hword : load m 8 l.perCpu = r.2.perCpu.kernelRsp0)
    (hs : ∀ ptr, r.1.restored = some ptr → ∀ c, HoldsContext m ptr c →
      s = ⟨c, 0, l.perCpu, m⟩) :
    Sim l ⟨Hart.land l r path s, r.2, path⟩ ⟨r.2, Virtual.deliver r.1.sysret ctx, mem⟩ := by
  have hsched := h.tally.scheduled ht.toDispatch
  refine Sim.of_land hsched ht.resumed
    (h.toBacked.congr (fun t => (ht.tasks t).present) ht.frames) hword (h.saved _ ?_)
    (fun t hpres hne => ?_) (hs _ ht.restored)
  · rw [← (ht.tasks _).present]
    exact hsched.current_present
  · rw [(ht.tasks t).rsp, ht.others t hne]
    exact h.saved t ((ht.tasks t).present ▸ hpres)

/-- The running task has been saved as well. -/
theorem Sim.allSaved {h : Hart l} {v : Virtual μ} (hsim : Sim l h v) {k : Kernel μ} {a : Task}
    {m : Mem} {n : ℕ} {path : Fin maxTasks → Option (BlockingPath l)}
    {ctx : Fin maxTasks → Context}
    (htally : (v.kernel.setTask v.kernel.current a).Tally p)
    (hsame : Kernel.SameTasks (v.kernel.setTask v.kernel.current a) k)
    (hconf : l.Confined v.kernel.current n h.cpu.mem m) (hpres : a.present = true)
    (hback : Backed l v.kernel m ctx v.mem)
    (hcur : Saved l m v.kernel.current a.rsp (k.parkedIn v.kernel.current)
      (path v.kernel.current) (ctx v.kernel.current))
    (hothers : ∀ t ≠ v.kernel.current,
      k.parkedIn t = v.kernel.parkedIn t ∧ path t = h.path t ∧ ctx t = v.ctx t) :
    AllSaved l k m path ctx v.mem := by
  have htask : ∀ t, k.task t = if t = v.kernel.current then a else v.kernel.task t := fun t =>
    (hsame.task t).trans (v.kernel.task_setTask _ t a)
  refine { hback.congr (fun t => ?_) hsame.frames with
    tally := htally.of_same hsame, saved := fun t ht => ?_ }
  · rw [htask]
    split
    · rename_i heq
      rw [heq, hpres, hsim.scheduled.current_present]
    · rfl
  · rw [htask] at ht ⊢
    by_cases heq : t = v.kernel.current
    · subst heq
      rw [if_pos rfl]
      exact hcur
    · obtain ⟨hpark, hpath, hctx⟩ := hothers t heq
      rw [if_neg heq] at ht ⊢
      rw [hpark, hpath, hctx]
      exact (hsim.saved t ht heq).congr fun _ hx => hconf.inStack_of_ne heq hx

/-- What a change in the stack of the running task leaves alone. -/
theorem Sim.backed_of_confined {h : Hart l} {v : Virtual μ} (hsim : Sim l h v) {m : Mem}
    (hconf : l.Confined v.kernel.current (Linked.used p v.kernel.current v.running) h.cpu.mem m) :
    Backed l v.kernel m v.ctx v.mem := by
  refine ⟨hsim.allowed, hsim.ring3, fun t ht x hx => ?_⟩
  refine (hconf.visible (hsim.allowed t ht) ?_ hx).trans (hsim.visible t ht x hx)
  rintro rfl
  rfl

theorem Sim.saved_of_confined {h : Hart l} {v : Virtual μ} (hsim : Sim l h v) {m : Mem} {a : ℕ}
    (hconf : l.Confined v.kernel.current a h.cpu.mem m) (t : Fin maxTasks)
    (ht : (v.kernel.task t).present = true) (hne : t ≠ v.kernel.current) :
    Saved l m t (v.kernel.task t).rsp (v.kernel.parkedIn t) (h.path t) (v.ctx t) :=
  (hsim.saved t ht hne).congr fun _ hx => hconf.inStack_of_ne hne hx

theorem sim_tick {h : Hart l} {v : Virtual μ} (hsim : Sim l h v) (f : Callee l 0) :
    Sim l (h.tick l f) (v.step l (.tick f)) := by
  obtain ⟨hrdi, hgs, hkgs, hint, hconf⟩ := hsim.tick_save f rfl
  rw [Hart.tick, Virtual.step]
  dsimp only
  rw [hrdi]
  generalize f.run _ = s at hgs hkgs hint hconf ⊢
  rw [hsim.kernel]
  generalize hr : v.kernel.step p (.tick (v.interruptedAt p)) = r
  have hconf' := hconf.trans (confined_sync r.2 s.mem _ _)
  have hint' : Interrupted p (Hart.sync l r.2 s.mem) v.kernel.current (v.interruptedAt p)
      v.running := hint.congr fun x hx => sync_of_not_data r.2 s.mem fun hd =>
    l.data_stack _ x hd hx
  have hback := hsim.backed_of_confined hconf'
  have hword := load_sync_kernelRsp0 (l := l) r.2 s.mem
  have hload : ∀ ptr, r.1.restored = some ptr → ∀ c, HoldsContext (Hart.sync l r.2 s.mem) ptr c →
      execAll timerIsrRestore
        { s.set .rax (r.1.restored.getD 0) with mem := Hart.sync l r.2 s.mem }
        = ⟨c, 0, l.perCpu, Hart.sync l r.2 s.mem⟩ := by
    intro ptr hptr c hc
    rw [hptr, execAll_timerIsrRestore (c := c) (by simpa [Machine.set] using hc)]
    simp only [Machine.set, hgs, hkgs]
  generalize Hart.sync l r.2 s.mem = m at *
  rcases scheduleTick_tail p v.kernel (v.interruptedAt p) with hone | htail
  · -- the only task goes on
    obtain rfl := hr.symm.trans hone
    have hres : Resumed false (({ restored := some (v.interruptedAt p) }, Kernel.publish
        { v.kernel with ticks := (v.kernel.ticks + 1) % 2 ^ 64 }) : Trace × Kernel μ) :=
      ⟨hsim.outside, ⟨rfl, rfl, rfl⟩, fun _ => rfl, fun h => absurd h Bool.false_ne_true⟩
    refine Sim.of_land (hsim.scheduled.of_same ⟨rfl, rfl⟩) hres (hback.congr (fun _ => rfl) rfl)
      hword hint' (fun t ht hne => ?_) (hload _ rfl)
    exact hsim.saved_of_confined hconf' t ht hne
  · -- the running task is saved, and every task is a candidate
    rw [← hr] at hword hload ⊢
    refine AllSaved.switch ?_ htail hword hload
    refine hsim.allSaved (a := { v.kernel.task v.kernel.current with rsp := v.interruptedAt p })
      ?_ ⟨rfl, rfl⟩ hconf' hsim.scheduled.current_present hback ?_ fun t _ => ⟨rfl, rfl, rfl⟩
    · exact hsim.scheduled.rewrite_current hsim.scheduled.current_present rfl
        fun _ => hsim.scheduled.current_free
    · show Saved l m _ _ (v.kernel.parkedIn v.kernel.current) _ _
      rw [hsim.outside]
      exact hint'

end Sim

end Cairn
