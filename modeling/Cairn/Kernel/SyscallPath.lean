import Cairn.Kernel.Switching

/-!
# A syscall on the processor

From the `syscall` instruction to the `sysretq`. The entry stub leaves the user's stack for the
kernel stack of the task, and the registers of the user become the arguments of
`syscall_dispatch`. A call that returns goes straight to the exit stub. One that blocks leaves its
Rust frames on the stack, saves the registers of the kernel, and takes up somebody else.

## Main definitions

* `AtDispatch` — the machine in front of `syscall_dispatch`

## Main results

* `Kernel.syscall_outcome` — a syscall returns, or it blocks
* `Sim.enter` — the entry stub
* `sim_syscall` — a syscall, to its end
-/

namespace Cairn

open Amd64 (Addr Mem Reg Context Machine load store loadWords storeWords InRange below execAll
  below_below)

/-! ### Syscalls in the kernel -/

namespace Kernel

variable {μ : Type}

/-- Whatever a syscall answers, it does not depend on where the context of a call that blocks will
be saved. -/
theorem exists_finish (p : Platform μ) (k : Kernel μ) (nr cptr method arg0 xfer : BitVec 64) :
    ∃ a, ∀ rsp, k.syscall p nr cptr method arg0 xfer rsp = finish p rsp a := by
  by_cases hnr : nr ≠ 1
  · exact ⟨(.done none (.refused .errMethod), k.entered), fun _ => if_pos hnr⟩
  by_cases hwide : 0xffff < cptr ∨ 0xffff < method ∨ 0xffff < xfer
  · exact ⟨(.done none (.refused .errBadCPtr), k.entered), fun _ =>
      (if_neg hnr).trans (if_pos hwide)⟩
  · exact ⟨_, fun _ => (if_neg hnr).trans (if_neg hwide)⟩

theorem Calm.trans {k₁ k₂ k₃ : Kernel μ} (h₁ : Calm k₁ k₂) (h₂ : Calm k₂ k₃) : Calm k₁ k₃ :=
  ⟨h₂.current.trans h₁.current, fun t => (h₂.present t).trans (h₁.present t),
    fun t => (h₂.rsp t).trans (h₁.rsp t), h₂.frames.trans h₁.frames, h₂.parkedIn.trans h₁.parkedIn,
    h₂.rsp0.trans h₁.rsp0, h₂.kernelRsp0.trans h₁.kernelRsp0⟩

theorem calm_unblock (k : Kernel μ) (t : ℕ) (r : IpcResult) : Calm k (k.unblock t r) := by
  rw [unblock]
  split
  · refine ⟨rfl, fun u => ?_, fun u => ?_, rfl, rfl, rfl, rfl⟩ <;>
    · rw [task_setTask]
      split
      · rename_i heq
        rw [heq]
      · rfl
  · exact (Aside.refl k).calm

/-- A syscall that returns leaves the contexts alone. -/
theorem calm_syscall (p : Platform μ) (k : Kernel μ) (hne : k.current ≠ 0)
    (nr cptr method arg0 xfer rsp : BitVec 64)
    (h : (k.syscall p nr cptr method arg0 xfer rsp).1.restored = none) :
    Calm k (k.syscall p nr cptr method arg0 xfer rsp).2 := by
  have hcases := k.syscall_cases p nr cptr method arg0 xfer rsp
  generalize k.callOf (.syscall nr cptr method arg0 xfer rsp) = call at hcases
  generalize k.syscall p nr cptr method arg0 xfer rsp = r at h hcases ⊢
  cases hcases with
  | other st reply k' hk _ => exact hk.aside.calm
  | refused c st k' _ _ hk => exact hk.aside.calm
  | met c hw reply =>
    obtain ⟨s, -, -, hs⟩ := k.entered.meet_eq c
    rw [hs]
    refine Calm.trans ?_ (payload_setReplyCptr _ reply).aside.calm
    refine Calm.trans ?_ (calm_unblock _ _ _)
    exact ⟨rfl, fun _ => rfl, fun _ => rfl, rfl, rfl, rfl, rfl⟩
  | parks c hw =>
    rw [(dispatch_blockCurrent p (k.entered.setEndpoint c.ep (c.offer (k.endpoints c.ep))) hne
      c.side.reason c.ep rsp).restored] at h
    cases h

/-- A syscall returns with its reply CPtr in the per-CPU block, or it blocks, and then who runs
next does not depend on where the context is saved. -/
theorem syscall_outcome (p : Platform μ) (k : Kernel μ) (nr cptr method arg0 xfer : BitVec 64) :
    (∃ r, (∀ rsp, k.syscall p nr cptr method arg0 xfer rsp = r) ∧ r.1.restored = none ∧
      ∃ res, r.1.sysret = some (r.2.current, res) ∧
        r.2.perCpu.replyCptr = res.replyCptr.setWidth 64) ∨
    ∃ k₀ reason epOid, ∀ rsp,
      k.syscall p nr cptr method arg0 xfer rsp = blockCurrent p k₀ reason epOid rsp := by
  obtain ⟨⟨reply, k₀⟩, heq⟩ := k.exists_finish p nr cptr method arg0 xfer
  cases reply with
  | done woke res => exact Or.inl ⟨_, heq, rfl, res, rfl, rfl⟩
  | park reason epOid => exact Or.inr ⟨k₀, reason, epOid, heq⟩

theorem kernelRsp0_resume (k : Kernel μ) :
    k.resume.2.perCpu.kernelRsp0 = k.perCpu.kernelRsp0 := by
  rw [resume]
  split <;> rfl

theorem kernelRsp0_blockCurrent (p : Platform μ) (k : Kernel μ) (reason epOid : ℕ)
    (rsp : BitVec 64) : (k.blockCurrent p reason epOid rsp).2.perCpu.kernelRsp0
      = ((k.parkCurrent reason epOid).reschedule p).perCpu.kernelRsp0 :=
  kernelRsp0_resume _

theorem current_blockCurrent (p : Platform μ) (k : Kernel μ) (reason epOid : ℕ)
    (rsp : BitVec 64) : (k.blockCurrent p reason epOid rsp).2.current
      = ((k.parkCurrent reason epOid).reschedule p).current :=
  current_resume _

/-- A call that blocks: the running task is parked and saved, and the tail of a switch follows. -/
theorem syscall_blocks (p : Platform μ) (k : Kernel μ) (hne : k.current ≠ 0)
    {nr cptr method arg0 xfer rsp : BitVec 64} {r : Trace × Kernel μ}
    (hr : k.syscall p nr cptr method arg0 xfer rsp = r) (h : r.1.restored ≠ none) :
    ∃ k₁ reason epOid, SameTasks (k.parkSaved reason epOid rsp) k₁ ∧
      k₁.parkedIn = Function.update k.parkedIn k.current true ∧ Tail k₁ r := by
  have hcases := k.syscall_cases p nr cptr method arg0 xfer rsp
  generalize k.callOf (.syscall nr cptr method arg0 xfer rsp) = call at hcases
  rw [hr] at hcases
  cases hcases with
  | other | refused | met => exact absurd rfl h
  | parks c hw =>
    generalize hk₀ : k.entered.setEndpoint c.ep (c.offer (k.endpoints c.ep)) = k₀
    have hcur : k₀.current = k.current := by rw [← hk₀]; rfl
    have hd := k₀.dispatch_blockCurrent p (hcur ▸ hne) c.side.reason c.ep rsp
    refine ⟨{ k₀.parkSaved c.side.reason c.ep rsp with
      parkedIn := Function.update k₀.parkedIn k₀.current true }, c.side.reason, c.ep, ?_, ?_,
      ⟨⟨hd.rest, hd.tasks, hd.num, hd.eligible, hd.published, hd.restored⟩, ?_, fun t ht => ?_,
        rfl⟩⟩
    · rw [← hk₀]
      exact ⟨rfl, rfl⟩
    · rw [← hk₀]
      rfl
    · have hcur' := k₀.current_blockCurrent p c.side.reason c.ep rsp
      rw [hcur']
      exact resumed_resume hd.published _
    · rw [(k₀.switched_blockCurrent p c.side.reason c.ep rsp).parkedIn, Function.update_of_ne ht]

end Kernel

/-! ### Syscalls on the processor -/

section Syscall

variable {μ : Type} {p : Platform μ} {l : Linked p}

/-- `syscall_dispatch` is about to run for a call that the running task has made. -/
structure AtDispatch (l : Linked p) (m : Mem) (v : Virtual μ) (s : Machine) : Prop where
  rsp : s.regs .rsp = below (Kernel.kstackOf p v.kernel.current) 40
  callee : ∀ r ∈ calleeSaved, s.regs r = v.running.regs r
  nr : s.regs .rdi = v.running.regs .rax
  cptr : s.regs .rsi = v.running.regs .rdi
  method : s.regs .rdx = v.running.regs .rsi
  arg0 : s.regs .rcx = v.running.regs .rdx
  xfer : load s.mem 8 (s.regs .rsp + 8) = v.running.regs .r9
  gsBase : s.gsBase = l.perCpu
  kernelGsBase : s.kernelGsBase = 0
  user : loadWords s.mem (below (Kernel.kstackOf p v.kernel.current) 24) 3
    = [v.running.rip + 2, v.running.rflags, v.running.regs .rsp]
  confined : l.Confined v.kernel.current 0 m s.mem

/-- **The entry stub** gets there. -/
theorem Sim.enter {h : Hart l} {v : Virtual μ} (hsim : Sim l h v) (h3 : v.running.Ring3) :
    AtDispatch l h.cpu.mem v (execAll (syscallEntry l.dispatchReturn)
      (h.cpu.syscall l.lstar sfMask 0x08 0x10)) := by
  obtain ⟨c, hentry, hregs⟩ := execAll_syscallEntry h.cpu l.lstar l.dispatchReturn
    hsim.kernelGsBase ((hsim.word h3).trans (hsim.kernelRsp0 h3))
  have hrsp : c.regs .rsp = below (Kernel.kstackOf p v.kernel.current) 40 := by
    rw [hregs]
    rfl
  have hroom := taskStackSize_le_stackRoom v.kernel.current
  have h40 : 40 ≤ stackRoom v.kernel.current := Nat.le_trans (by decide) hroom
  rw [hentry, show Kernel.kstackOf p v.kernel.current - 40
    = below (Kernel.kstackOf p v.kernel.current) 40 from rfl]
  -- the five words the stub has pushed
  have hwords := Amd64.loadWords_storeWords
    (store h.cpu.mem (l.perCpu + 8) (n := 8) (h.cpu.regs .rsp))
    (below (Kernel.kstackOf p v.kernel.current) 40)
    [l.dispatchReturn, h.cpu.regs .r9, h.cpu.rip + 2, h.cpu.rflags, h.cpu.regs .rsp]
    (show 8 * 5 ≤ 2 ^ 64 by decide)
  have hscratch : l.Confined v.kernel.current 0 h.cpu.mem
      (store h.cpu.mem (l.perCpu + 8) (n := 8) (h.cpu.regs .rsp)) := by
    refine fun x _ hd => Amd64.store_of_not_inRange fun hx => hd (l.perCpu_data x (hx.mono ?_))
    rw [Amd64.toNat_add_eight_sub]
    decide
  have hpushed : l.Confined v.kernel.current 0
      (store h.cpu.mem (l.perCpu + 8) (n := 8) (h.cpu.regs .rsp))
      (storeWords (store h.cpu.mem (l.perCpu + 8) (n := 8) (h.cpu.regs .rsp))
        (below (Kernel.kstackOf p v.kernel.current) 40)
        [l.dispatchReturn, h.cpu.regs .r9, h.cpu.rip + 2, h.cpu.rflags, h.cpu.regs .rsp]) :=
    Linked.confined_of_range (c := 40) (n := 40) h40 le_rfl
      fun x hx _ => Amd64.storeWords_of_not_inRange hx
  have hconf := hscratch.trans hpushed
  generalize storeWords (store h.cpu.mem (l.perCpu + 8) (n := 8) (h.cpu.regs .rsp)) _ _ = m
    at hwords hconf ⊢
  have hsplit : _ ++ _ = [l.dispatchReturn, h.cpu.regs .r9]
      ++ [h.cpu.rip + 2, h.cpu.rflags, h.cpu.regs .rsp] :=
    (Amd64.loadWords_add m _ 2 3).symm.trans hwords
  obtain ⟨hlow, huser⟩ := List.append_inj hsplit rfl
  have hxfer : load m 8 (below (Kernel.kstackOf p v.kernel.current) 40 + 8) = h.cpu.regs .r9 := by
    simp only [loadWords, List.cons.injEq] at hlow
    exact hlow.2.1
  have hrun := hsim.running
  refine ⟨hrsp, fun r hr => ?_, ?_, ?_, ?_, ?_, ?_, rfl, hsim.gsBase, ?_, hconf⟩
  · rw [← hrun]
    show c.regs r = _
    rw [hregs]
    cases r <;> first | rfl | exact absurd hr (by decide)
  · rw [← hrun]
    exact congrFun hregs .rdi
  · rw [← hrun]
    exact congrFun hregs .rsi
  · rw [← hrun]
    exact congrFun hregs .rdx
  · rw [← hrun]
    exact congrFun hregs .rcx
  · rw [← hrun]
    show load m 8 (c.regs .rsp + 8) = _
    rw [hrsp]
    exact hxfer
  · rw [← hrun]
    rw [below_add_ofNat _ (by decide)] at huser
    exact huser

theorem deliver_update (ctx : Fin maxTasks → Context) (t : Fin maxTasks) (c : Context)
    (r : IpcResult) : Virtual.deliver (some (t, r)) (Function.update ctx t c)
      = Function.update ctx t (c.sysret r) := by
  rw [Virtual.deliver, Function.update_self, Function.update_idem]

/-- A call that returns. -/
theorem Sim.syscall_returns {h : Hart l} {v : Virtual μ} (hsim : Sim l h v) (h3 : v.running.Ring3)
    {s : Machine} (hs : AtDispatch l h.cpu.mem v s) (f : Callee l 8) {r : Trace × Kernel μ}
    (hsched : r.2.Scheduled p) (hcalm : Kernel.Calm v.kernel r.2) {res : IpcResult}
    (hret : r.1.sysret = some (r.2.current, res))
    (hreply : r.2.perCpu.replyCptr = res.replyCptr.setWidth 64) :
    Sim l ⟨execAll syscallExit (Hart.returned l r.2 res (f.run s)), r.2, h.path⟩
      ⟨r.2, Virtual.deliver r.1.sysret (Function.update v.ctx v.kernel.current
        (behindSyscall v.running)), v.mem⟩ := by
  have hran : l.Confined v.kernel.current 24 s.mem (f.run s).mem :=
    confined_dispatch hs.rsp (f.mem s)
  have hreturn : Returning l (f.run s) v.kernel.current (behindSyscall v.running) := by
    refine ⟨?_, fun reg hreg => (f.callee s reg hreg).trans (hs.callee reg hreg),
      (f.gs s).1.trans hs.gsBase, (f.gs s).2.trans hs.kernelGsBase, ?_⟩
    · rw [f.rsp, hs.rsp]
      exact below_add_ofNat (Kernel.kstackOf p v.kernel.current) (a := 40) (b := 8) (by decide)
    · refine (Amd64.loadWords_congr fun x hx => hran.of_above ?_ le_rfl hx).trans hs.user
      exact Nat.le_trans (by decide) (taskStackSize_le_stackRoom _)
  have hconf := (hs.confined.trans (hran.mono (Nat.zero_le 24))).trans
    (confined_sync r.2 (f.run s).mem _ 0)
  have hback := (hsim.toBacked.update h3 hconf (ring3_sysret (behindSyscall v.running) res)).congr
    hcalm.present hcalm.frames
  rw [hreturn.exit hreply, hret, hcalm.current, deliver_update]
  refine { hback with
    kernel := rfl, scheduled := hsched, gsBase := rfl, kernelGsBase := rfl
    running := ?_
    outside := ?_
    rsp0 := fun _ => ?_
    kernelRsp0 := fun _ => ?_
    word := fun _ => load_sync_kernelRsp0 r.2 _
    saved := fun t ht hne => ?_ }
  · show _ = Function.update v.ctx v.kernel.current _ r.2.current
    rw [hcalm.current, Function.update_self]
  · show r.2.parkedIn r.2.current = false
    rw [hcalm.parkedIn, hcalm.current, hsim.outside]
  · show r.2.rsp0 = Kernel.kstackOf p r.2.current
    rw [hcalm.rsp0, hcalm.current, hsim.rsp0 h3]
  · show r.2.perCpu.kernelRsp0 = Kernel.kstackOf p r.2.current
    rw [hcalm.kernelRsp0, hcalm.current, hsim.kernelRsp0 h3]
  · replace hne : t ≠ v.kernel.current := hcalm.current ▸ hne
    dsimp only
    rw [Function.update_of_ne hne, hcalm.rsp, hcalm.parkedIn]
    exact hsim.saved_of_confined hconf t (hcalm.present t ▸ ht) hne

/-- A pointer to a saved task points to a context. -/
theorem Saved.exists_holds {m : Mem} {t : Fin maxTasks} {rsp : Addr} {parked : Bool}
    {path : Option (BlockingPath l)} {c : Context} (h : Saved l m t rsp parked path c) :
    ∃ c', HoldsContext m rsp c' := by
  cases parked with
  | false => exact ⟨c, Interrupted.holds h⟩
  | true =>
    obtain ⟨code, s, regs, -, hcall⟩ := h
    exact ⟨_, hcall.holds⟩

/-- The memory behind the save of `block_and_switch`. -/
def blockedMem (l : Linked p) (v : Virtual μ) (path : BlockingPath l) (m : Mem)
    (regs : Reg → BitVec 64) : Mem :=
  store (storeWords m (v.blockedAt p path.depth) (blockedContext l.resumePoint regs).words)
    (l.saveSlot v.kernel.current) (n := 8) (v.blockedAt p path.depth)

/-- **A call that blocks is saved** where its path has led. -/
theorem AtDispatch.parked {v : Virtual μ} (h3 : v.running.Ring3) {m : Mem} {s : Machine}
    (hs : AtDispatch l m v s) (path : BlockingPath l) (m' : Mem) (regs : Reg → BitVec 64)
    (hm' : ∀ x, ¬l.Data x → m' x = (path.enter s).mem x)
    (hrsp : regs .rsp = (path.enter s).regs .rsp)
    (hcallee : ∀ r ∈ calleeSaved, regs r = (path.enter s).regs r) :
    l.Confined v.kernel.current 0 m (blockedMem l v path m' regs) ∧
      ParkedCall l (blockedMem l v path m' regs) v.kernel.current (v.blockedAt p path.depth)
        (behindSyscall v.running) path s regs := by
  have hdepth := path.depth_le
  have hres := l.reserve_le
  have hroom := taskStackSize_le_stackRoom v.kernel.current
  have hentered : l.Confined v.kernel.current 24 s.mem (path.enter s).mem :=
    confined_dispatch hs.rsp (path.enter_mem s)
  have hwritten : l.Confined v.kernel.current (40 + path.depth) (path.enter s).mem
      (blockedMem l v path m' regs) := by
    intro x hx hd
    have hslot : ¬InRange (l.saveSlot v.kernel.current) 8 x := fun hr =>
      hd (l.saveSlot_data _ x hr)
    refine (Amd64.store_of_not_inRange (n := 8) hslot).trans ?_
    refine (Amd64.storeWords_of_not_inRange fun hr => hx ?_).trans (hm' x hd)
    exact hr.below (stackRoom_lt _) (by omega) (by rw [length_words]; omega)
  have hconf := hs.confined.trans
    ((hentered.mono (Nat.zero_le 24)).trans (hwritten.mono (Nat.zero_le _)))
  refine ⟨hconf, h3, hs.rsp, hs.callee, rfl, ?_, hrsp, hcallee, fun x hx => ?_, ?_⟩
  · refine (holdsContext_storeWords m' _ _).congr fun x hx => ?_
    refine Amd64.store_of_not_inRange (n := 8) fun hr => ?_
    refine l.data_stack v.kernel.current x (l.saveSlot_data _ x hr) ?_
    exact .of_below (by omega) (by omega) hx
  · rw [hs.rsp, below_below] at hx
    exact hwritten.of_above (by omega) (by omega) hx
  · refine (Amd64.loadWords_congr fun x hx => ?_).trans hs.user
    refine (hwritten.mono (b := 24) (by omega)).of_above (by omega) le_rfl hx |>.trans ?_
    exact hentered.of_above (by omega) le_rfl hx

theorem load_blockedMem_perCpu (v : Virtual μ) (path : BlockingPath l) (m : Mem)
    (regs : Reg → BitVec 64) :
    load (blockedMem l v path m regs) 8 l.perCpu = load m 8 l.perCpu := by
  have hdepth := path.depth_le
  have hres := l.reserve_le
  have hroom := taskStackSize_le_stackRoom v.kernel.current
  refine Amd64.load_congr_of_inRange (n := 8) (by decide) fun x hx => ?_
  have hblock : InRange l.perCpu 24 x := hx.mono (by rw [BitVec.sub_self]; decide)
  refine (Amd64.store_of_not_inRange (n := 8) fun hr => l.saveSlot_perCpu _ x hr hblock).trans ?_
  refine Amd64.storeWords_of_not_inRange fun hr => ?_
  exact l.data_stack v.kernel.current x (l.perCpu_data x hblock)
    (.of_below (by omega) (by rw [length_words]; omega) hr)

/-- A call that blocks. -/
theorem Sim.syscall_blocks {h : Hart l} {v : Virtual μ} (hsim : Sim l h v) (h3 : v.running.Ring3)
    {s : Machine} (hs : AtDispatch l h.cpu.mem v s) (path : BlockingPath l)
    (nr cptr method arg0 xfer : BitVec 64) {r r₀ : Trace × Kernel μ}
    (hr : v.kernel.syscall p nr cptr method arg0 xfer (v.blockedAt p path.depth) = r)
    {next : BitVec 64} (hnext : r.1.restored = some next)
    (hsame : r₀.2.perCpu.kernelRsp0 = r.2.perCpu.kernelRsp0) {s' : Machine}
    (hs' : s' = execAll (blockAndSwitch l.resumePoint)
      { ((path.enter s).set .rdi (l.saveSlot v.kernel.current)).set .rsi next with
        mem := Hart.sync l r₀.2 (path.enter s).mem }) :
    load s'.mem 8 (l.saveSlot v.kernel.current) = v.blockedAt p path.depth ∧
      Sim l ⟨Hart.land l r (Function.update h.path v.kernel.current (some path)) s', r.2,
          Function.update h.path v.kernel.current (some path)⟩
        ⟨r.2, Virtual.deliver r.1.sysret (Function.update v.ctx v.kernel.current
          (behindSyscall v.running)), v.mem⟩ := by
  have hring3 : v.kernel.InRing3 :=
    (hsim.ring3 _ hsim.scheduled.current_present).mp h3
  have hne := hsim.scheduled.current_ne_zero hring3
  obtain ⟨k₁, reason, epOid, htasks, hpark, htail⟩ :=
    v.kernel.syscall_blocks p hne hr (by rw [hnext]; exact Option.some_ne_none next)
  generalize he : ({ ((path.enter s).set .rdi (l.saveSlot v.kernel.current)).set .rsi next with
    mem := Hart.sync l r₀.2 (path.enter s).mem } : Machine) = e at hs'
  have hptr : e.regs .rsp - 160 = v.blockedAt p path.depth := by
    have hrsp : e.regs .rsp = below (Kernel.kstackOf p v.kernel.current) (40 + path.depth) := by
      rw [← below_below, ← hs.rsp, ← path.enter_rsp, ← he]
      rfl
    rw [hrsp, Virtual.blockedAt, show 200 + path.depth = 40 + path.depth + 160 by omega]
    exact below_below _ (40 + path.depth) 160
  have hgs : e.gsBase = l.perCpu ∧ e.kernelGsBase = 0 := by
    rw [← he]
    exact ⟨(path.enter_gs s).1.trans hs.gsBase, (path.enter_gs s).2.trans hs.kernelGsBase⟩
  obtain ⟨hconf, hparked⟩ := hs.parked h3 path e.mem e.regs
    (fun x hx => by rw [← he]; exact sync_of_not_data r₀.2 _ hx) (by rw [← he]; rfl)
    (fun reg hreg => by
      rw [← he]
      cases reg <;> first | rfl | exact absurd hreg (by decide))
  have hword : load (blockedMem l v path e.mem e.regs) 8 l.perCpu = r.2.perCpu.kernelRsp0 := by
    rw [load_blockedMem_perCpu, ← hsame, ← he]
    exact load_sync_kernelRsp0 r₀.2 _
  have hslot : load (blockedMem l v path e.mem e.regs) 8 (l.saveSlot v.kernel.current)
      = v.blockedAt p path.depth := Amd64.load_store_self _ _ (n := 8) (by decide) _
  have hload : ∀ c, HoldsContext (blockedMem l v path e.mem e.regs) next c →
      s' = ⟨c, 0, l.perCpu, blockedMem l v path e.mem e.regs⟩ := by
    intro c hc
    have hrdi : e.regs .rdi = l.saveSlot v.kernel.current := by rw [← he]; rfl
    have hrsi : e.regs .rsi = next := by rw [← he]; rfl
    rw [hs', execAll_blockAndSwitch (c := c) (m := blockedMem l v path e.mem e.regs)
      (by rw [hptr, hrdi]; rfl) (by rw [hrsi]; exact hc), hgs.1, hgs.2]
  generalize blockedMem l v path e.mem e.regs = m at *
  have hall : AllSaved l k₁ m (Function.update h.path v.kernel.current (some path))
      (Function.update v.ctx v.kernel.current (behindSyscall v.running)) v.mem := by
    refine hsim.allSaved ?_ htasks hconf hsim.scheduled.current_present
      (hsim.toBacked.update h3 hconf h3) ?_ fun t ht => ⟨?_, ?_, ?_⟩
    · exact hsim.scheduled.rewrite_current hsim.scheduled.current_present rfl
        fun h0 => absurd h0 hne
    · rw [hpark, Function.update_self, Function.update_self, Function.update_self]
      exact ⟨path, s, e.regs, rfl, hparked⟩
    · rw [hpark, Function.update_of_ne ht]
    · rw [Function.update_of_ne ht]
    · rw [Function.update_of_ne ht]
  have hsim' := hall.switch htail hword (s := s') fun ptr hptr c hc =>
    hload c (Option.some.inj (hptr.symm.trans hnext) ▸ hc)
  refine ⟨?_, hsim'⟩
  -- somebody is restored, so the switch has come to its end
  have hpres : (k₁.task r.2.current).present = true := by
    rw [← (htail.tasks _).present]
    exact hsim'.scheduled.current_present
  obtain ⟨c, hc⟩ := (hall.saved _ hpres).exists_holds
  rw [hload c (Option.some.inj (htail.restored.symm.trans hnext) ▸ hc)]
  exact hslot

/-- A syscall. -/
theorem sim_syscall {h : Hart l} {v : Virtual μ} (hsim : Sim l h v) (h3 : v.running.Ring3)
    (f : Callee l 8) (path : BlockingPath l) :
    Sim l (h.syscall l f path) (v.step l (.syscall f path)) := by
  have hs := hsim.enter h3
  have hring3 : v.kernel.InRing3 := (hsim.ring3 _ hsim.scheduled.current_present).mp h3
  have hne := hsim.scheduled.current_ne_zero hring3
  rw [Hart.syscall, Virtual.step]
  dsimp only
  generalize execAll (syscallEntry l.dispatchReturn) _ = s at hs ⊢
  rw [hs.nr, hs.cptr, hs.method, hs.arg0, hs.xfer, if_pos h3]
  rw [hsim.kernel]
  simp only [Kernel.step, Context.syscallOp]
  have hsched : ∀ rsp, (v.kernel.syscall p (v.running.regs .rax) (v.running.regs .rdi)
      (v.running.regs .rsi) (v.running.regs .rdx) (v.running.regs .r9) rsp).2.Scheduled p :=
    fun rsp => hsim.scheduled.move (v.kernel.move_syscall p hne hring3 _ _ _ _ _ rsp)
  have hcalm := fun rsp => v.kernel.calm_syscall p hne (v.running.regs .rax) (v.running.regs .rdi)
    (v.running.regs .rsi) (v.running.regs .rdx) (v.running.regs .r9) rsp
  have hblocks := @Sim.syscall_blocks _ _ _ _ _ hsim h3 s hs path (v.running.regs .rax)
    (v.running.regs .rdi) (v.running.regs .rsi) (v.running.regs .rdx) (v.running.regs .r9)
  obtain ⟨r, heq, hnone, res, hret, hreply⟩ | ⟨k₀, reason, epOid, heq⟩ :=
    v.kernel.syscall_outcome p (v.running.regs .rax) (v.running.regs .rdi) (v.running.regs .rsi)
      (v.running.regs .rdx) (v.running.regs .r9)
  · simp only [heq] at hsched hcalm ⊢
    rw [hnone, hret]
    dsimp only
    rw [← hret]
    exact hsim.syscall_returns h3 hs f (hsched 0) (hcalm 0 hnone) hret hreply
  · simp only [heq] at hblocks ⊢
    have hrestored : ∀ rsp, (Kernel.blockCurrent p k₀ reason epOid rsp).1.restored = some
        ((k₀.parkCurrent reason epOid).reschedule p |>.task
          ((k₀.parkCurrent reason epOid).reschedule p).current).rsp := fun _ => rfl
    have hsame := (k₀.kernelRsp0_blockCurrent p reason epOid 0).trans
      (k₀.kernelRsp0_blockCurrent p reason epOid (v.blockedAt p path.depth)).symm
    obtain ⟨hload, hsim'⟩ := hblocks rfl (hrestored _) hsame rfl
    rw [hrestored 0]
    dsimp only
    rw [hload]
    exact hsim'

end Syscall

end Cairn
