import Cairn.Kernel.Seats

/-!
# What happens beside the tasks

Most of what the kernel does leaves the task table, the endpoints and the per-CPU words alone: the
constructors and delegation write capability tables, the methods write payloads. `Aside` says so
once, for every operation in the background of the tasks. What weaker statements about a step need
is derived from it: the task table (`SameTasks`), the seats (`SameSeats`), and where contexts and
stacks are (`Calm`).

Admission and the restart hook are inverted here too. An admission refuses or fills a free slot
with a known task, and `on_domain_death` re-grants two capabilities and then makes one admission.
The source only logs the answer of that admission; here it is part of `Kernel.restart` and
`Kernel.afterDeath`.

## Main definitions

* `Kernel.Aside` — tasks, endpoints, contexts and the published words are the same
* `Kernel.SameTasks`, `Kernel.Calm` — weaker, and kept by other steps as well
* `Kernel.spend`, `Kernel.granted`, `Kernel.restart` — the parts of the restart hook
* `Kernel.reaped`, `Kernel.afterDeath` — the parts of a termination

## Main results

* `Kernel.aside_step` — operations in the background
* `Kernel.admitWith_eq`, `Kernel.onDomainDeath_eq`, `Kernel.terminateCurrent_eq`
-/

namespace Cairn

namespace Kernel

variable {μ : Type}

/-! ### What stays the same -/

/-- The task table and the first contexts are the same. -/
structure SameTasks (k k' : Kernel μ) : Prop where
  sched : k'.sched = k.sched
  frames : k'.frames = k.frames

namespace SameTasks

variable {k k' : Kernel μ}

theorem trans {k'' : Kernel μ} (h₁ : SameTasks k k') (h₂ : SameTasks k' k'') : SameTasks k k'' :=
  ⟨h₂.sched.trans h₁.sched, h₂.frames.trans h₁.frames⟩

theorem task (h : SameTasks k k') (t : Fin maxTasks) : k'.task t = k.task t := by
  rw [Kernel.task, h.sched, Kernel.task]

theorem current (h : SameTasks k k') : k'.current = k.current := by
  rw [Kernel.current, h.sched, Kernel.current]

theorem seat (h : SameTasks k k') : k'.seat = k.seat :=
  funext fun t => congrArg Task.seat (h.task t)

end SameTasks

/-- Tasks, endpoints, saved contexts and what the scheduler has published are the same. -/
structure Aside (k k' : Kernel μ) : Prop extends SameTasks k k' where
  endpoints : k'.endpoints = k.endpoints
  parkedIn : k'.parkedIn = k.parkedIn
  currentDomain : k'.currentDomain = k.currentDomain
  rsp0 : k'.rsp0 = k.rsp0
  kernelRsp0 : k'.perCpu.kernelRsp0 = k.perCpu.kernelRsp0

/-- Who runs, who is present, and where the contexts and stacks are, is the same. -/
structure Calm (k k' : Kernel μ) : Prop where
  current : k'.current = k.current
  present : ∀ t, (k'.task t).present = (k.task t).present
  rsp : ∀ t, (k'.task t).rsp = (k.task t).rsp
  frames : k'.frames = k.frames
  parkedIn : k'.parkedIn = k.parkedIn
  rsp0 : k'.rsp0 = k.rsp0
  kernelRsp0 : k'.perCpu.kernelRsp0 = k.perCpu.kernelRsp0

namespace Aside

variable {k k' : Kernel μ}

theorem refl (k : Kernel μ) : Aside k k := ⟨⟨rfl, rfl⟩, rfl, rfl, rfl, rfl, rfl⟩

theorem trans {k'' : Kernel μ} (h₁ : Aside k k') (h₂ : Aside k' k'') : Aside k k'' :=
  ⟨h₁.toSameTasks.trans h₂.toSameTasks, h₂.endpoints.trans h₁.endpoints,
    h₂.parkedIn.trans h₁.parkedIn, h₂.currentDomain.trans h₁.currentDomain,
    h₂.rsp0.trans h₁.rsp0, h₂.kernelRsp0.trans h₁.kernelRsp0⟩

theorem sameSeats (h : Aside k k') : SameSeats k k' := ⟨h.seat, h.endpoints, h.frames⟩

theorem calm (h : Aside k k') : Calm k k' :=
  ⟨h.current, fun t => by rw [h.task], fun t => by rw [h.task], h.frames, h.parkedIn, h.rsp0,
    h.kernelRsp0⟩

end Aside

theorem PayloadOnly.aside {k k' : Kernel μ} (h : PayloadOnly k k') : Aside k k' := by
  obtain ⟨_, _, _, _, rfl⟩ := h
  exact ⟨⟨rfl, rfl⟩, rfl, rfl, rfl, rfl, rfl⟩

/-! ### The capability tables -/

/-- Only the object table and the capability tables may differ. -/
def SpaceOnly (k k' : Kernel μ) : Prop := ∃ s, k' = { k with space := s }

theorem SpaceOnly.refl (k : Kernel μ) : SpaceOnly k k := ⟨_, rfl⟩

theorem SpaceOnly.trans {k₁ k₂ k₃ : Kernel μ} (h₁ : SpaceOnly k₁ k₂) (h₂ : SpaceOnly k₂ k₃) :
    SpaceOnly k₁ k₃ := by
  obtain ⟨_, rfl⟩ := h₁
  obtain ⟨s, rfl⟩ := h₂
  exact ⟨s, rfl⟩

theorem SpaceOnly.aside {k k' : Kernel μ} (h : SpaceOnly k k') : Aside k k' := by
  obtain ⟨_, rfl⟩ := h
  exact ⟨⟨rfl, rfl⟩, rfl, rfl, rfl, rfl, rfl⟩

/-- A constructor leaves the tasks alone, if its side-table write does. -/
theorem aside_construct (k : Kernel μ) (kind : ObjectKind) (rights : Rights)
    (payload : Fin objectTableSize → Kernel μ → Kernel μ)
    (hpay : ∀ oid k, Aside k (payload oid k)) : Aside k (k.construct kind rights payload).2 := by
  rw [construct]
  split
  · exact .refl k
  · dsimp only
    rename_i oid ot _
    have hcreate : Aside k { k with space := { k.space with objects := ot } } :=
      SpaceOnly.aside ⟨_, rfl⟩
    have hfill := hcreate.trans (hpay oid _)
    split
    · exact hfill.trans (SpaceOnly.aside ⟨_, rfl⟩)
    · exact hfill

/-- A constructor without a side table writes the object table and the root table only. -/
theorem spaceOnly_construct (k : Kernel μ) (kind : ObjectKind) (rights : Rights) :
    SpaceOnly k (k.construct kind rights fun _ k => k).2 := by
  rw [construct]
  split
  · exact .refl k
  · dsimp only
    split <;> exact ⟨_, rfl⟩

/-- The state after a constructor without a side table has made object `oid` and put its
capability into `slot` of the root table. -/
def constructed (k : Kernel μ) (kind : ObjectKind) (rights : Rights) (oid : Fin objectTableSize)
    (slot : Fin capTableSlots) : Kernel μ :=
  { k with space :=
    { objects := ⟨Function.update k.space.objects.metas oid ⟨kind, 0, true⟩⟩
      tables := Function.update k.space.tables 0
        ((k.space.tables 0).set slot (some ⟨oid, rights, 0, kind, 0⟩)) } }

/-- **What a constructor can do**: fail, perhaps after it has created an object nobody can name,
or put the capability of a new object into a free slot of the root table. -/
theorem construct_cases (k : Kernel μ) (kind : ObjectKind) (rights : Rights) :
    (∃ ot : ObjectTable,
      (∀ i, (k.space.objects.metas i).present = true → ot.metas i = k.space.objects.metas i) ∧
      k.construct kind rights (fun _ k => k)
        = (none, { k with space := { k.space with objects := ot } })) ∨
    ∃ oid slot, (k.space.objects.metas oid).present = false ∧
      (k.space.tables 0).slots slot = none ∧
      k.construct kind rights (fun _ k => k) = (some slot, k.constructed kind rights oid slot) := by
  rw [construct]
  cases hcreate : k.space.objects.createObject kind with
  | none => exact Or.inl ⟨k.space.objects, fun _ _ => rfl, rfl⟩
  | some r =>
    obtain ⟨oid, ot⟩ := r
    obtain ⟨habs, -, rfl⟩ := ObjectTable.createObject_eq_some_iff.mp hcreate
    dsimp only
    split
    · rename_i slot table hmint
      obtain ⟨hfree, m, hm, -, rfl⟩ := CapTable.mint_eq_ok_iff.mp hmint
      obtain ⟨-, rfl⟩ := ObjectTable.metaAt_eq_some_iff.mp hm
      refine Or.inr ⟨oid, slot, habs, CapTable.freeSlot_eq_some hfree, ?_⟩
      rw [constructed, Space.setTable]
      simp only [Fin.eta, Function.update_self]
    · refine Or.inl ⟨_, fun i hi => Function.update_of_ne ?_ _ _, rfl⟩
      rintro rfl
      rw [habs] at hi
      cases hi

theorem spaceOnly_delegateFromRoot (k : Kernel μ) (dst src : ℕ) (mask : Rights)
    (badge : BitVec 16) : SpaceOnly k (k.delegateFromRoot dst src mask badge).2 := by
  rw [delegateFromRoot]
  split
  · split
    · exact ⟨_, rfl⟩
    · exact .refl k
  · exact .refl k

/-- An operation in the background of the tasks leaves them alone, and returns to nobody. -/
theorem aside_step (p : Platform μ) (k : Kernel μ) {op : Op μ} (hop : op.background = true) :
    Aside k (k.step p op).2 ∧ (k.step p op).1 = {} := by
  cases op with
  | initRoot => exact ⟨(k.spaceOnly_construct _ _).aside, rfl⟩
  | createNotification => exact ⟨(k.spaceOnly_construct _ _).aside, rfl⟩
  | createEndpoint => exact ⟨(k.spaceOnly_construct _ _).aside, rfl⟩
  | mintTimeslice => exact ⟨(k.spaceOnly_construct _ _).aside, rfl⟩
  | mintExtent info =>
    exact ⟨k.aside_construct _ _ _ fun _ _ => ⟨⟨rfl, rfl⟩, rfl, rfl, rfl, rfl, rfl⟩, rfl⟩
  | createDeviceQueue magic lba =>
    refine ⟨?_, rfl⟩
    rw [step, createDeviceQueue]
    split
    · exact .refl k
    · exact k.aside_construct _ _ _ fun _ _ => ⟨⟨rfl, rfl⟩, rfl, rfl, rfl, rfl, rfl⟩
  | delegateFromRoot dst src mask badge =>
    exact ⟨(k.spaceOnly_delegateFromRoot ..).aside, rfl⟩
  | capInvokeIn d c method arg => exact ⟨(k.payload_capInvokeIn p d c method arg).aside, rfl⟩
  | sealCap | revoke => exact ⟨SpaceOnly.aside ⟨_, rfl⟩, rfl⟩
  | registerFaulter | outside => exact ⟨⟨⟨rfl, rfl⟩, rfl, rfl, rfl, rfl, rfl⟩, rfl⟩
  | setCurrentDomain | admitTask | admitUser | syscall | tick | fault => cases hop

/-! ### Admission -/

/-- The task an admission writes into slot `i`. -/
def newTask (p : Platform μ) (k : Kernel μ) (i : Fin maxTasks)
    (domain periodNs relDeadlineNs budgetNs : ℕ) : Task :=
  { Task.empty with
    rsp := p.taskKstackTop i - 160
    present := true
    runnable := true
    periodNs := periodNs
    relDeadlineNs := relDeadlineNs
    absDeadlineNs := satAdd (k.nowNs p) relDeadlineNs
    budgetNs := budgetNs
    kstackTop := p.taskKstackTop i
    domain := domain }

/-- The state after an admission into slot `i`. -/
def admitInto (k : Kernel μ) (i : Fin maxTasks) (a : Task) (frame : TaskFrame) : Kernel μ :=
  { k with
    sched :=
      { k.sched with tasks := Function.update k.sched.tasks i a, num := k.sched.num + 1 }
    frames := Function.update k.frames i frame
    parkedIn := Function.update k.parkedIn i false }

/-- **What an admission can do**: refuse and change nothing, or fill a free slot with a new
task. -/
theorem admitWith_eq (p : Platform μ) (k : Kernel μ) (frame : Fin maxTasks → TaskFrame)
    (cptr domain period rel budget : ℕ) :
    k.admitWith p frame cptr domain period rel budget = (none, k) ∨
      ∃ i, period ≠ 0 ∧ k.admitCheck cptr = .ok ∧ k.sched.freeSlot = some i ∧
        k.admitWith p frame cptr domain period rel budget
          = (some i, k.admitInto i (k.newTask p i domain period rel budget) (frame i)) := by
  rw [admitWith]
  split
  · exact Or.inl rfl
  rename_i hperiod
  split
  · exact Or.inl rfl
  rename_i hcheck
  cases hfree : k.sched.freeSlot with
  | none => exact Or.inl rfl
  | some i => exact Or.inr ⟨i, hperiod, not_not.mp hcheck, rfl, rfl⟩

/-- An admission, in the words of the seats: it changes nothing, or fills the seat of an absent
task. -/
theorem admitWith_cases (p : Platform μ) (k : Kernel μ) (frame : Fin maxTasks → TaskFrame)
    (cptr domain period rel budget : ℕ) :
    k.admitWith p frame cptr domain period rel budget = (none, k) ∨
      ∃ (i : Fin maxTasks) (k' : Kernel μ),
        k.admitWith p frame cptr domain period rel budget = (some i, k') ∧
        i ≠ 0 ∧ (k.seat i).present = false ∧ k.admitCheck cptr = .ok ∧
        k'.seat = Function.update k.seat i (Seat.fresh domain) ∧
        k'.frames = Function.update k.frames i (frame i) ∧
        k'.parkedIn = Function.update k.parkedIn i false ∧
        k'.endpoints = k.endpoints ∧ k'.space = k.space ∧ k'.current = k.current ∧
        k'.currentDomain = k.currentDomain := by
  rcases k.admitWith_eq p frame cptr domain period rel budget with h | ⟨i, -, hcheck, hfree, h⟩
  · exact Or.inl h
  · obtain ⟨hi, habs⟩ := Scheduler.freeSlot_eq_some hfree
    refine Or.inr ⟨i, _, h, hi, habs, hcheck, ?_, rfl, rfl, rfl, rfl, rfl, rfl⟩
    exact k.seat_setTask i _

/-! ### The restart hook -/

/-- One restart less is left. -/
def spend (k : Kernel μ) : Kernel μ :=
  { k with faulter := { k.faulter with restarts := k.faulter.restarts - 1 } }

/-- The state in which a restarted domain is admitted again: both its capabilities are there, as
far as the tables had room. -/
def granted (k : Kernel μ) : Kernel μ := k.regrant.2.mintTimeslice.2

/-- The rest of `on_domain_death` once the budget is spent: grant the two capabilities and admit
the domain, with the answer of `admit_user`. -/
def restart (p : Platform μ) (k : Kernel μ) : Option (Fin maxTasks) × Kernel μ :=
  match k.regrant.1, k.regrant.2.mintTimeslice.1 with
  | some fm, some ft =>
    k.granted.admitUser p k.faulter.entry k.faulter.stackTop (.ofNat 16 fm) ft faultDomain 5000000
      5000000 1000000
  | _, _ => (none, k.granted)

theorem onDomainDeath_eq (p : Platform μ) (k : Kernel μ) (domain : ℕ) :
    k.onDomainDeath p domain
      = if domain ≠ faultDomain ∨ k.faulter.restarts = 0 then k else (k.spend.restart p).2 := by
  rw [onDomainDeath]
  split
  · rfl
  · rw [restart]
    show (match k.spend.regrant.1, k.spend.regrant.2.mintTimeslice.1 with
      | some fm, some ft => _
      | _, _ => _) = _
    split <;> rfl

theorem spaceOnly_regrant (k : Kernel μ) : SpaceOnly k k.regrant.2 := by
  have hinit : SpaceOnly k k.initRoot.2 := k.spaceOnly_construct _ _
  rw [regrant]
  split
  · rename_i h
    rw [h] at hinit
    exact hinit.trans (spaceOnly_delegateFromRoot ..)
  · rename_i h
    rw [h] at hinit
    exact hinit

theorem spaceOnly_granted (k : Kernel μ) : SpaceOnly k k.granted :=
  k.spaceOnly_regrant.trans (spaceOnly_construct _ _ _)

theorem aside_spend (k : Kernel μ) : Aside k k.spend := ⟨⟨rfl, rfl⟩, rfl, rfl, rfl, rfl, rfl⟩

/-- The restart hook grants what it can, and admits nobody or one ring-3 task, on the time-slice
capability it has just minted. -/
theorem restart_cases (p : Platform μ) (k : Kernel μ) :
    k.restart p = (none, k.granted) ∨
      ∃ (fm ft : Fin capTableSlots) (i : Fin maxTasks), k.regrant.1 = some fm ∧
        k.regrant.2.mintTimeslice.1 = some ft ∧ k.granted.admitCheck ft = .ok ∧
        k.granted.sched.freeSlot = some i ∧
        k.restart p = (some i, k.granted.admitInto i
          (k.granted.newTask p i faultDomain 5000000 5000000 1000000)
          (buildTaskFrame p i k.faulter.entry true k.faulter.stackTop
            ((BitVec.ofNat 16 fm).setWidth 64))) := by
  rw [restart]
  split
  · rename_i fm ft hfm hft
    rcases k.granted.admitWith_eq p (fun i => buildTaskFrame p i k.faulter.entry true
      k.faulter.stackTop ((BitVec.ofNat 16 fm).setWidth 64)) ft faultDomain 5000000 5000000 1000000
      with h | ⟨i, -, hcheck, hfree, h⟩
    · exact Or.inl h
    · exact Or.inr ⟨fm, ft, i, hfm, hft, hcheck, hfree, h⟩
  · exact Or.inl rfl

/-! ### Termination -/

/-- The state after the running task has been dropped and its domain reaped. -/
def reaped (p : Platform μ) (k : Kernel μ) : Kernel μ :=
  k.dropCurrent.reapDomain p (k.task k.current).domain k.current

/-- The state `terminate_current` switches from, and the slot in which the domain has been
re-admitted, if it has. -/
def afterDeath (p : Platform μ) (k : Kernel μ) : Option (Fin maxTasks) × Kernel μ :=
  if (k.task k.current).domain ≠ faultDomain ∨ k.faulter.restarts = 0 then (none, k.reaped p)
  else (k.reaped p).spend.restart p

/-- The endpoints without those at which task `t` is parked. -/
def scrubbed (k : Kernel μ) (t : Fin maxTasks) (i : Fin objectTableSize) : EpSlot :=
  if (k.endpoints i).state ≠ .idle ∧ (k.endpoints i).peerTask = t then .empty else k.endpoints i

theorem reaped_of_lt (p : Platform μ) (k : Kernel μ) {d : Fin maxDomains}
    (hd : (k.task k.current).domain = d) :
    k.reaped p = { k.dropCurrent with
      space := k.space.setTable d .new
      endpoints := k.scrubbed k.current
      machine := (k.domainMaps d).vas.foldl (fun m va => (p.unmapPage va m).2) k.machine
      domainMaps := Function.update k.domainMaps d .empty } := by
  rw [reaped, hd, reapDomain]
  exact dif_pos d.isLt

theorem reaped_of_le (p : Platform μ) (k : Kernel μ)
    (hd : maxDomains ≤ (k.task k.current).domain) :
    k.reaped p = { k.dropCurrent with endpoints := k.scrubbed k.current } := by
  rw [reaped, reapDomain]
  exact dif_neg (Nat.not_lt.mpr hd)

/-- Reaping leaves the task table and the restart registry alone. -/
theorem reaped_eq (p : Platform μ) (k : Kernel μ) : ∃ s ep l m, k.reaped p =
    { k.dropCurrent with space := s, endpoints := ep, domainMaps := l, machine := m } := by
  rw [reaped, reapDomain]
  dsimp only
  split <;> exact ⟨_, _, _, _, rfl⟩

theorem faulter_reaped (p : Platform μ) (k : Kernel μ) : (k.reaped p).faulter = k.faulter := by
  obtain ⟨_, _, _, _, heq⟩ := k.reaped_eq p
  rw [heq]
  rfl

theorem terminateCurrent_eq (p : Platform μ) (k : Kernel μ) :
    k.terminateCurrent p = ((k.afterDeath p).2.reschedule p).restore := by
  rw [terminateCurrent, afterDeath]
  rw [show k.dropCurrent.reapDomain p (k.task k.current).domain k.current = k.reaped p from rfl,
    onDomainDeath_eq, faulter_reaped]
  split <;> rfl

end Kernel

end Cairn
