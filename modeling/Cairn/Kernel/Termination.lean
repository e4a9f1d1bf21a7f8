import Cairn.Kernel.Admission
import Cairn.Kernel.Scheduling

/-!
# Crash-only termination

`terminate_current` frees the slot of the running task, wipes the table of its domain, unmaps what
its ledger names, scrubs the endpoints it is parked at, and then calls the supervisor, which may
mint new root capabilities, delegate one of them into the wiped table, and put a new task into the
freed slot, all in front of the next switch. This module is about what it does not touch.

The supervisor pays for each restart from a budget that only `register_faulter` refills.

## Main definitions

* `Kernel.Regranted` — what the supervisor does to the capability tables
* `Kernel.DeathFrame` — what a termination leaves alone, and what it leaves behind
* `Kernel.readmits` — the steps in which the supervisor re-admits a domain

## Main results

* `Kernel.deathFrame_terminateCurrent` — one termination
* `Kernel.restarts_step` — every re-admission is paid for
* `termination_isolated` — terminations in every run
-/

namespace Cairn

namespace Kernel

variable {μ : Type}

/-! ### What the supervisor grants -/

/-- The table of the supervised domain. -/
def faultTable : Fin maxDomains := ⟨faultDomain, by decide⟩

/-- The tables may have gained entries in free slots: any in the root table, and at most one in
that of the supervised domain, an `INVOKE`-only Memory capability for a new object. -/
structure Regranted (s s' : Space (Fin maxDomains)) : Prop where
  tables : ∀ d, d ≠ 0 → d ≠ faultTable → s'.tables d = s.tables d
  root : ∀ i e, s.slot 0 i = some e → s'.slot 0 i = some e
  objects : ∀ o, (s.objects.metas o).present = true → s'.objects.metas o = s.objects.metas o
  fault : s'.tables faultTable = s.tables faultTable ∨
    ∃ (i : Fin capTableSlots) (o : Fin objectTableSize), (s.objects.metas o).present = false ∧
      s'.objects.metas o = ⟨.memory, 0, true⟩ ∧
      s'.tables faultTable = (s.tables faultTable).set i (some ⟨o, .invoke, 0, .memory, 0⟩)

theorem Regranted.refl (s : Space (Fin maxDomains)) : Regranted s s :=
  ⟨fun _ _ _ => rfl, fun _ _ => id, fun _ _ => rfl, Or.inl rfl⟩

/-- A constructor writes a free slot of the root table. -/
theorem slot_constructed {k : Kernel μ} {kind : ObjectKind} {rights : Rights}
    {oid : Fin objectTableSize} {slot : Fin capTableSlots}
    (hfree : (k.space.tables 0).slots slot = none) (i : Fin capTableSlots) (e : CapEntry)
    (he : k.space.slot 0 i = some e) :
    (k.constructed kind rights oid slot).space.slot 0 i = some e := by
  have hne : i ≠ slot := by
    rintro rfl
    rw [Space.slot, hfree] at he
    cases he
  rw [Space.slot, constructed]
  simp only [Function.update_self, CapTable.set, Function.update_of_ne hne]
  exact he

theorem tables_constructed {k : Kernel μ} {kind : ObjectKind} {rights : Rights}
    {oid : Fin objectTableSize} {slot : Fin capTableSlots} {d : Fin maxDomains} (hd : d ≠ 0) :
    (k.constructed kind rights oid slot).space.tables d = k.space.tables d :=
  Function.update_of_ne hd _ _

/-- The constructors of the supervisor leave everything but the root table alone. -/
theorem regranted_construct {s : Space (Fin maxDomains)} {k : Kernel μ}
    (h : Regranted s k.space) (kind : ObjectKind) (rights : Rights) :
    Regranted s (k.construct kind rights fun _ k => k).2.space := by
  rcases k.construct_cases kind rights with ⟨ot, hkeep, heq⟩ | ⟨oid, slot, habs, hfree, heq⟩
  · rw [heq]
    refine ⟨h.tables, h.root, fun o ho => ?_, ?_⟩
    · have hsame := h.objects o ho
      exact (hkeep o (by rw [hsame]; exact ho)).trans hsame
    · refine h.fault.imp id ?_
      rintro ⟨i, o, hfresh, hnew, htable⟩
      exact ⟨i, o, hfresh, (hkeep o (by rw [hnew])).trans hnew, htable⟩
  · rw [heq]
    have hobj : ∀ o, (k.space.objects.metas o).present = true →
        (k.constructed kind rights oid slot).space.objects.metas o = k.space.objects.metas o := by
      intro o ho
      refine Function.update_of_ne ?_ _ _
      rintro rfl
      rw [habs] at ho
      cases ho
    refine ⟨fun d hd hf => (tables_constructed hd).trans (h.tables d hd hf),
      fun i e he => slot_constructed hfree i e (h.root i e he), fun o ho => ?_, ?_⟩
    · have hsame := h.objects o ho
      exact (hobj o (by rw [hsame]; exact ho)).trans hsame
    · have hfault : (k.constructed kind rights oid slot).space.tables faultTable
          = k.space.tables faultTable := tables_constructed (by decide)
      refine h.fault.imp hfault.trans ?_
      rintro ⟨i, o, hfresh, hnew, htable⟩
      exact ⟨i, o, hfresh, (hobj o (by rw [hnew])).trans hnew, hfault.trans htable⟩

theorem tables_setTable (s : Space (Fin maxDomains)) (d d' : Fin maxDomains) (t : CapTable) :
    (s.setTable d t).tables d' = if d' = d then t else s.tables d' :=
  Function.update_apply s.tables d t d'

/-- Delegation from the root domain fails and changes nothing, or fills a slot of another table
with a child of the named entry. -/
theorem delegateFromRoot_cases (k : Kernel μ) (d : Fin maxDomains) (src : ℕ) (mask : Rights)
    (badge : BitVec 16) : (k.delegateFromRoot d src mask badge).2 = k ∨
      ∃ i e, (k.space.tables 0).entryAt src = some e ∧ (k.delegateFromRoot d src mask badge).2
        = { k with
          space := k.space.setTable d ((k.space.tables d).set i (some (e.child mask badge))) } := by
  rw [delegateFromRoot]
  split
  · split
    · rename_i i table hdel
      obtain ⟨e, he, -, -, -, rfl⟩ := CapTable.delegate_eq_ok_iff.mp hdel
      exact Or.inr ⟨i, e, he, rfl⟩
    · exact Or.inl rfl
  · exact Or.inl rfl

/-- The Memory capability of a restart. -/
theorem regranted_regrant (k : Kernel μ) : Regranted k.space k.regrant.2.space := by
  have hinit := regranted_construct (.refl k.space) .memory mappableRights
  rcases k.construct_cases .memory mappableRights with
    ⟨ot, -, heq⟩ | ⟨oid, slot, habs, hfree, heq⟩
  · rw [regrant, initRoot]
    rw [heq] at hinit ⊢
    exact hinit
  · rw [heq] at hinit
    have hstep : k.regrant = (k.constructed .memory mappableRights oid slot).delegateFromRoot
        faultTable slot .invoke 0 := by
      rw [regrant, initRoot, heq]
      rfl
    rw [hstep]
    rcases (k.constructed .memory mappableRights oid slot).delegateFromRoot_cases faultTable slot
      .invoke 0 with hsame | ⟨i, e, he, hdel⟩
    · rw [hsame]
      exact hinit
    · have hroot : ((k.constructed .memory mappableRights oid slot).space.tables 0).entryAt slot
          = some ⟨oid, mappableRights, 0, .memory, 0⟩ := by
        rw [CapTable.entryAt_val]
        simp [constructed, CapTable.set]
      cases hroot.symm.trans he
      have hchild : (⟨oid, mappableRights, 0, .memory, 0⟩ : CapEntry).child .invoke 0
          = ⟨oid, .invoke, 0, .memory, 0⟩ := by
        rw [CapEntry.child, show mappableRights.inter .invoke = .invoke by decide]
      have hne : (0 : Fin maxDomains) ≠ faultTable := by decide
      have hfault : (k.constructed .memory mappableRights oid slot).space.tables faultTable
          = k.space.tables faultTable := tables_constructed hne.symm
      rw [hdel, hchild]
      refine ⟨fun d hd hf => ?_, fun j e hj => ?_, hinit.objects, Or.inr ⟨i, oid, habs, ?_, ?_⟩⟩
      · rw [tables_setTable, if_neg hf]
        exact hinit.tables d hd hf
      · rw [Space.slot_setTable, if_neg hne]
        exact hinit.root j e hj
      · simp [constructed, Space.setTable]
      · rw [tables_setTable, if_pos rfl, hfault]

theorem regranted_granted (k : Kernel μ) : Regranted k.space k.granted.space :=
  regranted_construct k.regranted_regrant .timeSlice .invoke

/-! ### One termination -/

/-- What a termination in domain `d` leaves alone: the tables and ledgers of other domains, the
entries of the root table, the other tasks up to what `roll_deadlines` updates, the endpoints at
which others are parked, and the payloads. What it leaves behind in the table of `d`: nothing, or
the one capability of a restart. -/
structure DeathFrame (k k' : Kernel μ) (d : Fin maxDomains) : Prop where
  tables : ∀ d', d' ≠ d → d' ≠ 0 → k'.space.tables d' = k.space.tables d'
  ledgers : ∀ d', d' ≠ d → k'.domainMaps d' = k.domainMaps d'
  root : ∀ i e, k.slot 0 i = some e → k'.slot 0 i = some e
  tasks : ∀ t, t ≠ k.current → (k.task t).present = true → (k.task t).Rolled (k'.task t)
  endpoints : ∀ i, (k.endpoints i).state ≠ .idle → (k.endpoints i).peerTask ≠ k.current →
    k'.endpoints i = k.endpoints i
  payloads : k'.notify = k.notify ∧ k'.extents = k.extents ∧ k'.devqueues = k.devqueues
  domain : k'.space.tables d = .new ∨ (d : ℕ) = faultDomain ∧
    ∃ (i : Fin capTableSlots) (o : Fin objectTableSize),
      (k.space.objects.metas o).present = false ∧
      k'.space.objects.metas o = ⟨.memory, 0, true⟩ ∧
      k'.space.tables d = CapTable.new.set i (some ⟨o, .invoke, 0, .memory, 0⟩)

/-- The switch at the end of a termination. -/
theorem DeathFrame.dispatch {k k₁ : Kernel μ} {d : Fin maxDomains} {r : Trace × Kernel μ}
    (h : DeathFrame k k₁ d) (hd : Dispatch k₁ r) : DeathFrame k r.2 d := by
  have htasks := hd.tasks
  obtain ⟨s, cd, rsp0, pc, pi, heq⟩ := hd.rest
  refine ⟨?_, ?_, ?_, fun t ht hp => (h.tasks t ht hp).trans (htasks t), ?_, ?_, ?_⟩
  · rw [heq]
    exact h.tables
  · rw [heq]
    exact h.ledgers
  · rw [heq]
    exact h.root
  · rw [heq]
    exact h.endpoints
  · rw [heq]
    exact h.payloads
  · rw [heq]
    exact h.domain

/-- Dropping the running task and reaping its domain. -/
theorem deathFrame_reaped (p : Platform μ) (k : Kernel μ) {d : Fin maxDomains} (hd0 : d ≠ 0)
    (hd : (k.task k.current).domain = d) : DeathFrame k (k.reaped p) d := by
  rw [reaped_of_lt p k hd]
  refine ⟨fun d' hne _ => Function.update_of_ne hne _ _,
    fun d' hne => Function.update_of_ne hne _ _, fun i e he => ?_, fun t ht _ => ?_,
    fun i _ hpeer => if_neg fun h => hpeer h.2, ⟨rfl, rfl, rfl⟩, Or.inl (Function.update_self ..)⟩
  · show (k.space.setTable d .new).slot 0 i = some e
    rw [Space.slot_setTable, if_neg hd0.symm]
    exact he
  · have htask : k.dropCurrent.task t = k.task t := (k.task_setTask _ t _).trans (if_neg ht)
    show (k.task t).Rolled (k.dropCurrent.task t)
    rw [htask]
    exact .refl _

/-- The grants of a restart, from a table that has just been wiped. -/
theorem DeathFrame.granted {k k₁ k₂ : Kernel μ} (h : DeathFrame k k₁ faultTable)
    (hwiped : k₁.space.tables faultTable = .new)
    (hobj : k₁.space.objects = k.space.objects) (hk₂ : SpaceOnly k₁ k₂)
    (hgrant : Regranted k₁.space k₂.space) : DeathFrame k k₂ faultTable := by
  obtain ⟨s, rfl⟩ := hk₂
  refine ⟨fun d' hne h0 => (hgrant.tables d' h0 hne).trans (h.tables d' hne h0), h.ledgers,
    fun i e he => hgrant.root i e (h.root i e he), h.tasks, h.endpoints, h.payloads, ?_⟩
  rcases hgrant.fault with hsame | ⟨i, o, hfresh, hnew, htable⟩
  · exact Or.inl (hsame.trans hwiped)
  · rw [hobj] at hfresh
    rw [hwiped] at htable
    exact Or.inr ⟨rfl, i, o, hfresh, hnew, htable⟩

/-- The re-admission of a restart, into a slot nobody else is in. -/
theorem DeathFrame.admitInto {k k₁ : Kernel μ} {d : Fin maxDomains} (h : DeathFrame k k₁ d)
    {i : Fin maxTasks} (hfree : k₁.sched.freeSlot = some i) (a : Task) (frame : TaskFrame) :
    DeathFrame k (k₁.admitInto i a frame) d := by
  refine ⟨h.tables, h.ledgers, h.root, fun t ht hp => ?_, h.endpoints, h.payloads, h.domain⟩
  have hroll := h.tasks t ht hp
  have hti : t ≠ i := by
    rintro rfl
    have habs : (k₁.task t).present = false := (Scheduler.freeSlot_eq_some hfree).2
    rw [hroll.present, hp] at habs
    cases habs
  rw [task_admitInto, if_neg hti]
  exact hroll

/-- **One termination**, with the supervisor's hook and the switch behind it. -/
theorem deathFrame_terminateCurrent (p : Platform μ) (k : Kernel μ) {d : Fin maxDomains}
    (hd0 : d ≠ 0) (hd : (k.task k.current).domain = d) :
    DeathFrame k (k.terminateCurrent p).2 d := by
  rw [terminateCurrent_eq]
  refine DeathFrame.dispatch ?_ (dispatch_restore p _)
  have hreaped := deathFrame_reaped p k hd0 hd
  rw [afterDeath]
  split
  · exact hreaped
  · rename_i hdom
    have hdf : d = faultTable := by
      apply Fin.ext
      rw [← hd]
      exact not_not.mp (not_or.mp hdom).1
    subst hdf
    have hwiped : (k.reaped p).space.tables faultTable = .new := by
      rw [reaped_of_lt p k hd]
      exact (tables_setTable _ _ _ _).trans (if_pos rfl)
    have hobj : (k.reaped p).space.objects = k.space.objects := by
      rw [reaped_of_lt p k hd]
      rfl
    have hspend : DeathFrame k (k.reaped p).spend faultTable :=
      ⟨hreaped.tables, hreaped.ledgers, hreaped.root, hreaped.tasks, hreaped.endpoints,
        hreaped.payloads, hreaped.domain⟩
    have hgranted := hspend.granted hwiped hobj (spaceOnly_granted _) (regranted_granted _)
    rcases (k.reaped p).spend.restart_cases p with heq | ⟨fm, ft, i, -, -, -, hfree, heq⟩
    · rw [heq]
      exact hgranted
    · rw [heq]
      exact hgranted.admitInto hfree _ _

/-! ### The restart budget -/

theorem faulter_resume (k : Kernel μ) : k.resume.2.faulter = k.faulter := by
  obtain ⟨_, _, heq⟩ := k.resume_snd
  rw [heq]

theorem faulter_construct (k : Kernel μ) (kind : ObjectKind) (rights : Rights)
    (payload : Fin objectTableSize → Kernel μ → Kernel μ)
    (hpay : ∀ oid k, (payload oid k).faulter = k.faulter) :
    (k.construct kind rights payload).2.faulter = k.faulter := by
  rw [construct]
  split
  · rfl
  · dsimp only
    split
    · exact hpay _ _
    · exact hpay _ _

theorem PayloadOnly.faulter {k k' : Kernel μ} (h : PayloadOnly k k') : k'.faulter = k.faulter := by
  obtain ⟨_, _, _, _, rfl⟩ := h
  rfl

theorem SpaceOnly.faulter {k k' : Kernel μ} (h : SpaceOnly k k') : k'.faulter = k.faulter := by
  obtain ⟨_, rfl⟩ := h
  rfl

theorem faulter_unblock (k : Kernel μ) (t : ℕ) (r : IpcResult) :
    (k.unblock t r).faulter = k.faulter := by
  rw [unblock]
  split <;> rfl

theorem faulter_admitWith (p : Platform μ) (k : Kernel μ) (frame : Fin maxTasks → TaskFrame)
    (cptr domain period rel budget : ℕ) :
    (k.admitWith p frame cptr domain period rel budget).2.faulter = k.faulter := by
  rcases k.admitWith_eq p frame cptr domain period rel budget with h | ⟨i, -, -, -, h⟩
  · rw [h]
  · rw [h]
    rfl

theorem faulter_syscall (p : Platform μ) (k : Kernel μ)
    (nr cptr method arg0 xfer rsp : BitVec 64) :
    (k.syscall p nr cptr method arg0 xfer rsp).2.faulter = k.faulter := by
  refine k.syscall_induction (motive := fun k' => k'.faulter = k.faulter) p nr cptr method arg0 xfer
    rsp (fun k' hk => hk.faulter) (fun c s t res r => ?_) fun c => ?_
  · exact faulter_unblock _ t res
  · rw [blockCurrent]
    exact faulter_resume _

/-- The operation registers a restartable domain. -/
def registers : Op μ → Bool
  | .registerFaulter .. => true
  | _ => false

/-- Besides `register_faulter`, only the supervisor's hook touches the budget. -/
theorem faulter_step (p : Platform μ) (k : Kernel μ) {op : Op μ} (hop : registers op = false)
    (hfault : op ≠ .fault) : (k.step p op).2.faulter = k.faulter := by
  cases op with
  | registerFaulter => cases hop
  | fault => exact absurd rfl hfault
  | initRoot => exact (k.spaceOnly_construct _ _).faulter
  | createNotification => exact (k.spaceOnly_construct _ _).faulter
  | createEndpoint => exact (k.spaceOnly_construct _ _).faulter
  | mintTimeslice => exact (k.spaceOnly_construct _ _).faulter
  | mintExtent info => exact k.faulter_construct _ _ _ fun _ _ => rfl
  | createDeviceQueue magic lba =>
    rw [step, createDeviceQueue]
    split
    · rfl
    · exact k.faulter_construct _ _ _ fun _ _ => rfl
  | delegateFromRoot dst src mask badge => exact (k.spaceOnly_delegateFromRoot ..).faulter
  | capInvokeIn d c method arg => exact (k.payload_capInvokeIn p d c method arg).faulter
  | sealCap | revoke | setCurrentDomain | outside => rfl
  | admitTask entry c period rel budget => exact k.faulter_admitWith p ..
  | admitUser entry stackTop mem c d period rel budget => exact k.faulter_admitWith p ..
  | syscall nr c method arg0 xfer rsp => exact k.faulter_syscall p nr c method arg0 xfer rsp
  | tick rsp =>
    rw [step, scheduleTick]
    dsimp only
    split
    · rfl
    · exact faulter_resume _

/-- The supervisor re-admits a domain in this step. -/
def readmits (p : Platform μ) (k : Kernel μ) : Op μ → Bool
  | .fault => (k.afterDeath p).1.isSome
  | _ => false

/-- A re-admission is one of the supervised domain, and takes one restart from the budget. -/
theorem restarts_fault (p : Platform μ) (k : Kernel μ) :
    ((k.terminateCurrent p).2.faulter.restarts + if (k.afterDeath p).1.isSome then 1 else 0)
      ≤ k.faulter.restarts := by
  have hreaped := k.faulter_reaped p
  have hend : (k.terminateCurrent p).2.faulter = (k.afterDeath p).2.faulter := by
    rw [terminateCurrent_eq]
    exact faulter_resume _
  rw [hend, afterDeath]
  split
  · rw [hreaped]
    simp
  · rename_i hdom
    have hpos : k.faulter.restarts ≠ 0 := (not_or.mp hdom).2
    have hspend : (k.reaped p).spend.granted.faulter.restarts = k.faulter.restarts - 1 := by
      rw [(spaceOnly_granted _).faulter, spend, hreaped]
    rcases (k.reaped p).spend.restart_cases p with heq | ⟨fm, ft, i, -, -, -, -, heq⟩
    · rw [heq, hspend]
      simp
    · rw [heq]
      show (k.reaped p).spend.granted.faulter.restarts + 1 ≤ _
      omega

/-- The supervisor re-admits the supervised domain only, after a death in it. -/
theorem domain_of_readmission {p : Platform μ} {k : Kernel μ} {i : Fin maxTasks}
    (h : (k.afterDeath p).1 = some i) : (k.task k.current).domain = faultDomain ∧
      ((k.terminateCurrent p).2.task i).domain = faultDomain := by
  have hroll := (dispatch_restore p (k.afterDeath p).2).tasks i
  rw [← terminateCurrent_eq] at hroll
  rw [hroll.domain]
  rw [afterDeath] at h ⊢
  split at h
  · cases h
  · rename_i hdom
    refine ⟨not_not.mp (not_or.mp hdom).1, ?_⟩
    rw [if_neg hdom]
    rcases (k.reaped p).spend.restart_cases p with heq | ⟨fm, ft, j, -, -, -, -, heq⟩
    · rw [heq] at h
      cases h
    · rw [heq] at h ⊢
      cases h
      rw [task_admitInto, if_pos rfl]
      rfl

/-- **Every re-admission is paid for.** -/
theorem restarts_step (p : Platform μ) (k : Kernel μ) {op : Op μ} (hop : registers op = false) :
    ((k.step p op).2.faulter.restarts + if k.readmits p op then 1 else 0) ≤ k.faulter.restarts := by
  by_cases hfault : op = .fault
  · subst hfault
    exact k.restarts_fault p
  · have hnot : k.readmits p op = false := by
      cases op with
      | fault => exact absurd rfl hfault
      | _ => rfl
    rw [k.faulter_step p hop hfault, hnot]
    simp

end Kernel

/-- The number of re-admissions in a run. -/
def readmissions {μ : Type} (p : Platform μ) (m₀ : μ) (h : List (Op μ)) : ℕ :=
  Runs.count (fun k op => (k.step p op).2) (Kernel.init p m₀) (Kernel.readmits p) h

/-- **Termination is isolated, restarts are clean and bounded.** In every state that can be
reached, a termination in a domain other than the root leaves alone what belongs to others, and
leaves the domain empty or with the one capability of a restart. Since `register_faulter` was last
called there have been at most as many re-admissions as it allowed, none if it was never called,
and every re-admission is of the supervised domain, after a death in it. -/
theorem termination_isolated {μ : Type} (p : Platform μ) (m₀ : μ) (h : List (Op μ)) :
    (∀ d : Fin maxDomains, d ≠ 0 →
      ((kernelAfter p m₀ h).task (kernelAfter p m₀ h).current).domain = d →
        (kernelAfter p m₀ h).DeathFrame ((kernelAfter p m₀ h).terminateCurrent p).2 d) ∧
    (∀ f entry stackTop budget g, h = f ++ .registerFaulter entry stackTop budget :: g →
      (∀ op ∈ f, Kernel.registers op = false) →
        readmissions p m₀ h
          ≤ readmissions p m₀ (.registerFaulter entry stackTop budget :: g) + budget) ∧
    ((∀ op ∈ h, Kernel.registers op = false) → readmissions p m₀ h = 0) ∧
    ∀ i, ((kernelAfter p m₀ h).afterDeath p).1 = some i →
      ((kernelAfter p m₀ h).task (kernelAfter p m₀ h).current).domain = Kernel.faultDomain ∧
      (((kernelAfter p m₀ h).terminateCurrent p).2.task i).domain = Kernel.faultDomain := by
  refine ⟨fun d hd0 hd => Kernel.deathFrame_terminateCurrent p _ hd0 hd, ?_, fun hf => ?_,
    fun i hi => ?_⟩
  · rintro f entry stackTop budget g rfl hf
    have hcount := Runs.count_add_le (fun k op => (Kernel.step p k op).2) (Kernel.init p m₀)
      (Kernel.readmits p) (fun k => k.faulter.restarts)
      (fun k _ hop => Kernel.restarts_step p k hop)
      (.registerFaulter entry stackTop budget :: g) hf
    exact (Nat.le_add_right _ _).trans hcount
  · have hcount := Runs.count_add_le (fun k op => (Kernel.step p k op).2) (Kernel.init p m₀)
      (Kernel.readmits p) (fun k => k.faulter.restarts)
      (fun k _ hop => Kernel.restarts_step p k hop) [] hf
    rw [List.append_nil] at hcount
    exact Nat.eq_zero_of_le_zero ((Nat.le_add_right _ _).trans hcount)
  · exact Kernel.domain_of_readmission hi

end Cairn
