import Cairn.Kernel.Scheduling

/-!
# Saved contexts are resumed once

`Task.rsp` of the running task is stale: it points to a context that has already been resumed. The
scheduler must never load it again before it has been overwritten. A tick saves before it picks,
`block_current` saves after it has picked, a termination does not save at all, and a restart may
put a new context into the slot of the task that has just died.

The log of a run collects what its steps store, resume and lose. The invariant says that the saved
context of every present task but the running one is the one pending for it in the log, so what a
switch loads is what was stored last, whole, and unused.

## Main definitions

* `contextLog` — what a run does to the saved contexts, latest first
* `Kernel.Resumable` — the invariant of a state and the log that led to it

## Main results

* `resumable_after` — the invariant holds after every run
* `contexts_resumed_once` — every context the scheduler switches to is resumed as it was saved, and
  only once
-/

namespace Cairn

open Contexts

/-- What a run does to the saved contexts, latest first. -/
def contextLog {μ : Type} (p : Platform μ) (m₀ : μ) :
    List (SchedOp μ) → List (Event (Fin maxTasks) (BitVec 64))
  | [] => []
  | op :: h => (schedAfter p m₀ h).events p op ++ contextLog p m₀ h

namespace Kernel

variable {μ : Type}

/-- In front of the tail of a switch: whoever is picked has a context pending. -/
structure Ready (k : Kernel μ) (log : List (Event (Fin maxTasks) (BitVec 64))) : Prop where
  exact : Exact log
  pending : ∀ t, (k.task t).present = true → pending log t = some (k.task t).rsp

/-- Every present task but the running one has a context pending, in its `rsp` field. -/
structure Resumable (k : Kernel μ) (log : List (Event (Fin maxTasks) (BitVec 64))) : Prop where
  exact : Exact log
  pending : ∀ t, (k.task t).present = true → t ≠ k.current → pending log t = some (k.task t).rsp

theorem Resumable.of_tasks {k k' : Kernel μ} {log : List (Event (Fin maxTasks) (BitVec 64))}
    (h : Resumable k log) (hpres : ∀ t, (k'.task t).present = (k.task t).present)
    (hrsp : ∀ t, (k'.task t).rsp = (k.task t).rsp) (hcur : k'.current = k.current) :
    Resumable k' log := by
  refine ⟨h.exact, fun t ht hne => ?_⟩
  rw [hpres] at ht
  rw [hcur] at hne
  rw [hrsp]
  exact h.pending t ht hne

theorem Resumable.of_same {k k' : Kernel μ} {log : List (Event (Fin maxTasks) (BitVec 64))}
    (h : Resumable k log) (hs : SameTasks k k') : Resumable k' log :=
  h.of_tasks (fun t => by rw [hs.task]) (fun t => by rw [hs.task]) hs.current

theorem Ready.of_same {k k' : Kernel μ} {log : List (Event (Fin maxTasks) (BitVec 64))}
    (h : Ready k log) (hs : SameTasks k k') : Ready k' log := by
  refine ⟨h.exact, fun t ht => ?_⟩
  rw [hs.task] at ht ⊢
  exact h.pending t ht

/-- A context stored with a task is pending, and the others stay so. -/
theorem pending_store {k k' : Kernel μ} {log : List (Event (Fin maxTasks) (BitVec 64))}
    {i : Fin maxTasks} {a : Task} (htask : ∀ t, k'.task t = if t = i then a else k.task t)
    {t : Fin maxTasks} (ht : (k'.task t).present = true)
    (hold : t ≠ i → (k.task t).present = true → pending log t = some (k.task t).rsp) :
    pending (.store i a.rsp :: log) t = some (k'.task t).rsp := by
  rw [htask] at ht ⊢
  by_cases hti : t = i
  · rw [if_pos hti]
    exact pending_cons_self log hti.symm
  · rw [if_neg hti] at ht ⊢
    rw [pending_cons_of_ne log (Ne.symm hti)]
    exact hold hti ht

/-- Storing a context for the running task makes everybody ready. -/
theorem Resumable.save {k : Kernel μ} {log : List (Event (Fin maxTasks) (BitVec 64))}
    (h : Resumable k log) (a : Task) :
    Ready (k.setTask k.current a) (.store k.current a.rsp :: log) :=
  ⟨h.exact, fun t ht => pending_store (fun t => k.task_setTask _ t _) ht
    fun hne hpres => h.pending t hpres hne⟩

/-- So does its death: it is no longer present. -/
theorem Resumable.drop {k : Kernel μ} {log : List (Event (Fin maxTasks) (BitVec 64))}
    (h : Resumable k log) : Ready k.dropCurrent (.drop k.current :: log) := by
  have htask : ∀ t, k.dropCurrent.task t = if t = k.current then { k.task k.current with
      present := false, runnable := false, blocked := false } else k.task t :=
    fun t => k.task_setTask _ t _
  refine ⟨h.exact, fun t ht => ?_⟩
  rw [htask] at ht ⊢
  by_cases htc : t = k.current
  · rw [if_pos htc] at ht
    cases ht
  · rw [if_neg htc] at ht ⊢
    rw [pending_cons_of_ne log (Ne.symm htc)]
    exact h.pending t ht htc

theorem Ready.admitInto {k : Kernel μ} {log : List (Event (Fin maxTasks) (BitVec 64))}
    (h : Ready k log) (i : Fin maxTasks) (a : Task) (frame : TaskFrame) :
    Ready (k.admitInto i a frame) (.store i a.rsp :: log) :=
  ⟨h.exact, fun t ht => pending_store (fun t => k.task_admitInto _ t _ _) ht
    fun _ hpres => h.pending t hpres⟩

theorem Resumable.admitInto {k : Kernel μ} {log : List (Event (Fin maxTasks) (BitVec 64))}
    (h : Resumable k log) (i : Fin maxTasks) (a : Task) (frame : TaskFrame) :
    Resumable (k.admitInto i a frame) (.store i a.rsp :: log) :=
  ⟨h.exact, fun t ht hne => pending_store (fun t => k.task_admitInto _ t _ _) ht
    fun _ hpres => h.pending t hpres hne⟩

/-- The tail of a switch resumes the pending context of the task it picks. -/
theorem Ready.dispatch {k : Kernel μ} {log : List (Event (Fin maxTasks) (BitVec 64))}
    {r : Trace × Kernel μ} (h : Ready k log) (hidle : (k.task 0).present = true)
    (hd : Dispatch k r) :
    Resumable r.2 (.resume r.2.current (k.task r.2.current).rsp :: log) := by
  have hpres : (k.task r.2.current).present = true := by
    rcases hd.eligible with h0 | ⟨hp, -⟩
    · exact h0 ▸ hidle
    · exact hp
  refine ⟨⟨h.pending _ hpres, h.exact⟩, fun t ht hne => ?_⟩
  rw [(hd.tasks t).present] at ht
  rw [(hd.tasks t).rsp, pending_cons_of_ne log (Ne.symm hne)]
  exact h.pending t ht

theorem resume_notMem_admitted (r : Option (Fin maxTasks) × Kernel μ) (t : Fin maxTasks)
    (v : BitVec 64) : .resume t v ∉ admitted r := by
  rw [admitted]
  split <;> simp

/-- Only the switch itself resumes: the task it makes current, with the pointer it loads. -/
theorem of_resume_mem {p : Platform μ} {k : Kernel μ} {op : SchedOp μ} {t : Fin maxTasks}
    {v : BitVec 64} (h : .resume t v ∈ k.events p op) :
    t = (k.schedStep p op).2.current ∧ (k.schedStep p op).1.restored = some v := by
  have hstore : .resume t v ∉ k.storeEvents p op := by
    rw [storeEvents.eq_def]
    split
    · exact resume_notMem_admitted _ t v
    · exact resume_notMem_admitted _ t v
    · split <;> simp
    · split <;> simp
    · simp [resume_notMem_admitted]
    · simp
    · simp
  rcases List.mem_append.mp h with hmem | hmem
  · rw [resumeEvents] at hmem
    split at hmem
    · obtain ⟨w, hw, heq⟩ : ∃ w, (k.schedStep p op).1.restored = some w ∧
          Contexts.Event.resume (k.schedStep p op).2.current w = .resume t v := by
        simpa using hmem
      cases heq
      exact ⟨rfl, hw⟩
    · cases hmem
  · exact absurd hmem hstore

/-- A move keeps the invariant, with its events in front of the log. -/
theorem Resumable.move {p : Platform μ} {k : Kernel μ}
    {log new : List (Event (Fin maxTasks) (BitVec 64))} {r : Trace × Kernel μ}
    (h : Resumable k log) (hs : Scheduled p k) (hm : Move p k new r) :
    Resumable r.2 (new ++ log) := by
  cases hm with
  | still same _ => exact h.of_same same
  | continues _ same _ => exact h.of_same same
  | wakes t res same _ =>
    refine Resumable.of_same ?_ same
    rw [unblock]
    split
    · refine h.of_tasks (fun u => ?_) (fun u => ?_) rfl
      · rw [task_setTask]
        split
        · rename_i hu
          rw [hu]
        · rfl
      · rw [task_setTask]
        split
        · rename_i hu
          rw [hu]
        · rfl
    · exact h
  | admits i a frame free new same _ => exact (h.admitInto i a frame).of_same same
  | preempts rsp same tail =>
    refine ((h.save _).of_same same).dispatch ?_ tail
    exact ((hs.rewrite_current (a := { k.task k.current with rsp := rsp }) hs.current_present rfl
      fun _ => hs.current_free).of_same same).idle_present
  | parks reason epOid rsp ring3 same tail =>
    refine ((h.save _).of_same same).dispatch ?_ tail
    rw [same.task, parkSaved, task_setTask, if_neg (hs.current_ne_zero ring3).symm]
    exact hs.idle_present
  | dies ring3 same tail =>
    refine (h.drop.of_same same).dispatch ?_ tail
    exact ((hs.dropCurrent (hs.current_ne_zero ring3)).of_same same).idle_present
  | restarts i a frame ring3 free new same tail =>
    refine ((h.drop.admitInto i a frame).of_same same).dispatch ?_ tail
    exact (((hs.dropCurrent (hs.current_ne_zero ring3)).admitInto free new frame).of_same
      same).idle_present

end Kernel

/-- The invariant holds after every run. -/
theorem resumable_after {μ : Type} (p : Platform μ) (m₀ : μ) {h : List (SchedOp μ)}
    (hrun : Runs.Every (fun k op => (k.schedStep p op).2) (Kernel.init p m₀) Kernel.Fair h) :
    (schedAfter p m₀ h).Resumable (contextLog p m₀ h) := by
  induction h with
  | nil =>
    refine ⟨trivial, fun t ht hne => ?_⟩
    rw [schedAfter, Runs.after, Kernel.task_init p m₀ hne] at ht
    cases ht
  | cons op h ih =>
    have hs := scheduled_after p m₀ hrun.2
    exact (ih hrun.2).move hs ((schedAfter p m₀ h).move_schedStep p hs.idle_ring0 op hrun.1)

/-- Every resumption in the log is of the context stored last for its task, and nothing has
happened to the task since: the context has not been resumed, no other has been stored, and the
task has not been terminated. -/
def UsedOnce (log : List (Event (Fin maxTasks) (BitVec 64))) : Prop :=
  ∀ newer t v before, log = newer ++ .resume t v :: before →
    ∃ between older, before = between ++ .store t v :: older ∧ ∀ e ∈ between, e.party ≠ t

/-- **Saved contexts are resumed exactly as saved, and at most once.** In every run of ticks,
blocks, wakes, terminations, restarts and everything else, in which only ring-3 tasks block or
fault, every context the scheduler switches to was stored during the run, is the last one stored
for its task, and has neither been resumed nor lost its task since. The task it switches to is
present and not parked, and the pointer it loads is that context. -/
theorem contexts_resumed_once {μ : Type} (p : Platform μ) (m₀ : μ) {h : List (SchedOp μ)}
    (hrun : Runs.Every (fun k op => (k.schedStep p op).2) (Kernel.init p m₀) Kernel.Fair h) :
    UsedOnce (contextLog p m₀ h) ∧ ∀ op, (schedAfter p m₀ h).Fair op → ∀ t v,
      .resume t v ∈ (schedAfter p m₀ h).events p op →
        t = ((schedAfter p m₀ h).schedStep p op).2.current ∧
        ((schedAfter p m₀ h).schedStep p op).1.restored = some v ∧
        (((schedAfter p m₀ h).schedStep p op).2.task t).present = true ∧
        (((schedAfter p m₀ h).schedStep p op).2.task t).blocked = false := by
  refine ⟨fun newer t v before hlog => (resumable_after p m₀ hrun).exact.resume_split hlog,
    fun op hop t v hmem => ?_⟩
  have hs := scheduled_after p m₀ hrun
  have hs' := hs.move ((schedAfter p m₀ h).move_schedStep p hs.idle_ring0 op hop)
  obtain ⟨rfl, hrest⟩ := Kernel.of_resume_mem hmem
  exact ⟨rfl, hrest, hs'.current_present, hs'.current_free⟩

theorem contexts_resumed_once_blockingRun :
    .resume 1 0x300 ∈ contextLog stackedMachine () blockingRun ∧
      UsedOnce (contextLog stackedMachine () blockingRun) :=
  ⟨by decide +kernel, (contexts_resumed_once stackedMachine () fair_blockingRun).1⟩

end Cairn
