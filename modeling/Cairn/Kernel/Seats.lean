import Cairn.Kernel.Ipc

/-!
# What the switches leave alone

The endpoint protocol reads six fields of a task: whether it is present, its domain, whether it
is parked, why and where, and the result staged for it. They are the *seat* of the task. The
scheduler moves deadlines, activation counts and saved contexts around without touching a seat,
so a switch is described here once by what it does to seats (nothing), to the running task (the
idle task, or one that is present and not parked) and to the rest of the state (nothing).

Every later statement about endpoints and tasks is made about seats.

## Main definitions

* `Seat`, `Kernel.seat`
* `Kernel.SameSeats`, `Kernel.SameBoard` — two states agree on seats, endpoints and first contexts,
  and on the capability tables

## Main results

* `Kernel.switched_scheduleTick`, `Kernel.switched_blockCurrent` — what a switch does
* `Kernel.seat_unblock` — waking
-/

namespace Cairn

/-- What the endpoint protocol reads of a task. -/
structure Seat where
  present : Bool
  domain : ℕ
  blocked : Bool
  blockReason : ℕ
  waitEp : ℕ
  /-- The staged result. -/
  ipc : IpcResult
  deriving DecidableEq, Repr

/-- The seat of a task. -/
def Task.seat (t : Task) : Seat :=
  ⟨t.present, t.domain, t.blocked, t.blockReason, t.waitEp, t.ipcResult⟩

/-- The seat of a task just admitted. -/
def Seat.fresh (domain : ℕ) : Seat := ⟨true, domain, false, 0, 0, ⟨0, 0, 0⟩⟩

/-- The seat of a task that parks. -/
def Seat.park (s : Seat) (reason epOid : ℕ) : Seat :=
  { s with blocked := true, blockReason := reason, waitEp := epOid }

/-- The seat of a parked task once it is woken with a result. -/
def Seat.wake (s : Seat) (r : IpcResult) : Seat := { s with blocked := false, ipc := r }

/-- The seat of a task that died. -/
def Seat.leave (s : Seat) : Seat := { s with present := false, blocked := false }

/-! ### Selection -/

namespace Scheduler

theorem seat_rollLoop (now : ℕ) {fuel : ℕ} {t t' : Task} (h : rollLoop now fuel t = some t') :
    t'.seat = t.seat := by
  induction fuel generalizing t with
  | zero => cases h
  | succ fuel ih =>
    rw [rollLoop] at h
    split at h
    · exact (ih h).trans rfl
    · cases h
      rfl

theorem seat_rollTask (now : ℕ) (t : Task) : (rollTask now t).seat = t.seat := by
  rw [rollTask]
  split
  · rfl
  · cases h : rollLoop now (now + 2 - t.absDeadlineNs) t with
    | none => rfl
    | some t' => exact seat_rollLoop now h

theorem seat_rollDeadlines (s : Scheduler) (now : ℕ) (t : Fin maxTasks) :
    ((s.rollDeadlines now).tasks t).seat = (s.tasks t).seat := by
  simp only [rollDeadlines]
  split
  · rfl
  · exact seat_rollTask now _

/-- The scan keeps its candidate or takes the task it looks at, which is then eligible. -/
theorem pickStep_cases (s : Scheduler) (best : Fin maxTasks × Option ℕ) (i : Fin maxTasks) :
    s.pickStep best i = best ∨ (s.pickStep best i).1 = i ∧ Eligible (s.tasks i) := by
  rw [pickStep]
  split
  · rename_i helig
    split
    · exact Or.inr ⟨rfl, helig⟩
    · split
      · exact Or.inr ⟨rfl, helig⟩
      · exact Or.inl rfl
  · exact Or.inl rfl

/-- `pick_next` chooses the idle task or an eligible one. -/
theorem pickNext_eligible (s : Scheduler) :
    s.pickNext = 0 ∨ Eligible (s.tasks s.pickNext) := by
  have hscan : ∀ (l : List (Fin maxTasks)) (best : Fin maxTasks × Option ℕ),
      (best.1 = 0 ∨ Eligible (s.tasks best.1)) →
      ((l.foldl s.pickStep best).1 = 0 ∨ Eligible (s.tasks (l.foldl s.pickStep best).1)) := by
    intro l
    induction l with
    | nil => exact fun best hbest => hbest
    | cons i l ih =>
      intro best hbest
      refine ih _ ?_
      rcases s.pickStep_cases best i with h | ⟨h, helig⟩
      · rw [h]
        exact hbest
      · rw [h]
        exact Or.inr helig
  exact hscan _ _ (Or.inl rfl)

theorem freeSlot_eq_some {s : Scheduler} {i : Fin maxTasks} (h : s.freeSlot = some i) :
    i ≠ 0 ∧ (s.tasks i).present = false := by
  have := (Fin.find?_eq_some_iff.mp h).1
  simpa using this

end Scheduler

namespace Kernel

variable {μ : Type}

/-- The seat of the task in a slot. -/
def seat (k : Kernel μ) (t : Fin maxTasks) : Seat := (k.task t).seat

theorem task_setTask (k : Kernel μ) (t u : Fin maxTasks) (task : Task) :
    (k.setTask t task).task u = if u = t then task else k.task u := by
  simp only [Kernel.task, setTask, Function.update_apply]

theorem seat_setTask (k : Kernel μ) (t : Fin maxTasks) (task : Task) :
    (k.setTask t task).seat = Function.update k.seat t task.seat := by
  funext u
  rw [seat, task_setTask, Function.update_apply]
  split <;> rfl

/-- Replacing a task by one with the same seat changes no seat. -/
theorem seat_setTask_same (k : Kernel μ) {t : Fin maxTasks} {a : Task}
    (h : a.seat = k.seat t) : (k.setTask t a).seat = k.seat := by
  rw [seat_setTask, h, Function.update_eq_self]

/-! ### Switches -/

/-- Two states agree on what the endpoint protocol reads: seats, endpoints and first contexts. -/
structure SameSeats (k k' : Kernel μ) : Prop where
  seat : k'.seat = k.seat
  endpoints : k'.endpoints = k.endpoints
  frames : k'.frames = k.frames

theorem SameSeats.trans {k₁ k₂ k₃ : Kernel μ} (h₁ : SameSeats k₁ k₂) (h₂ : SameSeats k₂ k₃) :
    SameSeats k₁ k₃ :=
  ⟨h₂.seat.trans h₁.seat, h₂.endpoints.trans h₁.endpoints, h₂.frames.trans h₁.frames⟩

/-- The capability tables are the same too. -/
structure SameBoard (k k' : Kernel μ) : Prop extends SameSeats k k' where
  space : k'.space = k.space

theorem SameBoard.trans {k₁ k₂ k₃ : Kernel μ} (h₁ : SameBoard k₁ k₂) (h₂ : SameBoard k₂ k₃) :
    SameBoard k₁ k₃ := ⟨h₁.toSameSeats.trans h₂.toSameSeats, h₂.space.trans h₁.space⟩

theorem sameBoard_reschedule (p : Platform μ) (k : Kernel μ) : SameBoard k (k.reschedule p) :=
  ⟨⟨funext fun t => k.sched.seat_rollDeadlines _ t, rfl, rfl⟩, rfl⟩

theorem sameBoard_resume (k : Kernel μ) : SameBoard k k.resume.2 := by
  rw [resume]
  split <;> exact ⟨⟨rfl, rfl, rfl⟩, rfl⟩

/-- The running task after a switch, its domain published. -/
structure Running (k : Kernel μ) : Prop where
  eligible : k.current = 0 ∨ (k.seat k.current).present = true ∧ (k.seat k.current).blocked = false
  domain : k.currentDomain = (k.seat k.current).domain

theorem running_reschedule (p : Platform μ) (k : Kernel μ) : Running (k.reschedule p) := by
  refine ⟨?_, rfl⟩
  rcases (k.sched.rollDeadlines (k.nowNs p)).pickNext_eligible with h | ⟨hp, -, hb⟩
  · exact Or.inl h
  · exact Or.inr ⟨hp, hb⟩

theorem current_resume (k : Kernel μ) : k.resume.2.current = k.current := by
  rw [resume]
  split <;> rfl

theorem running_resume {k : Kernel μ} (h : Running k) : Running k.resume.2 := by
  rw [resume]
  split <;> exact ⟨h.eligible, h.domain⟩

/-- Restoring a context ends the syscall it was saved in. -/
theorem parkedIn_resume (k : Kernel μ) :
    k.resume.2.parkedIn = Function.update k.parkedIn k.current false := by
  rw [resume]
  split
  · rfl
  · rename_i h
    rw [Bool.not_eq_true] at h
    rw [← h, Function.update_eq_self]

theorem resume_fst (k : Kernel μ) :
    k.resume.1 =
      if k.parkedIn k.current then some (k.current, (k.seat k.current).ipc) else none := by
  rw [resume]
  split <;> rfl

/-! ### The transitions of the scheduler -/

/-- What a switch does: the board stays, the new running task is published, and a task restored
in the middle of a syscall returns from it with its staged result. -/
structure Switched (k : Kernel μ) (r : Trace × Kernel μ) : Prop where
  board : SameBoard k r.2
  running : Running r.2
  parkedIn : r.2.parkedIn = Function.update k.parkedIn r.2.current false
  woke : r.1.woke = none
  sysret : r.1.sysret = if k.parkedIn r.2.current then
    some (r.2.current, (k.seat r.2.current).ipc) else none

theorem Switched.returned {k : Kernel μ} {r : Trace × Kernel μ} (h : Switched k r)
    {t : Fin maxTasks} {res : IpcResult} (hret : r.1.sysret = some (t, res)) :
    res = (k.seat t).ipc := by
  rw [h.sysret] at hret
  split at hret
  · cases hret
    rfl
  · cases hret

/-- Resuming the task a switch has chosen. -/
theorem Switched.of_resume {k k₁ : Kernel μ} (hboard : SameBoard k k₁) (hrun : Running k₁)
    (hpark : k₁.parkedIn = k.parkedIn) (rsp : Option (BitVec 64)) :
    Switched k ({ restored := rsp, sysret := k₁.resume.1 }, k₁.resume.2) where
  board := hboard.trans k₁.sameBoard_resume
  running := running_resume hrun
  parkedIn := by
    show k₁.resume.2.parkedIn = Function.update k.parkedIn k₁.resume.2.current false
    rw [parkedIn_resume, current_resume, hpark]
  woke := rfl
  sysret := by
    show k₁.resume.1 = if k.parkedIn k₁.resume.2.current then
      some (k₁.resume.2.current, (k.seat k₁.resume.2.current).ipc) else none
    rw [resume_fst, current_resume, hpark, hboard.seat]

theorem switched_restore (p : Platform μ) (k : Kernel μ) :
    Switched k (k.reschedule p).restore :=
  Switched.of_resume (sameBoard_reschedule p k) (running_reschedule p k) rfl _

/-- A tick is a switch, unless there is one task left: then it publishes the running task once
more. -/
theorem scheduleTick_cases (p : Platform μ) (k : Kernel μ) (rsp : BitVec 64) :
    k.scheduleTick p rsp
        = ({ restored := some rsp }, publish { k with ticks := (k.ticks + 1) % 2 ^ 64 }) ∨
      Switched k (k.scheduleTick p rsp) := by
  simp only [scheduleTick]
  split
  · exact Or.inl rfl
  · refine Or.inr (Switched.of_resume ?_ (running_reschedule p _) ?_ _)
    · refine SameBoard.trans ?_ (sameBoard_reschedule p _)
      exact ⟨⟨seat_setTask_same _ rfl, rfl, rfl⟩, rfl⟩
    · rfl

/-- While the running task is outside every syscall, a tick is a switch in any case. -/
theorem switched_scheduleTick (p : Platform μ) (k : Kernel μ) (rsp : BitVec 64)
    (hrun : Running k) (hpark : k.parkedIn k.current = false) :
    Switched k (k.scheduleTick p rsp) := by
  rcases k.scheduleTick_cases p rsp with h | h
  · rw [h]
    refine ⟨⟨⟨rfl, rfl, rfl⟩, rfl⟩, ⟨hrun.eligible, rfl⟩, ?_, rfl, ?_⟩
    · show k.parkedIn = Function.update k.parkedIn k.current false
      rw [← hpark, Function.update_eq_self]
    · show none = if k.parkedIn k.current then _ else none
      rw [hpark, if_neg Bool.false_ne_true]
  · exact h

/-- Whatever state it comes in, a tick leaves the board alone, and what it returns was staged. -/
theorem scheduleTick_keeps (p : Platform μ) (k : Kernel μ) (rsp : BitVec 64) :
    SameBoard k (k.scheduleTick p rsp).2 ∧ ∀ t r,
      (k.scheduleTick p rsp).1.sysret = some (t, r) → r = (k.seat t).ipc := by
  rcases k.scheduleTick_cases p rsp with h | h
  · rw [h]
    exact ⟨⟨⟨rfl, rfl, rfl⟩, rfl⟩, nofun⟩
  · exact ⟨h.board, fun t r => h.returned⟩

theorem seat_parkCurrent (k : Kernel μ) (reason epOid : ℕ) :
    (k.parkCurrent reason epOid).seat
      = Function.update k.seat k.current ((k.seat k.current).park reason epOid) :=
  k.seat_setTask k.current _

theorem blocked_parkCurrent (k : Kernel μ) (reason epOid : ℕ) :
    ((k.parkCurrent reason epOid).seat k.current).blocked = true := by
  rw [seat_parkCurrent, Function.update_self]
  rfl

/-- Blocking is parking the running task in its syscall, and a switch. -/
theorem switched_blockCurrent (p : Platform μ) (k : Kernel μ) (reason epOid : ℕ)
    (rsp : BitVec 64) :
    Switched { k.parkCurrent reason epOid with
        parkedIn := Function.update k.parkedIn k.current true }
      (k.blockCurrent p reason epOid rsp) := by
  have hseat := seat_setTask_same ((k.parkCurrent reason epOid).reschedule p)
    (t := k.current) (a := { Kernel.task _ k.current with rsp := rsp }) rfl
  have hrun := running_reschedule p (k.parkCurrent reason epOid)
  refine Switched.of_resume ?_ ?_ ?_ _
  · exact ⟨⟨hseat.trans (sameBoard_reschedule p _).seat, rfl, rfl⟩, rfl⟩
  · exact ⟨hseat ▸ hrun.eligible, hseat ▸ hrun.domain⟩
  · rfl

/-- Waking stages the result and ends the parking. -/
theorem seat_unblock (k : Kernel μ) (t : Fin maxTasks) (r : IpcResult) :
    (k.unblock t r).seat = Function.update k.seat t ((k.seat t).wake r) := by
  rw [unblock, dif_pos t.isLt]
  exact k.seat_setTask t _

theorem ring3_buildTaskFrame (p : Platform μ) (i : Fin maxTasks) (entry : BitVec 64) (user : Bool)
    (userRsp rdi : BitVec 64) : (buildTaskFrame p i entry user userRsp rdi).ring3 = user := by
  cases user <;> simp [buildTaskFrame, TaskFrame.ring3]

end Kernel

end Cairn
