import Cairn.Kernel.Parking

/-!
# Admission

`admit` and `admit_user` ask `admit_check` whether the root domain holds a live capability with
`INVOKE` at the given CPtr. The comments promise a capability of kind TimeSlice, but the check is
`CapTable::invoke`, which compares the kind of an entry with that of its own object and with
nothing else. Any live capability with `INVOKE` buys time.

The supervisor's own admission, on a restart, is always on a TimeSlice capability: it has minted
it one line before.

## Main definitions

* `Kernel.admission` — the admission an operation makes, if it makes one
* `Kernel.TimeSliceAt` — what the comments promise about the CPtr of an admission
* `Kernel.NamesTimeSlice` — no admission goes through on a capability of another kind

## Main results

* `Kernel.present_step` — who is present was so before, or has just been admitted
* `admitted_on_timeslice_iff` — admissions are on TimeSlice capabilities if and only if no CPtr of
  another kind is offered, and then so is that of every task that ever runs
* `admitted_on_memory` — a Memory capability buys time
-/

namespace Cairn

namespace Kernel

variable {μ : Type}

/-! ### The gate -/

theorem admitCheck_eq_ok_iff {k : Kernel μ} {c : ℕ} :
    k.admitCheck c = .ok ↔ ∃ e, (k.space.tables 0).entryAt c = some e ∧
      e.check k.space.objects = .ok ∧ e.rights.contains .invoke = true := by
  rw [admitCheck]
  cases he : (k.space.tables 0).entryAt c with
  | none => simp [CapTable.invoke_of_entryAt_none he]
  | some e =>
    rw [CapTable.invoke_of_entryAt he]
    by_cases hcheck : e.check k.space.objects = .ok
    · by_cases hright : e.rights.contains .invoke = true
      · simp [hcheck, hright]
      · simp [hcheck, hright]
    · simp [hcheck]

/-- The root table has a live TimeSlice capability with `INVOKE` at this CPtr. -/
def TimeSliceAt (k : Kernel μ) (c : ℕ) : Prop :=
  ∃ e, (k.space.tables 0).entryAt c = some e ∧ e.check k.space.objects = .ok ∧
    e.rights.contains .invoke = true ∧ e.typeTag = .timeSlice

/-- What `mint_timeslice` returns is a TimeSlice capability. -/
theorem typeTag_mintTimeslice {k : Kernel μ} {slot : Fin capTableSlots}
    (h : k.mintTimeslice.1 = some slot) :
    ∃ e, (k.mintTimeslice.2.space.tables 0).entryAt slot = some e ∧ e.typeTag = .timeSlice := by
  rcases k.construct_cases .timeSlice .invoke with ⟨ot, -, heq⟩ | ⟨oid, slot', -, -, heq⟩
  · rw [mintTimeslice, heq] at h
    cases h
  · rw [mintTimeslice, heq] at h ⊢
    cases h
    refine ⟨⟨oid, .invoke, 0, .timeSlice, 0⟩, ?_, rfl⟩
    rw [CapTable.entryAt_val]
    simp [constructed, CapTable.set]

end Kernel

/-! ### Admissions -/

/-- An admission that went through: the slot, the CPtr it was made on, the domain, and the state
in which the gate was asked. -/
structure Admission (μ : Type) where
  task : Fin maxTasks
  cptr : ℕ
  domain : ℕ
  gate : Kernel μ

namespace Kernel

variable {μ : Type}

/-- The admission an operation makes, if it makes one. A fault makes one if the supervisor
restarts the domain. -/
def admission (p : Platform μ) (k : Kernel μ) : Op μ → Option (Admission μ)
  | .admitTask entry c period rel budget =>
    (k.admitTask p entry c period rel budget).1.map (⟨·, c, 0, k⟩)
  | .admitUser entry stackTop mem c d period rel budget =>
    (k.admitUser p entry stackTop mem c d period rel budget).1.map (⟨·, c, d, k⟩)
  | .fault =>
    (k.afterDeath p).1.bind fun i =>
      (k.reaped p).spend.regrant.2.mintTimeslice.1.map fun (ft : Fin capTableSlots) =>
        ⟨i, ft, faultDomain, (k.reaped p).spend.granted⟩
  | _ => none

/-- `k'` has the present tasks of `k`, in their domains, and the task of an admission. -/
structure Enrolled (k k' : Kernel μ) (a : Option (Admission μ)) : Prop where
  admitted : ∀ b, a = some b → (k'.seat b.task).domain = b.domain
  others : ∀ t, (∀ b, a = some b → b.task ≠ t) → (k'.seat t).present = true →
    (k.seat t).present = true ∧ (k'.seat t).domain = (k.seat t).domain

theorem Enrolled.of_seat {k k' : Kernel μ} (h : k'.seat = k.seat) : Enrolled k k' none :=
  ⟨nofun, fun _ _ ht => ⟨h ▸ ht, h ▸ rfl⟩⟩

theorem Enrolled.trans_seat {k k₁ k₂ : Kernel μ} {a : Option (Admission μ)}
    (h : Enrolled k k₁ a) (hseat : k₂.seat = k₁.seat) : Enrolled k k₂ a := by
  refine ⟨fun b hb => ?_, fun t hne ht => ?_⟩
  · rw [hseat]
    exact h.admitted b hb
  · rw [hseat] at ht ⊢
    exact h.others t hne ht

theorem Enrolled.seat_trans {k k₁ k₂ : Kernel μ} {a : Option (Admission μ)}
    (hseat : k₁.seat = k.seat) (h : Enrolled k₁ k₂ a) : Enrolled k k₂ a := by
  refine ⟨h.admitted, fun t hne ht => ?_⟩
  rw [← hseat]
  exact h.others t hne ht

/-- A seat is rewritten, and its task is not moved to another domain. -/
theorem Enrolled.of_update {k k' : Kernel μ} {i : Fin maxTasks} {s : Seat}
    (hseat : k'.seat = Function.update k.seat i s)
    (hs : s.present = true → (k.seat i).present = true ∧ s.domain = (k.seat i).domain) :
    Enrolled k k' none := by
  refine ⟨nofun, fun t _ ht => ?_⟩
  rw [hseat] at ht ⊢
  by_cases hti : t = i
  · subst hti
    rw [Function.update_self] at ht ⊢
    exact hs ht
  · rw [Function.update_of_ne hti] at ht ⊢
    exact ⟨ht, rfl⟩

theorem enrolled_unblock (k : Kernel μ) (u : ℕ) (r : IpcResult) :
    Enrolled k (k.unblock u r) none := by
  by_cases hu : u < maxTasks
  · exact .of_update (k.seat_unblock ⟨u, hu⟩ r) fun h => ⟨h, rfl⟩
  · rw [unblock, dif_neg hu]
    exact .of_seat rfl

theorem enrolled_admitInto (k : Kernel μ) (i : Fin maxTasks) (a : Task) (frame : TaskFrame)
    (c : ℕ) (gate : Kernel μ) :
    Enrolled k (k.admitInto i a frame) (some ⟨i, c, a.domain, gate⟩) := by
  have hseat : (k.admitInto i a frame).seat = Function.update k.seat i a.seat := k.seat_setTask i a
  refine ⟨fun b hb => ?_, fun t hne ht => ?_⟩
  · cases hb
    rw [hseat, Function.update_self]
    rfl
  · have hti : t ≠ i := (hne _ rfl).symm
    rw [hseat, Function.update_of_ne hti] at ht ⊢
    exact ⟨ht, rfl⟩

theorem enrolled_admitWith (p : Platform μ) (k : Kernel μ) (frame : Fin maxTasks → TaskFrame)
    (cptr domain period rel budget : ℕ) :
    Enrolled k (k.admitWith p frame cptr domain period rel budget).2
      ((k.admitWith p frame cptr domain period rel budget).1.map (⟨·, cptr, domain, k⟩)) := by
  rcases k.admitWith_eq p frame cptr domain period rel budget with h | ⟨i, -, -, -, h⟩
  · rw [h]
    exact .of_seat rfl
  · rw [h]
    exact k.enrolled_admitInto i _ _ _ _

theorem enrolled_syscall (p : Platform μ) (k : Kernel μ)
    (nr cptr method arg0 xfer rsp : BitVec 64) :
    Enrolled k (k.syscall p nr cptr method arg0 xfer rsp).2 none := by
  refine k.syscall_induction (motive := fun k' => Enrolled k k' none) p nr cptr method arg0 xfer rsp
    (fun k' hk => .of_seat hk.aside.seat) (fun c s t res r => ?_) fun c => ?_
  · refine Enrolled.trans_seat (Enrolled.seat_trans ?_ (enrolled_unblock _ t res)) rfl
    rfl
  · refine Enrolled.trans_seat ?_ (switched_blockCurrent p _ _ _ _).board.seat
    exact .of_update (seat_parkCurrent (k.entered.setEndpoint c.ep _) _ _) fun h => ⟨h, rfl⟩

/-- A termination drops the running task, and what is present then was so before or has been
re-admitted. -/
theorem enrolled_fault (p : Platform μ) (k : Kernel μ) :
    Enrolled k.dropCurrent (k.terminateCurrent p).2 (k.admission p .fault) := by
  rw [terminateCurrent_eq]
  refine Enrolled.trans_seat ?_ (switched_restore p _).board.seat
  have hreaped : (k.reaped p).seat = k.dropCurrent.seat := by
    obtain ⟨_, _, _, _, heq⟩ := k.reaped_eq p
    rw [heq]
    rfl
  have hgranted : (k.reaped p).spend.granted.seat = (k.reaped p).seat :=
    ((aside_spend _).trans (spaceOnly_granted _).aside).seat
  rw [admission]
  by_cases hdom : (k.task k.current).domain ≠ faultDomain ∨ k.faulter.restarts = 0
  · rw [afterDeath, if_pos hdom]
    exact .of_seat hreaped
  · rw [afterDeath, if_neg hdom]
    rcases (k.reaped p).spend.restart_cases p with h | ⟨fm, ft, i, -, hft, -, -, h⟩
    · rw [h]
      exact .of_seat (hgranted.trans hreaped)
    · rw [h, hft]
      exact .seat_trans (hgranted.trans hreaped) (enrolled_admitInto _ i _ _ _ _)

/-- **Who is present** after a step was present before, in the same domain and not dropped, or has
just been admitted. -/
theorem present_step (p : Platform μ) (k : Kernel μ) (op : Op μ) :
    Enrolled k (k.step p op).2 (k.admission p op) := by
  cases op with
  | setCurrentDomain d => exact .of_seat rfl
  | admitTask entry c period rel budget => exact k.enrolled_admitWith p _ c 0 period rel budget
  | admitUser entry stackTop mem c d period rel budget =>
    exact k.enrolled_admitWith p _ c d period rel budget
  | syscall nr c method arg0 xfer rsp => exact k.enrolled_syscall p nr c method arg0 xfer rsp
  | tick rsp => exact .of_seat (k.scheduleTick_keeps p rsp).1.seat
  | fault =>
    have hfault := k.enrolled_fault p
    have hdrop : Enrolled k k.dropCurrent none := .of_update (k.seat_setTask k.current _) nofun
    refine ⟨hfault.admitted, fun t hne ht => ?_⟩
    obtain ⟨hpres, hdom⟩ := hfault.others t hne ht
    obtain ⟨hpres', hdom'⟩ := hdrop.others t nofun hpres
    exact ⟨hpres', hdom.trans hdom'⟩
  | _ => exact .of_seat (k.aside_step p rfl).1.seat

/-- The idle task runs, or one that is present. -/
def RunsPresent (k : Kernel μ) : Prop := k.current = 0 ∨ (k.seat k.current).present = true

theorem Running.present {k : Kernel μ} (h : Running k) : k.RunsPresent :=
  h.eligible.imp_right And.left

theorem RunsPresent.of_seat {k k' : Kernel μ} (h : k.RunsPresent) (hcur : k'.current = k.current)
    (hseat : ∀ t, (k.seat t).present = true → (k'.seat t).present = true) : k'.RunsPresent := by
  rw [RunsPresent, hcur]
  exact h.imp_right (hseat _)

theorem RunsPresent.update {k k' : Kernel μ} (h : k.RunsPresent) (hcur : k'.current = k.current)
    {i : Fin maxTasks} {s : Seat} (hseat : k'.seat = Function.update k.seat i s)
    (hs : (k.seat i).present = true → s.present = true) : k'.RunsPresent := by
  refine h.of_seat hcur fun t ht => ?_
  rw [hseat]
  by_cases hti : t = i
  · subst hti
    rw [Function.update_self]
    exact hs ht
  · rw [Function.update_of_ne hti]
    exact ht

theorem RunsPresent.of_aside {k k' : Kernel μ} (h : k.RunsPresent) (ha : Aside k k') :
    k'.RunsPresent := h.of_seat ha.current fun t => by rw [ha.seat]; exact id

theorem RunsPresent.unblock {k : Kernel μ} (h : k.RunsPresent) (u : ℕ) (r : IpcResult) :
    (k.unblock u r).RunsPresent := by
  by_cases hu : u < maxTasks
  · exact h.update (k.current_unblock u r) (k.seat_unblock ⟨u, hu⟩ r) id
  · rw [Kernel.unblock, dif_neg hu]
    exact h

theorem RunsPresent.admitWith {k : Kernel μ} (h : k.RunsPresent) (p : Platform μ)
    (frame : Fin maxTasks → TaskFrame) (cptr domain period rel budget : ℕ) :
    (k.admitWith p frame cptr domain period rel budget).2.RunsPresent := by
  rcases k.admitWith_cases p frame cptr domain period rel budget with heq |
    ⟨i, k', heq, -, -, -, hseat, -, -, -, -, hcur, -⟩
  · rw [heq]
    exact h
  · rw [heq]
    exact h.update hcur hseat fun _ => rfl

theorem RunsPresent.syscall {k : Kernel μ} (h : k.RunsPresent) (p : Platform μ)
    (nr cptr method arg0 xfer rsp : BitVec 64) :
    (k.syscall p nr cptr method arg0 xfer rsp).2.RunsPresent := by
  refine k.syscall_induction (motive := Kernel.RunsPresent) p nr cptr method arg0 xfer rsp
    (fun k' hk => h.of_aside hk.aside) (fun c s t res r => ?_) fun c => ?_
  · refine RunsPresent.unblock ?_ t res
    exact h
  · exact (switched_blockCurrent p _ _ _ _).running.present

theorem RunsPresent.step {k : Kernel μ} (h : k.RunsPresent) (p : Platform μ) (op : Op μ) :
    (k.step p op).2.RunsPresent := by
  cases op with
  | setCurrentDomain d => exact h
  | admitTask entry c period rel budget => exact h.admitWith p _ c 0 period rel budget
  | admitUser entry stackTop mem c d period rel budget =>
    exact h.admitWith p _ c d period rel budget
  | syscall nr c method arg0 xfer rsp => exact h.syscall p nr c method arg0 xfer rsp
  | tick rsp =>
    rw [Kernel.step]
    rcases k.scheduleTick_cases p rsp with heq | hsw
    · rw [heq]
      exact h
    · exact hsw.running.present
  | fault => exact (switched_restore p _).running.present
  | _ => exact h.of_aside (k.aside_step p rfl).1

/-! ### Time slices -/

/-- The admission, if it goes through, is on a CPtr whose capability is of kind TimeSlice. -/
def NamesTimeSlice (k : Kernel μ) : Op μ → Prop
  | .admitTask _ c period _ _ | .admitUser _ _ _ c _ period _ _ =>
    period ≠ 0 → k.sched.freeSlot ≠ none → ∀ e, (k.space.tables 0).entryAt c = some e →
      e.check k.space.objects = .ok → e.rights.contains .invoke = true → e.typeTag = .timeSlice
  | _ => True

theorem admitWith_fst_eq_some_iff (p : Platform μ) (k : Kernel μ)
    (frame : Fin maxTasks → TaskFrame) (cptr domain period rel budget : ℕ) (i : Fin maxTasks) :
    (k.admitWith p frame cptr domain period rel budget).1 = some i ↔
      period ≠ 0 ∧ k.admitCheck cptr = .ok ∧ k.sched.freeSlot = some i := by
  rw [admitWith]
  split
  · rename_i hperiod
    simp [hperiod]
  rename_i hperiod
  split
  · rename_i hcheck
    simp [hcheck]
  rename_i hcheck
  cases k.sched.freeSlot with
  | none => simp
  | some j => simp [hperiod, not_not.mp hcheck]

/-- An admission through the gate is on a TimeSlice capability exactly if no other is offered. -/
theorem timeSliceAt_admitWith_iff (p : Platform μ) (k : Kernel μ)
    (frame : Fin maxTasks → TaskFrame) (cptr domain period rel budget : ℕ) :
    (∀ i, (k.admitWith p frame cptr domain period rel budget).1 = some i → k.TimeSliceAt cptr) ↔
      (period ≠ 0 → k.sched.freeSlot ≠ none → ∀ e, (k.space.tables 0).entryAt cptr = some e →
        e.check k.space.objects = .ok → e.rights.contains .invoke = true →
          e.typeTag = .timeSlice) := by
  constructor
  · intro h hperiod hfree e he hcheck hright
    obtain ⟨i, hi⟩ := Option.ne_none_iff_exists'.mp hfree
    obtain ⟨e', he', -, -, hkind⟩ := h i ((admitWith_fst_eq_some_iff ..).mpr
      ⟨hperiod, admitCheck_eq_ok_iff.mpr ⟨e, he, hcheck, hright⟩, hi⟩)
    cases he.symm.trans he'
    exact hkind
  · intro h i hi
    obtain ⟨hperiod, hgate, hfree⟩ := (admitWith_fst_eq_some_iff ..).mp hi
    obtain ⟨e, he, hcheck, hright⟩ := admitCheck_eq_ok_iff.mp hgate
    exact ⟨e, he, hcheck, hright,
      h hperiod (by rw [hfree]; exact nofun) e he hcheck hright⟩

/-- The supervisor admits on the TimeSlice capability it has just minted. -/
theorem timeSliceAt_restart {p : Platform μ} {k : Kernel μ} {a : Admission μ}
    (h : k.admission p .fault = some a) : a.gate.TimeSliceAt a.cptr := by
  obtain ⟨i, hi, hmap⟩ := Option.bind_eq_some_iff.mp h
  obtain ⟨ft, hft, rfl⟩ := Option.map_eq_some_iff.mp hmap
  obtain ⟨e, he, hkind⟩ := typeTag_mintTimeslice hft
  have hgate : (k.reaped p).spend.granted.admitCheck ft = .ok := by
    rw [afterDeath] at hi
    split at hi
    · cases hi
    · rcases (k.reaped p).spend.restart_cases p with heq | ⟨fm, ft', i', -, hft', hgate, -, -⟩
      · rw [heq] at hi
        cases hi
      · cases hft.symm.trans hft'
        exact hgate
  obtain ⟨e', he', hcheck, hright⟩ := admitCheck_eq_ok_iff.mp hgate
  cases (show ((k.reaped p).spend.granted.space.tables 0).entryAt ft = some e from he).symm.trans
    he'
  exact ⟨e, he', hcheck, hright, hkind⟩

theorem timeSliceAt_admission_iff (p : Platform μ) (k : Kernel μ) (op : Op μ) :
    (∀ a, k.admission p op = some a → a.gate.TimeSliceAt a.cptr) ↔ k.NamesTimeSlice op := by
  cases op with
  | admitTask entry c period rel budget =>
    simp only [admission, Option.map_eq_some_iff, forall_exists_index, and_imp,
      forall_apply_eq_imp_iff₂]
    exact k.timeSliceAt_admitWith_iff p _ c 0 period rel budget
  | admitUser entry stackTop mem c d period rel budget =>
    simp only [admission, Option.map_eq_some_iff, forall_exists_index, and_imp,
      forall_apply_eq_imp_iff₂]
    exact k.timeSliceAt_admitWith_iff p _ c d period rel budget
  | fault => exact ⟨fun _ => trivial, fun _ _ => timeSliceAt_restart⟩
  | _ => exact ⟨fun _ => trivial, fun _ => nofun⟩

end Kernel

/-- The task in slot `t` after a run entered by this admission, made by the operation `op` after
the run `f`. Nobody has been admitted into the slot since, and the task has stayed. -/
structure EnteredBy {μ : Type} (p : Platform μ) (m₀ : μ) (h : List (Op μ)) (t : Fin maxTasks)
    (f : List (Op μ)) (op : Op μ) (a : Admission μ) : Prop where
  suffix : op :: f <:+ h
  admission : (kernelAfter p m₀ f).admission p op = some a
  task : a.task = t
  last : ∀ g op', op' :: g <:+ h → op :: f <:+ g →
    ∀ b, (kernelAfter p m₀ g).admission p op' = some b → b.task ≠ t
  since : ∀ g, op :: f <:+ g → g <:+ h → ((kernelAfter p m₀ g).seat t).present = true ∧
    ((kernelAfter p m₀ g).seat t).domain = a.domain

/-- Every present task but the idle one has entered by an admission. -/
theorem exists_enteredBy {μ : Type} (p : Platform μ) (m₀ : μ) {h : List (Op μ)}
    {t : Fin maxTasks} (ht : t ≠ 0) (hpres : ((kernelAfter p m₀ h).seat t).present = true) :
    ∃ f op a, EnteredBy p m₀ h t f op a := by
  -- the last admission into the slot, counted back from the domain the task is in now
  obtain ⟨f, op, hf, ⟨a, ha, hat⟩, hlast, hsince⟩ := Runs.exists_latest
    (fun k op => (Kernel.step p k op).2) (Kernel.init p m₀)
    (fun k => (k.seat t).present = true ∧
      (k.seat t).domain = ((kernelAfter p m₀ h).seat t).domain)
    (fun k op => ∃ a, k.admission p op = some a ∧ a.task = t)
    (fun ⟨hp, _⟩ => by
      rw [Kernel.seat_init, if_neg ht] at hp
      cases hp)
    (fun k op ⟨hp, hd⟩ => by
      by_cases hc : ∃ a, k.admission p op = some a ∧ a.task = t
      · exact Or.inr hc
      · obtain ⟨hp', hd'⟩ := (k.present_step p op).others t (fun b hb hbt => hc ⟨b, hb, hbt⟩) hp
        exact Or.inl ⟨hp', hd'.symm.trans hd⟩)
    ⟨hpres, rfl⟩
  refine ⟨f, op, a, hf, ha, hat, fun g op' hg hfg b hb hbt => hlast g op' hg hfg ⟨b, hb, hbt⟩,
    fun g hfg hg => ?_⟩
  have hdom : ((kernelAfter p m₀ (op :: f)).seat t).domain = a.domain := by
    have := ((kernelAfter p m₀ f).present_step p op).admitted a ha
    rw [hat] at this
    exact this
  obtain ⟨hp, hd⟩ := hsince g hfg hg
  obtain ⟨-, hd'⟩ := hsince (op :: f) List.suffix_rfl hf
  exact ⟨hp, hd.trans (hd'.symm.trans hdom)⟩

theorem runsPresent_after {μ : Type} (p : Platform μ) (m₀ : μ) (h : List (Op μ)) :
    (kernelAfter p m₀ h).RunsPresent := by
  induction h with
  | nil => exact Or.inl rfl
  | cons op h ih => exact ih.step p op

/-- **Time is a capability, if only TimeSlice capabilities are offered.** In every run, the
admissions that go through are on live TimeSlice capabilities with `INVOKE` if and only if no
admission that would go through names a capability of another kind. In such a run every task that
ever runs, but the idle one, has entered by an admission on a TimeSlice capability. -/
theorem admitted_on_timeslice_iff {μ : Type} (p : Platform μ) (m₀ : μ) (h : List (Op μ)) :
    ((∀ g op, op :: g <:+ h → ∀ a, (kernelAfter p m₀ g).admission p op = some a →
        a.gate.TimeSliceAt a.cptr) ↔
      Runs.Every (fun k op => (k.step p op).2) (Kernel.init p m₀) Kernel.NamesTimeSlice h) ∧
    (Runs.Every (fun k op => (k.step p op).2) (Kernel.init p m₀) Kernel.NamesTimeSlice h →
      ∀ g, g <:+ h → (kernelAfter p m₀ g).current ≠ 0 →
        ∃ f op a, EnteredBy p m₀ g (kernelAfter p m₀ g).current f op a ∧
          a.gate.TimeSliceAt a.cptr) := by
  have hiff : (∀ g op, op :: g <:+ h → ∀ a, (kernelAfter p m₀ g).admission p op = some a →
        a.gate.TimeSliceAt a.cptr) ↔
      Runs.Every (fun k op => (k.step p op).2) (Kernel.init p m₀) Kernel.NamesTimeSlice h := by
    rw [Runs.every_iff_suffix]
    exact forall₃_congr fun g op _ => (kernelAfter p m₀ g).timeSliceAt_admission_iff p op
  refine ⟨hiff, fun hrun g hg hne => ?_⟩
  have hpres := (runsPresent_after p m₀ g).resolve_left hne
  obtain ⟨f, op, a, hentered⟩ := exists_enteredBy p m₀ hne hpres
  exact ⟨f, op, a, hentered, hiff.mpr hrun f op (hentered.suffix.trans hg) a hentered.admission⟩

/-- **A Memory capability buys time.** After `init_root` the root domain has one capability, of
kind Memory. `admit` accepts it, and the next tick runs the task. -/
theorem admitted_on_memory :
    ((kernelAfter bareMachine () [.initRoot]).admitTask bareMachine 0 0 1000000 1000000 0).1
        = some 1 ∧
      ((kernelAfter bareMachine () [.initRoot]).space.tables 0).entryAt 0
        = some ⟨0, Kernel.mappableRights, 0, .memory, 0⟩ ∧
      ¬(kernelAfter bareMachine () [.initRoot]).TimeSliceAt 0 ∧
      (kernelAfter bareMachine ()
        [.tick 0x100, .admitTask 0 0 1000000 1000000 0, .initRoot]).current = 1 := by
  have hentry : ((kernelAfter bareMachine () [.initRoot]).space.tables 0).entryAt 0
      = some ⟨0, Kernel.mappableRights, 0, .memory, 0⟩ := by decide +kernel
  refine ⟨by decide +kernel, hentry, ?_, by decide +kernel⟩
  rintro ⟨e, he, -, -, hkind⟩
  cases hentry.symm.trans he
  exact absurd hkind (by decide)

end Cairn
