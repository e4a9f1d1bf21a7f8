import Cairn.Kernel.Admission

/-!
# Domain ids

A task is admitted with a `u16` domain id, and the kernel has `MAX_DOMAINS` tables and ledgers. The
id is read in three ways. `delegate_from_root`, `do_cap_transfer` and `record_domain_map` refuse an
id without a table. `current_domain` clamps it, so that the syscalls of a task with such an id go
to the last table. `reap_domain` ignores it, so that nothing is cleared when the task dies.
`admit_user` itself stores any id.

Two tasks of different domains therefore share a table if and only if both ids are clamped to the
last one or name it, and a task leaves its table and its mappings behind if and only if its id has
no table.

## Main definitions

* `Kernel.DomainShown` — the current domain is that of the running task
* `Acts` — the running task, and the admission it entered by

## Main results

* `domainOf_of_acts` — where the syscalls of a task go
* `domains_apart_iff` — when two tasks are kept apart, and what a termination clears
* `domain_shared_and_left` — two tasks in one table, which survives its owner
-/

namespace Cairn

namespace Kernel

variable {μ : Type}

/-- The current domain is that of the running task, unless that is the idle one. -/
def DomainShown (k : Kernel μ) : Prop :=
  k.current ≠ 0 → k.currentDomain = (k.seat k.current).domain

theorem Running.shown {k : Kernel μ} (h : Running k) : k.DomainShown := fun _ => h.domain

/-- The running task goes on, in its domain. -/
theorem DomainShown.of_seat {k k' : Kernel μ} (h : k.DomainShown) (hcur : k'.current = k.current)
    (hdom : k'.currentDomain = k.currentDomain)
    (hseat : k.current ≠ 0 → (k'.seat k.current).domain = (k.seat k.current).domain) :
    k'.DomainShown := by
  intro hne
  rw [hcur] at hne ⊢
  rw [hdom, hseat hne]
  exact h hne

theorem DomainShown.of_aside {k k' : Kernel μ} (h : k.DomainShown) (ha : Aside k k') :
    k'.DomainShown :=
  h.of_seat ha.current ha.currentDomain fun _ => by rw [ha.seat]

theorem DomainShown.unblock {k : Kernel μ} (h : k.DomainShown) (u : ℕ) (r : IpcResult) :
    (k.unblock u r).DomainShown := by
  by_cases hu : u < maxTasks
  · have hdom : (k.unblock u r).currentDomain = k.currentDomain := by
      rw [Kernel.unblock, dif_pos hu]
      rfl
    refine h.of_seat (k.current_unblock u r) hdom fun _ => ?_
    have hseat := k.seat_unblock ⟨u, hu⟩ r
    rw [show (k.unblock u r).seat = _ from hseat]
    by_cases hcu : k.current = ⟨u, hu⟩
    · rw [hcu, Function.update_self]
      rfl
    · rw [Function.update_of_ne hcu]
  · rw [Kernel.unblock, dif_neg hu]
    exact h

theorem DomainShown.syscall {k : Kernel μ} (h : k.DomainShown) (p : Platform μ)
    (nr cptr method arg0 xfer rsp : BitVec 64) :
    (k.syscall p nr cptr method arg0 xfer rsp).2.DomainShown := by
  refine k.syscall_induction (motive := Kernel.DomainShown) p nr cptr method arg0 xfer rsp
    (fun k' hk => h.of_aside hk.aside) (fun c s t res r => ?_) fun c => ?_
  · refine DomainShown.unblock ?_ t res
    exact h
  · exact (switched_blockCurrent p _ _ _ _).running.shown

/-- An admission fills a slot in which nobody runs. -/
theorem DomainShown.admitWith {k : Kernel μ} (h : k.DomainShown) (hpres : k.RunsPresent)
    (p : Platform μ) (frame : Fin maxTasks → TaskFrame) (cptr domain period rel budget : ℕ) :
    (k.admitWith p frame cptr domain period rel budget).2.DomainShown := by
  rcases k.admitWith_cases p frame cptr domain period rel budget with heq |
    ⟨i, k', heq, -, habs, -, hseat, -, -, -, -, hcur, hdom⟩
  · rw [heq]
    exact h
  · rw [heq]
    refine h.of_seat hcur hdom fun hne => ?_
    have hci : k.current ≠ i := by
      rintro rfl
      rw [hpres.resolve_left hne] at habs
      cases habs
    rw [hseat, Function.update_of_ne hci]

/-- Apart from the scheduler, only the idle task sets the current domain: `kernel_main` does so
around a self-test, before any task runs. -/
def IdleSets (k : Kernel μ) : Op μ → Prop
  | .setCurrentDomain _ => k.current = 0
  | _ => True

theorem DomainShown.step {k : Kernel μ} (h : k.DomainShown) (hpres : k.RunsPresent)
    (p : Platform μ) {op : Op μ} (hop : k.IdleSets op) : (k.step p op).2.DomainShown := by
  cases op with
  | setCurrentDomain d => exact fun hne => absurd hop hne
  | admitTask entry c period rel budget => exact h.admitWith hpres p _ c 0 period rel budget
  | admitUser entry stackTop mem c d period rel budget =>
    exact h.admitWith hpres p _ c d period rel budget
  | syscall nr c method arg0 xfer rsp => exact h.syscall p nr c method arg0 xfer rsp
  | tick rsp =>
    rw [Kernel.step]
    rcases k.scheduleTick_cases p rsp with heq | hsw
    · rw [heq]
      exact fun _ => rfl
    · exact hsw.running.shown
  | fault => exact (switched_restore p _).running.shown
  | _ => exact h.of_aside (k.aside_step p rfl).1

/-- What reaping clears: the table and the ledger of the domain, if there are such. -/
theorem reaped_tables (p : Platform μ) (k : Kernel μ) {d : Fin maxDomains}
    (hd : (k.seat k.current).domain = d) :
    (k.reaped p).space.tables d = .new ∧ (k.reaped p).domainMaps d = .empty ∧
      ∀ d' ≠ d, (k.reaped p).space.tables d' = k.space.tables d' ∧
        (k.reaped p).domainMaps d' = k.domainMaps d' := by
  rw [reaped_of_lt p k hd]
  refine ⟨Function.update_self .., Function.update_self .., fun d' hne => ?_⟩
  exact ⟨Function.update_of_ne hne .., Function.update_of_ne hne ..⟩

theorem reaped_tables_of_le (p : Platform μ) (k : Kernel μ)
    (hd : maxDomains ≤ (k.seat k.current).domain) :
    (k.reaped p).space = k.space ∧ (k.reaped p).domainMaps = k.domainMaps := by
  rw [reaped_of_le p k hd]
  exact ⟨rfl, rfl⟩

end Kernel

theorem domainShown_after {μ : Type} (p : Platform μ) (m₀ : μ) {h : List (Op μ)}
    (hrun : Runs.Every (fun k op => (k.step p op).2) (Kernel.init p m₀) Kernel.IdleSets h) :
    (kernelAfter p m₀ h).DomainShown := by
  induction h with
  | nil => exact fun hne => absurd rfl hne
  | cons op h ih => exact (ih hrun.2).step (runsPresent_after p m₀ h) p hrun.1

/-- After this run a task is running that has entered by the admission `a`. -/
def Acts {μ : Type} (p : Platform μ) (m₀ : μ) (h : List (Op μ)) (a : Admission μ) : Prop :=
  (kernelAfter p m₀ h).current ≠ 0 ∧
    ∃ f op, EnteredBy p m₀ h (kernelAfter p m₀ h).current f op a

theorem Acts.seat_domain {μ : Type} {p : Platform μ} {m₀ : μ} {h : List (Op μ)}
    {a : Admission μ} (ha : Acts p m₀ h a) :
    ((kernelAfter p m₀ h).seat (kernelAfter p m₀ h).current).domain = a.domain := by
  obtain ⟨-, f, op, hentered⟩ := ha
  exact (hentered.since h hentered.suffix List.suffix_rfl).2

/-- The syscalls of a task go to the table of its domain, or to the last one. -/
theorem domainOf_of_acts {μ : Type} {p : Platform μ} {m₀ : μ} {h : List (Op μ)}
    {a : Admission μ}
    (hrun : Runs.Every (fun k op => (k.step p op).2) (Kernel.init p m₀) Kernel.IdleSets h)
    (ha : Acts p m₀ h a) :
    ((kernelAfter p m₀ h).domainOf : ℕ) = min a.domain (maxDomains - 1) := by
  show min (kernelAfter p m₀ h).currentDomain _ = _
  rw [domainShown_after p m₀ hrun ha.1, ha.seat_domain]

/-- **Domains are apart by their ids, as far as there are tables.** In every run, and for any two
tasks of different domain ids, the syscalls of the two go to different tables if and only if one
of the ids is below that of the last table. When a task dies and its id has a table, then this is
the table its syscalls went to, and `reap_domain` clears it together with its ledger and nothing
else. When its id has none, `reap_domain` clears no table and no ledger. -/
theorem domains_apart_iff {μ : Type} (p : Platform μ) (m₀ : μ) {h : List (Op μ)}
    (hrun : Runs.Every (fun k op => (k.step p op).2) (Kernel.init p m₀) Kernel.IdleSets h) :
    (∀ g₁ g₂ a₁ a₂, g₁ <:+ h → g₂ <:+ h → Acts p m₀ g₁ a₁ → Acts p m₀ g₂ a₂ →
      a₁.domain ≠ a₂.domain →
        ((kernelAfter p m₀ g₁).domainOf ≠ (kernelAfter p m₀ g₂).domainOf ↔
          a₁.domain < maxDomains - 1 ∨ a₂.domain < maxDomains - 1)) ∧
    ∀ g a, g <:+ h → Acts p m₀ g a →
      (a.domain < maxDomains →
        ((kernelAfter p m₀ g).domainOf : ℕ) = a.domain ∧
        ((kernelAfter p m₀ g).reaped p).space.tables (kernelAfter p m₀ g).domainOf = .new ∧
        ((kernelAfter p m₀ g).reaped p).domainMaps (kernelAfter p m₀ g).domainOf = .empty ∧
        ∀ d ≠ (kernelAfter p m₀ g).domainOf,
          ((kernelAfter p m₀ g).reaped p).space.tables d = (kernelAfter p m₀ g).space.tables d ∧
          ((kernelAfter p m₀ g).reaped p).domainMaps d = (kernelAfter p m₀ g).domainMaps d) ∧
      (maxDomains ≤ a.domain →
        ((kernelAfter p m₀ g).reaped p).space = (kernelAfter p m₀ g).space ∧
        ((kernelAfter p m₀ g).reaped p).domainMaps = (kernelAfter p m₀ g).domainMaps) := by
  have hdomainOf : ∀ g a, g <:+ h → Acts p m₀ g a →
      ((kernelAfter p m₀ g).domainOf : ℕ) = min a.domain (maxDomains - 1) :=
    fun g a hg ha => domainOf_of_acts (Runs.every_of_suffix hg hrun) ha
  refine ⟨fun g₁ g₂ a₁ a₂ hg₁ hg₂ ha₁ ha₂ hne => ?_,
    fun g a hg ha => ⟨fun hlt => ?_, fun hle => ?_⟩⟩
  · rw [Ne, Fin.ext_iff, hdomainOf g₁ a₁ hg₁ ha₁, hdomainOf g₂ a₂ hg₂ ha₂]
    omega
  · have heq : ((kernelAfter p m₀ g).domainOf : ℕ) = a.domain := by
      rw [hdomainOf g a hg ha]
      omega
    exact ⟨heq, Kernel.reaped_tables p _ (ha.seat_domain.trans heq.symm)⟩
  · exact Kernel.reaped_tables_of_le p _ (ha.seat_domain ▸ hle)

/-- Two ring-3 tasks are admitted, in domains `d₁` and `d₂`; the first runs and faults, and then
the second runs. Domain 5 has a Memory capability. -/
def twoDomainsRun (d₁ d₂ : ℕ) : List (Op Unit) :=
  [.fault, .tick 0x100, .admitUser 0 0 0 0 d₂ 1000000 1000000 0,
    .admitUser 0 0 0 0 d₁ 1000000 1000000 0, .delegateFromRoot 5 1 .invoke 0, .initRoot,
    .mintTimeslice]

theorem idleSets_twoDomainsRun (d₁ d₂ : ℕ) :
    Runs.Every (fun k op => (k.step bareMachine op).2) (Kernel.init bareMachine ())
      Kernel.IdleSets (twoDomainsRun d₁ d₂) :=
  ⟨trivial, trivial, trivial, trivial, trivial, trivial, trivial, trivial⟩

theorem exists_acts {μ : Type} {p : Platform μ} {m₀ : μ} {h : List (Op μ)}
    (hne : (kernelAfter p m₀ h).current ≠ 0) :
    ∃ a, Acts p m₀ h a ∧
      a.domain = ((kernelAfter p m₀ h).seat (kernelAfter p m₀ h).current).domain := by
  obtain ⟨f, op, a, hentered⟩ :=
    exists_enteredBy p m₀ hne ((runsPresent_after p m₀ h).resolve_left hne)
  have ha : Acts p m₀ h a := ⟨hne, f, op, hentered⟩
  exact ⟨a, ha, ha.seat_domain.symm⟩

theorem domains_apart_iff_one_two :
    (kernelAfter bareMachine () (twoDomainsRun 1 2).tail).current = 1 ∧
      (kernelAfter bareMachine () (twoDomainsRun 1 2)).current = 2 ∧
      (kernelAfter bareMachine () (twoDomainsRun 1 2).tail).domainOf
        ≠ (kernelAfter bareMachine () (twoDomainsRun 1 2)).domainOf := by
  have h₁ : (kernelAfter bareMachine () (twoDomainsRun 1 2).tail).current = 1 := by decide +kernel
  have h₂ : (kernelAfter bareMachine () (twoDomainsRun 1 2)).current = 2 := by decide +kernel
  obtain ⟨a₁, ha₁, hd₁⟩ := exists_acts (h₁ ▸ (by decide : (1 : Fin maxTasks) ≠ 0))
  obtain ⟨a₂, ha₂, hd₂⟩ := exists_acts (h₂ ▸ (by decide : (2 : Fin maxTasks) ≠ 0))
  have hd₁' : a₁.domain = 1 := hd₁.trans (by decide +kernel)
  have hd₂' : a₂.domain = 2 := hd₂.trans (by decide +kernel)
  refine ⟨h₁, h₂, ((domains_apart_iff bareMachine () (idleSets_twoDomainsRun 1 2)).1 _ _ a₁ a₂
    (List.suffix_cons _ _) List.suffix_rfl ha₁ ha₂ ?_).mpr ?_⟩
  · rw [hd₁', hd₂']
    decide
  · rw [hd₁']
    exact Or.inl (by decide)

/-- **Two domains in one table, which survives its owner.** A task is admitted with domain id 6
and another with 5. The syscalls of both go to the table of domain 5, where the first one finds a
capability that was delegated to domain 5. When the first one dies, the table is not cleared. -/
theorem domain_shared_and_left :
    ((kernelAfter bareMachine () (twoDomainsRun 6 5).tail).seat 1).domain = 6 ∧
      ((kernelAfter bareMachine () (twoDomainsRun 6 5)).seat 2).domain = 5 ∧
      (kernelAfter bareMachine () (twoDomainsRun 6 5).tail).current = 1 ∧
      (kernelAfter bareMachine () (twoDomainsRun 6 5)).current = 2 ∧
      (kernelAfter bareMachine () (twoDomainsRun 6 5).tail).domainOf
        = (kernelAfter bareMachine () (twoDomainsRun 6 5)).domainOf ∧
      ((kernelAfter bareMachine () (twoDomainsRun 6 5).tail).reaped bareMachine).slot
        (kernelAfter bareMachine () (twoDomainsRun 6 5).tail).domainOf 0
          = some ⟨1, .invoke, 0, .memory, 0⟩ := by
  refine ⟨?_, ?_, ?_, ?_, ?_, ?_⟩ <;> decide +kernel

end Cairn
