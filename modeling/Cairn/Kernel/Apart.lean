import Cairn.Kernel.Authority

/-!
# Tasks in domains of their own

When every ring-3 task has a protection domain of its own, the capability table of a task that is
inside a blocked syscall is written by nobody: the operations of other tasks reach the tables of
their own domains and of the partner they meet, and nothing else. This file proves both halves:
the domains stay apart along a run, and the table of a task that is inside a syscall stays as it
is until a partner wakes the task.

## Main definitions

* `Kernel.Apart` — ring-3 tasks share their domains with no other task
* `Kernel.Orderly` — the operations that keep them apart
* `Kernel.Writes` — the tables an operation can write

## Main results

* `Kernel.apart_step`, `apart_after` — domains stay apart
* `Kernel.slot_of_not_writes` — the other tables stay as they are
* `Kernel.Apart.slot_inside` — the table of a task inside a syscall
-/

namespace Cairn

namespace Kernel

variable {μ : Type}

/-! ### The tables an operation can write -/

/-- The domains whose tables an operation can write. -/
def Writes (p : Platform μ) (k : Kernel μ) (op : Op μ) (d : Fin maxDomains) : Prop :=
  match op with
  | .initRoot | .createNotification | .createEndpoint | .mintTimeslice | .mintExtent _
  | .createDeviceQueue _ _ => d = 0
  | .delegateFromRoot dst _ _ _ => (d : ℕ) = dst
  | .sealCap d' _ => d = d'
  | .syscall .. => ∃ c, k.callOf op = some c ∧ (k.step p op).1.woke ≠ none ∧
      ((d : ℕ) = c.sendDomain (k.endpoints c.ep) ∨ (d : ℕ) = c.recvDomain (k.endpoints c.ep))
  | .fault => (d : ℕ) = (k.task k.current).domain ∨ d = 0 ∨
      (k.task k.current).domain = faultDomain ∧ (d : ℕ) = faultDomain
  | _ => False

theorem target_constructOps {s : Space (Fin maxDomains)} {kind : ObjectKind} {rights : Rights}
    {op : CapOp (Fin maxDomains)} {d : Fin maxDomains} (hop : op ∈ constructOps s kind rights)
    (hd : Space.target op = some d) : d = 0 := by
  rw [constructOps] at hop
  split at hop
  · cases hop
  · rcases List.mem_pair.mp hop with rfl | rfl
    · exact (Option.some.inj hd).symm
    · cases hd

theorem target_delegateOps {dst src : ℕ} {mask : Rights} {badge : BitVec 16}
    {op : CapOp (Fin maxDomains)} {d : Fin maxDomains} (hop : op ∈ delegateOps dst src mask badge)
    (hd : Space.target op = some d) : (d : ℕ) = dst := by
  rw [delegateOps] at hop
  split at hop
  · rw [List.mem_singleton.mp hop] at hd
    exact congrArg Fin.val (Option.some.inj hd).symm
  · cases hop

theorem target_transferOps {s : Space (Fin maxDomains)} {src dst : ℕ} {xfer : BitVec 16}
    {op : CapOp (Fin maxDomains)} {d : Fin maxDomains} (hop : op ∈ transferOps s src xfer dst)
    (hd : Space.target op = some d) : (d : ℕ) = src ∨ (d : ℕ) = dst := by
  rw [transferOps] at hop
  split at hop
  · split at hop
    · rcases List.mem_pair.mp hop with rfl | rfl
      · exact Or.inl (congrArg Fin.val (Option.some.inj hd).symm)
      · exact Or.inr (congrArg Fin.val (Option.some.inj hd).symm)
    · cases hop
  · cases hop

theorem target_reapOps {domain : ℕ} {op : CapOp (Fin maxDomains)} {d : Fin maxDomains}
    (hop : op ∈ reapOps domain) (hd : Space.target op = some d) : (d : ℕ) = domain := by
  rw [reapOps] at hop
  split at hop
  · obtain ⟨i, -, rfl⟩ := List.mem_map.mp hop
    exact congrArg Fin.val (Option.some.inj hd).symm
  · cases hop

theorem target_restartOps {k : Kernel μ} {domain : ℕ} {op : CapOp (Fin maxDomains)}
    {d : Fin maxDomains} (hop : op ∈ k.restartOps domain) (hd : Space.target op = some d) :
    d = 0 ∨ domain = faultDomain ∧ (d : ℕ) = faultDomain := by
  rw [restartOps] at hop
  split at hop
  · cases hop
  · rename_i hdom
    rw [regrantOps, List.mem_append, List.mem_append] at hop
    rcases hop with hop | hop | hop
    · exact Or.inl (target_constructOps hop hd)
    · refine Or.inr ⟨not_not.mp (not_or.mp hdom).1, ?_⟩
      rcases hroot : k.spend.initRoot.1 with _ | m
      · rw [hroot] at hop
        cases hop
      · rw [hroot] at hop
        exact target_delegateOps hop hd
    · exact Or.inl (target_constructOps hop hd)

theorem writes_of_target {p : Platform μ} {k : Kernel μ} {op : Op μ}
    {cop : CapOp (Fin maxDomains)} {d : Fin maxDomains} (hcop : cop ∈ k.coreOps p op)
    (hd : Space.target cop = some d) : k.Writes p op d := by
  cases op with
  | initRoot | createNotification | createEndpoint | mintTimeslice | mintExtent =>
    exact target_constructOps hcop hd
  | createDeviceQueue magic lba =>
    rw [coreOps] at hcop
    split at hcop
    · exact target_constructOps hcop hd
    · cases hcop
  | delegateFromRoot dst src mask badge => exact target_delegateOps hcop hd
  | sealCap d' c =>
    rw [List.mem_singleton.mp hcop] at hd
    exact (Option.some.inj hd).symm
  | revoke oid =>
    rw [List.mem_singleton.mp hcop] at hd
    cases hd
  | syscall nr cptr method arg0 xfer rsp =>
    rw [coreOps] at hcop
    split at hcop
    · rename_i c w hcall hwoke
      exact ⟨c, hcall, hwoke ▸ Option.some_ne_none _, target_transferOps hcop hd⟩
    · cases hcop
  | fault =>
    rcases List.mem_append.mp hcop with hcop | hcop
    · exact Or.inr (target_restartOps hcop hd)
    · exact Or.inl (target_reapOps hcop hd)
  | _ => cases hcop

/-- An operation leaves every table alone that it does not write. -/
theorem slot_of_not_writes {p : Platform μ} {k : Kernel μ} {op : Op μ} {d : Fin maxDomains}
    (hd : ¬k.Writes p op d) (i : Fin capTableSlots) : (k.step p op).2.slot d i = k.slot d i := by
  rw [slot, (k.emits_step p op).after_eq]
  exact Space.slot_after_of_target (fun cop hcop ht => hd (writes_of_target hcop ht)) i

/-! ### Domains apart -/

/-- Ring-3 tasks share their domains with no other task; in particular none is in the root domain,
the domain of the idle task. Only ring-3 tasks are inside blocked syscalls. -/
structure Apart (k : Kernel μ) : Prop where
  idle_domain : (k.seat 0).domain = 0
  apart : ∀ t u, t ≠ u → (k.seat t).present = true → (k.seat u).present = true →
    (k.frames t).ring3 = true → (k.seat t).domain ≠ (k.seat u).domain
  inside : ∀ t, k.parkedIn t = true → (k.seat t).present = true ∧ (k.frames t).ring3 = true

/-- The operations that keep domains apart: a ring-3 task is admitted into a domain no other task
has, and boot-time calls do not edit the table of a domain whose task is inside a syscall. -/
def Orderly (k : Kernel μ) (op : Op μ) : Prop :=
  k.Permitted op ∧
    match op with
    | .admitUser _ _ _ _ domain _ _ _ => ∀ t, (k.task t).present = true → (k.task t).domain ≠ domain
    | .delegateFromRoot dst _ _ _ => ∀ t, k.parkedIn t = true → (k.task t).domain ≠ dst
    | .sealCap d _ => ∀ t, k.parkedIn t = true → (k.task t).domain ≠ d
    | _ => True

/-- Seats that change neither presence nor domain, and tasks that enter no syscall. -/
theorem Apart.of_same {k k' : Kernel μ} (h : Apart k)
    (hp : ∀ t, (k'.seat t).present = (k.seat t).present)
    (hd : ∀ t, (k'.seat t).domain = (k.seat t).domain) (hf : k'.frames = k.frames)
    (hin : ∀ t, k'.parkedIn t = true →
      k.parkedIn t = true ∨ (k.seat t).present = true ∧ (k.frames t).ring3 = true) :
    Apart k' where
  idle_domain := (hd 0).trans h.idle_domain
  apart := by
    intro t u hne ht hu h3
    rw [hd, hd]
    rw [hp] at ht hu
    rw [hf] at h3
    exact h.apart t u hne ht hu h3
  inside := by
    intro t ht
    rw [hp, hf]
    rcases hin t ht with hk | hk
    · exact h.inside t hk
    · exact hk

/-- One seat that changes neither presence nor domain. -/
theorem Apart.reseat {k k' : Kernel μ} (h : Apart k) {t : Fin maxTasks} {s : Seat}
    (hseat : k'.seat = Function.update k.seat t s) (hp : s.present = (k.seat t).present)
    (hd : s.domain = (k.seat t).domain) (hf : k'.frames = k.frames)
    (hin : ∀ t, k'.parkedIn t = true →
      k.parkedIn t = true ∨ (k.seat t).present = true ∧ (k.frames t).ring3 = true) :
    Apart k' := by
  have hsame : ∀ u, (k'.seat u).present = (k.seat u).present ∧
      (k'.seat u).domain = (k.seat u).domain := by
    intro u
    rw [hseat, Function.update_apply]
    split
    · rename_i hut
      rw [hut]
      exact ⟨hp, hd⟩
    · exact ⟨rfl, rfl⟩
  exact h.of_same (fun u => (hsame u).1) (fun u => (hsame u).2) hf hin

theorem Apart.of_aside {k k' : Kernel μ} (h : Apart k) (ha : Aside k k') : Apart k' :=
  h.of_same (fun t => by rw [ha.seat]) (fun t => by rw [ha.seat]) ha.frames
    fun t ht => Or.inl (ha.parkedIn ▸ ht)

theorem Apart.switched {k : Kernel μ} {r : Trace × Kernel μ} (h : Apart k) (hs : Switched k r) :
    Apart r.2 := by
  refine h.of_same (fun t => by rw [hs.board.seat]) (fun t => by rw [hs.board.seat])
    hs.board.frames fun t ht => Or.inl ?_
  rw [hs.parkedIn, Function.update_apply] at ht
  split at ht
  · cases ht
  · exact ht

/-- Admission into a domain that is free for the new task. -/
theorem Apart.admitWith {k : Kernel μ} (h : Apart k) (p : Platform μ)
    (frame : Fin maxTasks → TaskFrame) (cptr : ℕ) {domain : ℕ} (period rel budget : ℕ)
    (hfree : ∀ t, (k.seat t).present = true →
      ((k.frames t).ring3 = true ∨ ∃ i, (frame i).ring3 = true) → (k.seat t).domain ≠ domain) :
    Apart (k.admitWith p frame cptr domain period rel budget).2 := by
  rcases k.admitWith_cases p frame cptr domain period rel budget with heq |
    ⟨i, k', heq, hi, habs, -, hseat, hframe, hpark, -, -, -, -⟩
  · rw [heq]
    exact h
  rw [heq]
  have hself : k'.seat i = Seat.fresh domain := by rw [hseat, Function.update_self]
  have hsame : ∀ t ≠ i, k'.seat t = k.seat t := fun t ht => by
    rw [hseat, Function.update_of_ne ht]
  have hframes : ∀ t ≠ i, k'.frames t = k.frames t := fun t ht => by
    rw [hframe, Function.update_of_ne ht]
  refine ⟨?_, fun t u hne ht hu h3 => ?_, fun t ht => ?_⟩
  · rw [hsame 0 hi.symm]
    exact h.idle_domain
  · by_cases hti : t = i
    · subst hti
      rw [hsame u hne.symm] at hu ⊢
      rw [hself]
      rw [hframe, Function.update_self] at h3
      exact (hfree u hu (Or.inr ⟨_, h3⟩)).symm
    · rw [hsame t hti] at ht ⊢
      rw [hframes t hti] at h3
      by_cases hui : u = i
      · subst hui
        rw [hself]
        exact hfree t ht (Or.inl h3)
      · rw [hsame u hui] at hu ⊢
        exact h.apart t u hne ht hu h3
  · rw [hpark, Function.update_apply] at ht
    split at ht
    · cases ht
    · rename_i hti
      rw [hsame t hti, hframes t hti]
      exact h.inside t ht

theorem Apart.dropped {k k₁ : Kernel μ} (h : Apart k) (hs : Sound k) (hne : k.current ≠ 0)
    (hd : Dropped k k₁) : Apart k₁ := by
  have hsame : ∀ t ≠ k.current, k₁.seat t = k.seat t := fun t ht => by
    rw [hd.seat, Function.update_of_ne ht]
  have hgone : ∀ t, (k₁.seat t).present = true → t ≠ k.current := by
    rintro t ht rfl
    rw [hd.seat, Function.update_self] at ht
    cases ht
  refine ⟨?_, fun t u htu ht hu h3 => ?_, fun t ht => ?_⟩
  · rw [hsame 0 hne.symm]
    exact h.idle_domain
  · have ht' := hgone t ht
    have hu' := hgone u hu
    rw [hsame t ht', hsame u hu']
    rw [hsame t ht'] at ht
    rw [hsame u hu'] at hu
    rw [hd.frames] at h3
    exact h.apart t u htu ht hu h3
  · rw [hd.parkedIn] at ht
    have htc : t ≠ k.current := by
      rintro rfl
      rw [hs.outside] at ht
      cases ht
    rw [hsame t htc, hd.frames]
    exact h.inside t ht

/-- A ring-3 task is not in the root domain. -/
theorem Apart.domain_ne_zero {k : Kernel μ} (h : Apart k) (hs : Sound k) {t : Fin maxTasks}
    (ht : (k.seat t).present = true) (h3 : (k.frames t).ring3 = true) :
    (k.seat t).domain ≠ 0 := by
  have hne : t ≠ 0 := by
    rintro rfl
    rw [hs.idle_ring0] at h3
    cases h3
  rw [← h.idle_domain]
  exact h.apart t 0 hne ht hs.idle_present h3

theorem Apart.syscall {k : Kernel μ} (h : Apart k) (hs : Sound k) (h3 : k.InRing3)
    (p : Platform μ) (nr cptr method arg0 xfer rsp : BitVec 64) :
    Apart (k.syscall p nr cptr method arg0 xfer rsp).2 := by
  have hcases := k.syscall_cases p nr cptr method arg0 xfer rsp
  generalize k.callOf (.syscall nr cptr method arg0 xfer rsp) = call at hcases
  generalize k.syscall p nr cptr method arg0 xfer rsp = r at hcases
  cases hcases with
  | other st reply k' hk _ => exact h.of_aside hk.aside
  | refused c st k' _ _ hk => exact h.of_aside hk.aside
  | met c hw r =>
    obtain ⟨t, hwait⟩ := hs.partner hw
    have hseat : (k.entered.meet c).seat
        = Function.update k.seat t ((k.seat t).wake (k.entered.partnerResult c)) :=
      k.entered.seat_meet hwait.peer
    obtain ⟨s, -, -, heq⟩ := k.entered.meet_eq c
    rw [show (k.entered.endpoints c.ep).peerTask = t from hwait.peer, unblock,
      dif_pos t.isLt] at heq
    have hmeet : Apart (k.entered.meet c) := by
      refine h.reseat hseat rfl rfl ?_ fun u hu => Or.inl ?_
      · rw [heq]
        rfl
      · rw [heq] at hu
        exact hu
    exact hmeet.of_aside (payload_setReplyCptr _ r).aside
  | parks c hw =>
    refine Apart.switched ?_ (switched_blockCurrent p _ _ _ _)
    refine h.reseat (seat_parkCurrent _ _ _) rfl rfl rfl fun u hu => ?_
    have hu' : Function.update k.parkedIn k.current true u = true := hu
    rw [Function.update_apply] at hu'
    split at hu'
    · rename_i hut
      rw [hut]
      exact Or.inr ⟨hs.current_present, h3⟩
    · exact Or.inl hu'

/-- **Domains stay apart.** -/
theorem apart_step (p : Platform μ) {k : Kernel μ} {op : Op μ} (hop : k.Orderly op)
    (hs : Sound k) (h : Apart k) : Apart (k.step p op).2 := by
  cases op with
  | setCurrentDomain d => exact hop.1.elim
  | admitTask entry c period rel budget =>
    refine h.admitWith p _ c period rel budget fun t ht h3 => h.domain_ne_zero hs ht ?_
    rcases h3 with h3 | ⟨i, h3⟩
    · exact h3
    · rw [ring3_buildTaskFrame] at h3
      cases h3
  | admitUser entry stackTop mem c d period rel budget =>
    exact h.admitWith p _ c period rel budget fun t ht _ => hop.2 t ht
  | syscall nr c method arg0 xfer rsp => exact h.syscall hs hop.1 p nr c method arg0 xfer rsp
  | tick rsp => exact h.switched (k.switched_scheduleTick p rsp hs.toRunning hs.outside)
  | fault =>
    have hne := hs.current_ne_zero hop.1
    obtain ⟨k₁, k₂, hdrop, hsw, rfl | ⟨hdom, frame, cptr, -, rfl⟩⟩ := hs.fault_cases p
    · exact (h.dropped hs hne hdrop).switched hsw
    · refine Apart.switched ?_ hsw
      refine (h.dropped hs hne hdrop).admitWith p frame cptr _ _ _ fun t ht _ => ?_
      have htc : t ≠ k.current := by
        rintro rfl
        rw [hdrop.seat, Function.update_self] at ht
        cases ht
      rw [hdrop.seat, Function.update_of_ne htc] at ht ⊢
      rw [← hdom]
      exact (h.apart _ t htc.symm hs.current_present ht hop.1).symm
  | _ => exact h.of_aside (k.aside_step p rfl).1

/-- **The table of a task inside a syscall** stays as it is until a partner wakes the task. -/
theorem Apart.slot_inside {p : Platform μ} {k : Kernel μ} {op : Op μ} (h : Apart k)
    (hs : Sound k) (hop : k.Orderly op) {t : Fin maxTasks} (ht : k.parkedIn t = true)
    (hwoke : ∀ r, (k.step p op).1.woke ≠ some ((t : ℕ), r)) {d : Fin maxDomains}
    (hd : (k.seat t).domain = d) (i : Fin capTableSlots) :
    (k.step p op).2.slot d i = k.slot d i := by
  obtain ⟨hpres, h3⟩ := h.inside t ht
  have htc : t ≠ k.current := by
    rintro rfl
    rw [hs.outside] at ht
    cases ht
  have hzero : d ≠ 0 := by
    rintro rfl
    exact h.domain_ne_zero hs hpres h3 hd
  have hcur : (k.seat k.current).domain ≠ d := fun hc =>
    h.apart t _ htc hpres hs.current_present h3 (hd.trans hc.symm)
  refine slot_of_not_writes (fun hw => ?_) i
  cases op with
  | initRoot | createNotification | createEndpoint | mintTimeslice | mintExtent
  | createDeviceQueue => exact hzero hw
  | delegateFromRoot dst src mask badge => exact hop.2 t ht (hd.trans hw)
  | sealCap d' c => exact hop.2 t ht (hd.trans (congrArg Fin.val hw))
  | syscall nr cptr method arg0 xfer rsp =>
    obtain ⟨c, hcall, hwk, hdom⟩ := hw
    obtain ⟨⟨t', r⟩, hwk⟩ := Option.ne_none_iff_exists'.mp hwk
    obtain ⟨c', u, hcall', rfl, hwait⟩ := hs.woke hwk
    cases hcall.symm.trans hcall'
    rcases c.domain_cases _ hdom with hd' | hd'
    · rw [(callOf_eq_some hcall).2, hs.domainOf_eq] at hd'
      exact hcur hd'.symm
    · by_cases hut : u = t
      · subst hut
        exact hwoke r hwk
      · exact h.apart t u (Ne.symm hut) hpres hwait.present h3
          (hd.trans (hd'.trans hwait.domain.symm))
  | fault =>
    rcases hw with hw | hw | ⟨hw, hw'⟩
    · exact hcur hw.symm
    · exact hzero hw
    · exact hcur (hw.trans hw'.symm)
  | _ => exact hw.elim

end Kernel

end Cairn
