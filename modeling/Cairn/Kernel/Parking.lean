import Cairn.Kernel.Calls

/-!
# Parked tasks and endpoints

The endpoint table and the task table are written separately, by `ep_send`, `ep_recv`,
`block_current`, `unblock`, `terminate_current`, `reap_domain` and admission into a freed slot.
They nevertheless describe the same set of parked calls: every endpoint that is not idle names a
task that is parked there, and every parked task is named by one endpoint.

The invariant comes in two parts. `Board` relates the two tables and does not mention who runs,
so it also holds in the middle of a termination, when the running task has just been removed.
`Sound` adds that the running task is present, not parked and not inside a blocked syscall; every
switch re-establishes it from `Board` alone.

## Main definitions

* `Kernel.Board`, `Kernel.Sound`
* `Kernel.Permitted` — syscalls and faults of ring-3 tasks, domains below `MAX_DOMAINS`, and
  nobody but the scheduler setting the current domain

## Main results

* `Kernel.sound_step`, `sound_after` — the invariant of one step, and of every run
* `parked_iff_waiting` — parked tasks and waiting endpoints correspond one to one
-/

namespace Cairn

namespace Kernel

variable {μ : Type}

/-- The task `t` is parked at the endpoint `i`. -/
structure WaitsAt (k : Kernel μ) (i : Fin objectTableSize) (t : Fin maxTasks) : Prop where
  peer : (k.endpoints i).peerTask = t
  present : (k.seat t).present = true
  blocked : (k.seat t).blocked = true
  waitEp : (k.seat t).waitEp = i
  reason : (k.seat t).blockReason = (k.endpoints i).state.reason
  domain : (k.seat t).domain = (k.endpoints i).peerDomain

/-- What holds of the seats alone. -/
structure Roster (k : Kernel μ) : Prop where
  idle_present : (k.seat 0).present = true
  idle_free : (k.seat 0).blocked = false
  idle_ring0 : (k.frames 0).ring3 = false
  absent_free : ∀ t, (k.seat t).present = false → (k.seat t).blocked = false
  domain_lt : ∀ t, (k.seat t).present = true → (k.seat t).domain < maxDomains

/-- The endpoint table and the task table agree on who is parked. -/
structure Board (k : Kernel μ) : Prop extends Roster k where
  waits : ∀ i, (k.endpoints i).state ≠ .idle → ∃ t, k.WaitsAt i t
  seated : ∀ t, (k.seat t).blocked = true → ∃ i, (k.endpoints i).state ≠ .idle ∧ k.WaitsAt i t
  inside : ∀ t, (k.seat t).blocked = true → k.parkedIn t = true

/-- The board, and a running task that is present, not parked, and outside every blocked
syscall. -/
structure Sound (k : Kernel μ) : Prop extends Board k, Running k where
  outside : k.parkedIn k.current = false

theorem Sound.current_present {k : Kernel μ} (h : Sound k) : (k.seat k.current).present = true := by
  rcases h.eligible with h0 | ⟨hp, -⟩
  · rw [h0]
    exact h.idle_present
  · exact hp

theorem Sound.current_free {k : Kernel μ} (h : Sound k) : (k.seat k.current).blocked = false := by
  rcases h.eligible with h0 | ⟨-, hb⟩
  · rw [h0]
    exact h.idle_free
  · exact hb

/-- A parked task is not running. -/
theorem Sound.ne_current {k : Kernel μ} (h : Sound k) {t : Fin maxTasks}
    (hb : (k.seat t).blocked = true) : t ≠ k.current := by
  rintro rfl
  rw [h.current_free] at hb
  cases hb

/-- The domain syscalls resolve in is the running task's own. -/
theorem Sound.domainOf_eq {k : Kernel μ} (h : Sound k) :
    (k.domainOf : ℕ) = (k.seat k.current).domain := by
  have hlt := h.domain_lt _ h.current_present
  show min k.currentDomain (maxDomains - 1) = _
  rw [h.domain]
  omega

/-- Everything the board reads is the same. -/
structure Quiet (k k' : Kernel μ) : Prop extends SameSeats k k' where
  parkedIn : ∀ t, (k.seat t).blocked = true → k'.parkedIn t = k.parkedIn t

theorem WaitsAt.congr {k k' : Kernel μ} {i : Fin objectTableSize} {t : Fin maxTasks}
    (h : k.WaitsAt i t) (hseat : k'.seat t = k.seat t) (hep : k'.endpoints i = k.endpoints i) :
    k'.WaitsAt i t :=
  ⟨hep ▸ h.peer, hseat ▸ h.present, hseat ▸ h.blocked, hseat ▸ h.waitEp,
    by rw [hseat, hep]; exact h.reason, by rw [hseat, hep]; exact h.domain⟩

/-- Two endpoints do not wait for one task. -/
theorem WaitsAt.unique {k : Kernel μ} {i j : Fin objectTableSize} {t : Fin maxTasks}
    (hi : k.WaitsAt i t) (hj : k.WaitsAt j t) : i = j :=
  Fin.ext (hi.waitEp.symm.trans hj.waitEp)

theorem Board.of_quiet {k k' : Kernel μ} (h : Board k) (hq : Quiet k k') : Board k' where
  idle_present := by rw [hq.seat]; exact h.idle_present
  idle_free := by rw [hq.seat]; exact h.idle_free
  idle_ring0 := by rw [hq.frames]; exact h.idle_ring0
  absent_free := by rw [hq.seat]; exact h.absent_free
  domain_lt := by rw [hq.seat]; exact h.domain_lt
  waits := by
    intro i hi
    rw [hq.endpoints] at hi
    obtain ⟨t, ht⟩ := h.waits i hi
    exact ⟨t, ht.congr (congrFun hq.seat t) (congrFun hq.endpoints i)⟩
  seated := by
    intro t ht
    rw [hq.seat] at ht
    obtain ⟨i, hi, hw⟩ := h.seated t ht
    exact ⟨i, hq.endpoints ▸ hi, hw.congr (congrFun hq.seat t) (congrFun hq.endpoints i)⟩
  inside := by
    intro t ht
    rw [hq.seat] at ht
    rw [hq.parkedIn t ht]
    exact h.inside t ht

/-! ### One lemma for each way the tables change -/

/-- A switch keeps the board and re-establishes what is said about the running task. -/
theorem Board.sound_of_switched {k : Kernel μ} {r : Trace × Kernel μ} (h : Board k)
    (hs : Switched k r) : Sound r.2 := by
  have hfree : (k.seat r.2.current).blocked = false := by
    rcases hs.running.eligible with h0 | ⟨-, hb⟩
    · rw [h0]
      exact h.idle_free
    · rwa [hs.board.seat] at hb
  have hboard : Board r.2 := by
    refine h.of_quiet ⟨hs.board.toSameSeats, fun t ht => ?_⟩
    rw [hs.parkedIn, Function.update_of_ne]
    rintro rfl
    rw [hfree] at ht
    cases ht
  refine { hboard, hs.running with outside := ?_ }
  rw [hs.parkedIn, Function.update_self]

/-- One seat other than the idle task's is replaced. -/
theorem Roster.reseat {k k' : Kernel μ} {t₀ : Fin maxTasks} {s : Seat} (h : Roster k)
    (hne : t₀ ≠ 0) (hseat : k'.seat = Function.update k.seat t₀ s)
    (hfree : s.present = false → s.blocked = false)
    (hdom : s.present = true → s.domain < maxDomains) (hframe : k'.frames 0 = k.frames 0) :
    Roster k' := by
  have hsame : ∀ t ≠ t₀, k'.seat t = k.seat t := fun t ht => by
    rw [hseat, Function.update_of_ne ht]
  have hself : k'.seat t₀ = s := by rw [hseat, Function.update_self]
  refine ⟨?_, ?_, hframe ▸ h.idle_ring0, fun t ht => ?_, fun t ht => ?_⟩
  · rw [hsame 0 hne.symm]
    exact h.idle_present
  · rw [hsame 0 hne.symm]
    exact h.idle_free
  · by_cases htt : t = t₀
    · rw [htt, hself] at ht ⊢
      exact hfree ht
    · rw [hsame t htt] at ht ⊢
      exact h.absent_free t ht
  · by_cases htt : t = t₀
    · rw [htt, hself] at ht ⊢
      exact hdom ht
    · rw [hsame t htt] at ht ⊢
      exact h.domain_lt t ht

/-- A seat that is not parked is replaced by one that is not parked: a task dies or is admitted. -/
theorem Board.reseat {k k' : Kernel μ} {a : Fin maxTasks} {s : Seat} (h : Board k)
    (hne : a ≠ 0) (hold : (k.seat a).blocked = false) (hnew : s.blocked = false)
    (hdom : s.present = true → s.domain < maxDomains)
    (hseat : k'.seat = Function.update k.seat a s) (hep : k'.endpoints = k.endpoints)
    (hframe : k'.frames 0 = k.frames 0) (hpark : ∀ t ≠ a, k'.parkedIn t = k.parkedIn t) :
    Board k' := by
  have hsame : ∀ t ≠ a, k'.seat t = k.seat t := fun t ht => by
    rw [hseat, Function.update_of_ne ht]
  have hblocked : ∀ t, (k'.seat t).blocked = true → t ≠ a := by
    rintro t ht rfl
    rw [hseat, Function.update_self, hnew] at ht
    cases ht
  have hwaits : ∀ i t, k.WaitsAt i t → k'.WaitsAt i t := by
    intro i t hw
    refine hw.congr (hsame t ?_) (congrFun hep i)
    rintro rfl
    rw [hw.blocked] at hold
    cases hold
  refine { h.toRoster.reseat hne hseat (fun _ => hnew) hdom hframe with
    waits := fun i hi => ?_, seated := fun t ht => ?_, inside := fun t ht => ?_ }
  · rw [hep] at hi
    obtain ⟨t, hw⟩ := h.waits i hi
    exact ⟨t, hwaits i t hw⟩
  · rw [hsame t (hblocked t ht)] at ht
    obtain ⟨i, hi, hw⟩ := h.seated t ht
    exact ⟨i, hep ▸ hi, hwaits i t hw⟩
  · rw [hpark t (hblocked t ht)]
    rw [hsame t (hblocked t ht)] at ht
    exact h.inside t ht

/-- A call parks the running task at an idle endpoint. -/
theorem Sound.park {k k' : Kernel μ} {c : Call} (h : Sound k) (hne : k.current ≠ 0)
    (htask : c.task = k.current) (hdom : c.domain = k.domainOf)
    (hidle : (k.endpoints c.ep).state = .idle)
    (hseat : k'.seat = Function.update k.seat k.current
      ((k.seat k.current).park c.side.reason c.ep))
    (hep : k'.endpoints = Function.update k.endpoints c.ep (c.offer (k.endpoints c.ep)))
    (hframe : k'.frames = k.frames)
    (hpark : k'.parkedIn = Function.update k.parkedIn k.current true) : Board k' := by
  have hsame : ∀ t ≠ k.current, k'.seat t = k.seat t := fun t ht => by
    rw [hseat, Function.update_of_ne ht]
  have hself : k'.seat k.current = (k.seat k.current).park c.side.reason c.ep := by
    rw [hseat, Function.update_self]
  have hepSelf : k'.endpoints c.ep = c.offer (k.endpoints c.ep) := by
    rw [hep, Function.update_self]
  have hstate : (k'.endpoints c.ep).state ≠ .idle := by
    rw [hepSelf, c.offer_state]
    exact c.side.parked_ne_idle
  -- the parked call: the endpoint it wrote and the seat it took
  have hcall : k'.WaitsAt c.ep k.current := by
    constructor
    · rw [hepSelf, c.offer_peerTask, htask]
    · rw [hself]
      exact h.current_present
    · rw [hself]
      rfl
    · rw [hself]
      rfl
    · rw [hself, hepSelf, c.offer_state, c.side.reason_parked]
      rfl
    · rw [hself, hepSelf, c.offer_peerDomain, hdom, h.domainOf_eq]
      rfl
  -- everybody else is parked where they were: not at `c.ep`, which was idle
  have hepSame : ∀ i, (k.endpoints i).state ≠ .idle → k'.endpoints i = k.endpoints i := by
    intro i hi
    rw [hep, Function.update_of_ne]
    rintro rfl
    exact hi hidle
  have hwaits : ∀ i t, (k.endpoints i).state ≠ .idle → k.WaitsAt i t → k'.WaitsAt i t :=
    fun i t hi hw => hw.congr (hsame t (h.ne_current hw.blocked)) (hepSame i hi)
  have hroster : Roster k' := by
    refine h.toRoster.reseat hne hseat (fun habs => ?_) (h.domain_lt _) (by rw [hframe])
    exact absurd (habs.symm.trans h.current_present) Bool.false_ne_true
  refine { hroster with
    waits := fun i hi => ?_, seated := fun t ht => ?_, inside := fun t ht => ?_ }
  · by_cases hic : i = c.ep
    · exact ⟨k.current, hic ▸ hcall⟩
    · rw [hep, Function.update_of_ne hic] at hi
      obtain ⟨t, hw⟩ := h.waits i hi
      exact ⟨t, hwaits i t hi hw⟩
  · by_cases htt : t = k.current
    · exact ⟨c.ep, hstate, htt ▸ hcall⟩
    · rw [hsame t htt] at ht
      obtain ⟨i, hi, hw⟩ := h.seated t ht
      exact ⟨i, hepSame i hi ▸ hi, hwaits i t hi hw⟩
  · by_cases htt : t = k.current
    · rw [htt, hpark, Function.update_self]
    · rw [hsame t htt] at ht
      rw [hpark, Function.update_of_ne htt]
      exact h.inside t ht

/-- The task parked at an endpoint is woken. -/
theorem Board.wake {k k' : Kernel μ} {i : Fin objectTableSize} {t₀ : Fin maxTasks}
    {r : IpcResult} (h : Board k) (hw : k.WaitsAt i t₀)
    (hseat : k'.seat = Function.update k.seat t₀ ((k.seat t₀).wake r))
    (hep : k'.endpoints = Function.update k.endpoints i { k.endpoints i with state := .idle })
    (hframe : k'.frames = k.frames) (hpark : k'.parkedIn = k.parkedIn) : Board k' := by
  have hsame : ∀ t ≠ t₀, k'.seat t = k.seat t := fun t ht => by
    rw [hseat, Function.update_of_ne ht]
  have hne : t₀ ≠ 0 := by
    rintro rfl
    exact absurd (h.idle_free.symm.trans hw.blocked) Bool.false_ne_true
  have hblocked : ∀ t, (k'.seat t).blocked = true → t ≠ t₀ := by
    rintro t ht rfl
    rw [hseat, Function.update_self] at ht
    cases ht
  -- the only endpoint that waited for `t₀` is now idle
  have hother : ∀ j t, t ≠ t₀ → k.WaitsAt j t → j ≠ i := by
    rintro j t ht hj rfl
    exact ht (Fin.ext (hj.peer.symm.trans hw.peer))
  have hwaits : ∀ j t, t ≠ t₀ → k.WaitsAt j t → k'.WaitsAt j t := by
    intro j t ht hj
    refine hj.congr (hsame t ht) ?_
    rw [hep, Function.update_of_ne (hother j t ht hj)]
  have hroster : Roster k' :=
    h.toRoster.reseat hne hseat (fun _ => rfl) (h.domain_lt t₀) (by rw [hframe])
  refine { hroster with
    waits := fun j hj => ?_, seated := fun t ht => ?_, inside := fun t ht => ?_ }
  · have hji : j ≠ i := by
      rintro rfl
      rw [hep, Function.update_self] at hj
      exact hj rfl
    rw [hep, Function.update_of_ne hji] at hj
    obtain ⟨t, hwj⟩ := h.waits j hj
    refine ⟨t, hwaits j t ?_ hwj⟩
    rintro rfl
    exact hji (hwj.unique hw)
  · have htt := hblocked t ht
    rw [hsame t htt] at ht
    obtain ⟨j, hj, hwj⟩ := h.seated t ht
    refine ⟨j, ?_, hwaits j t htt hwj⟩
    rw [hep, Function.update_of_ne (hother j t htt hwj)]
    exact hj
  · rw [hpark]
    rw [hsame t (hblocked t ht)] at ht
    exact h.inside t ht

/-! ### Steps -/

theorem Sound.of_aside {k k' : Kernel μ} (h : Sound k) (ha : Aside k k') : Sound k' := by
  have hboard := h.toBoard.of_quiet ⟨ha.sameSeats, fun t _ => congrFun ha.parkedIn t⟩
  refine { hboard with eligible := ?_, domain := ?_, outside := ?_ }
  · rw [ha.current, ha.seat]
    exact h.eligible
  · rw [ha.currentDomain, ha.current, ha.seat]
    exact h.domain
  · rw [ha.current, ha.parkedIn]
    exact h.outside

/-- An admission keeps the board. -/
theorem Board.admitWith {k : Kernel μ} (h : Board k) (p : Platform μ)
    (frame : Fin maxTasks → TaskFrame) (cptr : ℕ) {domain : ℕ} (hd : domain < maxDomains)
    (period rel budget : ℕ) : Board (k.admitWith p frame cptr domain period rel budget).2 := by
  rcases k.admitWith_cases p frame cptr domain period rel budget with heq |
    ⟨i, k', heq, hi, habs, -, hseat, hframe, hpark, hep, -, -, -⟩
  · rw [heq]
    exact h
  · rw [heq]
    refine h.reseat hi (h.absent_free i habs) rfl (fun _ => hd) hseat hep ?_ fun t ht => ?_
    · rw [hframe, Function.update_of_ne hi.symm]
    · rw [hpark, Function.update_of_ne ht]

/-- An admission does not change who runs. -/
theorem Sound.admitWith {k : Kernel μ} (h : Sound k) (p : Platform μ)
    (frame : Fin maxTasks → TaskFrame) (cptr : ℕ) {domain : ℕ} (hd : domain < maxDomains)
    (period rel budget : ℕ) : Sound (k.admitWith p frame cptr domain period rel budget).2 := by
  have hboard := h.toBoard.admitWith p frame cptr hd period rel budget
  rcases k.admitWith_cases p frame cptr domain period rel budget with heq |
    ⟨i, k', heq, hi, habs, -, hseat, -, hpark, -, -, hcur, hdom⟩
  · rw [heq]
    exact h
  · rw [heq] at hboard ⊢
    have hne : k.current ≠ i := by
      rintro rfl
      exact absurd (habs.symm.trans h.current_present) Bool.false_ne_true
    have hsame : k'.seat k'.current = k.seat k.current := by
      rw [hseat, hcur, Function.update_of_ne hne]
    refine { hboard with eligible := ?_, domain := ?_, outside := ?_ }
    · rw [hsame, hcur]
      exact h.eligible
    · rw [hsame, hdom]
      exact h.domain
    · rw [hpark, hcur, Function.update_of_ne hne]
      exact h.outside

/-- The restart hook re-grants capabilities, and then may admit a task of the restarted domain. -/
theorem onDomainDeath_cases (p : Platform μ) (k : Kernel μ) (domain : ℕ) :
    ((domain ≠ faultDomain ∨ k.faulter.restarts = 0) ∧ k.onDomainDeath p domain = k) ∨
      ∃ k₁, ¬(domain ≠ faultDomain ∨ k.faulter.restarts = 0) ∧ Aside k k₁ ∧
        k₁ = k.spend.granted ∧
        (k.onDomainDeath p domain = k₁ ∨
          ∃ (frame : Fin maxTasks → TaskFrame) (cptr : ℕ), (∀ i, (frame i).ring3 = true) ∧
            k.onDomainDeath p domain
              = (k₁.admitWith p frame cptr faultDomain 5000000 5000000 1000000).2) := by
  rw [onDomainDeath_eq]
  split
  · rename_i hdom
    exact Or.inl ⟨hdom, rfl⟩
  · rename_i hdom
    refine Or.inr ⟨k.spend.granted, hdom, ?_, rfl, ?_⟩
    · exact (aside_spend k).trans k.spend.spaceOnly_granted.aside
    · rw [restart]
      split
      · exact Or.inr ⟨_, _, fun _ => ring3_buildTaskFrame .., rfl⟩
      · exact Or.inl rfl

/-- The running task has left its seat, and nothing else about tasks and endpoints has changed. -/
structure Dropped (k k₁ : Kernel μ) : Prop where
  seat : k₁.seat = Function.update k.seat k.current (k.seat k.current).leave
  endpoints : k₁.endpoints = k.endpoints
  frames : k₁.frames = k.frames
  parkedIn : k₁.parkedIn = k.parkedIn

theorem Dropped.aside {k k₁ k₂ : Kernel μ} (h : Dropped k k₁) (ha : Aside k₁ k₂) : Dropped k k₂ :=
  ⟨ha.seat.trans h.seat, ha.endpoints.trans h.endpoints, ha.frames.trans h.frames,
    ha.parkedIn.trans h.parkedIn⟩

theorem Dropped.board {k k₁ : Kernel μ} (hd : Dropped k k₁) (h : Sound k) (hne : k.current ≠ 0) :
    Board k₁ :=
  h.toBoard.reseat (s := (k.seat k.current).leave) hne h.current_free rfl nofun hd.seat
    hd.endpoints (by rw [hd.frames]) fun t _ => congrFun hd.parkedIn t

/-- Reaping scrubs no endpoint: none names the dead task, which was running. -/
theorem Sound.dropped {k : Kernel μ} (h : Sound k) (p : Platform μ) (domain : ℕ) :
    Dropped k (k.dropCurrent.reapDomain p domain k.current) := by
  have hscrub : (fun i => if (k.endpoints i).state ≠ .idle ∧
      (k.endpoints i).peerTask = (k.current : ℕ) then EpSlot.empty else k.endpoints i)
      = k.endpoints := by
    funext i
    rw [if_neg]
    rintro ⟨hi, hpeer⟩
    obtain ⟨t, hw⟩ := h.waits i hi
    exact h.ne_current hw.blocked (Fin.ext (hw.peer.symm.trans hpeer))
  rw [reapDomain]
  dsimp only
  split <;> exact ⟨k.seat_setTask k.current _, hscrub, rfl, rfl⟩

/-- **What a fault does**: the running task leaves its seat, the restart hook may fill a seat
again, and another task runs. -/
theorem Sound.fault_cases {k : Kernel μ} (h : Sound k) (p : Platform μ) :
    ∃ k₁ k₂, Dropped k k₁ ∧ Switched k₂ (k.terminateCurrent p) ∧ (k₂ = k₁ ∨
      (k.seat k.current).domain = faultDomain ∧ ∃ (frame : Fin maxTasks → TaskFrame) (cptr : ℕ),
        (∀ i, (frame i).ring3 = true) ∧
        k₂ = (k₁.admitWith p frame cptr faultDomain 5000000 5000000 1000000).2) := by
  have hdrop := h.dropped p (k.task k.current).domain
  have hsw := switched_restore p ((k.dropCurrent.reapDomain p (k.task k.current).domain
    k.current).onDomainDeath p (k.task k.current).domain)
  rcases onDomainDeath_cases p (k.dropCurrent.reapDomain p (k.task k.current).domain k.current)
    (k.task k.current).domain with ⟨-, heq⟩ |
      ⟨k₁, hdom, haside, -, heq | ⟨frame, cptr, hring, heq⟩⟩
  · exact ⟨_, _, hdrop, hsw, Or.inl heq⟩
  · exact ⟨_, _, hdrop.aside haside, hsw, Or.inl heq⟩
  · exact ⟨_, _, hdrop.aside haside, hsw,
      Or.inr ⟨not_not.mp (not_or.mp hdom).1, frame, cptr, hring, heq⟩⟩

theorem Sound.terminateCurrent {k : Kernel μ} (h : Sound k) (hne : k.current ≠ 0)
    (p : Platform μ) : Sound (k.terminateCurrent p).2 := by
  obtain ⟨k₁, k₂, hdrop, hsw, rfl | ⟨-, frame, cptr, -, rfl⟩⟩ := h.fault_cases p
  · exact (hdrop.board h hne).sound_of_switched hsw
  · exact ((hdrop.board h hne).admitWith p frame cptr (by decide) _ _ _).sound_of_switched hsw

/-- What the invariant asks of an operation: syscalls and faults come from ring-3 tasks, admitted
domains have a table, and nobody but the scheduler sets the current domain. -/
def Permitted (k : Kernel μ) : Op μ → Prop
  | .syscall .. => k.InRing3
  | .fault => k.InRing3
  | .admitUser _ _ _ _ domain _ _ _ => domain < maxDomains
  | .setCurrentDomain _ => False
  | _ => True

theorem Sound.current_ne_zero {k : Kernel μ} (h : Sound k) (h3 : k.InRing3) : k.current ≠ 0 := by
  intro h0
  rw [InRing3, h0, h.idle_ring0] at h3
  cases h3

/-- The partner a call finds parked. -/
theorem Sound.partner {k : Kernel μ} (h : Sound k) {c : Call}
    (hw : (k.endpoints c.ep).state = c.side.awaits) : ∃ t, k.WaitsAt c.ep t :=
  h.waits c.ep (hw ▸ c.side.awaits_ne_idle)

theorem seat_meet (k : Kernel μ) {c : Call} {t : Fin maxTasks}
    (ht : (k.endpoints c.ep).peerTask = t) :
    (k.meet c).seat = Function.update k.seat t ((k.seat t).wake (k.partnerResult c)) := by
  obtain ⟨s, -, -, heq⟩ := k.meet_eq c
  rw [heq, ht]
  exact seat_unblock _ t _

/-- A rendezvous wakes the parked partner and changes nothing else about the tasks. -/
theorem Sound.meet {k : Kernel μ} (h : Sound k) {c : Call} {t : Fin maxTasks}
    (hw : k.WaitsAt c.ep t) : Sound (k.meet c) := by
  have hseat := k.seat_meet hw.peer
  obtain ⟨s, -, -, heq⟩ := k.meet_eq c
  rw [hw.peer, unblock, dif_pos t.isLt] at heq
  have hcur : (k.meet c).current = k.current := k.current_meet c
  have hsame : (k.meet c).seat (k.meet c).current = k.seat k.current := by
    rw [hseat, hcur, Function.update_of_ne (h.ne_current hw.blocked).symm]
  have hboard : Board (k.meet c) := by
    refine h.toBoard.wake hw hseat ?_ ?_ ?_ <;> rw [heq] <;> rfl
  refine { hboard with eligible := ?_, domain := ?_, outside := ?_ }
  · rw [hsame, hcur]
    exact h.eligible
  · rw [hsame, heq]
    exact h.domain
  · rw [heq]
    exact h.outside

theorem Sound.syscall {k : Kernel μ} (h : Sound k) (h3 : k.InRing3) (p : Platform μ)
    (nr cptr method arg0 xfer rsp : BitVec 64) :
    Sound (k.syscall p nr cptr method arg0 xfer rsp).2 := by
  have hcases := k.syscall_cases p nr cptr method arg0 xfer rsp
  have hentered : Sound k.entered := h.of_aside (k.payload_setReplyCptr _).aside
  generalize hcall : k.callOf (.syscall nr cptr method arg0 xfer rsp) = call at hcases
  generalize k.syscall p nr cptr method arg0 xfer rsp = r at hcases
  cases hcases with
  | other st reply k' hk _ => exact h.of_aside hk.aside
  | refused c st k' _ _ hk => exact h.of_aside hk.aside
  | met c hw r =>
    obtain ⟨t, hwait⟩ := hentered.partner hw
    exact (hentered.meet hwait).of_aside (payload_setReplyCptr _ r).aside
  | parks c hw =>
    obtain ⟨htask, hdom⟩ := callOf_eq_some hcall
    refine Board.sound_of_switched ?_ (switched_blockCurrent p _ _ _ _)
    exact hentered.park (h.current_ne_zero h3) htask hdom hw (seat_parkCurrent _ _ _) rfl rfl rfl

/-- **The invariant of one step.** -/
theorem sound_step (p : Platform μ) (k : Kernel μ) (op : Op μ) (hop : k.Permitted op)
    (h : Sound k) : Sound (k.step p op).2 := by
  cases op with
  | setCurrentDomain d => exact hop.elim
  | admitTask entry c period rel budget => exact h.admitWith p _ c (by decide) period rel budget
  | admitUser entry stackTop mem c d period rel budget =>
    exact h.admitWith p _ c hop period rel budget
  | syscall nr c method arg0 xfer rsp => exact h.syscall hop p nr c method arg0 xfer rsp
  | tick rsp =>
    exact h.toBoard.sound_of_switched (k.switched_scheduleTick p rsp h.toRunning h.outside)
  | fault => exact h.terminateCurrent (h.current_ne_zero hop) p
  | _ => exact h.of_aside (k.aside_step p rfl).1

theorem seat_init (p : Platform μ) (m₀ : μ) (t : Fin maxTasks) :
    (init p m₀).seat t = if t = 0 then Seat.fresh 0 else Task.empty.seat := by
  show (Function.update (fun _ => Task.empty) 0 _ t).seat = _
  rw [Function.update_apply]
  split <;> rfl

theorem sound_init (p : Platform μ) (m₀ : μ) : Sound (init p m₀) := by
  have hfree : ∀ t, ((init p m₀).seat t).blocked = false := by
    intro t
    rw [seat_init]
    split <;> rfl
  have hdom : ∀ t, ((init p m₀).seat t).domain = 0 := by
    intro t
    rw [seat_init]
    split <;> rfl
  have hblocked : ∀ t, ((init p m₀).seat t).blocked = true → False := by
    intro t ht
    rw [hfree] at ht
    cases ht
  refine
    { idle_present := rfl, idle_free := rfl, idle_ring0 := ?_, absent_free := fun t _ => hfree t
      domain_lt := fun t _ => ?_, waits := fun i hi => absurd rfl hi
      seated := fun t ht => (hblocked t ht).elim, inside := fun t ht => (hblocked t ht).elim
      eligible := Or.inl rfl, domain := rfl, outside := rfl }
  · show (⟨0, 0, 0, 0, 0, 0⟩ : TaskFrame).ring3 = false
    decide
  · rw [hdom]
    decide

end Kernel

/-- The invariant holds after every permitted run. -/
theorem sound_after {μ : Type} (p : Platform μ) (m₀ : μ) {h : List (Op μ)}
    (hrun : Runs.Every (fun k op => (k.step p op).2) (Kernel.init p m₀) Kernel.Permitted h) :
    (kernelAfter p m₀ h).Sound :=
  Runs.invariant (Kernel.sound_init p m₀) (fun k op => k.sound_step p op) hrun

namespace Kernel

variable {μ : Type}

/-- A step wakes the task parked at the endpoint of its call, and no other. -/
theorem Sound.woke {p : Platform μ} {k : Kernel μ} (h : k.Sound) {op : Op μ} {t : ℕ}
    {r : IpcResult} (hwoke : (k.step p op).1.woke = some (t, r)) :
    ∃ (c : Call) (u : Fin maxTasks), k.callOf op = some c ∧ t = u ∧ k.WaitsAt c.ep u := by
  cases op with
  | syscall nr c method arg0 xfer rsp =>
    have hcases := k.syscall_cases p nr c method arg0 xfer rsp
    rw [step] at hwoke
    generalize k.callOf (.syscall nr c method arg0 xfer rsp) = call at hcases
    generalize k.syscall p nr c method arg0 xfer rsp = res at hcases hwoke
    cases hcases with
    | other st reply k' _ _ => cases hwoke
    | refused c st k' _ _ _ => cases hwoke
    | met c hw _ =>
      obtain ⟨u, hwait⟩ := h.partner hw
      cases hwoke
      exact ⟨c, u, rfl, hwait.peer, hwait⟩
    | parks c hw =>
      rw [(switched_blockCurrent p _ _ _ _).woke] at hwoke
      cases hwoke
  | tick rsp =>
    rw [step, (k.switched_scheduleTick p rsp h.toRunning h.outside).woke] at hwoke
    cases hwoke
  | _ => cases hwoke

/-- The correspondence of parked tasks and endpoints, in the words of the two tables. -/
structure OneToOne (p : Platform μ) (k : Kernel μ) : Prop where
  /-- An endpoint that is not idle names a present, parked task that does not run, waits there,
  for the reason that belongs to the state of the endpoint, in the recorded domain. -/
  waiting : ∀ i, (k.endpoints i).state ≠ .idle → ∃ t : Fin maxTasks,
    (k.endpoints i).peerTask = t ∧ t ≠ k.current ∧ (k.task t).present = true ∧
    (k.task t).blocked = true ∧ (k.task t).waitEp = i ∧
    (k.task t).blockReason = (k.endpoints i).state.reason ∧
    (k.task t).domain = (k.endpoints i).peerDomain
  /-- A parked task is named by exactly one endpoint that is not idle. -/
  parked : ∀ t : Fin maxTasks, (k.task t).blocked = true →
    ∃! i, (k.endpoints i).state ≠ .idle ∧ (k.endpoints i).peerTask = t
  /-- Whatever happens next, `unblock` is called on a task parked at the endpoint of the call,
  inside a syscall of its own. -/
  wakes : ∀ op t r, (k.step p op).1.woke = some (t, r) →
    ∃ (c : Call) (u : Fin maxTasks), k.callOf op = some c ∧ t = u ∧ (k.task u).present = true ∧
      (k.task u).blocked = true ∧ (k.task u).waitEp = c.ep ∧ k.parkedIn u = true

end Kernel

/-- **Parked tasks and waiting endpoints correspond one to one**, after every run of boot-time
calls, syscalls of ring-3 tasks, ticks, faults and restarts in any order. -/
theorem parked_iff_waiting {μ : Type} (p : Platform μ) (m₀ : μ) {h : List (Op μ)}
    (hrun : Runs.Every (fun k op => (k.step p op).2) (Kernel.init p m₀) Kernel.Permitted h) :
    (kernelAfter p m₀ h).OneToOne p := by
  have hs := sound_after p m₀ hrun
  refine ⟨fun i hi => ?_, fun t ht => ?_, fun op t r hwoke => ?_⟩
  · obtain ⟨t, hw⟩ := hs.waits i hi
    exact ⟨t, hw.peer, hs.ne_current hw.blocked, hw.present, hw.blocked, hw.waitEp, hw.reason,
      hw.domain⟩
  · obtain ⟨i, hi, hw⟩ := hs.seated t ht
    refine ⟨i, ⟨hi, hw.peer⟩, fun j ⟨hj, hpeer⟩ => ?_⟩
    obtain ⟨u, hwj⟩ := hs.waits j hj
    obtain rfl : u = t := Fin.ext (hwj.peer.symm.trans hpeer)
    exact hwj.unique hw
  · obtain ⟨c, u, hcall, rfl, hw⟩ := hs.woke hwoke
    exact ⟨c, u, hcall, rfl, hw.present, hw.blocked, hw.waitEp, hs.inside u hw.blocked⟩

/-- A machine that maps every page, has no disk, and ticks once a microsecond. -/
def bareMachine : Platform Unit where
  mapUserPhys _ _ _ _ _ m := (true, m)
  unmapPage _ m := (true, m)
  allocateFrame m := (none, m)
  readSector _ m := (none, m)
  deviceQueueDesc _ := none
  tickNs := 1000
  stackTop := 0x10000
  taskKstackTop i := .ofNat 64 (0x20000 + 0x10000 * i)

/-- One ring-3 task in domain 1, which is scheduled and calls `E_RECV` on its only endpoint. -/
def receiverRun : List (Op Unit) :=
  [.syscall 1 0 2 0 0xffff 0x300, .tick 0x100, .admitUser 0 0 0 1 1 1000000 1000000 0,
    .mintTimeslice, .delegateFromRoot 1 0 .invoke 0, .createEndpoint]

theorem permitted_receiverRun : Runs.Every (fun k op => (k.step bareMachine op).2)
    (Kernel.init bareMachine ()) Kernel.Permitted receiverRun := by
  refine ⟨?_, trivial, ?_, trivial, trivial, trivial, trivial⟩
  · show TaskFrame.ring3 _ = true
    decide +kernel
  · show 1 < maxDomains
    decide

theorem parked_iff_waiting_receiver :
    ((kernelAfter bareMachine () receiverRun).endpoints 0).state = .recvWait ∧
      (kernelAfter bareMachine () receiverRun).OneToOne bareMachine :=
  ⟨by decide +kernel, parked_iff_waiting bareMachine () permitted_receiverRun⟩

end Cairn
