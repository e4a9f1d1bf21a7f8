import Cairn.Kernel.Apart
import Cairn.Internal.Pairing

/-!
# The ledger of endpoint calls

An endpoint call that finds no partner opens a session, the call of its partner answers it, and
the return of the parked task closes it. `sessions` reads these three events off a run. The ledger
then says what the state of the kernel knows about every session: a waiting one is written down in
its endpoint and the sender's table has not been touched since the call, and the result of a
served one is staged and the receiver's table has not been touched since the rendezvous.

## Main definitions

* `callAt`, `traceAt` — the endpoint call and the visible effects of the last step of a run
* `sessions` — the sessions of a run
* `Tells` — what the state knows about a session

## Main results

* `tells_after` — the ledger is right after every run
-/

namespace Cairn

variable {μ : Type}

/-- The task a step parks. -/
def Kernel.parks (p : Platform μ) (k : Kernel μ) (op : Op μ) : Option ℕ :=
  match k.callOf op with
  | none => none
  | some c => if ((k.step p op).2.task c.task).blocked then some c.task else none

section

variable (p : Platform μ) (m₀ : μ)

/-- The endpoint call made by the last step of a run. -/
def callAt : List (Op μ) → Option Call
  | [] => none
  | op :: h => (kernelAfter p m₀ h).callOf op

/-- What the last step of a run did besides changing the state. -/
def traceAt : List (Op μ) → Trace
  | [] => {}
  | op :: h => ((kernelAfter p m₀ h).step p op).1

/-- The sessions of a run: parking opens one, waking answers it, returning closes it. -/
def sessions : Signals (Op μ) ℕ where
  opens
    | [] => none
    | op :: h => (kernelAfter p m₀ h).parks p op
  answers h := (traceAt p m₀ h).woke.map Prod.fst
  closes h := (traceAt p m₀ h).sysret.map fun r => (r.1 : ℕ)

/-- The task waits in the call made by the step `a`: its endpoint holds what the call offered, and
its table is what it was at the call. -/
structure Waits (k : Kernel μ) (t : Fin maxTasks) (a : List (Op μ)) : Prop where
  inside : k.parkedIn t = true
  blocked : (k.seat t).blocked = true
  call : ∃ c w, callAt p m₀ a = some c ∧ c.task = t ∧ (k.seat t).domain = c.domain ∧
    k.endpoints c.ep = c.offer w ∧
    ∀ i, k.slot c.domain i = (kernelAfter p m₀ a.tail).slot c.domain i

/-- The task has been served by the step `b`: what that step staged is still there, and its table
is what it was after that step. -/
structure Served (k : Kernel μ) (t : Fin maxTasks) (a b : List (Op μ)) : Prop where
  inside : k.parkedIn t = true
  free : (k.seat t).blocked = false
  staged : (traceAt p m₀ b).woke = some ((t : ℕ), (k.seat t).ipc)
  call : ∃ c, callAt p m₀ a = some c ∧ c.task = t ∧ (k.seat t).domain = c.domain ∧
    ∀ i, k.slot c.domain i = (kernelAfter p m₀ b).slot c.domain i

/-- What the state knows about the session of a task. -/
def Tells (k : Kernel μ) (t : Fin maxTasks) : Stage (Op μ) → Prop
  | .out => k.parkedIn t = false ∧ (k.seat t).blocked = false
  | .waiting a => Waits p m₀ k t a
  | .served a b => Served p m₀ k t a b

end

/-! ### Steps that leave a session alone -/

/-- From `k` to `k'` nothing has happened to the session of `t`. -/
structure Alone (k k' : Kernel μ) (t : Fin maxTasks) : Prop where
  out : k.parkedIn t = false → (k.seat t).blocked = false →
    k'.parkedIn t = false ∧ (k'.seat t).blocked = false
  inside : k.parkedIn t = true → k'.parkedIn t = true ∧ k'.seat t = k.seat t
  endpoint : k.parkedIn t = true → ∀ i, (k.endpoints i).state ≠ .idle →
    (k.endpoints i).peerTask = t → k'.endpoints i = k.endpoints i
  table : k.parkedIn t = true → ∀ d : Fin maxDomains, (k.seat t).domain = d →
    ∀ i, k'.slot d i = k.slot d i

theorem Tells.alone {p : Platform μ} {m₀ : μ} {k k' : Kernel μ} {t : Fin maxTasks}
    {s : Stage (Op μ)} (h : Tells p m₀ k t s) (ha : Alone k k' t) : Tells p m₀ k' t s := by
  cases s with
  | out => exact ha.out h.1 h.2
  | waiting a =>
    obtain ⟨hin, hb, c, w, hcall, htask, hdom, hep, htab⟩ := h
    obtain ⟨hin', hseat⟩ := ha.inside hin
    refine ⟨hin', hseat ▸ hb, c, w, hcall, htask, hseat ▸ hdom, ?_, fun i => ?_⟩
    · rw [ha.endpoint hin c.ep, hep]
      · rw [hep, c.offer_state]
        exact c.side.parked_ne_idle
      · rw [hep, c.offer_peerTask, htask]
    · rw [ha.table hin c.domain hdom, htab]
  | served a b =>
    obtain ⟨hin, hb, hstaged, c, hcall, htask, hdom, htab⟩ := h
    obtain ⟨hin', hseat⟩ := ha.inside hin
    refine ⟨hin', hseat ▸ hb, hseat ▸ hstaged, c, hcall, htask, hseat ▸ hdom, fun i => ?_⟩
    rw [ha.table hin c.domain hdom, htab]

/-- A task outside every syscall has no session. -/
theorem Tells.eq_out {p : Platform μ} {m₀ : μ} {k : Kernel μ} {t : Fin maxTasks}
    {s : Stage (Op μ)} (h : Tells p m₀ k t s) (hout : k.parkedIn t = false) : s = .out := by
  cases s with
  | out => rfl
  | waiting a => cases hout.symm.trans h.inside
  | served a b => cases hout.symm.trans h.inside

/-- A parked task has a waiting session. -/
theorem Tells.eq_waiting {p : Platform μ} {m₀ : μ} {k : Kernel μ} {t : Fin maxTasks}
    {s : Stage (Op μ)} (h : Tells p m₀ k t s) (hb : (k.seat t).blocked = true) :
    ∃ a, s = .waiting a ∧ Waits p m₀ k t a := by
  cases s with
  | out => cases hb.symm.trans h.2
  | waiting a => exact ⟨a, rfl, h⟩
  | served a b => cases hb.symm.trans h.free

/-- A switch closes the session of the task it resumes. -/
theorem Tells.switched {p : Platform μ} {m₀ : μ} {k : Kernel μ} {r : Trace × Kernel μ}
    (hs : k.Switched r) (hb : k.Board) {t : Fin maxTasks} {s : Stage (Op μ)}
    (h : Tells p m₀ k t s) :
    Tells p m₀ r.2 t
      (if (r.1.sysret.map fun q => (q.1 : ℕ)) = some (t : ℕ) then .out else s) := by
  have hsound := hb.sound_of_switched hs
  by_cases ht : t = r.2.current
  · -- the task that runs now is outside
    have hout : r.2.parkedIn t = false ∧ (r.2.seat t).blocked = false := by
      rw [ht]
      exact ⟨hsound.outside, hsound.current_free⟩
    split
    · exact hout
    · rename_i hret
      rw [hs.sysret, ← ht] at hret
      have hpark : k.parkedIn t = false := by
        by_contra hc
        rw [if_pos (Bool.not_eq_false _ ▸ hc)] at hret
        exact hret rfl
      rw [h.eq_out hpark]
      exact hout
  · rw [if_neg]
    · refine h.alone ⟨fun hp hbl => ?_, fun hp => ?_, fun _ i _ _ => ?_, fun _ d _ i => ?_⟩
      · rw [hs.parkedIn, Function.update_of_ne ht, hs.board.seat]
        exact ⟨hp, hbl⟩
      · rw [hs.parkedIn, Function.update_of_ne ht, hs.board.seat]
        exact ⟨hp, rfl⟩
      · rw [hs.board.endpoints]
      · rw [Kernel.slot, hs.board.space]
        rfl
    · rw [hs.sysret]
      split
      · intro hc
        exact ht (Fin.ext (Option.some.inj hc).symm)
      · intro hc
        cases hc

/-! ### One step -/

section

variable {p : Platform μ} {m₀ : μ} {op : Op μ} {h : List (Op μ)}

/-- A switch, for a task that the step has not parked. -/
theorem tells_of_switched {k₁ : Kernel μ} {t : Fin maxTasks}
    (hopen : (sessions p m₀).opens (op :: h) ≠ some (t : ℕ))
    (hs : k₁.Switched ((kernelAfter p m₀ h).step p op)) (hb : k₁.Board)
    (hk : Tells p m₀ k₁ t ((sessions p m₀).stage h t)) :
    Tells p m₀ (kernelAfter p m₀ (op :: h)) t ((sessions p m₀).stage (op :: h) t) := by
  have hstep := hk.switched hs hb
  have hans : (sessions p m₀).answers (op :: h) ≠ some (t : ℕ) := by
    rw [show (sessions p m₀).answers (op :: h) = none from congrArg (Option.map Prod.fst) hs.woke]
    exact nofun
  by_cases hc : (((kernelAfter p m₀ h).step p op).1.sysret.map fun q => (q.1 : ℕ)) = some (t : ℕ)
  · rw [Signals.stage_of_closes _ hopen hc]
    rw [if_pos hc] at hstep
    exact hstep
  · rw [Signals.stage_of_none _ hopen hc hans]
    rw [if_neg hc] at hstep
    exact hstep

/-- A step without visible effects that leaves all sessions alone. -/
theorem tells_of_alone (hpark : (kernelAfter p m₀ h).parks p op = none)
    (htrace : ((kernelAfter p m₀ h).step p op).1 = {})
    (halone : ∀ t, Alone (kernelAfter p m₀ h) ((kernelAfter p m₀ h).step p op).2 t)
    (ih : ∀ t : Fin maxTasks, Tells p m₀ (kernelAfter p m₀ h) t ((sessions p m₀).stage h t))
    (t : Fin maxTasks) :
    Tells p m₀ (kernelAfter p m₀ (op :: h)) t ((sessions p m₀).stage (op :: h) t) := by
  have htr : traceAt p m₀ (op :: h) = {} := htrace
  have hopen : (sessions p m₀).opens (op :: h) ≠ some (t : ℕ) := by
    rw [show (sessions p m₀).opens (op :: h) = none from hpark]
    exact nofun
  have hans : (sessions p m₀).answers (op :: h) ≠ some (t : ℕ) := by
    show (traceAt p m₀ (op :: h)).woke.map Prod.fst ≠ _
    rw [htr]
    exact nofun
  have hc : (sessions p m₀).closes (op :: h) ≠ some (t : ℕ) := by
    show (traceAt p m₀ (op :: h)).sysret.map _ ≠ _
    rw [htr]
    exact nofun
  rw [Signals.stage_of_none _ hopen hc hans]
  exact (ih t).alone (halone t)

/-- Only syscalls park. -/
theorem parks_of_callOf_none {k : Kernel μ} (hc : k.callOf op = none) : k.parks p op = none := by
  rw [Kernel.parks, hc]

end

namespace Kernel

/-- The table part of being left alone, for any intermediate state with the tables of the step's
end. -/
theorem Apart.alone {p : Platform μ} {k k' : Kernel μ} {op : Op μ} (ha : Apart k) (hs : Sound k)
    (hop : k.Orderly op) (hspace : k'.space = (k.step p op).2.space)
    (hwoke : (k.step p op).1.woke = none) {t : Fin maxTasks}
    (hout : k.parkedIn t = false → (k.seat t).blocked = false →
      k'.parkedIn t = false ∧ (k'.seat t).blocked = false)
    (hin : k.parkedIn t = true → k'.parkedIn t = true ∧ k'.seat t = k.seat t)
    (hep : k'.endpoints = k.endpoints) : Alone k k' t := by
  refine ⟨hout, hin, fun _ i _ _ => congrFun hep i, fun hp d hd i => ?_⟩
  rw [slot, hspace]
  refine ha.slot_inside hs hop hp (fun r => ?_) hd i
  rw [hwoke]
  intro hr
  cases hr

end Kernel

section

variable {p : Platform μ} {m₀ : μ} {op : Op μ} {h : List (Op μ)}

theorem parks_of_free {k : Kernel μ} (hfree : ((k.step p op).2.seat k.current).blocked = false) :
    k.parks p op = none := by
  rw [Kernel.parks]
  split
  · rfl
  · rename_i c hcall
    rw [(Kernel.callOf_eq_some hcall).1, if_neg]
    intro hb
    cases hb.symm.trans hfree

/-- A syscall that returns at once. -/
theorem tells_of_return {r : IpcResult}
    (hret : ((kernelAfter p m₀ h).step p op).1.sysret = some ((kernelAfter p m₀ h).current, r))
    (hcur : (((kernelAfter p m₀ h).step p op).2.seat (kernelAfter p m₀ h).current).blocked = false)
    (hout : ((kernelAfter p m₀ h).step p op).2.parkedIn (kernelAfter p m₀ h).current = false)
    (hrest : ∀ t : Fin maxTasks, t ≠ (kernelAfter p m₀ h).current →
      Tells p m₀ (kernelAfter p m₀ (op :: h)) t
        (if ((kernelAfter p m₀ h).step p op).1.woke.map Prod.fst = some (t : ℕ)
          then ((sessions p m₀).stage h t).answer (op :: h) else (sessions p m₀).stage h t))
    (t : Fin maxTasks) :
    Tells p m₀ (kernelAfter p m₀ (op :: h)) t ((sessions p m₀).stage (op :: h) t) := by
  have hopen : (sessions p m₀).opens (op :: h) ≠ some (t : ℕ) := by
    rw [show (sessions p m₀).opens (op :: h) = none from parks_of_free hcur]
    exact nofun
  have hclose : (sessions p m₀).closes (op :: h) = some ((kernelAfter p m₀ h).current : ℕ) :=
    congrArg (Option.map fun q : Fin maxTasks × IpcResult => (q.1 : ℕ)) hret
  by_cases ht : t = (kernelAfter p m₀ h).current
  · subst ht
    rw [Signals.stage_of_closes _ hopen hclose]
    exact ⟨hout, hcur⟩
  · have hc : (sessions p m₀).closes (op :: h) ≠ some (t : ℕ) := by
      rw [hclose]
      exact fun hc => ht (Fin.ext (Option.some.inj hc).symm)
    have hstep := hrest t ht
    by_cases ha : ((kernelAfter p m₀ h).step p op).1.woke.map Prod.fst = some (t : ℕ)
    · rw [Signals.stage_of_answers _ hopen hc ha]
      rw [if_pos ha] at hstep
      exact hstep
    · rw [Signals.stage_of_none _ hopen hc ha]
      rw [if_neg ha] at hstep
      exact hstep

/-- A syscall that returns at once and wakes nobody. -/
theorem tells_of_payload {r : IpcResult} (hs : (kernelAfter p m₀ h).Sound)
    (ha : (kernelAfter p m₀ h).Apart) (hop : (kernelAfter p m₀ h).Orderly op)
    (haside : (kernelAfter p m₀ h).Aside ((kernelAfter p m₀ h).step p op).2)
    (hwoke : ((kernelAfter p m₀ h).step p op).1.woke = none)
    (hret : ((kernelAfter p m₀ h).step p op).1.sysret = some ((kernelAfter p m₀ h).current, r))
    (ih : ∀ t : Fin maxTasks, Tells p m₀ (kernelAfter p m₀ h) t ((sessions p m₀).stage h t))
    (t : Fin maxTasks) :
    Tells p m₀ (kernelAfter p m₀ (op :: h)) t ((sessions p m₀).stage (op :: h) t) := by
  refine tells_of_return hret ?_ ?_ (fun t _ => ?_) t
  · rw [haside.seat]
    exact hs.current_free
  · rw [haside.parkedIn]
    exact hs.outside
  · rw [hwoke, if_neg nofun]
    refine (ih t).alone (ha.alone hs hop rfl hwoke (fun hp hb => ?_) (fun hp => ?_)
      haside.endpoints)
    · rw [haside.parkedIn, haside.seat]
      exact ⟨hp, hb⟩
    · rw [haside.parkedIn, haside.seat]
      exact ⟨hp, rfl⟩

/-- A rendezvous answers the session of the partner and leaves the others alone. -/
theorem tells_of_meet {c : Call} {t₀ : Fin maxTasks} {k' : Kernel μ}
    (hs : (kernelAfter p m₀ h).Sound) (ha : (kernelAfter p m₀ h).Apart)
    (hop : (kernelAfter p m₀ h).Orderly op) (hw : (kernelAfter p m₀ h).WaitsAt c.ep t₀)
    (hseat : k'.seat = Function.update (kernelAfter p m₀ h).seat t₀
      (((kernelAfter p m₀ h).seat t₀).wake ((kernelAfter p m₀ h).entered.partnerResult c)))
    (hep : ∀ i ≠ c.ep, k'.endpoints i = (kernelAfter p m₀ h).endpoints i)
    (hpark : k'.parkedIn = (kernelAfter p m₀ h).parkedIn)
    (hstep : (kernelAfter p m₀ h).step p op = (
      { woke := some ((t₀ : ℕ), (kernelAfter p m₀ h).entered.partnerResult c)
        sysret := some ((kernelAfter p m₀ h).current, (kernelAfter p m₀ h).entered.meetResult c) },
      k'))
    (ih : ∀ t : Fin maxTasks, Tells p m₀ (kernelAfter p m₀ h) t ((sessions p m₀).stage h t))
    (t : Fin maxTasks) :
    Tells p m₀ (kernelAfter p m₀ (op :: h)) t ((sessions p m₀).stage (op :: h) t) := by
  have hafter : kernelAfter p m₀ (op :: h) = k' := congrArg Prod.snd hstep
  have hne := hs.ne_current hw.blocked
  refine tells_of_return (congrArg (fun r => r.1.sysret) hstep) ?_ ?_ (fun t htc => ?_) t
  · rw [hstep, hseat, Function.update_of_ne hne.symm]
    exact hs.current_free
  · rw [hstep, hpark]
    exact hs.outside
  rw [hafter, hstep]
  by_cases ht : t = t₀
  · -- the partner: its call waited at this endpoint, and its result is staged now
    subst ht
    show Tells p m₀ k' t (if some (t : ℕ) = some (t : ℕ) then _ else _)
    rw [if_pos rfl]
    obtain ⟨a, hstage, hwait⟩ := (ih t).eq_waiting hw.blocked
    obtain ⟨hin, -, c', w, hcall, htask, hdom, -, -⟩ := hwait
    rw [hstage]
    have hself : k'.seat t = ((kernelAfter p m₀ h).seat t).wake
        ((kernelAfter p m₀ h).entered.partnerResult c) := by rw [hseat, Function.update_self]
    refine ⟨by rw [hpark]; exact hin, by rw [hself]; rfl, ?_, c', hcall, htask, ?_, fun i => ?_⟩
    · rw [hself]
      exact congrArg (fun r => r.1.woke) hstep
    · rw [hself]
      exact hdom
    · rw [hafter]
  · have hother : some (t₀ : ℕ) ≠ some (t : ℕ) := fun hc => ht (Fin.ext (Option.some.inj hc).symm)
    have hseat' : k'.seat t = (kernelAfter p m₀ h).seat t := by
      rw [hseat, Function.update_of_ne ht]
    show Tells p m₀ k' t (if some (t₀ : ℕ) = some (t : ℕ) then _ else _)
    rw [if_neg hother]
    refine (ih t).alone ⟨fun hp hb => ?_, fun hp => ?_, fun hp i hi hpeer => hep i ?_,
      fun hp d hd i => ?_⟩
    · rw [hpark, hseat']
      exact ⟨hp, hb⟩
    · rw [hpark]
      exact ⟨hp, hseat'⟩
    · rintro rfl
      exact ht (Fin.ext (hpeer.symm.trans hw.peer))
    · rw [← hafter]
      refine ha.slot_inside hs hop hp (fun r hr => ?_) hd i
      rw [hstep] at hr
      exact hother (congrArg (Option.map Prod.fst) hr)

/-- Parking leaves the sessions of the other tasks alone. -/
theorem alone_park {k k₁ : Kernel μ} {c : Call} {s : Seat}
    (hidle : (k.endpoints c.ep).state = .idle)
    (hseat : k₁.seat = Function.update k.seat k.current s)
    (hep : k₁.endpoints = Function.update k.endpoints c.ep (c.offer (k.endpoints c.ep)))
    (hspace : k₁.space = k.space) (hpark : k₁.parkedIn = Function.update k.parkedIn k.current true)
    {t : Fin maxTasks} (ht : t ≠ k.current) : Alone k k₁ t := by
  refine ⟨fun hp hbl => ?_, fun hp => ?_, fun hp i hi hpeer => ?_, fun hp d hd i => ?_⟩
  · rw [hpark, hseat, Function.update_of_ne ht, Function.update_of_ne ht]
    exact ⟨hp, hbl⟩
  · rw [hpark, hseat, Function.update_of_ne ht, Function.update_of_ne ht]
    exact ⟨hp, rfl⟩
  · rw [hep, Function.update_of_ne]
    rintro rfl
    exact hi hidle
  · rw [Kernel.slot, hspace]
    rfl

theorem parks_of_blocked {k : Kernel μ} {c : Call} (hcall : k.callOf op = some c)
    (hb : ((k.step p op).2.seat k.current).blocked = true) :
    k.parks p op = some (k.current : ℕ) := by
  rw [Kernel.parks, hcall]
  dsimp only
  rw [(Kernel.callOf_eq_some hcall).1]
  exact if_pos hb

/-- A call that parks opens a session, and the switch may close another one. -/
theorem tells_of_park {c : Call} {k₁ : Kernel μ} (hs : (kernelAfter p m₀ h).Sound)
    (hcall : (kernelAfter p m₀ h).callOf op = some c)
    (hidle : ((kernelAfter p m₀ h).endpoints c.ep).state = .idle)
    (hseat : k₁.seat = Function.update (kernelAfter p m₀ h).seat (kernelAfter p m₀ h).current
      (((kernelAfter p m₀ h).seat (kernelAfter p m₀ h).current).park c.side.reason c.ep))
    (hep : k₁.endpoints = Function.update (kernelAfter p m₀ h).endpoints c.ep
      (c.offer ((kernelAfter p m₀ h).endpoints c.ep)))
    (hspace : k₁.space = (kernelAfter p m₀ h).space)
    (hpark : k₁.parkedIn
      = Function.update (kernelAfter p m₀ h).parkedIn (kernelAfter p m₀ h).current true)
    (hb : k₁.Board) (hsw : k₁.Switched ((kernelAfter p m₀ h).step p op))
    (ih : ∀ t : Fin maxTasks, Tells p m₀ (kernelAfter p m₀ h) t ((sessions p m₀).stage h t))
    (t : Fin maxTasks) :
    Tells p m₀ (kernelAfter p m₀ (op :: h)) t ((sessions p m₀).stage (op :: h) t) := by
  obtain ⟨htask, hdom⟩ := Kernel.callOf_eq_some hcall
  have hself : k₁.seat (kernelAfter p m₀ h).current
      = ((kernelAfter p m₀ h).seat (kernelAfter p m₀ h).current).park c.side.reason c.ep := by
    rw [hseat, Function.update_self]
  have hblocked : (((kernelAfter p m₀ h).step p op).2.seat (kernelAfter p m₀ h).current).blocked
      = true := by
    rw [hsw.board.seat, hself]
    rfl
  have hopen : (sessions p m₀).opens (op :: h) = some ((kernelAfter p m₀ h).current : ℕ) :=
    parks_of_blocked hcall hblocked
  have hclose : (((kernelAfter p m₀ h).step p op).1.sysret.map fun q => (q.1 : ℕ))
      ≠ some ((kernelAfter p m₀ h).current : ℕ) := by
    rw [hsw.sysret]
    split
    · -- the parked task is not the one that runs now
      intro hc
      have hcur : ((kernelAfter p m₀ h).step p op).2.current = (kernelAfter p m₀ h).current :=
        Fin.ext (Option.some.inj hc)
      have hfree := (hb.sound_of_switched hsw).current_free
      rw [hcur, hblocked] at hfree
      cases hfree
    · exact nofun
  by_cases ht : t = (kernelAfter p m₀ h).current
  · subst ht
    rw [Signals.stage_of_opens _ hopen]
    have hwait : Tells p m₀ k₁ (kernelAfter p m₀ h).current (.waiting (op :: h)) := by
      refine ⟨?_, ?_, c, (kernelAfter p m₀ h).endpoints c.ep, hcall, htask, ?_, ?_, fun i => ?_⟩
      · rw [hpark, Function.update_self]
      · rw [hself]
        rfl
      · rw [hself, hdom]
        exact hs.domainOf_eq.symm
      · rw [hep, Function.update_self]
      · rw [Kernel.slot, hspace]
        rfl
    have hstep := hwait.switched hsw hb
    rw [if_neg hclose] at hstep
    exact hstep
  · have halone := alone_park hidle hseat hep hspace hpark ht
    refine tells_of_switched ?_ hsw hb ((ih t).alone halone)
    rw [hopen]
    exact fun hc => ht (Fin.ext (Option.some.inj hc).symm)

theorem tells_syscall {nr cptr method arg0 xfer rsp : BitVec 64} (hs : (kernelAfter p m₀ h).Sound)
    (ha : (kernelAfter p m₀ h).Apart)
    (hop : (kernelAfter p m₀ h).Orderly (.syscall nr cptr method arg0 xfer rsp))
    (ih : ∀ t : Fin maxTasks, Tells p m₀ (kernelAfter p m₀ h) t ((sessions p m₀).stage h t))
    (t : Fin maxTasks) :
    Tells p m₀ (kernelAfter p m₀ (.syscall nr cptr method arg0 xfer rsp :: h)) t
      ((sessions p m₀).stage (.syscall nr cptr method arg0 xfer rsp :: h) t) := by
  have hcases := (kernelAfter p m₀ h).step_syscall_cases p nr cptr method arg0 xfer rsp
  generalize hcall : (kernelAfter p m₀ h).callOf (.syscall nr cptr method arg0 xfer rsp) = call
    at hcases
  generalize hr : (kernelAfter p m₀ h).step p (.syscall nr cptr method arg0 xfer rsp) = r at hcases
  cases hcases with
  | other st reply k' hk _ =>
    exact tells_of_payload hs ha hop (by rw [hr]; exact hk.aside) (by rw [hr]) (by rw [hr]) ih t
  | refused c st k' _ _ hk =>
    exact tells_of_payload hs ha hop (by rw [hr]; exact hk.aside) (by rw [hr]) (by rw [hr]) ih t
  | met c hw r =>
    obtain ⟨t₀, hwait⟩ := hs.partner hw
    obtain ⟨s, -, -, heq⟩ := (kernelAfter p m₀ h).entered.meet_eq c
    rw [show ((kernelAfter p m₀ h).entered.endpoints c.ep).peerTask = t₀ from hwait.peer,
      Kernel.unblock, dif_pos t₀.isLt] at heq
    rw [hwait.peer] at hr
    refine tells_of_meet hs ha hop hwait ?_ (fun i hi => ?_) ?_ hr ih t
    · exact (kernelAfter p m₀ h).entered.seat_meet hwait.peer
    · show ((kernelAfter p m₀ h).entered.meet c).endpoints i = _
      rw [heq]
      exact Function.update_of_ne hi _ _
    · show ((kernelAfter p m₀ h).entered.meet c).parkedIn = _
      rw [heq]
      rfl
  | parks c hw =>
    have hsw := Kernel.switched_blockCurrent p ((kernelAfter p m₀ h).entered.setEndpoint c.ep
      (c.offer ((kernelAfter p m₀ h).endpoints c.ep))) c.side.reason c.ep rsp
    rw [← hr] at hsw
    obtain ⟨htask, hdom⟩ := Kernel.callOf_eq_some hcall
    have hentered : (kernelAfter p m₀ h).entered.Sound :=
      hs.of_aside ((kernelAfter p m₀ h).payload_setReplyCptr _).aside
    refine tells_of_park hs hcall hw ?_ ?_ ?_ ?_ ?_ hsw ih t
    · exact Kernel.seat_parkCurrent _ _ _
    · rfl
    · rfl
    · rfl
    · exact hentered.park (hs.current_ne_zero hop.1) htask hdom hw (Kernel.seat_parkCurrent _ _ _)
        rfl rfl rfl

/-- Admission leaves all sessions alone: the slot it fills was empty. -/
theorem alone_admitWith {k k₁ : Kernel μ} (hbase : ∀ t, Alone k k₁ t)
    (hempty : ∀ t, (k₁.seat t).present = false → k.parkedIn t = false)
    (p : Platform μ) (frame : Fin maxTasks → TaskFrame) (cptr domain period rel budget : ℕ)
    (t : Fin maxTasks) : Alone k (k₁.admitWith p frame cptr domain period rel budget).2 t := by
  rcases k₁.admitWith_cases p frame cptr domain period rel budget with heq |
    ⟨i, k', heq, -, habs, -, hseat, -, hpark, hep, hspace, -, -⟩
  · rw [heq]
    exact hbase t
  rw [heq]
  by_cases ht : t = i
  · subst ht
    have hout := hempty t habs
    refine ⟨fun _ _ => ?_, fun hp => ?_, fun hp => ?_, fun hp => ?_⟩
    · rw [hpark, hseat, Function.update_self, Function.update_self]
      exact ⟨rfl, rfl⟩
    all_goals cases hout.symm.trans hp
  · obtain ⟨hout, hin, hend, htab⟩ := hbase t
    have hsame : k'.seat t = k₁.seat t := by rw [hseat, Function.update_of_ne ht]
    refine ⟨?_, ?_, ?_, fun hp d hd j => ?_⟩
    · rw [hpark, Function.update_of_ne ht, hsame]
      exact hout
    · rw [hpark, Function.update_of_ne ht, hsame]
      exact hin
    · rw [hep]
      exact hend
    · rw [Kernel.slot, hspace]
      exact htab hp d hd j

/-- A task that is not there is not inside a syscall. -/
theorem Kernel.Apart.outside_of_absent {k : Kernel μ} (ha : k.Apart) {t : Fin maxTasks}
    (habs : (k.seat t).present = false) : k.parkedIn t = false := by
  by_contra hp
  cases habs.symm.trans (ha.inside t (Bool.not_eq_false _ ▸ hp)).1

/-- A fault is a switch, after a part that leaves all sessions alone. -/
theorem fault_alone (p : Platform μ) {k : Kernel μ} (hs : k.Sound) (ha : k.Apart)
    (hop : k.Orderly .fault) :
    ∃ k₁, k₁.Switched (k.step p .fault) ∧ k₁.Board ∧ ∀ t, Alone k k₁ t := by
  obtain ⟨k₁, k₂, hdrop, hsw, hk₂⟩ := hs.fault_cases p
  have hspace : k₁.space = (k.step p .fault).2.space := by
    rw [show (k.step p .fault).2.space = k₂.space from hsw.board.space]
    rcases hk₂ with rfl | ⟨-, frame, cptr, -, rfl⟩
    · rfl
    · rw [Kernel.space_admitWith]
  have hdead : ∀ t, Alone k k₁ t := by
    intro t
    refine ha.alone hs hop hspace hsw.woke (fun hp hb => ?_) (fun hp => ?_) hdrop.endpoints
    · rw [hdrop.parkedIn, hdrop.seat, Function.update_apply]
      split
      · exact ⟨hp, rfl⟩
      · exact ⟨hp, hb⟩
    · have htc : t ≠ k.current := by
        rintro rfl
        cases hs.outside.symm.trans hp
      rw [hdrop.parkedIn, hdrop.seat, Function.update_of_ne htc]
      exact ⟨hp, rfl⟩
  have hboard := hdrop.board hs (hs.current_ne_zero hop.1)
  rcases hk₂ with rfl | ⟨-, frame, cptr, -, rfl⟩
  · exact ⟨_, hsw, hboard, hdead⟩
  · refine ⟨_, hsw, hboard.admitWith p frame cptr (by decide) _ _ _,
      alone_admitWith hdead (fun u hu => ?_) p frame cptr _ _ _ _⟩
    by_cases huc : u = k.current
    · rw [huc]
      exact hs.outside
    · rw [hdrop.seat, Function.update_of_ne huc] at hu
      exact ha.outside_of_absent hu

/-- **The ledger of one step.** -/
theorem tells_step (hs : (kernelAfter p m₀ h).Sound) (ha : (kernelAfter p m₀ h).Apart)
    (hop : (kernelAfter p m₀ h).Orderly op)
    (ih : ∀ t : Fin maxTasks, Tells p m₀ (kernelAfter p m₀ h) t ((sessions p m₀).stage h t))
    (t : Fin maxTasks) :
    Tells p m₀ (kernelAfter p m₀ (op :: h)) t ((sessions p m₀).stage (op :: h) t) := by
  have hrefl : ∀ t, Alone (kernelAfter p m₀ h) (kernelAfter p m₀ h) t := fun t =>
    ⟨fun hp hb => ⟨hp, hb⟩, fun hp => ⟨hp, rfl⟩, fun _ _ _ _ => rfl, fun _ _ _ _ => rfl⟩
  have hback : op.background = true →
      Tells p m₀ (kernelAfter p m₀ (op :: h)) t ((sessions p m₀).stage (op :: h) t) := by
    intro hbg
    obtain ⟨haside, htrace⟩ := (kernelAfter p m₀ h).aside_step p hbg
    refine tells_of_alone (parks_of_free ?_) htrace (fun t => ?_) ih t
    · rw [haside.seat]
      exact hs.current_free
    · refine ha.alone hs hop rfl (by rw [htrace]) (fun hp hb => ?_) (fun hp => ?_) haside.endpoints
      · rw [haside.parkedIn, haside.seat]
        exact ⟨hp, hb⟩
      · rw [haside.parkedIn, haside.seat]
        exact ⟨hp, rfl⟩
  cases op with
  | setCurrentDomain d => exact hop.1.elim
  | admitTask entry c period rel budget =>
    exact tells_of_alone (parks_of_callOf_none rfl) rfl
      (alone_admitWith hrefl (fun _ => ha.outside_of_absent) p _ _ _ _ _ _) ih t
  | admitUser entry stackTop mem c d period rel budget =>
    exact tells_of_alone (parks_of_callOf_none rfl) rfl
      (alone_admitWith hrefl (fun _ => ha.outside_of_absent) p _ _ _ _ _ _) ih t
  | syscall nr c method arg0 xfer rsp => exact tells_syscall hs ha hop ih t
  | tick rsp =>
    have hsw := (kernelAfter p m₀ h).switched_scheduleTick p rsp hs.toRunning hs.outside
    exact tells_of_switched nofun hsw hs.toBoard (ih t)
  | fault =>
    obtain ⟨k₁, hsw, hb, halone⟩ := fault_alone p hs ha hop
    exact tells_of_switched nofun hsw hb ((ih t).alone (halone t))
  | _ => exact hback rfl

end

theorem apart_init (p : Platform μ) (m₀ : μ) : (Kernel.init p m₀).Apart where
  idle_domain := rfl
  apart := by
    intro t u hne ht hu h3
    cases (show (⟨0, 0, 0, 0, 0, 0⟩ : TaskFrame).ring3 = false by decide).symm.trans h3
  inside := nofun

/-- Runs that keep the domains of ring-3 tasks apart. -/
def OrderlyRun (p : Platform μ) (m₀ : μ) (h : List (Op μ)) : Prop :=
  Runs.Every (fun k op => (k.step p op).2) (Kernel.init p m₀) Kernel.Orderly h

theorem OrderlyRun.sound {p : Platform μ} {m₀ : μ} {h : List (Op μ)} (hrun : OrderlyRun p m₀ h) :
    (kernelAfter p m₀ h).Sound :=
  sound_after p m₀ (Runs.every_mono (fun _ _ hop => hop.1) hrun)

theorem OrderlyRun.apart {p : Platform μ} {m₀ : μ} {h : List (Op μ)} (hrun : OrderlyRun p m₀ h) :
    (kernelAfter p m₀ h).Apart := by
  induction h with
  | nil => exact apart_init p m₀
  | cons op h ih => exact Kernel.apart_step p hrun.1 (OrderlyRun.sound hrun.2) (ih hrun.2)

/-- **The ledger is right after every run.** -/
theorem tells_after {p : Platform μ} {m₀ : μ} {h : List (Op μ)} (hrun : OrderlyRun p m₀ h)
    (t : Fin maxTasks) :
    Tells p m₀ (kernelAfter p m₀ h) t ((sessions p m₀).stage h t) := by
  induction h generalizing t with
  | nil =>
    refine ⟨rfl, ?_⟩
    show ((Kernel.init p m₀).seat t).blocked = false
    rw [Kernel.seat_init]
    split <;> rfl
  | cons op h ih =>
    exact tells_step (OrderlyRun.sound hrun.2) (OrderlyRun.apart hrun.2) hrun.1 (ih hrun.2) t

end Cairn
