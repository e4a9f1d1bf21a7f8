import Cairn.Kernel.Rendezvous

/-!
# Endpoint rendezvous agreement

Every endpoint call that obtains `Ok` is one half of a rendezvous: a send and a receive on the same
endpoint, each the partner of exactly one other, that agree on the message, on the capability that
moves with it, and on the failure if it cannot move.

A call obtains its result in one of two ways: it returns at once, or it parks and the call of its
partner stages the result, which the parked task then returns with when it runs again. `Obtains`
is the union of the two, `Met` is the pairing of `sessions`, and `Delivery` says what the two
results are. The theorem is a reading of the ledger: at the call that completes a rendezvous, the
partner's session is waiting, so the endpoint still holds what the partner offered and the
sender's slot still holds what it held when the send was called.

## Main definitions

* `Obtains`, `Met`, `Delivery`, `Agreement`

## Main results

* `rendezvous_agreement` — in every run with the domains apart, the endpoints agree
-/

namespace Cairn

variable {μ : Type}

section

variable (p : Platform μ) (m₀ : μ)

/-- The endpoint call made by the step `g` obtains the result `r` in the run `h`: the step returns
with it, or a later step stages it for the parked call. -/
def Obtains (h g : List (Op μ)) (r : IpcResult) : Prop :=
  ∃ c, callAt p m₀ g = some c ∧
    (((sessions p m₀).opens g = none ∧ (traceAt p m₀ g).sysret = some (c.task, r)) ∨
      ∃ b, b <:+ h ∧ (sessions p m₀).partner b = some g ∧
        (traceAt p m₀ b).woke = some ((c.task : ℕ), r))

/-- The step `a` is an `E_SEND`. -/
def IsSend (a : List (Op μ)) : Prop :=
  ∃ c msg xfer, callAt p m₀ a = some c ∧ c.side = .send msg xfer

/-- The step `b` is an `E_RECV`. -/
def IsRecv (b : List (Op μ)) : Prop := ∃ c, callAt p m₀ b = some c ∧ c.side = .recv

/-- The send `a` and the receive `b` have met in the run `h`, whichever came first. -/
structure Met (h a b : List (Op μ)) : Prop where
  send_mem : a <:+ h
  recv_mem : b <:+ h
  send : IsSend p m₀ a
  recv : IsRecv p m₀ b
  paired : (sessions p m₀).partner a = some b ∨ (sessions p m₀).partner b = some a

/-- What the send `a` and the receive `b` of one rendezvous obtain, when the step `f` completes it:
the message and, if a slot was named, the capability it held when the send was called; or the same
error, and then no table has changed. The badge of a capability that moves is reset. -/
def Delivery (f a b : List (Op μ)) (ra rb : IpcResult) : Prop :=
  ∃ ca cb msg xfer, callAt p m₀ a = some ca ∧ callAt p m₀ b = some cb ∧
    ca.side = .send msg xfer ∧ cb.side = .recv ∧ ca.ep = cb.ep ∧ ca.task ≠ cb.task ∧
    ((ra = .refused .ok ∧ rb.status = Status.ok.code ∧ rb.reply = msg ∧
        (xfer = cptrNone → rb.replyCptr = cptrNone) ∧
        (xfer ≠ cptrNone → ∃ (i j : Fin capTableSlots) (e : CapEntry), xfer.toNat = i ∧
          rb.replyCptr.toNat = j ∧ (kernelAfter p m₀ a.tail).slot ca.domain i = some e ∧
          (kernelAfter p m₀ f).slot cb.domain j = some { e with badge := 0 })) ∨
      ∃ st, st ≠ Status.ok ∧ ra = .refused st ∧ rb = .refused st ∧
        ∀ d i, (kernelAfter p m₀ f).slot d i = (kernelAfter p m₀ f.tail).slot d i)

/-- The endpoint calls of a run agree. -/
structure Agreement (h : List (Op μ)) : Prop where
  /-- A call obtains at most one result. -/
  unique : ∀ g r r', Obtains p m₀ h g r → Obtains p m₀ h g r' → r = r'
  /-- A send that obtains `Ok` has met exactly one receive. -/
  send_ok : ∀ a r, a <:+ h → IsSend p m₀ a → Obtains p m₀ h a r → r.status = Status.ok.code →
    ∃! b, Met p m₀ h a b
  /-- A receive that obtains `Ok` has met exactly one send. -/
  recv_ok : ∀ b r, b <:+ h → IsRecv p m₀ b → Obtains p m₀ h b r → r.status = Status.ok.code →
    ∃! a, Met p m₀ h a b
  /-- Two calls that have met obtain results that agree. -/
  met : ∀ a b, Met p m₀ h a b → (∃ ra, Obtains p m₀ h a ra) ∧ (∃ rb, Obtains p m₀ h b rb) ∧
    ∃ f, (f = a ∨ f = b) ∧ ∀ ra rb, Obtains p m₀ h a ra → Obtains p m₀ h b rb →
      Delivery p m₀ f a b ra rb
  /-- A task that returns from a call it was parked in returns with what the partner of that call
  staged, and its table is still what the rendezvous left. -/
  returns : ∀ op g t r, op :: g <:+ h → (traceAt p m₀ (op :: g)).sysret = some (t, r) →
    (kernelAfter p m₀ g).parkedIn t = true →
    ∃ a b c, (sessions p m₀).stage g t = .served a b ∧ b <:+ g ∧
      (sessions p m₀).partner b = some a ∧ callAt p m₀ a = some c ∧ c.task = t ∧
      (traceAt p m₀ b).woke = some ((t : ℕ), r) ∧
      ∀ i, (kernelAfter p m₀ (op :: g)).slot c.domain i = (kernelAfter p m₀ b).slot c.domain i

end

/-! ### The call that completes a rendezvous -/

/-- Everything about the step `b` whose call `c` completes the rendezvous with the parked call `ca`
of the step `a`. -/
structure Meeting (p : Platform μ) (m₀ : μ) (b a : List (Op μ)) (c ca : Call) : Prop where
  call : callAt p m₀ b = some c
  partner : (sessions p m₀).partner b = some a
  partner_call : callAt p m₀ a = some ca
  ep : ca.ep = c.ep
  offered : ∃ w, (kernelAfter p m₀ b.tail).endpoints c.ep = ca.offer w
  awaits : ca.side.parked = c.side.awaits
  ne : ca.task ≠ c.task
  direct : (sessions p m₀).opens b = none
  woke : (traceAt p m₀ b).woke
    = some ((ca.task : ℕ), (kernelAfter p m₀ b.tail).entered.partnerResult c)
  sysret : (traceAt p m₀ b).sysret
    = some (c.task, (kernelAfter p m₀ b.tail).entered.meetResult c)
  space : (kernelAfter p m₀ b).space
    = ((kernelAfter p m₀ b.tail).entered.meetTransfer c).2.space
  table : ∀ i, (kernelAfter p m₀ b.tail).slot ca.domain i
    = (kernelAfter p m₀ a.tail).slot ca.domain i

theorem exists_meeting {p : Platform μ} {m₀ : μ} {b : List (Op μ)} (hrun : OrderlyRun p m₀ b)
    (hwoke : (traceAt p m₀ b).woke ≠ none) : ∃ a c ca, Meeting p m₀ b a c ca := by
  cases b with
  | nil => exact absurd rfl hwoke
  | cons op h =>
    have hs := OrderlyRun.sound hrun.2
    obtain ⟨⟨t, r⟩, hwoke'⟩ := Option.ne_none_iff_exists'.mp hwoke
    obtain ⟨c, u, hcall, rfl, hwait⟩ := hs.woke hwoke'
    obtain ⟨htask, hdom⟩ := Kernel.callOf_eq_some hcall
    -- the session of the partner is waiting
    obtain ⟨a, hstage, -, -, ca, w, hca, hcatask, hcadom, hep, htab⟩ :=
      (tells_after hrun.2 u).eq_waiting hwait.blocked
    -- it waits at this endpoint, since a task waits at one endpoint only
    have hca_ep : ca.ep = c.ep := by
      obtain ⟨u', hwait'⟩ := hs.waits ca.ep (by
        rw [hep, ca.offer_state]
        exact ca.side.parked_ne_idle)
      have hu : u' = u := Fin.ext (by rw [← hwait'.peer, hep, ca.offer_peerTask, hcatask])
      exact (hu ▸ hwait').unique hwait
    cases op with
    | syscall nr cptr method arg0 xfer rsp =>
      obtain ⟨c', r', hcall', hw, hres⟩ :=
        ((kernelAfter p m₀ h).syscall_cases p nr cptr method arg0 xfer rsp).eq_met hwoke
      cases hcall.symm.trans hcall'
      have hstep : (kernelAfter p m₀ h).step p (.syscall nr cptr method arg0 xfer rsp) = _ := hres
      rw [hwait.peer] at hstep
      have hseat : ((kernelAfter p m₀ h).entered.meet c).seat
          = Function.update (kernelAfter p m₀ h).seat u
            (((kernelAfter p m₀ h).seat u).wake ((kernelAfter p m₀ h).entered.partnerResult c)) :=
        (kernelAfter p m₀ h).entered.seat_meet hwait.peer
      have hne := hs.ne_current hwait.blocked
      refine ⟨a, c, ca, ?_⟩
      refine
        { call := hcall, partner := ?_, partner_call := hca, ep := hca_ep
          offered := ⟨w, hca_ep ▸ hep⟩, awaits := ?_, ne := ?_, direct := ?_, woke := ?_
          sysret := ?_, space := ?_, table := htab }
      · refine Signals.partner_eq_some.mpr ⟨u, ?_, hstage⟩
        exact congrArg (fun r => r.1.woke.map Prod.fst) hstep
      · rw [← hw, ← hca_ep, hep, ca.offer_state]
      · rw [hcatask, htask]
        exact hne
      · refine parks_of_free ?_
        rw [hstep]
        show (((kernelAfter p m₀ h).entered.meet c).seat _).blocked = false
        rw [hseat, Function.update_of_ne hne.symm]
        exact hs.current_free
      · rw [hcatask]
        exact congrArg (fun r => r.1.woke) hstep
      · rw [htask]
        exact congrArg (fun r => r.1.sysret) hstep
      · show ((kernelAfter p m₀ h).step p _).2.space = _
        rw [hstep]
        exact Kernel.space_meet _ c
    | _ => cases hcall

/-- What a transfer means for the two parties of its rendezvous. -/
theorem transfer_outcome {k : Kernel μ} {c : Call} (src dst : Fin maxDomains) (xfer : BitVec 16)
    (msg : BitVec 64) (hall : ∀ d i e, k.slot d i = some e → e.rights ≤ .all)
    (hsrc : c.sendDomain (k.endpoints c.ep) = src) (hdst : c.recvDomain (k.endpoints c.ep) = dst)
    (hx : c.xfer (k.endpoints c.ep) = xfer) :
    (senderResult (k.meetTransfer c).1 = .refused .ok ∧
        (receiverResult msg (k.meetTransfer c).1).status = Status.ok.code ∧
        (receiverResult msg (k.meetTransfer c).1).reply = msg ∧
        (xfer = cptrNone → (receiverResult msg (k.meetTransfer c).1).replyCptr = cptrNone) ∧
        (xfer ≠ cptrNone → ∃ (i j : Fin capTableSlots) (e : CapEntry), xfer.toNat = i ∧
          (receiverResult msg (k.meetTransfer c).1).replyCptr.toNat = j ∧ k.slot src i = some e ∧
          (k.meetTransfer c).2.slot dst j = some { e with badge := 0 })) ∨
      ∃ st, st ≠ Status.ok ∧ senderResult (k.meetTransfer c).1 = .refused st ∧
        receiverResult msg (k.meetTransfer c).1 = .refused st ∧
        ∀ d i, (k.meetTransfer c).2.slot d i = k.slot d i := by
  subst hx
  rcases k.meetTransfer_cases c with ⟨hnone, hres, -⟩ | ⟨st, -, hst, -, hres, hspace⟩ |
    ⟨src', dst', i, j, e, hsrc', hdst', hsome, hi, hres, hmoved⟩
  · rw [hres]
    exact Or.inl ⟨rfl, rfl, rfl, fun _ => rfl, fun h => absurd hnone h⟩
  · rw [hres]
    refine Or.inr ⟨st, hst, rfl, rfl, fun d i => ?_⟩
    rw [Kernel.slot, hspace]
    rfl
  · obtain rfl : src' = src := Fin.ext (hsrc'.trans hsrc)
    obtain rfl : dst' = dst := Fin.ext (hdst'.trans hdst)
    rw [hres]
    refine Or.inl ⟨rfl, rfl, rfl, fun h => absurd h hsome,
      fun _ => ⟨i, j, e, hi, ?_, hmoved.held, ?_⟩⟩
    · -- a slot number fits into the reply
      have hj : (j : ℕ) < 2 ^ 16 := lt_trans j.isLt (by rw [capTableSlots]; decide)
      exact (BitVec.toNat_ofNat _ _).trans (Nat.mod_eq_of_lt hj)
    · rw [← CapEntry.child_all (hall _ _ _ hmoved.held)]
      exact hmoved.slot_dst

theorem Meeting.slot_eq {p : Platform μ} {m₀ : μ} {b a : List (Op μ)} {c ca : Call}
    (hm : Meeting p m₀ b a c ca) (d : Fin maxDomains) (i : Fin capTableSlots) :
    ((kernelAfter p m₀ b.tail).entered.meetTransfer c).2.slot d i
      = (kernelAfter p m₀ b).slot d i := by
  rw [Kernel.slot, Kernel.slot, hm.space]

/-- The two results of a meeting, when the caller is the sender. -/
theorem Meeting.delivery_send {p : Platform μ} {m₀ : μ} {b a : List (Op μ)} {c ca : Call}
    (hm : Meeting p m₀ b a c ca) {msg : BitVec 64} {xfer : BitVec 16}
    (hside : c.side = .send msg xfer) :
    Delivery p m₀ b b a ((kernelAfter p m₀ b.tail).entered.meetResult c)
      ((kernelAfter p m₀ b.tail).entered.partnerResult c) := by
  have hrecv : ca.side = .recv := by
    have h := hm.awaits
    rw [hside] at h
    cases hca : ca.side with
    | recv => rfl
    | send m x =>
      rw [hca] at h
      cases h
  obtain ⟨w, hoff⟩ := hm.offered
  have hdst : c.recvDomain ((kernelAfter p m₀ b.tail).endpoints c.ep) = ca.domain := by
    rw [Call.recvDomain, hside, hoff]
    exact ca.offer_peerDomain w
  have hout := transfer_outcome (k := (kernelAfter p m₀ b.tail).entered) (c := c) c.domain
    ca.domain xfer msg (fun d i e => rights_le_all p m₀ b.tail) (by rw [Call.sendDomain, hside])
    hdst (by rw [Call.xfer, hside])
  refine ⟨c, ca, msg, xfer, hm.call, hm.partner_call, hside, hrecv, hm.ep.symm, hm.ne.symm, ?_⟩
  simp only [hm.slot_eq] at hout
  rw [Kernel.meetResult, Kernel.partnerResult, hside]
  exact hout

/-- The two results of a meeting, when the caller is the receiver. -/
theorem Meeting.delivery_recv {p : Platform μ} {m₀ : μ} {b a : List (Op μ)} {c ca : Call}
    (hm : Meeting p m₀ b a c ca) (hside : c.side = .recv) :
    Delivery p m₀ b a b ((kernelAfter p m₀ b.tail).entered.partnerResult c)
      ((kernelAfter p m₀ b.tail).entered.meetResult c) := by
  obtain ⟨msg, xfer, hsend⟩ : ∃ msg xfer, ca.side = .send msg xfer := by
    have h := hm.awaits
    rw [hside] at h
    cases hca : ca.side with
    | recv =>
      rw [hca] at h
      cases h
    | send m x => exact ⟨m, x, rfl⟩
  obtain ⟨w, hoff⟩ := hm.offered
  rw [Call.offer, hsend] at hoff
  have hout := transfer_outcome (k := (kernelAfter p m₀ b.tail).entered) (c := c) ca.domain
    c.domain xfer msg (fun d i e => rights_le_all p m₀ b.tail)
    (by rw [Call.sendDomain, hside]; exact congrArg EpSlot.peerDomain hoff)
    (by rw [Call.recvDomain, hside])
    (by rw [Call.xfer, hside]; exact congrArg EpSlot.xferCptr hoff)
  refine ⟨ca, c, msg, xfer, hm.partner_call, hm.call, hsend, hside, hm.ep, hm.ne, ?_⟩
  have hmsg : ((kernelAfter p m₀ b.tail).entered.endpoints c.ep).msg0 = msg :=
    congrArg EpSlot.msg0 hoff
  have htab : ∀ i, (kernelAfter p m₀ b.tail).entered.slot ca.domain i
      = (kernelAfter p m₀ a.tail).slot ca.domain i := hm.table
  simp only [hm.slot_eq, htab] at hout
  rw [Kernel.meetResult, Kernel.partnerResult, hside]
  dsimp only
  rw [hmsg]
  exact hout

/-! ### Agreement -/

section

variable {p : Platform μ} {m₀ : μ} {h : List (Op μ)}

theorem meeting_of_partner {a b : List (Op μ)} (hrun : OrderlyRun p m₀ b)
    (hb : (sessions p m₀).partner b = some a) : ∃ c ca, Meeting p m₀ b a c ca := by
  obtain ⟨t, hans, -⟩ := Signals.partner_eq_some.mp hb
  obtain ⟨a', c, ca, hm⟩ := exists_meeting hrun fun hnone => by
    rw [show (sessions p m₀).answers b = none from congrArg (Option.map Prod.fst) hnone] at hans
    cases hans
  cases hb.symm.trans hm.partner
  exact ⟨c, ca, hm⟩

/-- Both calls of a meeting obtain a result. -/
theorem Meeting.obtains {a b : List (Op μ)} {c ca : Call} (hm : Meeting p m₀ b a c ca)
    (hb : b <:+ h) :
    Obtains p m₀ h b ((kernelAfter p m₀ b.tail).entered.meetResult c) ∧
      Obtains p m₀ h a ((kernelAfter p m₀ b.tail).entered.partnerResult c) :=
  ⟨⟨c, hm.call, Or.inl ⟨hm.direct, hm.sysret⟩⟩,
    ⟨ca, hm.partner_call, Or.inr ⟨b, hb, hm.partner, hm.woke⟩⟩⟩

/-- Of the two calls of a meeting, one is a send and the other a receive. -/
theorem Meeting.met {a b : List (Op μ)} {c ca : Call} (hm : Meeting p m₀ b a c ca)
    (hb : b <:+ h) : Met p m₀ h b a ∨ Met p m₀ h a b := by
  obtain ⟨-, -, -, hsuf, -⟩ := Signals.partner_opens hm.partner
  have ha : a <:+ h := (hsuf.trans (List.tail_suffix b)).trans hb
  cases hside : c.side with
  | send msg xfer =>
    obtain ⟨_, cb, _, _, -, hcb, -, hrecv, -⟩ := hm.delivery_send hside
    exact Or.inl ⟨hb, ha, ⟨c, msg, xfer, hm.call, hside⟩, ⟨cb, hcb, hrecv⟩, Or.inl hm.partner⟩
  | recv =>
    obtain ⟨ca', _, msg, xfer, hca, -, hsend, -⟩ := hm.delivery_recv hside
    exact Or.inr ⟨ha, hb, ⟨ca', msg, xfer, hca, hsend⟩, ⟨c, hm.call, hside⟩, Or.inr hm.partner⟩

theorem not_isRecv_of_isSend {g : List (Op μ)} (hs : IsSend p m₀ g) : ¬IsRecv p m₀ g := by
  rintro ⟨c, hc, hrecv⟩
  obtain ⟨c', msg, xfer, hc', hsend⟩ := hs
  cases hc.symm.trans hc'
  cases hrecv.symm.trans hsend

/-- A call is paired with at most one other. -/
theorem paired_unique (hrun : OrderlyRun p m₀ h) {g x y : List (Op μ)} (hg : g <:+ h)
    (hx : x <:+ h) (hy : y <:+ h)
    (hgx : (sessions p m₀).partner g = some x ∨ (sessions p m₀).partner x = some g)
    (hgy : (sessions p m₀).partner g = some y ∨ (sessions p m₀).partner y = some g) : x = y := by
  -- a call that completes a rendezvous has not parked
  have hexcl : ∀ x y : List (Op μ), (sessions p m₀).partner g = some x →
      (sessions p m₀).partner y ≠ some g := by
    intro x y hgx hyg
    obtain ⟨c, ca, hm⟩ := meeting_of_partner (Runs.every_of_suffix hg hrun) hgx
    obtain ⟨t, -, hopen, -⟩ := Signals.partner_opens hyg
    cases hm.direct.symm.trans hopen
  rcases hgx with hgx | hgx <;> rcases hgy with hgy | hgy
  · exact Option.some.inj (hgx.symm.trans hgy)
  · exact absurd hgy (hexcl x y hgx)
  · exact absurd hgx (hexcl y x hgy)
  · exact Signals.partner_unique hx hy hgx hgy

/-- A call obtains at most one result. -/
theorem obtains_unique {g : List (Op μ)} {r r' : IpcResult}
    (hr : Obtains p m₀ h g r) (hr' : Obtains p m₀ h g r') : r = r' := by
  obtain ⟨c, hcall, hr⟩ := hr
  obtain ⟨c', hcall', hr'⟩ := hr'
  cases hcall.symm.trans hcall'
  -- a call that returns at once has not opened a session
  have hexcl : ∀ b : List (Op μ), (sessions p m₀).opens g = none →
      (sessions p m₀).partner b ≠ some g := by
    intro b hnone hb
    obtain ⟨t, -, hopen, -⟩ := Signals.partner_opens hb
    cases hnone.symm.trans hopen
  rcases hr with ⟨hnone, hret⟩ | ⟨b, hb, hpb, hw⟩
  · rcases hr' with ⟨-, hret'⟩ | ⟨b', -, hpb', -⟩
    · cases hret.symm.trans hret'
      rfl
    · exact absurd hpb' (hexcl b' hnone)
  · rcases hr' with ⟨hnone', -⟩ | ⟨b', hb', hpb', hw'⟩
    · exact absurd hpb (hexcl b hnone')
    · cases Signals.partner_unique hb hb' hpb hpb'
      cases hw.symm.trans hw'
      rfl

/-- A call that returns `Ok` at once has completed a rendezvous. -/
theorem exists_meeting_of_ok {g : List (Op μ)} (hrun : OrderlyRun p m₀ g) {c : Call}
    {r : IpcResult} (hcall : callAt p m₀ g = some c) (hopen : (sessions p m₀).opens g = none)
    (hret : (traceAt p m₀ g).sysret = some (c.task, r)) (hok : r.status = Status.ok.code) :
    ∃ a c ca, Meeting p m₀ g a c ca := by
  cases g with
  | nil => cases hcall
  | cons op h =>
    refine exists_meeting hrun fun hwoke => ?_
    cases op with
    | syscall nr cptr method arg0 xfer rsp =>
      have hcases := (kernelAfter p m₀ h).step_syscall_cases p nr cptr method arg0 xfer rsp
      rw [show (kernelAfter p m₀ h).callOf (.syscall nr cptr method arg0 xfer rsp) = some c
        from hcall] at hcases
      rw [traceAt] at hret hwoke
      generalize hr : (kernelAfter p m₀ h).step p (.syscall nr cptr method arg0 xfer rsp) = res
        at hcases hret hwoke
      cases hcases with
      | refused c st k' hst htype hk =>
        obtain ⟨-, rfl⟩ := Prod.mk.inj (Option.some.inj hret)
        exact hst (Status.code_injective hok)
      | met c hw r => cases hwoke
      | parks c hw =>
        -- the caller has parked, so it cannot have returned
        have hsw := Kernel.switched_blockCurrent p ((kernelAfter p m₀ h).entered.setEndpoint c.ep
          (c.offer ((kernelAfter p m₀ h).endpoints c.ep))) c.side.reason c.ep rsp
        rw [← hr] at hsw
        have hpark : (kernelAfter p m₀ h).parks p (.syscall nr cptr method arg0 xfer rsp)
            = some ((kernelAfter p m₀ h).current : ℕ) := by
          refine parks_of_blocked hcall ?_
          rw [hsw.board.seat]
          exact Kernel.blocked_parkCurrent _ _ _
        cases hopen.symm.trans hpark
    | _ => cases hcall

/-- A call that obtains `Ok` is paired. -/
theorem exists_met_of_ok (hrun : OrderlyRun p m₀ h) {g : List (Op μ)} (hg : g <:+ h)
    {r : IpcResult} (hobt : Obtains p m₀ h g r) (hok : r.status = Status.ok.code) :
    ∃ g', Met p m₀ h g g' ∨ Met p m₀ h g' g := by
  obtain ⟨c, hcall, ⟨hopen, hret⟩ | ⟨b, hb, hpb, -⟩⟩ := hobt
  · obtain ⟨a, _, _, hm⟩ :=
      exists_meeting_of_ok (Runs.every_of_suffix hg hrun) hcall hopen hret hok
    exact ⟨a, hm.met hg⟩
  · obtain ⟨_, _, hm⟩ := meeting_of_partner (Runs.every_of_suffix hb hrun) hpb
    exact ⟨b, (hm.met hb).symm⟩

/-- Two calls that have met obtain results that agree. -/
theorem Met.delivery (hrun : OrderlyRun p m₀ h) {a b : List (Op μ)} (hm : Met p m₀ h a b) :
    ∃ f ra rb, (f = a ∨ f = b) ∧ Obtains p m₀ h a ra ∧ Obtains p m₀ h b rb ∧
      Delivery p m₀ f a b ra rb := by
  obtain ⟨ha, hb, hsend, hrecv, hpair | hpair⟩ := hm
  · obtain ⟨c, ca, hmeet⟩ := meeting_of_partner (Runs.every_of_suffix ha hrun) hpair
    obtain ⟨c', msg, xfer, hc', hside⟩ := hsend
    cases hmeet.call.symm.trans hc'
    exact ⟨a, _, _, Or.inl rfl, (hmeet.obtains ha).1, (hmeet.obtains ha).2,
      hmeet.delivery_send hside⟩
  · obtain ⟨c, ca, hmeet⟩ := meeting_of_partner (Runs.every_of_suffix hb hrun) hpair
    obtain ⟨c', hc', hside⟩ := hrecv
    cases hmeet.call.symm.trans hc'
    exact ⟨b, _, _, Or.inr rfl, (hmeet.obtains hb).2, (hmeet.obtains hb).1,
      hmeet.delivery_recv hside⟩

/-- A switch resumes a task that nobody has touched with the result staged for it. -/
theorem resumed_of_switched {k k₁ : Kernel μ} {r : Trace × Kernel μ} (hsw : k₁.Switched r)
    (hb : k₁.Board) {t : Fin maxTasks} (ht : k₁.seat t = k.seat t) {res : IpcResult}
    (hret : r.1.sysret = some (t, res)) :
    (k.seat t).blocked = false ∧ res = (k.seat t).ipc ∧ r.1.woke = none := by
  have hfree := (hb.sound_of_switched hsw).current_free
  rw [hsw.sysret] at hret
  split at hret
  · obtain ⟨hcur, rfl⟩ := Prod.mk.inj (Option.some.inj hret)
    rw [hsw.board.seat, hcur, ht] at hfree
    exact ⟨hfree, by rw [hcur, ht], hsw.woke⟩
  · cases hret

/-- A task that returns from the middle of a syscall has been woken, and returns with the result
staged for it. -/
theorem resumed {k : Kernel μ} {op : Op μ} (hs : k.Sound) (ha : k.Apart) (hop : k.Orderly op)
    {t : Fin maxTasks} (ht : k.parkedIn t = true) {r : IpcResult}
    (hret : (k.step p op).1.sysret = some (t, r)) :
    (k.seat t).blocked = false ∧ r = (k.seat t).ipc ∧ (k.step p op).1.woke = none := by
  have htc : t ≠ k.current := by
    rintro rfl
    cases hs.outside.symm.trans ht
  have hback : op.background = true → False := by
    intro hbg
    rw [(k.aside_step p hbg).2] at hret
    cases hret
  cases op with
  | setCurrentDomain d => cases hret
  | admitTask entry c period rel budget => cases hret
  | admitUser entry stackTop mem c d period rel budget => cases hret
  | tick rsp =>
    exact resumed_of_switched (k.switched_scheduleTick p rsp hs.toRunning hs.outside) hs.toBoard rfl
      hret
  | fault =>
    obtain ⟨k₁, hsw, hb, halone⟩ := fault_alone p hs ha hop
    exact resumed_of_switched hsw hb ((halone t).inside ht).2 hret
  | syscall nr cptr method arg0 xfer rsp =>
    have hcases := k.step_syscall_cases p nr cptr method arg0 xfer rsp
    generalize hcall : k.callOf (.syscall nr cptr method arg0 xfer rsp) = call at hcases
    generalize hr : k.step p (.syscall nr cptr method arg0 xfer rsp) = res at hcases hret
    -- a syscall that returns at once returns to the task that made it
    cases hcases with
    | other st reply k' hk _ => exact absurd (Prod.mk.inj (Option.some.inj hret)).1.symm htc
    | refused c st k' _ _ hk => exact absurd (Prod.mk.inj (Option.some.inj hret)).1.symm htc
    | met c hw r' => exact absurd (Prod.mk.inj (Option.some.inj hret)).1.symm htc
    | parks c hw =>
      obtain ⟨htask, hdom⟩ := Kernel.callOf_eq_some hcall
      have hentered : k.entered.Sound := hs.of_aside (k.payload_setReplyCptr _).aside
      refine resumed_of_switched (Kernel.switched_blockCurrent p _ _ _ _) ?_ ?_ hret
      · exact hentered.park (hs.current_ne_zero hop.1) htask hdom hw
          (Kernel.seat_parkCurrent _ _ _) rfl rfl rfl
      · exact (congrFun (Kernel.seat_parkCurrent _ _ _) t).trans (Function.update_of_ne htc _ _)
  | _ => exact (hback rfl).elim

end

/-- **Endpoint rendezvous agreement.** In every run of syscalls, ticks, faults, restarts and
boot-time calls in any order, in which ring-3 tasks have domains of their own, the endpoint calls
agree: `Ok` results come in pairs of one send and one receive on the same endpoint, with the
message and the capability of the send; a transfer that fails gives both the same error; and a
parked task returns with what its own partner staged. -/
theorem rendezvous_agreement (p : Platform μ) (m₀ : μ) {h : List (Op μ)}
    (hrun : OrderlyRun p m₀ h) : Agreement p m₀ h where
  unique := fun g r r' => obtains_unique
  send_ok := by
    intro a r ha hsend hobt hok
    obtain ⟨b, hm | hm⟩ := exists_met_of_ok hrun ha hobt hok
    · exact ⟨b, hm, fun b' hm' =>
        paired_unique hrun ha hm'.recv_mem hm.recv_mem hm'.paired hm.paired⟩
    · exact absurd hm.recv (not_isRecv_of_isSend hsend)
  recv_ok := by
    intro b r hb hrecv hobt hok
    obtain ⟨a, hm | hm⟩ := exists_met_of_ok hrun hb hobt hok
    · exact absurd hrecv (not_isRecv_of_isSend hm.send)
    · exact ⟨a, hm, fun a' hm' =>
        paired_unique hrun hb hm'.send_mem hm.send_mem hm'.paired.symm hm.paired.symm⟩
  met := by
    intro a b hm
    obtain ⟨f, ra, rb, hf, hra, hrb, hdel⟩ := hm.delivery hrun
    refine ⟨⟨ra, hra⟩, ⟨rb, hrb⟩, f, hf, fun ra' rb' hra' hrb' => ?_⟩
    cases obtains_unique hra hra'
    cases obtains_unique hrb hrb'
    exact hdel
  returns := by
    intro op g t r hg hret ht
    have hrun' : OrderlyRun p m₀ (op :: g) := Runs.every_of_suffix hg hrun
    have hs := OrderlyRun.sound hrun'.2
    have ha := OrderlyRun.apart hrun'.2
    obtain ⟨hfree, rfl, hwoke⟩ := resumed hs ha hrun'.1 ht hret
    have htells := tells_after hrun'.2 t
    cases hstage : (sessions p m₀).stage g t with
    | out =>
      rw [hstage] at htells
      cases htells.1.symm.trans ht
    | waiting a =>
      rw [hstage] at htells
      cases htells.blocked.symm.trans hfree
    | served a b =>
      rw [hstage] at htells
      obtain ⟨-, -, hstaged, c, hcall, htask, hdom, htab⟩ := htells
      obtain ⟨hb, -, hpartner⟩ := Signals.stage_served hstage
      refine ⟨a, b, c, rfl, hb, hpartner, hcall, htask, hstaged, fun i => ?_⟩
      rw [← htab i]
      refine ha.slot_inside hs hrun'.1 ht (fun r => ?_) hdom i
      rw [hwoke]
      exact nofun

/-- Two ring-3 tasks in domains 1 and 2. The first sends a message and its capability in slot 1,
and parks; the second receives both; the first runs again and returns. -/
def exchangeRun : List (Op Unit) :=
  [.tick 0x200, .syscall 1 0 2 0 0xffff 0x300, .syscall 1 0 1 42 1 0x300, .tick 0x100,
    .admitUser 0 0 0 2 2 1000000 2000000 0, .admitUser 0 0 0 2 1 1000000 1000000 0,
    .mintTimeslice, .delegateFromRoot 1 1 (.union .invoke .delegate) 7,
    .delegateFromRoot 2 0 .invoke 0, .delegateFromRoot 1 0 (.union .invoke .grantCap) 0,
    .createNotification, .createEndpoint]

theorem orderly_exchangeRun : OrderlyRun bareMachine () exchangeRun := by
  refine ⟨⟨trivial, trivial⟩, ⟨?_, trivial⟩, ⟨?_, trivial⟩, ⟨trivial, trivial⟩, ⟨?_, ?_⟩, ⟨?_, ?_⟩,
    ⟨trivial, trivial⟩, ⟨trivial, ?_⟩, ⟨trivial, ?_⟩, ⟨trivial, ?_⟩, ⟨trivial, trivial⟩,
    ⟨trivial, trivial⟩, trivial⟩
  · show TaskFrame.ring3 _ = true
    decide +kernel
  · show TaskFrame.ring3 _ = true
    decide +kernel
  · show 2 < maxDomains
    decide
  · show ∀ t : Fin maxTasks, _ → _
    decide +kernel
  · show 1 < maxDomains
    decide
  · show ∀ t : Fin maxTasks, _ → _
    decide +kernel
  · show ∀ t : Fin maxTasks, _ → _
    decide +kernel
  · show ∀ t : Fin maxTasks, _ → _
    decide +kernel
  · show ∀ t : Fin maxTasks, _ → _
    decide +kernel

theorem rendezvous_agreement_exchange :
    ((traceAt bareMachine () exchangeRun).sysret = some (1, .refused .ok) ∧
      (traceAt bareMachine () exchangeRun.tail).sysret = some (2, ⟨Status.ok.code, 42, 1⟩)) ∧
      Agreement bareMachine () exchangeRun :=
  ⟨by decide +kernel, rendezvous_agreement bareMachine () orderly_exchangeRun⟩

end Cairn
