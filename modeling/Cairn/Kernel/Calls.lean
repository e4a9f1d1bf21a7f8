import Cairn.Kernel.Background

/-!
# Endpoint calls

`ep_send` and `ep_recv` are mirror images: a call finds its partner parked and completes the
rendezvous, or finds the endpoint idle and parks, or is refused. Here both are one notion of
`Call` with two sides, and a syscall is inverted once into the four things it can be: not an
endpoint call, a refused one, one that meets a parked partner, and one that parks.

## Main definitions

* `Call`, `Kernel.callOf` — the endpoint call an operation makes, if any
* `Kernel.meet` — the rendezvous of a call with the partner parked at its endpoint
* `Call.offer` — what a parking call writes into its endpoint

## Main results

* `Kernel.exists_route` — the ways through `syscall_dispatch`
* `Kernel.syscall_cases` — what a syscall can be
* `Kernel.syscall_induction` — the same for statements about the state alone
* `Kernel.transfer_cases` — what the transfer of a rendezvous can do to the tables
-/

namespace Cairn

/-- Which end of the channel a call is, with what a sender brings. -/
inductive Side
  | send (msg : BitVec 64) (xfer : BitVec 16)
  | recv
  deriving DecidableEq, Repr

/-- The endpoint state in which a call of this side is parked. -/
def Side.parked : Side → EpState
  | .send _ _ => .sendWait
  | .recv => .recvWait

/-- The endpoint state in which a call of this side finds its partner. -/
def Side.awaits : Side → EpState
  | .send _ _ => .recvWait
  | .recv => .sendWait

/-- The reason recorded for a parked call. -/
def Side.reason : Side → ℕ
  | .send _ _ => blockSend
  | .recv => blockRecv

/-- The reason recorded for a task parked at an endpoint in this state. -/
def EpState.reason : EpState → ℕ
  | .idle => 0
  | .sendWait => blockSend
  | .recvWait => blockRecv

theorem Side.parked_ne_idle (s : Side) : s.parked ≠ .idle := by cases s <;> exact nofun

theorem Side.awaits_ne_idle (s : Side) : s.awaits ≠ .idle := by cases s <;> exact nofun

theorem Side.reason_parked (s : Side) : s.parked.reason = s.reason := by cases s <;> rfl

/-- An `E_SEND` or `E_RECV` on an endpoint. -/
structure Call where
  task : Fin maxTasks
  domain : Fin maxDomains
  ep : Fin objectTableSize
  side : Side
  deriving DecidableEq

namespace Call

/-- What a parking call writes into its endpoint. A receiver leaves the sender's two fields as
they were. -/
def offer (c : Call) (w : EpSlot) : EpSlot :=
  match c.side with
  | .send msg xfer => ⟨.sendWait, c.task, c.domain, msg, xfer⟩
  | .recv => { w with state := .recvWait, peerTask := c.task, peerDomain := c.domain }

variable (c : Call) (w : EpSlot)

theorem offer_state : (c.offer w).state = c.side.parked := by
  rw [offer]
  cases c.side <;> rfl

theorem offer_peerTask : (c.offer w).peerTask = c.task := by
  rw [offer]
  cases c.side <;> rfl

theorem offer_peerDomain : (c.offer w).peerDomain = c.domain := by
  rw [offer]
  cases c.side <;> rfl

/-- The sender's domain, when `c` meets the partner parked in `w`. -/
def sendDomain : ℕ :=
  match c.side with
  | .send _ _ => c.domain
  | .recv => w.peerDomain

/-- The receiver's domain. -/
def recvDomain : ℕ :=
  match c.side with
  | .send _ _ => w.peerDomain
  | .recv => c.domain

/-- The slot the sender named. -/
def xfer : BitVec 16 :=
  match c.side with
  | .send _ x => x
  | .recv => w.xferCptr

/-- The two domains of a rendezvous are the caller's and the partner's. -/
theorem domain_cases {d : ℕ} (h : d = c.sendDomain w ∨ d = c.recvDomain w) :
    d = c.domain ∨ d = w.peerDomain := by
  rw [sendDomain, recvDomain] at h
  cases hs : c.side <;> simp only [hs] at h
  · exact h
  · exact h.symm

end Call

/-- What the sender of a rendezvous obtains. -/
def senderResult : Except Status (BitVec 16) → IpcResult
  | .ok _ => .refused .ok
  | .error st => .refused st

/-- What the receiver of a rendezvous obtains. -/
def receiverResult (msg : BitVec 64) : Except Status (BitVec 16) → IpcResult
  | .ok c => ⟨Status.ok.code, msg, c⟩
  | .error st => .refused st

namespace Kernel

variable {μ : Type}

/-- The endpoint call an operation makes. -/
def callOf (k : Kernel μ) : Op μ → Option Call
  | .syscall nr cptr method arg0 xfer _ =>
    if nr ≠ 1 ∨ 0xffff < cptr ∨ 0xffff < method ∨ 0xffff < xfer then none
    else
      match k.resolve k.domainOf (cptr.setWidth 16) (method.setWidth 16) with
      | .error _ => none
      | .ok e =>
        if e.typeTag = .endpoint ∧ method.setWidth 16 = eSend then
          if h : e.objectId < objectTableSize then
            some ⟨k.current, k.domainOf, ⟨e.objectId, h⟩, .send arg0 (xfer.setWidth 16)⟩
          else none
        else if e.typeTag = .endpoint ∧ method.setWidth 16 = eRecv then
          if h : e.objectId < objectTableSize then
            some ⟨k.current, k.domainOf, ⟨e.objectId, h⟩, .recv⟩
          else none
        else none
  | _ => none

/-- The transfer of the rendezvous of a call with the partner parked at its endpoint. -/
def meetTransfer (k : Kernel μ) (c : Call) : Except Status (BitVec 16) × Kernel μ :=
  let w := k.endpoints c.ep
  (k.setEndpoint c.ep { w with state := .idle }).transfer (c.sendDomain w) (c.xfer w)
    (c.recvDomain w)

/-- What a call obtains when it meets its partner. -/
def meetResult (k : Kernel μ) (c : Call) : IpcResult :=
  match c.side with
  | .send _ _ => senderResult (k.meetTransfer c).1
  | .recv => receiverResult (k.endpoints c.ep).msg0 (k.meetTransfer c).1

/-- What the parked partner obtains. -/
def partnerResult (k : Kernel μ) (c : Call) : IpcResult :=
  match c.side with
  | .send msg _ => receiverResult msg (k.meetTransfer c).1
  | .recv => senderResult (k.meetTransfer c).1

/-- The rendezvous of a call with the partner parked at its endpoint. -/
def meet (k : Kernel μ) (c : Call) : Kernel μ :=
  (k.meetTransfer c).2.unblock (k.endpoints c.ep).peerTask (k.partnerResult c)

/-- When the transfer fails, both parties obtain its error. -/
theorem meet_of_error {k : Kernel μ} {c : Call} {st : Status}
    (h : (k.meetTransfer c).1 = .error st) :
    k.meetResult c = .refused st ∧ k.partnerResult c = .refused st := by
  rw [meetResult, partnerResult, h]
  cases c.side <;> exact ⟨rfl, rfl⟩

/-- What `cap_invoke_ipc` does for an endpoint call. -/
inductive Answers (k : Kernel μ) (c : Call) : Reply × Kernel μ → Prop
  | refused (st : Status) (hst : st ≠ .ok) (htype : st ≠ .errType) :
    Answers k c (.done none (.refused st), k)
  | met (hw : (k.endpoints c.ep).state = c.side.awaits) :
    Answers k c (.done (some ((k.endpoints c.ep).peerTask, k.partnerResult c)) (k.meetResult c),
      k.meet c)
  | parks (hw : (k.endpoints c.ep).state = .idle) :
    Answers k c (.park c.side.reason c.ep, k.setEndpoint c.ep (c.offer (k.endpoints c.ep)))

theorem Answers.of_send {k : Kernel μ} {c : Call} {msg : BitVec 64} {xfer : BitVec 16}
    (hside : c.side = .send msg xfer) (hw : (k.endpoints c.ep).state = .recvWait)
    {res : Except Status (BitVec 16)} {k' : Kernel μ} (h : k.meetTransfer c = (res, k')) :
    Answers k c (.done (some ((k.endpoints c.ep).peerTask, receiverResult msg res))
      (senderResult res), k'.unblock (k.endpoints c.ep).peerTask (receiverResult msg res)) := by
  have hmet := Answers.met (k := k) (c := c) (by rw [hw, hside]; rfl)
  simpa only [meet, partnerResult, meetResult, hside, h] using hmet

theorem Answers.of_recv {k : Kernel μ} {c : Call} (hside : c.side = .recv)
    (hw : (k.endpoints c.ep).state = .sendWait)
    {res : Except Status (BitVec 16)} {k' : Kernel μ} (h : k.meetTransfer c = (res, k')) :
    Answers k c (.done (some ((k.endpoints c.ep).peerTask, senderResult res))
      (receiverResult (k.endpoints c.ep).msg0 res),
      k'.unblock (k.endpoints c.ep).peerTask (senderResult res)) := by
  have hmet := Answers.met (k := k) (c := c) (by rw [hw, hside]; rfl)
  simpa only [meet, partnerResult, meetResult, hside, h] using hmet

theorem answers_epSend (k : Kernel μ) (i : Fin objectTableSize) (msg : BitVec 64)
    (xfer : BitVec 16) (rights : Rights) :
    Answers k ⟨k.current, k.domainOf, i, .send msg xfer⟩
      (k.epSend k.domainOf i msg xfer rights) := by
  rw [epSend, dif_pos i.isLt]
  split
  · exact .refused .errRights (by decide) (by decide)
  split
  · exact .refused .errBadCPtr (by decide) (by decide)
  dsimp only
  split
  · rename_i hw
    split
    · rename_i htr
      exact Answers.of_send (k := k) (c := ⟨_, _, i, .send msg xfer⟩) rfl hw htr
    · rename_i htr
      exact Answers.of_send (k := k) (c := ⟨_, _, i, .send msg xfer⟩) rfl hw htr
  · exact .refused .errRights (by decide) (by decide)
  · rename_i hw
    exact .parks hw

theorem answers_epRecv (k : Kernel μ) (i : Fin objectTableSize) :
    Answers k ⟨k.current, k.domainOf, i, .recv⟩ (k.epRecv k.domainOf i) := by
  rw [epRecv, dif_pos i.isLt]
  dsimp only
  split
  · rename_i hw
    split
    · rename_i htr
      exact Answers.of_recv (k := k) (c := ⟨_, _, i, .recv⟩) rfl hw htr
    · rename_i htr
      exact Answers.of_recv (k := k) (c := ⟨_, _, i, .recv⟩) rfl hw htr
  · exact .refused .errRights (by decide) (by decide)
  · rename_i hw
    exact .parks hw

/-! ### The transfer of a capability -/

end Kernel

/-- The entry `e` has moved from slot `i` of `src` to the free slot `j` of `dst`, with its badge
reset, and no other slot has changed. -/
structure Space.Moved (s s' : Space (Fin maxDomains)) (src : Fin maxDomains)
    (i : Fin capTableSlots) (dst : Fin maxDomains) (j : Fin capTableSlots) (e : CapEntry) :
    Prop where
  ne : src ≠ dst
  held : s.slot src i = some e
  delegable : e.rights.contains .delegate = true
  live : e.check s.objects = .ok
  free : s.slot dst j = none
  objects : s'.objects = s.objects
  slots : ∀ d c, s'.slot d c = if d = src ∧ c = i then none
    else if d = dst ∧ c = j then some (e.child .all 0) else s.slot d c

namespace Space.Moved

variable {s s' : Space (Fin maxDomains)} {src dst : Fin maxDomains} {i j : Fin capTableSlots}
  {e : CapEntry}

theorem slot_src (h : s.Moved s' src i dst j e) : s'.slot src i = none :=
  (h.slots _ _).trans (if_pos ⟨rfl, rfl⟩)

theorem slot_dst (h : s.Moved s' src i dst j e) : s'.slot dst j = some (e.child .all 0) :=
  (h.slots _ _).trans ((if_neg fun hc => h.ne hc.1.symm).trans (if_pos ⟨rfl, rfl⟩))

end Space.Moved

/-- A transfer masks with every right, so it only resets the badge. -/
theorem CapEntry.child_all {e : CapEntry} (hall : e.rights ≤ .all) :
    e.child .all 0 = { e with badge := 0 } := by
  rw [CapEntry.child, Rights.inter_eq_left hall]

/-- A delegation fails with an error status, and with `ErrType` only if the check of the entry
does. -/
theorem CapTable.delegate_eq_error {src dst : CapTable} {ot : ObjectTable} {c : ℕ} {mask : Rights}
    {b : BitVec 16} {st : Status} (h : src.delegate ot c mask b dst = .error st) :
    st ≠ .ok ∧ (st = .errType → ∃ e, src.entryAt c = some e ∧ e.check ot = .errType) := by
  cases he : src.entryAt c with
  | none =>
    rw [delegate, he] at h
    cases h
    refine ⟨by decide, fun htype => ?_⟩
    cases htype
  | some e =>
    rw [delegate_of_entryAt he] at h
    split at h
    · split at h
      · split at h
        · cases h
        · cases h
          refine ⟨by decide, fun htype => ?_⟩
          cases htype
      · rename_i hcheck
        cases h
        exact ⟨hcheck, fun htype => ⟨e, rfl, htype⟩⟩
    · cases h
      refine ⟨by decide, fun htype => ?_⟩
      cases htype

namespace Kernel

variable {μ : Type}

/-- **What a transfer can do.** Nothing was asked for; or it fails and changes nothing; or one
entry moves. -/
theorem transfer_cases (k : Kernel μ) (src : ℕ) (xfer : BitVec 16) (dst : ℕ) :
    (xfer = cptrNone ∧ k.transfer src xfer dst = (.ok cptrNone, k)) ∨
      (∃ st, xfer ≠ cptrNone ∧ st ≠ .ok ∧
        (st = .errType → ∃ d i e, k.slot d i = some e ∧ e.check k.space.objects = .errType) ∧
        k.transfer src xfer dst = (.error st, k)) ∨
      ∃ (hsrc : src < maxDomains) (hdst : dst < maxDomains) (i j : Fin capTableSlots)
        (e : CapEntry) (s : Space (Fin maxDomains)), xfer ≠ cptrNone ∧ xfer.toNat = i ∧
        k.transfer src xfer dst = (.ok (.ofNat 16 j), { k with space := s }) ∧
        k.space.Moved s ⟨src, hsrc⟩ i ⟨dst, hdst⟩ j e := by
  rw [transfer]
  by_cases hx : xfer = cptrNone
  · exact Or.inl ⟨hx, if_neg (not_not.mpr hx)⟩
  rw [if_pos hx, doCapTransfer]
  refine Or.inr ?_
  by_cases hdom : src ≠ dst ∧ src < maxDomains ∧ dst < maxDomains
  · rw [dif_pos hdom]
    obtain ⟨hne, hsrc, hdst⟩ := hdom
    cases hdel : (k.space.tables ⟨src, hsrc⟩).delegate k.space.objects xfer.toNat .all 0
        (k.space.tables ⟨dst, hdst⟩) with
    | error st =>
      obtain ⟨hst, htype⟩ := CapTable.delegate_eq_error hdel
      refine Or.inl ⟨st, hx, hst, fun h => ?_, rfl⟩
      obtain ⟨e, he, hcheck⟩ := htype h
      obtain ⟨hc, hslot⟩ := CapTable.entryAt_eq_some_iff.mp he
      exact ⟨_, _, e, hslot, hcheck⟩
    | ok r =>
      obtain ⟨j, table⟩ := r
      obtain ⟨e, he, hdelg, hcheck, hfree, rfl⟩ := CapTable.delegate_eq_ok_iff.mp hdel
      obtain ⟨hc, hslot⟩ := CapTable.entryAt_eq_some_iff.mp he
      have hi : Fin.ofNat capTableSlots xfer.toNat = ⟨xfer.toNat, hc⟩ :=
        Fin.ext (Nat.mod_eq_of_lt hc)
      have hsd : (⟨src, hsrc⟩ : Fin maxDomains) ≠ ⟨dst, hdst⟩ := fun h => hne (Fin.mk.inj h)
      refine Or.inr ⟨hsrc, hdst, ⟨xfer.toNat, hc⟩, j, e, _, hx, rfl, rfl, hsd, hslot, hdelg,
        hcheck, CapTable.freeSlot_eq_some hfree, rfl, fun d c => ?_⟩
      rw [hi]
      simp only [Space.slot_setTable, Space.slots_set]
      by_cases hd : d = ⟨src, hsrc⟩
      · subst hd
        by_cases hc' : c = ⟨xfer.toNat, hc⟩ <;> simp [hc', hsd, Space.setTable, Space.slot]
      · by_cases hd' : d = ⟨dst, hdst⟩
        · subst hd'
          simp [hne.symm, Space.slot]
        · simp [hd, hd']
  · rw [dif_neg hdom]
    refine Or.inl ⟨.errBadCPtr, hx, by decide, fun htype => ?_, rfl⟩
    cases htype

/-- **What the transfer of a rendezvous can do**, in the words of the two parties. -/
theorem meetTransfer_cases (k : Kernel μ) (c : Call) :
    (c.xfer (k.endpoints c.ep) = cptrNone ∧ (k.meetTransfer c).1 = .ok cptrNone ∧
        (k.meetTransfer c).2.space = k.space) ∨
      (∃ st, c.xfer (k.endpoints c.ep) ≠ cptrNone ∧ st ≠ .ok ∧
        (st = .errType → ∃ d i e, k.slot d i = some e ∧ e.check k.space.objects = .errType) ∧
        (k.meetTransfer c).1 = .error st ∧ (k.meetTransfer c).2.space = k.space) ∨
      ∃ (src dst : Fin maxDomains) (i j : Fin capTableSlots) (e : CapEntry),
        (src : ℕ) = c.sendDomain (k.endpoints c.ep) ∧
        (dst : ℕ) = c.recvDomain (k.endpoints c.ep) ∧
        c.xfer (k.endpoints c.ep) ≠ cptrNone ∧ (c.xfer (k.endpoints c.ep)).toNat = i ∧
        (k.meetTransfer c).1 = .ok (.ofNat 16 j) ∧
        k.space.Moved (k.meetTransfer c).2.space src i dst j e := by
  rcases (k.setEndpoint c.ep { k.endpoints c.ep with state := .idle }).transfer_cases
    (c.sendDomain (k.endpoints c.ep)) (c.xfer (k.endpoints c.ep))
    (c.recvDomain (k.endpoints c.ep)) with ⟨hx, heq⟩ | ⟨st, hx, hst, htype, heq⟩ |
      ⟨hsrc, hdst, i, j, e, s, hx, hi, heq, hmoved⟩
  · exact Or.inl ⟨hx, congrArg Prod.fst heq, congrArg (·.2.space) heq⟩
  · exact Or.inr (Or.inl ⟨st, hx, hst, htype, congrArg Prod.fst heq, congrArg (·.2.space) heq⟩)
  · obtain rfl : (k.meetTransfer c).2.space = s := congrArg (·.2.space) heq
    exact Or.inr (Or.inr ⟨⟨_, hsrc⟩, ⟨_, hdst⟩, i, j, e, rfl, rfl, hx, hi, congrArg Prod.fst heq,
      hmoved⟩)

/-! ### Inverting a syscall -/

/-- The state in which `cap_invoke_ipc` is called. -/
def entered (k : Kernel μ) : Kernel μ := k.setReplyCptr cptrNone

theorem payload_setReplyCptr (k : Kernel μ) (c : BitVec 16) : PayloadOnly k (k.setReplyCptr c) :=
  ⟨_, _, _, _, rfl⟩

/-- **The ways through `syscall_dispatch` and `cap_invoke_ipc`**, in the order of their tests, each
with the answer it ends in. -/
inductive Route (p : Platform μ) (k : Kernel μ) (nr cptr method arg0 xfer : BitVec 64) :
    Reply × Kernel μ → Prop
  | malformed (st : Status) (hst : st = .errMethod ∨ st = .errBadCPtr)
      (bad : nr ≠ 1 ∨ 0xffff < cptr ∨ 0xffff < method ∨ 0xffff < xfer) :
    Route p k nr cptr method arg0 xfer (.done none (.refused st), k.entered)
  | unresolved (st : Status) (good : ¬(nr ≠ 1 ∨ 0xffff < cptr ∨ 0xffff < method ∨ 0xffff < xfer))
      (resolved : k.resolve k.domainOf (cptr.setWidth 16) (method.setWidth 16) = .error st) :
    Route p k nr cptr method arg0 xfer (.done none (.refused st), k.entered)
  | send (e : CapEntry) (good : ¬(nr ≠ 1 ∨ 0xffff < cptr ∨ 0xffff < method ∨ 0xffff < xfer))
      (resolved : k.resolve k.domainOf (cptr.setWidth 16) (method.setWidth 16) = .ok e)
      (hsend : e.typeTag = .endpoint ∧ method.setWidth 16 = eSend) :
    Route p k nr cptr method arg0 xfer
      (k.entered.epSend k.domainOf e.objectId arg0 (xfer.setWidth 16) e.rights)
  | recv (e : CapEntry) (good : ¬(nr ≠ 1 ∨ 0xffff < cptr ∨ 0xffff < method ∨ 0xffff < xfer))
      (resolved : k.resolve k.domainOf (cptr.setWidth 16) (method.setWidth 16) = .ok e)
      (hsend : ¬(e.typeTag = .endpoint ∧ method.setWidth 16 = eSend))
      (hrecv : e.typeTag = .endpoint ∧ method.setWidth 16 = eRecv) :
    Route p k nr cptr method arg0 xfer (k.entered.epRecv k.domainOf e.objectId)
  | transfer (e : CapEntry) (good : ¬(nr ≠ 1 ∨ 0xffff < cptr ∨ 0xffff < method ∨ 0xffff < xfer))
      (resolved : k.resolve k.domainOf (cptr.setWidth 16) (method.setWidth 16) = .ok e)
      (hsend : ¬(e.typeTag = .endpoint ∧ method.setWidth 16 = eSend))
      (hrecv : ¬(e.typeTag = .endpoint ∧ method.setWidth 16 = eRecv)) :
    Route p k nr cptr method arg0 xfer (.done none (.refused .errMethod), k.entered)
  | method (e : CapEntry) (good : ¬(nr ≠ 1 ∨ 0xffff < cptr ∨ 0xffff < method ∨ 0xffff < xfer))
      (resolved : k.resolve k.domainOf (cptr.setWidth 16) (method.setWidth 16) = .ok e)
      (hsend : ¬(e.typeTag = .endpoint ∧ method.setWidth 16 = eSend))
      (hrecv : ¬(e.typeTag = .endpoint ∧ method.setWidth 16 = eRecv)) :
    Route p k nr cptr method arg0 xfer
      (.done none ⟨(k.entered.dispatchMethod p k.domainOf e (method.setWidth 16) arg0).1.1.code,
          (k.entered.dispatchMethod p k.domainOf e (method.setWidth 16) arg0).1.2, cptrNone⟩,
        (k.entered.dispatchMethod p k.domainOf e (method.setWidth 16) arg0).2)

/-- Every syscall goes one of these ways. -/
theorem exists_route (p : Platform μ) (k : Kernel μ) (nr cptr method arg0 xfer rsp : BitVec 64) :
    ∃ a, Route p k nr cptr method arg0 xfer a ∧
      k.syscall p nr cptr method arg0 xfer rsp = finish p rsp a := by
  by_cases hnr : nr ≠ 1
  · exact ⟨_, .malformed .errMethod (Or.inl rfl) (Or.inl hnr), if_pos hnr⟩
  by_cases hwide : 0xffff < cptr ∨ 0xffff < method ∨ 0xffff < xfer
  · exact ⟨_, .malformed .errBadCPtr (Or.inr rfl) (Or.inr hwide),
      (if_neg hnr).trans (if_pos hwide)⟩
  have hgood : ¬(nr ≠ 1 ∨ 0xffff < cptr ∨ 0xffff < method ∨ 0xffff < xfer) :=
    not_or.mpr ⟨hnr, hwide⟩
  refine ⟨_, ?_, (if_neg hnr).trans (if_neg hwide)⟩
  rw [capInvokeIpc, show (k.setReplyCptr cptrNone).resolve (k.setReplyCptr cptrNone).domainOf
    (cptr.setWidth 16) (method.setWidth 16)
      = k.resolve k.domainOf (cptr.setWidth 16) (method.setWidth 16) from rfl]
  cases hres : k.resolve k.domainOf (cptr.setWidth 16) (method.setWidth 16) with
  | error st => exact .unresolved st hgood hres
  | ok e =>
    dsimp only
    by_cases hsend : e.typeTag = .endpoint ∧ method.setWidth 16 = eSend
    · rw [if_pos hsend]
      exact .send e hgood hres hsend
    rw [if_neg hsend]
    by_cases hrecv : e.typeTag = .endpoint ∧ method.setWidth 16 = eRecv
    · rw [if_pos hrecv]
      exact .recv e hgood hres hsend hrecv
    rw [if_neg hrecv]
    split
    · exact .transfer e hgood hres hsend hrecv
    · exact .method e hgood hres hsend hrecv

/-- What a syscall can be: not an endpoint call, a refused one, one that meets its partner, or
one that parks. -/
inductive SyscallIs (p : Platform μ) (k : Kernel μ) (rsp : BitVec 64) :
    Option Call → Trace × Kernel μ → Prop
  | other (st : Status) (reply : BitVec 64) (k' : Kernel μ) (hk : PayloadOnly k k')
      (htype : st = .errType → ∃ c m, k.resolve k.domainOf c m = .error .errType) :
    SyscallIs p k rsp none ({ sysret := some (k.current, ⟨st.code, reply, cptrNone⟩) }, k')
  | refused (c : Call) (st : Status) (k' : Kernel μ) (hst : st ≠ .ok) (htype : st ≠ .errType)
      (hk : PayloadOnly k k') :
    SyscallIs p k rsp (some c) ({ sysret := some (k.current, .refused st) }, k')
  | met (c : Call) (hw : (k.endpoints c.ep).state = c.side.awaits) (r : BitVec 16) :
    SyscallIs p k rsp (some c)
      ({ woke := some ((k.endpoints c.ep).peerTask, k.entered.partnerResult c)
         sysret := some (k.current, k.entered.meetResult c) }, (k.entered.meet c).setReplyCptr r)
  | parks (c : Call) (hw : (k.endpoints c.ep).state = .idle) :
    SyscallIs p k rsp (some c)
      ((k.entered.setEndpoint c.ep (c.offer (k.endpoints c.ep))).blockCurrent p c.side.reason c.ep
        rsp)

/-- An endpoint call is made by the running task, in the domain it runs in. -/
theorem callOf_eq_some {k : Kernel μ} {op : Op μ} {c : Call} (h : k.callOf op = some c) :
    c.task = k.current ∧ c.domain = k.domainOf := by
  cases op with
  | syscall nr cptr method arg0 xfer rsp =>
    rw [callOf] at h
    split at h
    · cases h
    split at h
    · cases h
    split at h
    · split at h
      · cases h
        exact ⟨rfl, rfl⟩
      · cases h
    split at h
    · split at h
      · cases h
        exact ⟨rfl, rfl⟩
      · cases h
    · cases h
  | _ => cases h

/-- A transfer touches the capability tables only. -/
theorem transfer_eq (k : Kernel μ) (src : ℕ) (xfer : BitVec 16) (dst : ℕ) :
    ∃ s : Space (Fin maxDomains),
      (k.transfer src xfer dst).2 = { k with space := s } ∧ s.objects = k.space.objects := by
  rw [transfer]
  split
  · rw [doCapTransfer]
    split
    · split <;> exact ⟨_, rfl, rfl⟩
    · exact ⟨_, rfl, rfl⟩
  · exact ⟨_, rfl, rfl⟩

/-- A rendezvous touches the capability tables, its endpoint and the partner's task. -/
theorem meet_eq (k : Kernel μ) (c : Call) :
    ∃ s : Space (Fin maxDomains), s.objects = k.space.objects ∧
      s = (k.meetTransfer c).2.space ∧
      k.meet c = ({ k with
        space := s
        endpoints := Function.update k.endpoints c.ep { k.endpoints c.ep with state := .idle } } :
          Kernel μ).unblock (k.endpoints c.ep).peerTask (k.partnerResult c) := by
  obtain ⟨s, hs, hobj⟩ := (k.setEndpoint c.ep { k.endpoints c.ep with state := .idle }).transfer_eq
    (c.sendDomain (k.endpoints c.ep)) (c.xfer (k.endpoints c.ep)) (c.recvDomain (k.endpoints c.ep))
  refine ⟨s, hobj, congrArg Kernel.space hs.symm, ?_⟩
  exact congrArg (fun k' => unblock k' (k.endpoints c.ep).peerTask (k.partnerResult c)) hs

theorem current_unblock (k : Kernel μ) (t : ℕ) (r : IpcResult) :
    (k.unblock t r).current = k.current := by
  rw [unblock]
  split <;> rfl

theorem space_meet (k : Kernel μ) (c : Call) : (k.meet c).space = (k.meetTransfer c).2.space := by
  rw [meet, unblock]
  split <;> rfl

theorem current_meet (k : Kernel μ) (c : Call) : (k.meet c).current = k.current := by
  obtain ⟨s, -, -, hs⟩ := k.meet_eq c
  rw [hs, current_unblock]
  rfl

/-- Carry the answer to an endpoint call back to the syscall. -/
theorem SyscallIs.of_answers {p : Platform μ} {k : Kernel μ} {c : Call} {a : Reply × Kernel μ}
    (h : Answers k.entered c a) (rsp : BitVec 64) :
    SyscallIs p k rsp (some c) (finish p rsp a) := by
  cases h with
  | refused st hst htype =>
    exact .refused c st _ hst htype
      ((k.payload_setReplyCptr _).trans (k.entered.payload_setReplyCptr _))
  | met hw =>
    rw [finish, current_meet]
    exact SyscallIs.met (k := k) c hw _
  | parks hw => exact .parks c hw

/-- **What a syscall can be.** Every statement about syscalls is derived from this one. -/
theorem syscall_cases (p : Platform μ) (k : Kernel μ) (nr cptr method arg0 xfer rsp : BitVec 64) :
    SyscallIs p k rsp (k.callOf (.syscall nr cptr method arg0 xfer rsp))
      (k.syscall p nr cptr method arg0 xfer rsp) := by
  have hentered : PayloadOnly k k.entered := k.payload_setReplyCptr _
  have hother : ∀ {st : Status} {r : BitVec 64} {k' : Kernel μ}, PayloadOnly k.entered k' →
      st ≠ .errType → SyscallIs p k rsp none
        ({ sysret := some (k.current, ⟨st.code, r, cptrNone⟩) }, k') :=
    fun hk hst => .other _ _ _ (hentered.trans hk) fun h => absurd h hst
  obtain ⟨a, hroute, heq⟩ := k.exists_route p nr cptr method arg0 xfer rsp
  rw [heq]
  simp only [callOf]
  cases hroute with
  | malformed st hst bad =>
    rw [if_pos bad]
    refine hother (payload_setReplyCptr _ _) ?_
    rcases hst with rfl | rfl <;> decide
  | unresolved st good resolved =>
    rw [if_neg good, resolved]
    refine .other st 0 _ (hentered.trans (payload_setReplyCptr _ _)) ?_
    rintro rfl
    exact ⟨_, _, resolved⟩
  | send e good resolved hsend =>
    rw [if_neg good, resolved]
    dsimp only
    rw [if_pos hsend]
    by_cases hoid : e.objectId < objectTableSize
    · rw [dif_pos hoid]
      exact .of_answers (k.entered.answers_epSend ⟨e.objectId, hoid⟩ arg0 _ e.rights) rsp
    · rw [dif_neg hoid, epSend, dif_neg hoid]
      exact hother (payload_setReplyCptr _ _) (by decide)
  | recv e good resolved hsend hrecv =>
    rw [if_neg good, resolved]
    dsimp only
    rw [if_neg hsend, if_pos hrecv]
    by_cases hoid : e.objectId < objectTableSize
    · rw [dif_pos hoid]
      exact .of_answers (k.entered.answers_epRecv ⟨e.objectId, hoid⟩) rsp
    · rw [dif_neg hoid, epRecv, dif_neg hoid]
      exact hother (payload_setReplyCptr _ _) (by decide)
  | transfer e good resolved hsend hrecv =>
    rw [if_neg good, resolved]
    dsimp only
    rw [if_neg hsend, if_neg hrecv]
    exact hother (payload_setReplyCptr _ _) (by decide)
  | method e good resolved hsend hrecv =>
    rw [if_neg good, resolved]
    dsimp only
    rw [if_neg hsend, if_neg hrecv]
    have hplain := k.entered.plain_dispatchMethod p k.domainOf e (method.setWidth 16) arg0
    have hcur : (k.entered.dispatchMethod p k.domainOf e (method.setWidth 16) arg0).2.current
        = k.current := by
      obtain ⟨_, _, _, _, h⟩ := hplain.payload
      rw [h]
      rfl
    have hfin := hother (r := (k.entered.dispatchMethod p k.domainOf e (method.setWidth 16)
      arg0).1.2) (hplain.payload.trans (payload_setReplyCptr _ cptrNone)) hplain.status
    rw [← hcur] at hfin
    exact hfin

/-- **An induction rule for the state after a syscall**: payloads have changed, or capability
tables and an endpoint, and somebody was woken, or the running task has parked. -/
theorem syscall_induction {motive : Kernel μ → Prop} (p : Platform μ) (k : Kernel μ)
    (nr cptr method arg0 xfer rsp : BitVec 64)
    (payload : ∀ k', PayloadOnly k k' → motive k')
    (meets : ∀ (c : Call) (s : Space (Fin maxDomains)) (t : ℕ) (res : IpcResult) (r : BitVec 16),
      motive ((({ k.entered with
        space := s
        endpoints := Function.update k.endpoints c.ep { k.endpoints c.ep with state := .idle } } :
          Kernel μ).unblock t res).setReplyCptr r))
    (parks : ∀ c : Call,
      motive ((k.entered.setEndpoint c.ep (c.offer (k.endpoints c.ep))).blockCurrent p
        c.side.reason c.ep rsp).2) :
    motive (k.syscall p nr cptr method arg0 xfer rsp).2 := by
  have hcases := k.syscall_cases p nr cptr method arg0 xfer rsp
  generalize k.callOf (.syscall nr cptr method arg0 xfer rsp) = call at hcases
  generalize k.syscall p nr cptr method arg0 xfer rsp = r at hcases
  cases hcases with
  | other st reply k' hk htype => exact payload k' hk
  | refused c st k' _ htype hk => exact payload k' hk
  | met c hw r =>
    obtain ⟨s, -, -, heq⟩ := k.entered.meet_eq c
    dsimp only
    rw [heq]
    exact meets c s _ _ r
  | parks c hw => exact parks c

/-- The same reading of a syscall, as a step of the kernel. -/
theorem step_syscall_cases (p : Platform μ) (k : Kernel μ)
    (nr cptr method arg0 xfer rsp : BitVec 64) :
    SyscallIs p k rsp (k.callOf (.syscall nr cptr method arg0 xfer rsp))
      (k.step p (.syscall nr cptr method arg0 xfer rsp)) :=
  k.syscall_cases p nr cptr method arg0 xfer rsp

/-- A syscall that wakes somebody completes a rendezvous. -/
theorem SyscallIs.eq_met {p : Platform μ} {k : Kernel μ} {rsp : BitVec 64} {call : Option Call}
    {res : Trace × Kernel μ} (h : SyscallIs p k rsp call res) (hwoke : res.1.woke ≠ none) :
    ∃ c r, call = some c ∧ (k.endpoints c.ep).state = c.side.awaits ∧
      res = ({ woke := some ((k.endpoints c.ep).peerTask, k.entered.partnerResult c)
               sysret := some (k.current, k.entered.meetResult c) },
        (k.entered.meet c).setReplyCptr r) := by
  cases h with
  | other st reply k' hk htype => exact absurd rfl hwoke
  | refused c st k' hst htype hk => exact absurd rfl hwoke
  | met c hw r => exact ⟨c, r, rfl, hw, rfl⟩
  | parks c hw => exact absurd (switched_blockCurrent p _ _ _ _).woke hwoke

end Kernel

end Cairn
