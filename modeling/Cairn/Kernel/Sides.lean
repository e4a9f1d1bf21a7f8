import Cairn.Kernel.Gate

/-!
# The side tables of the objects

What an object is stands in arrays of `capspace.rs` indexed by the object id: the word of a
notification, the extent behind an Extent, the rings behind a DeviceQueue. A step writes them in two
ways only, by the constructor of the object they belong to or by a method called through a
capability for it. `Kernel.sideStep` says which, for every operation; everything about payloads is
read off it.

There are two ways to call a method, `cap_invoke_in` and the syscall. An `Invocation` is a call by
either with its answer. The answer of a syscall is what the step returns to ring 3, and a syscall
that parks may return to another task; this happens on endpoints only (`Kernel.EndpointOnly`).

## Main definitions

* `Invocation`, `Kernel.invocation` — a method call and its answer, by either way in
* `Kernel.Dispatches` — the call is answered by `dispatch_method`
* `Kernel.SameSides`, `Kernel.SideStep` — what a step does to the side tables

## Main results

* `Kernel.sideStep`
* `Kernel.dispatches_of_ok` — a successful call on anything but an endpoint
-/

namespace Cairn

/-- A method call on a capability and its answer. -/
structure Invocation where
  /-- The domain whose table was used. -/
  domain : Fin maxDomains
  cptr : BitVec 16
  method : BitVec 16
  arg : BitVec 64
  /-- The code of the status. -/
  status : ℕ
  reply : BitVec 64
  deriving DecidableEq, Repr

namespace Kernel

variable {μ : Type}

/-- The entry at a CPtr of a domain. -/
def entryAt (k : Kernel μ) (d : Fin maxDomains) (cptr : BitVec 16) : Option CapEntry :=
  (k.space.tables d).entryAt cptr.toNat

/-- The method call an operation makes, if it returns: `cap_invoke_in`, or a syscall of the running
domain. -/
def invocation (p : Platform μ) (k : Kernel μ) : Op μ → Option Invocation
  | .capInvokeIn domain cptr method arg =>
    let r := (k.capInvokeIn p domain cptr method arg).1
    some ⟨clampDomain domain, cptr, method, arg, r.1.code, r.2⟩
  | .syscall nr cptr method arg0 xfer rsp =>
    (k.syscall p nr cptr method arg0 xfer rsp).1.sysret.map fun r =>
      ⟨k.domainOf, cptr.setWidth 16, method.setWidth 16, arg0, r.2.status, r.2.reply⟩
  | _ => none

/-! ### Steps that leave the side tables alone -/

/-- The side tables of the objects are the same. -/
structure SameSides (k k' : Kernel μ) : Prop where
  notify : k'.notify = k.notify
  extents : k'.extents = k.extents
  devqueues : k'.devqueues = k.devqueues

theorem SameSides.refl (k : Kernel μ) : SameSides k k := ⟨rfl, rfl, rfl⟩

theorem SameSides.trans {k₁ k₂ k₃ : Kernel μ} (h₁ : SameSides k₁ k₂) (h₂ : SameSides k₂ k₃) :
    SameSides k₁ k₃ :=
  ⟨h₂.notify.trans h₁.notify, h₂.extents.trans h₁.extents, h₂.devqueues.trans h₁.devqueues⟩

theorem SpaceOnly.sameSides {k k' : Kernel μ} (h : SpaceOnly k k') : SameSides k k' := by
  obtain ⟨_, rfl⟩ := h
  exact ⟨rfl, rfl, rfl⟩

theorem sameSides_unblock (k : Kernel μ) (t : ℕ) (r : IpcResult) : SameSides k (k.unblock t r) := by
  rw [unblock]
  split <;> exact ⟨rfl, rfl, rfl⟩

theorem sameSides_resume (k : Kernel μ) : SameSides k k.resume.2 := by
  rw [resume]
  split <;> exact ⟨rfl, rfl, rfl⟩

theorem sameSides_setReplyCptr (k : Kernel μ) (r : BitVec 16) :
    SameSides k (k.setReplyCptr r) := ⟨rfl, rfl, rfl⟩

theorem sameSides_setTask (k : Kernel μ) (i : Fin maxTasks) (t : Task) :
    SameSides k (k.setTask i t) := ⟨rfl, rfl, rfl⟩

theorem sameSides_reschedule (p : Platform μ) (k : Kernel μ) : SameSides k (k.reschedule p) :=
  ⟨rfl, rfl, rfl⟩

theorem sameSides_restore (p : Platform μ) (k : Kernel μ) :
    SameSides k (k.reschedule p).restore.2 :=
  (sameSides_reschedule p k).trans (k.reschedule p).sameSides_resume

theorem sameSides_blockCurrent (p : Platform μ) (k : Kernel μ) (reason epOid : ℕ)
    (rsp : BitVec 64) : SameSides k (k.blockCurrent p reason epOid rsp).2 := by
  have hpark : SameSides k ((k.parkCurrent reason epOid).reschedule p) :=
    (k.sameSides_setTask _ _).trans (sameSides_reschedule p _)
  rw [blockCurrent]
  dsimp only
  generalize (k.parkCurrent reason epOid).reschedule p = k' at hpark ⊢
  refine hpark.trans (SameSides.trans ?_ (sameSides_resume _))
  exact ⟨rfl, rfl, rfl⟩

theorem sameSides_scheduleTick (p : Platform μ) (k : Kernel μ) (rsp : BitVec 64) :
    SameSides k (k.scheduleTick p rsp).2 := by
  rw [scheduleTick]
  split
  · exact ⟨rfl, rfl, rfl⟩
  · refine SameSides.trans ?_ (sameSides_restore p _)
    exact ⟨rfl, rfl, rfl⟩

theorem sameSides_admitWith (p : Platform μ) (k : Kernel μ) (frame : Fin maxTasks → TaskFrame)
    (cptr domain period rel budget : ℕ) :
    SameSides k (k.admitWith p frame cptr domain period rel budget).2 := by
  rcases k.admitWith_eq p frame cptr domain period rel budget with h | ⟨i, -, -, -, h⟩
  · rw [h]
    exact .refl k
  · rw [h]
    exact ⟨rfl, rfl, rfl⟩

theorem sameSides_restart (p : Platform μ) (k : Kernel μ) : SameSides k (k.restart p).2 := by
  have hgranted := k.spaceOnly_granted.sameSides
  rcases k.restart_cases p with h | ⟨fm, ft, i, -, -, -, -, h⟩
  · rw [h]
    exact hgranted
  · rw [h]
    exact hgranted.trans ⟨rfl, rfl, rfl⟩

/-- A termination clears endpoints, a capability table and mappings, and touches no payload. -/
theorem sameSides_terminateCurrent (p : Platform μ) (k : Kernel μ) :
    SameSides k (k.terminateCurrent p).2 := by
  rw [terminateCurrent_eq]
  refine SameSides.trans ?_ (sameSides_restore p _)
  have hreaped : SameSides k (k.reaped p) := by
    obtain ⟨_, _, _, _, heq⟩ := k.reaped_eq p
    rw [heq]
    exact ⟨rfl, rfl, rfl⟩
  rw [afterDeath]
  split
  · exact hreaped
  · have hspend : SameSides (k.reaped p) (k.reaped p).spend := ⟨rfl, rfl, rfl⟩
    exact hreaped.trans (hspend.trans (sameSides_restart p _))

/-- An endpoint call touches no payload, however it ends. -/
theorem Answers.sameSides_finish {k : Kernel μ} {c : Call} {a : Reply × Kernel μ}
    (h : Answers k c a) (p : Platform μ) (rsp : BitVec 64) : SameSides k (finish p rsp a).2 := by
  cases h with
  | refused st hst htype => exact ⟨rfl, rfl, rfl⟩
  | met hw =>
    obtain ⟨s, -, -, heq⟩ := k.meet_eq c
    have h := sameSides_unblock ({ k with
      space := s
      endpoints := Function.update k.endpoints c.ep { k.endpoints c.ep with state := .idle } } :
        Kernel μ) (k.endpoints c.ep).peerTask (k.partnerResult c)
    rw [finish, heq]
    exact ⟨h.notify, h.extents, h.devqueues⟩
  | parks hw =>
    have hoffer : SameSides k (k.setEndpoint c.ep (c.offer (k.endpoints c.ep))) := ⟨rfl, rfl, rfl⟩
    exact hoffer.trans (sameSides_blockCurrent p _ _ _ rsp)

/-! ### Methods -/

/-- The step is the method `inv.method` through the entry `e`, with the answer of
`dispatch_method`. -/
structure Dispatches (p : Platform μ) (k : Kernel μ) (op : Op μ) (inv : Invocation)
    (e : CapEntry) : Prop where
  made : k.invocation p op = some inv
  resolved : k.resolve inv.domain inv.cptr inv.method = .ok e
  status : inv.status = (k.dispatchMethod p inv.domain e inv.method inv.arg).1.1.code
  reply : inv.reply = (k.dispatchMethod p inv.domain e inv.method inv.arg).1.2
  sides : SameSides (k.dispatchMethod p inv.domain e inv.method inv.arg).2 (k.step p op).2

/-- A call the operation makes succeeds only on an endpoint. -/
def EndpointOnly (p : Platform μ) (k : Kernel μ) (op : Op μ) : Prop :=
  ∀ inv e, k.invocation p op = some inv → inv.status = Status.ok.code →
    k.entryAt inv.domain inv.cptr = some e → e.typeTag = .endpoint

theorem EndpointOnly.of_none {p : Platform μ} {k : Kernel μ} {op : Op μ}
    (h : k.invocation p op = none) : EndpointOnly p k op := by
  intro inv e hmade
  rw [h] at hmade
  cases hmade

theorem capInvokeIn_eq (p : Platform μ) (k : Kernel μ) (domain : ℕ) (c m : BitVec 16)
    (arg : BitVec 64) : k.capInvokeIn p domain c m arg =
      match k.resolve (clampDomain domain) c m with
      | .ok e => k.dispatchMethod p (clampDomain domain) e m arg
      | .error st => ((st, 0), k) := rfl

theorem capInvokeIn_of_ok (p : Platform μ) (k : Kernel μ) {domain : ℕ} {c m : BitVec 16}
    (arg : BitVec 64) {e : CapEntry} (h : k.resolve (clampDomain domain) c m = .ok e) :
    k.capInvokeIn p domain c m arg = k.dispatchMethod p (clampDomain domain) e m arg := by
  rw [capInvokeIn_eq, h]

theorem capInvokeIn_of_error (p : Platform μ) (k : Kernel μ) {domain : ℕ} {c m : BitVec 16}
    (arg : BitVec 64) {st : Status} (h : k.resolve (clampDomain domain) c m = .error st) :
    k.capInvokeIn p domain c m arg = ((st, 0), k) := by
  rw [capInvokeIn_eq, h]

theorem capInvokeIn_dispatches (p : Platform μ) (k : Kernel μ) (domain : ℕ)
    (cptr method : BitVec 16) (arg : BitVec 64) :
    (∃ inv e, Dispatches p k (.capInvokeIn domain cptr method arg) inv e) ∨
      SameSides k (k.step p (.capInvokeIn domain cptr method arg)).2 ∧
        EndpointOnly p k (.capInvokeIn domain cptr method arg) := by
  have hstep : k.step p (.capInvokeIn domain cptr method arg)
      = ({}, (k.capInvokeIn p domain cptr method arg).2) := rfl
  have hinv : k.invocation p (.capInvokeIn domain cptr method arg)
      = some ⟨clampDomain domain, cptr, method, arg,
        (k.capInvokeIn p domain cptr method arg).1.1.code,
        (k.capInvokeIn p domain cptr method arg).1.2⟩ := rfl
  cases hres : k.resolve (clampDomain domain) cptr method with
  | ok e =>
    have heq := k.capInvokeIn_of_ok p arg hres
    refine Or.inl ⟨_, e, hinv, hres, ?_, ?_, ?_⟩
    · rw [heq]
    · rw [heq]
    · rw [hstep, heq]
      exact .refl _
  | error st =>
    have heq := k.capInvokeIn_of_error p arg hres
    refine Or.inr ⟨?_, fun inv e hmade hok => ?_⟩
    · rw [hstep, heq]
      exact .refl _
    · rw [hinv, heq] at hmade
      cases hmade
      have hst : st = .ok := Status.code_injective hok
      rw [hst] at hres
      exact absurd hres (k.resolve_ne_error_ok _ _ _)

theorem syscall_dispatches (p : Platform μ) (k : Kernel μ)
    (nr cptr method arg0 xfer rsp : BitVec 64) :
    (∃ inv e, Dispatches p k (.syscall nr cptr method arg0 xfer rsp) inv e) ∨
      SameSides k (k.step p (.syscall nr cptr method arg0 xfer rsp)).2 ∧
        EndpointOnly p k (.syscall nr cptr method arg0 xfer rsp) := by
  obtain ⟨a, hroute, hcall⟩ := k.exists_route p nr cptr method arg0 xfer rsp
  have hentered : SameSides k k.entered := k.sameSides_setReplyCptr cptrNone
  -- a call that is refused at once, with its status
  have refused : ∀ {st : Status}, st ≠ .ok → k.syscall p nr cptr method arg0 xfer rsp
        = finish p rsp (.done none (.refused st), k.entered) →
      SameSides k (k.step p (.syscall nr cptr method arg0 xfer rsp)).2 ∧
        EndpointOnly p k (.syscall nr cptr method arg0 xfer rsp) := by
    intro st hst heq
    refine ⟨?_, fun inv e hmade hok => ?_⟩
    · rw [step, heq, finish]
      exact hentered.trans (sameSides_setReplyCptr _ _)
    · rw [invocation, heq] at hmade
      cases hmade
      exact absurd (Status.code_injective hok) hst
  -- an endpoint call, whose answer may even be that of another task's call
  have endpoint : ∀ {e : CapEntry} {c : Call},
      k.resolve k.domainOf (cptr.setWidth 16) (method.setWidth 16) = .ok e →
      e.typeTag = .endpoint → Answers k.entered c a →
      SameSides k (k.step p (.syscall nr cptr method arg0 xfer rsp)).2 ∧
        EndpointOnly p k (.syscall nr cptr method arg0 xfer rsp) := by
    intro e c hres hkind hans
    refine ⟨?_, fun inv e' hmade _ he' => ?_⟩
    · rw [step, hcall]
      exact hentered.trans (hans.sameSides_finish p rsp)
    · rw [invocation] at hmade
      obtain ⟨r, -, rfl⟩ := Option.map_eq_some_iff.mp hmade
      obtain rfl : e = e' := Option.some.inj ((resolve_eq_ok hres).1.symm.trans he')
      exact hkind
  cases hroute with
  | malformed st hst bad =>
    refine Or.inr (refused ?_ hcall)
    rcases hst with rfl | rfl <;> decide
  | unresolved st good resolved =>
    refine Or.inr (refused ?_ hcall)
    rintro rfl
    exact k.resolve_ne_error_ok _ _ _ resolved
  | send e good resolved hsend =>
    by_cases hoid : e.objectId < objectTableSize
    · exact Or.inr (endpoint resolved hsend.1
        (k.entered.answers_epSend ⟨e.objectId, hoid⟩ arg0 _ e.rights))
    · rw [epSend, dif_neg hoid] at hcall
      exact Or.inr (refused (by decide) hcall)
  | recv e good resolved hsend hrecv =>
    by_cases hoid : e.objectId < objectTableSize
    · exact Or.inr (endpoint resolved hrecv.1 (k.entered.answers_epRecv ⟨e.objectId, hoid⟩))
    · rw [epRecv, dif_neg hoid] at hcall
      exact Or.inr (refused (by decide) hcall)
  | transfer e good resolved hsend hrecv => exact Or.inr (refused (by decide) hcall)
  | method e good resolved hsend hrecv =>
    rw [show k.entered = k.setReplyCptr cptrNone from rfl, dispatchMethod_setReplyCptr] at hcall
    refine Or.inl ⟨⟨k.domainOf, cptr.setWidth 16, method.setWidth 16, arg0,
      (k.dispatchMethod p k.domainOf e (method.setWidth 16) arg0).1.1.code,
      (k.dispatchMethod p k.domainOf e (method.setWidth 16) arg0).1.2⟩, e, ?_, resolved, rfl, rfl,
      ?_⟩
    · rw [invocation, hcall]
      rfl
    · rw [step, hcall, finish, withReplyCptr]
      exact (sameSides_setReplyCptr _ _).trans (sameSides_setReplyCptr _ _)

/-! ### What a step does to the side tables -/

/-- **What a step does to the side tables**: a method through a capability, the constructor of an
extent or of a device queue, or nothing. -/
inductive SideStep (p : Platform μ) (k : Kernel μ) : Op μ → Prop
  | method {op : Op μ} (inv : Invocation) (e : CapEntry) (call : Dispatches p k op inv e) :
    SideStep p k op
  | extent (info : ExtentMeta) (oid : Fin objectTableSize) (ot : ObjectTable)
      (created : k.space.objects.createObject .extent = some (oid, ot))
      (sides : SameSides { k with extents := Function.update k.extents oid info }
        (k.step p (.mintExtent info)).2) :
    SideStep p k (.mintExtent info)
  | queue (magic lba : BitVec 64) (dqd : DeviceQueueDesc) (oid : Fin objectTableSize)
      (ot : ObjectTable) (ready : p.deviceQueueDesc k.machine = some dqd)
      (created : k.space.objects.createObject .deviceQueue = some (oid, ot))
      (sides : SameSides { k with devqueues := Function.update k.devqueues oid ⟨dqd, magic, lba⟩ }
        (k.step p (.createDeviceQueue magic lba)).2) :
    SideStep p k (.createDeviceQueue magic lba)
  | nothing {op : Op μ} (sides : SameSides k (k.step p op).2) (quiet : EndpointOnly p k op) :
    SideStep p k op

/-- A constructor changes nothing, or writes the payload of the object it has created. -/
theorem sameSides_construct (k : Kernel μ) (kind : ObjectKind) (rights : Rights)
    (payload : Fin objectTableSize → Kernel μ → Kernel μ) :
    (k.space.objects.createObject kind = none ∧ (k.construct kind rights payload).2 = k) ∨
      ∃ oid ot, k.space.objects.createObject kind = some (oid, ot) ∧
        SameSides (payload oid { k with space := { k.space with objects := ot } })
          (k.construct kind rights payload).2 := by
  rw [construct]
  cases hnew : k.space.objects.createObject kind with
  | none => exact Or.inl ⟨rfl, rfl⟩
  | some r =>
    obtain ⟨oid, ot⟩ := r
    refine Or.inr ⟨oid, ot, rfl, ?_⟩
    dsimp only
    split <;> exact ⟨rfl, rfl, rfl⟩

/-- A constructor that has an id has written the side table, whether or not the root table had
room. -/
theorem sameSides_created {k : Kernel μ} {kind : ObjectKind} {j : Fin objectTableSize}
    {ot : ObjectTable} (hnew : k.space.objects.createObject kind = some (j, ot)) (rights : Rights)
    (payload : Fin objectTableSize → Kernel μ → Kernel μ) :
    SameSides (payload j { k with space := { k.space with objects := ot } })
      (k.construct kind rights payload).2 := by
  rcases k.sameSides_construct kind rights payload with ⟨hnone, -⟩ | ⟨oid, ot', hnew', hsides⟩
  · cases hnew.symm.trans hnone
  · cases hnew.symm.trans hnew'
    exact hsides

theorem sideStep (p : Platform μ) (k : Kernel μ) (op : Op μ) : SideStep p k op := by
  cases op with
  | capInvokeIn domain cptr method arg =>
    rcases k.capInvokeIn_dispatches p domain cptr method arg with ⟨inv, e, h⟩ | ⟨hsides, hquiet⟩
    · exact .method inv e h
    · exact .nothing hsides hquiet
  | syscall nr cptr method arg0 xfer rsp =>
    rcases k.syscall_dispatches p nr cptr method arg0 xfer rsp with ⟨inv, e, h⟩ | ⟨hsides, hquiet⟩
    · exact .method inv e h
    · exact .nothing hsides hquiet
  | mintExtent info =>
    rcases k.sameSides_construct .extent mappableRights
      (fun oid k => { k with extents := Function.update k.extents oid info }) with
      ⟨-, heq⟩ | ⟨oid, ot, hnew, hsides⟩
    · refine .nothing ?_ (.of_none rfl)
      rw [step, mintExtent, heq]
      exact .refl k
    · exact .extent info oid ot hnew ⟨hsides.notify, hsides.extents, hsides.devqueues⟩
  | createDeviceQueue magic lba =>
    cases hready : p.deviceQueueDesc k.machine with
    | none =>
      refine .nothing ?_ (.of_none rfl)
      rw [step, createDeviceQueue, hready]
      exact .refl k
    | some dqd =>
      have hstep : k.step p (.createDeviceQueue magic lba) = ({}, (k.construct .deviceQueue
          mappableRights fun oid k =>
            { k with devqueues := Function.update k.devqueues oid ⟨dqd, magic, lba⟩ }).2) := by
        rw [step, createDeviceQueue, hready]
      rcases k.sameSides_construct .deviceQueue mappableRights
        (fun oid k => { k with devqueues := Function.update k.devqueues oid ⟨dqd, magic, lba⟩ })
        with ⟨-, heq⟩ | ⟨oid, ot, hnew, hsides⟩
      · refine .nothing ?_ (.of_none rfl)
        rw [hstep, heq]
        exact .refl k
      · refine .queue magic lba dqd oid ot hready hnew ?_
        rw [hstep]
        exact ⟨hsides.notify, hsides.extents, hsides.devqueues⟩
  | initRoot | createNotification | createEndpoint | mintTimeslice =>
    exact .nothing (k.spaceOnly_construct _ _).sameSides (.of_none rfl)
  | delegateFromRoot dst src mask badge =>
    exact .nothing (k.spaceOnly_delegateFromRoot ..).sameSides (.of_none rfl)
  | sealCap | revoke => exact .nothing (SpaceOnly.sameSides ⟨_, rfl⟩) (.of_none rfl)
  | setCurrentDomain | registerFaulter | outside => exact .nothing ⟨rfl, rfl, rfl⟩ (.of_none rfl)
  | admitTask entry c period rel budget =>
    exact .nothing (k.sameSides_admitWith p _ _ _ _ _ _) (.of_none rfl)
  | admitUser entry stackTop mem c d period rel budget =>
    exact .nothing (k.sameSides_admitWith p _ _ _ _ _ _) (.of_none rfl)
  | tick rsp => exact .nothing (k.sameSides_scheduleTick p rsp) (.of_none rfl)
  | fault => exact .nothing (k.sameSides_terminateCurrent p) (.of_none rfl)

/-- A successful call on anything but an endpoint is answered by `dispatch_method`. -/
theorem dispatches_of_ok {p : Platform μ} {k : Kernel μ} {op : Op μ} {inv : Invocation}
    {e : CapEntry} (hmade : k.invocation p op = some inv) (hok : inv.status = Status.ok.code)
    (he : k.entryAt inv.domain inv.cptr = some e) (hkind : e.typeTag ≠ .endpoint) :
    Dispatches p k op inv e := by
  cases k.sideStep p op with
  | method inv' e' call =>
    obtain rfl : inv' = inv := Option.some.inj (call.made.symm.trans hmade)
    obtain rfl : e' = e := Option.some.inj ((resolve_eq_ok call.resolved).1.symm.trans he)
    exact call
  | extent info oid ot created sides => cases hmade
  | queue magic lba dqd oid ot ready created sides => cases hmade
  | nothing sides quiet => exact absurd (quiet inv e hmade hok he) hkind

/-- A successful method behind one right has passed it and answers what it answers then. -/
theorem Dispatches.of_gate {p : Platform μ} {k : Kernel μ} {op : Op μ} {inv : Invocation}
    {e : CapEntry} (call : Dispatches p k op inv e) (hok : inv.status = Status.ok.code) {r : Rights}
    {a : (Status × BitVec 64) × Kernel μ}
    (hgate : k.dispatchMethod p inv.domain e inv.method inv.arg
      = if e.rights.contains r then a else ((.errRights, 0), k)) :
    inv.reply = a.1.2 ∧ SameSides a.2 (k.step p op).2 := by
  obtain ⟨-, -, hstatus, hreply, hsides⟩ := call
  rw [hgate] at hstatus hreply hsides
  cases hr : e.rights.contains r with
  | false =>
    rw [hr, hok, if_neg Bool.false_ne_true] at hstatus
    have hcode : Status.ok.code ≠ Status.errRights.code := by decide
    exact absurd hstatus hcode
  | true =>
    rw [hr, if_pos rfl] at hreply hsides
    exact ⟨hreply, hsides⟩

end Kernel

end Cairn
