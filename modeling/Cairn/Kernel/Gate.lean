import Cairn.Kernel.Calls

/-!
# The syscall gate

A syscall passes the number and range checks, `CapTable::invoke`, `CapTable::lookup`, the table of
extra rights in `dispatch_method`, and the checks of the endpoint path. `methodTable` says in one
place what all of them are for: which methods there are, and which right each asks for besides
`INVOKE`. A syscall that does not meet it is refused, and a refused syscall leaves the kernel as
it was, up to the word for the reply CPtr.

`cap_invoke_in` is the second way to the same methods, used by the self-tests. On everything that
is not an endpoint it agrees with the syscall.

## Main definitions

* `methodTable` — kinds, methods and rights
* `Kernel.Authorised` — what a syscall needs
* `Kernel.methodAnswers` — what the served methods answer

## Main results

* `Kernel.dispatchMethod_of_row` — a served method
* `Kernel.dispatchMethod_of_not_permits` — a method without its right
* `Kernel.dispatchMethod_setReplyCptr` — methods do not see the word for the reply CPtr
* `syscall_gated` — the gate
-/

namespace Cairn

/-- The methods the kernel serves, and the right each asks for besides `INVOKE`. `M_FREE`,
`X_WRITE` and `X_COMMIT` have a number but are not served. -/
def methodTable : List (ObjectKind × BitVec 16 × Rights) :=
  [(.memory, Kernel.mAlloc, .empty),
    (.notification, Kernel.nSignal, .write), (.notification, Kernel.nPoll, .read),
    (.endpoint, Kernel.eSend, .empty), (.endpoint, Kernel.eRecv, .empty),
    (.extent, Kernel.xRead, .read), (.extent, Kernel.xMap, .map),
    (.deviceQueue, Kernel.dqInfo, .read), (.deviceQueue, Kernel.dqMap, .map),
    (.deviceQueue, Kernel.dqReport, .write), (.deviceQueue, Kernel.dqSubmit, .write)]

/-- The method is served for the kind of the capability, which carries its right. -/
def CapEntry.Permits (e : CapEntry) (method : BitVec 16) : Prop :=
  ∃ r, (e.typeTag, method, r) ∈ methodTable ∧ e.rights.contains r = true

namespace Kernel

variable {μ : Type}

/-- What a syscall needs: the right number, arguments of 16 bits, and in the table of the running
domain, at exactly this CPtr, a live capability with `INVOKE` that permits the method. To send a
capability it takes `GRANT_CAP` too. -/
structure Authorised (k : Kernel μ) (nr cptr method xfer : BitVec 64) : Prop where
  nr : nr = 1
  narrow : cptr ≤ 0xffff ∧ method ≤ 0xffff ∧ xfer ≤ 0xffff
  entry : ∃ e m, (k.space.tables k.domainOf).entryAt cptr.toNat = some e ∧
    k.space.objects.metaAt e.objectId = some m ∧ m.present = true ∧ e.typeTag = m.kind ∧
    e.epoch = m.currentEpoch ∧ e.rights.contains .invoke = true ∧
    e.Permits (method.setWidth 16) ∧
    (e.typeTag = .endpoint → method.setWidth 16 = eSend → xfer.setWidth 16 ≠ cptrNone →
      e.rights.contains .grantCap = true)

/-! ### Served methods -/

/-- The rows of `methodTable` that `dispatch_method` serves, with what it answers once the right has
been checked. The two methods of an endpoint are served by `cap_invoke_ipc`. -/
def methodAnswers (p : Platform μ) (k : Kernel μ) (d : Fin maxDomains) (e : CapEntry)
    (arg : BitVec 64) :
    List ((ObjectKind × BitVec 16 × Rights) × ((Status × BitVec 64) × Kernel μ)) :=
  [((.memory, mAlloc, .empty),
      match p.allocateFrame k.machine with
      | (some frame, m) => ((.ok, frame), { k with machine := m })
      | (none, m) => ((.errRights, 0), { k with machine := m })),
    ((.notification, nSignal, .write), ((.ok, 0), k.notifySignal e.objectId arg)),
    ((.notification, nPoll, .read),
      ((.ok, (k.notifyTake e.objectId).1), (k.notifyTake e.objectId).2)),
    ((.extent, xRead, .read), ((.ok, k.extentHash e.objectId), k)),
    ((.extent, xMap, .map), k.extentMap p d e.objectId),
    ((.deviceQueue, dqInfo, .read), ((.ok, k.devqueueQsize e.objectId), k)),
    ((.deviceQueue, dqMap, .map), k.devqueueMap p d e.objectId),
    ((.deviceQueue, dqReport, .write), (k.devqueueReport e.objectId arg, k)),
    ((.deviceQueue, dqSubmit, .write), k.devqueueSubmit p e.objectId arg)]

/-- **A served method** answers as its row says, if the capability carries the right of the row. -/
theorem dispatchMethod_of_row (p : Platform μ) (k : Kernel μ) (d : Fin maxDomains) (e : CapEntry)
    (arg : BitVec 64) (i : ℕ) {method : BitVec 16} {right : Rights}
    {a : (Status × BitVec 64) × Kernel μ}
    (h : (k.methodAnswers p d e arg)[i]? = some ((e.typeTag, method, right), a)) :
    k.dispatchMethod p d e method arg
      = if e.rights.contains right then a else ((.errRights, 0), k) := by
  have hswap : ∀ (b : Bool) (x y : (Status × BitVec 64) × Kernel μ),
      (if !b then x else y) = if b then y else x := by
    rintro (_ | _) x y <;> rfl
  have hmem := List.mem_of_getElem? h
  simp only [methodAnswers, List.mem_cons, Prod.mk.injEq, List.not_mem_nil, or_false] at hmem
  rw [dispatchMethod]
  -- in each row kind and method are known, so every test of `dispatch_method` is decided
  rcases hmem with ⟨⟨hkind, rfl, rfl⟩, rfl⟩ | ⟨⟨hkind, rfl, rfl⟩, rfl⟩ | ⟨⟨hkind, rfl, rfl⟩, rfl⟩ |
    ⟨⟨hkind, rfl, rfl⟩, rfl⟩ | ⟨⟨hkind, rfl, rfl⟩, rfl⟩ | ⟨⟨hkind, rfl, rfl⟩, rfl⟩ |
    ⟨⟨hkind, rfl, rfl⟩, rfl⟩ | ⟨⟨hkind, rfl, rfl⟩, rfl⟩ | ⟨⟨hkind, rfl, rfl⟩, rfl⟩ <;>
  · rw [hkind]
    exact hswap _ _ _

example (p : Platform μ) (k : Kernel μ) (d : Fin maxDomains) (e : CapEntry) (arg : BitVec 64) :
    (k.methodAnswers p d e arg).map Prod.fst = methodTable.filter (·.1 ≠ .endpoint) := rfl

/-! ### Refusals -/

/-- A method that fails and changes nothing. -/
def Refuses (k : Kernel μ) (r : (Status × BitVec 64) × Kernel μ) : Prop :=
  ∃ st, st ≠ .ok ∧ r = ((st, 0), k)

/-- A method that is not in the table, or without its right, is refused. -/
theorem dispatchMethod_of_not_permits (p : Platform μ) (k : Kernel μ) (d : Fin maxDomains)
    {e : CapEntry} {method : BitVec 16} (arg : BitVec 64) (h : ¬e.Permits method) :
    Refuses k (k.dispatchMethod p d e method arg) := by
  rw [dispatchMethod]
  refine iteInduction (motive := Refuses k) (fun _ => ⟨.errRights, by decide, rfl⟩) fun hright => ?_
  rw [Bool.not_eq_true, Bool.not_eq_false'] at hright
  -- in the branch of a served method its right has just been checked
  have served : ∀ {kind : ObjectKind} {m : BitVec 16}, e.typeTag = kind ∧ method = m →
      (kind, m, methodRight kind m) ∈ methodTable → False := by
    rintro _ _ ⟨rfl, rfl⟩ hmem
    exact h ⟨_, hmem, hright⟩
  refine iteInduction (motive := Refuses k) (fun hm => (served hm (by decide)).elim) fun _ => ?_
  refine iteInduction (motive := Refuses k) (fun _ => ⟨.errMethod, by decide, rfl⟩) fun _ => ?_
  refine iteInduction (motive := Refuses k) (fun hm => (served hm (by decide)).elim) fun _ => ?_
  refine iteInduction (motive := Refuses k) (fun hm => (served hm (by decide)).elim) fun _ => ?_
  refine iteInduction (motive := Refuses k) (fun hm => (served hm (by decide)).elim) fun _ => ?_
  refine iteInduction (motive := Refuses k) (fun hm => (served hm (by decide)).elim) fun _ => ?_
  refine iteInduction (motive := Refuses k) (fun hm => (served hm (by decide)).elim) fun _ => ?_
  refine iteInduction (motive := Refuses k) (fun hm => (served hm (by decide)).elim) fun _ => ?_
  refine iteInduction (motive := Refuses k) (fun hm => (served hm (by decide)).elim) fun _ => ?_
  refine iteInduction (motive := Refuses k) (fun hm => (served hm (by decide)).elim) fun _ => ?_
  exact ⟨.errMethod, by decide, rfl⟩

theorem resolve_eq_ok {k : Kernel μ} {d : Fin maxDomains} {c m : BitVec 16} {e : CapEntry}
    (h : k.resolve d c m = .ok e) : (k.space.tables d).entryAt c.toNat = some e ∧
      e.check k.space.objects = .ok ∧ e.rights.contains .invoke = true := by
  rw [resolve] at h
  split at h
  · rename_i hinv
    obtain ⟨he, hcheck⟩ := CapTable.lookup_eq_ok_iff.mp h
    refine ⟨he, hcheck, ?_⟩
    rw [CapTable.invoke_of_entryAt he, if_pos hcheck] at hinv
    by_contra hr
    rw [if_neg hr] at hinv
    cases hinv
  · cases h

theorem resolve_ne_error_ok (k : Kernel μ) (d : Fin maxDomains) (c m : BitVec 16) :
    k.resolve d c m ≠ .error .ok := by
  intro h
  rw [resolve] at h
  split at h
  · rename_i hinv
    cases he : (k.space.tables d).entryAt c.toNat with
    | none =>
      rw [CapTable.invoke_of_entryAt_none he] at hinv
      cases hinv
    | some e =>
      rw [CapTable.lookup_of_entryAt he] at h
      split at h
      · cases h
      · rename_i hcheck
        exact hcheck (by injection h)
  · rename_i hne
    exact hne (by injection h)

/-! ### The two ways in -/

theorem mapPages_setReplyCptr (p : Platform μ) (d : Fin maxDomains) (r : BitVec 16)
    (pages : List (BitVec 64 × BitVec 64 × Bool × Bool)) (k : Kernel μ) :
    mapPages p d pages (k.setReplyCptr r)
      = ((mapPages p d pages k).1, (mapPages p d pages k).2.setReplyCptr r) := by
  induction pages generalizing k with
  | nil => rfl
  | cons page pages ih =>
    obtain ⟨va, phys, writable, nc⟩ := page
    rw [mapPages, mapPages, show (k.setReplyCptr r).machine = k.machine from rfl]
    cases p.mapUserPhys va phys writable false nc k.machine with
    | mk ok m =>
      cases ok with
      | true => exact ih ({ k with machine := m }.recordDomainMap d va)
      | false => rfl

/-- The answer of a method in a state with another word for the reply CPtr. -/
def withReplyCptr (r : BitVec 16) (a : (Status × BitVec 64) × Kernel μ) :
    (Status × BitVec 64) × Kernel μ := (a.1, a.2.setReplyCptr r)

theorem ite_withReplyCptr {r : BitVec 16} {c : Prop} [Decidable c]
    {a b a' b' : (Status × BitVec 64) × Kernel μ} (ha : a' = withReplyCptr r a)
    (hb : b' = withReplyCptr r b) :
    (if c then a' else b') = withReplyCptr r (if c then a else b) := by
  rw [ha, hb, apply_ite (withReplyCptr r)]

theorem notifyTake_setReplyCptr (k : Kernel μ) (oid : ℕ) (r : BitVec 16) :
    (k.setReplyCptr r).notifyTake oid
      = ((k.notifyTake oid).1, (k.notifyTake oid).2.setReplyCptr r) := by
  rw [notifyTake, notifyTake]
  split <;> rfl

theorem extentMap_setReplyCptr (p : Platform μ) (k : Kernel μ) (d : Fin maxDomains) (oid : ℕ)
    (r : BitVec 16) :
    (k.setReplyCptr r).extentMap p d oid = withReplyCptr r (k.extentMap p d oid) := by
  simp only [extentMap]
  split
  · refine ite_withReplyCptr rfl ?_
    rw [show (k.setReplyCptr r).machine = k.machine from rfl,
      show (k.setReplyCptr r).extents = k.extents from rfl]
    split <;> rfl
  · rfl

theorem devqueueMap_setReplyCptr (p : Platform μ) (k : Kernel μ) (d : Fin maxDomains) (oid : ℕ)
    (r : BitVec 16) :
    (k.setReplyCptr r).devqueueMap p d oid = withReplyCptr r (k.devqueueMap p d oid) := by
  simp only [devqueueMap]
  split
  · refine ite_withReplyCptr rfl ?_
    rw [mapPages_setReplyCptr, show (k.setReplyCptr r).devqueues = k.devqueues from rfl]
    generalize mapPages p d _ k = a
    obtain ⟨ok, k'⟩ := a
    cases ok <;> rfl
  · rfl

theorem devqueueSubmit_setReplyCptr (p : Platform μ) (k : Kernel μ) (oid : ℕ) (lba : BitVec 64)
    (r : BitVec 16) :
    (k.setReplyCptr r).devqueueSubmit p oid lba = withReplyCptr r (k.devqueueSubmit p oid lba) := by
  simp only [devqueueSubmit]
  split
  · refine ite_withReplyCptr rfl ?_
    rw [show (k.setReplyCptr r).machine = k.machine from rfl]
    split <;> rfl
  · rfl

/-- Methods do not see the word for the reply CPtr. -/
theorem dispatchMethod_setReplyCptr (p : Platform μ) (k : Kernel μ) (d : Fin maxDomains)
    (e : CapEntry) (method : BitVec 16) (arg : BitVec 64) (r : BitVec 16) :
    (k.setReplyCptr r).dispatchMethod p d e method arg
      = withReplyCptr r (k.dispatchMethod p d e method arg) := by
  rw [dispatchMethod, dispatchMethod]
  refine ite_withReplyCptr rfl (ite_withReplyCptr ?_ (ite_withReplyCptr rfl (ite_withReplyCptr ?_
    (ite_withReplyCptr ?_ (ite_withReplyCptr rfl (ite_withReplyCptr
      (k.extentMap_setReplyCptr p d e.objectId r) (ite_withReplyCptr rfl (ite_withReplyCptr
        (k.devqueueMap_setReplyCptr p d e.objectId r) (ite_withReplyCptr rfl (ite_withReplyCptr
          (k.devqueueSubmit_setReplyCptr p e.objectId arg r) rfl))))))))))
  · rw [show (k.setReplyCptr r).machine = k.machine from rfl]
    split <;> rfl
  · rw [notifySignal, notifySignal]
    split <;> rfl
  · rw [notifyTake_setReplyCptr]
    rfl

/-! ### The gate -/

/-- The syscall returns an error at once, and the kernel is as it was. -/
def SyscallRefused (k : Kernel μ) (r : Trace × Kernel μ) : Prop :=
  ∃ st, st ≠ .ok ∧ r = ({ sysret := some (k.current, .refused st) }, k.entered)

theorem permits_endpoint {e : CapEntry} {method : BitVec 16}
    (h : e.typeTag = .endpoint ∧ (method = eSend ∨ method = eRecv)) : e.Permits method := by
  obtain ⟨hkind, rfl | rfl⟩ := h
  · exact ⟨.empty, by rw [hkind]; decide, by simp [Rights.contains, Rights.empty]⟩
  · exact ⟨.empty, by rw [hkind]; decide, by simp [Rights.contains, Rights.empty]⟩

/-- A transfer without `GRANT_CAP` is refused in front of the rendezvous. -/
theorem epSend_of_not_grantCap (k : Kernel μ) (d : Fin maxDomains) (oid : ℕ) (msg : BitVec 64)
    {xfer : BitVec 16} {rights : Rights} (hx : xfer ≠ cptrNone)
    (hr : rights.contains .grantCap ≠ true) :
    ∃ st, st ≠ .ok ∧ k.epSend d oid msg xfer rights = (.done none (.refused st), k) := by
  rw [epSend]
  split
  · exact ⟨.errRights, by decide, if_pos ⟨hx, by simpa using hr⟩⟩
  · exact ⟨.errBadCPtr, by decide, rfl⟩

/-- A call that has resolved its capability is authorised by the entry, if the method is. -/
theorem authorised_of_resolve {k : Kernel μ} {nr cptr method xfer : BitVec 64} {e : CapEntry}
    (hgood : ¬(nr ≠ 1 ∨ 0xffff < cptr ∨ 0xffff < method ∨ 0xffff < xfer))
    (hres : k.resolve k.domainOf (cptr.setWidth 16) (method.setWidth 16) = .ok e)
    (hperm : e.Permits (method.setWidth 16))
    (hgrant : e.typeTag = .endpoint → method.setWidth 16 = eSend →
      xfer.setWidth 16 ≠ cptrNone → e.rights.contains .grantCap = true) :
    k.Authorised nr cptr method xfer := by
  obtain ⟨hnr, hwide⟩ := not_or.mp hgood
  simp only [not_or, BitVec.not_lt] at hwide
  obtain ⟨he, hcheck, hinvoke⟩ := resolve_eq_ok hres
  obtain ⟨m, hnames, hepoch⟩ := CapEntry.check_eq_ok_iff.mp hcheck
  have hcptr : (cptr.setWidth 16).toNat = cptr.toNat := by
    have : cptr.toNat ≤ 0xffff := hwide.1
    rw [BitVec.toNat_setWidth]
    omega
  rw [hcptr] at he
  exact ⟨not_not.mp hnr, hwide, e, m, he, hnames.at_id, hnames.present, hnames.kind, hepoch,
    hinvoke, hperm, hgrant⟩

theorem authorised_or_refused (p : Platform μ) (k : Kernel μ)
    (nr cptr method arg0 xfer rsp : BitVec 64) :
    k.Authorised nr cptr method xfer ∨
      SyscallRefused k (k.syscall p nr cptr method arg0 xfer rsp) := by
  obtain ⟨a, hroute, heq⟩ := k.exists_route p nr cptr method arg0 xfer rsp
  rw [heq]
  cases hroute with
  | malformed st hst bad =>
    refine Or.inr ⟨st, ?_, rfl⟩
    rcases hst with rfl | rfl <;> decide
  | unresolved st good resolved =>
    refine Or.inr ⟨st, ?_, rfl⟩
    rintro rfl
    exact k.resolve_ne_error_ok _ _ _ resolved
  | send e good resolved hsend =>
    have hperm := permits_endpoint ⟨hsend.1, Or.inl hsend.2⟩
    by_cases hgrant : xfer.setWidth 16 ≠ cptrNone → e.rights.contains .grantCap = true
    · exact Or.inl (authorised_of_resolve good resolved hperm fun _ _ => hgrant)
    · obtain ⟨hx, hr⟩ := Classical.not_imp.mp hgrant
      obtain ⟨st, hst, hrefused⟩ :=
        k.entered.epSend_of_not_grantCap k.domainOf e.objectId arg0 hx hr
      exact Or.inr ⟨st, hst, congrArg (finish p rsp) hrefused⟩
  | recv e good resolved hsend hrecv =>
    exact Or.inl (authorised_of_resolve good resolved
      (permits_endpoint ⟨hrecv.1, Or.inr hrecv.2⟩) fun hkind hm => absurd ⟨hkind, hm⟩ hsend)
  | transfer e good resolved hsend hrecv => exact Or.inr ⟨.errMethod, by decide, rfl⟩
  | method e good resolved hsend hrecv =>
    by_cases hperm : e.Permits (method.setWidth 16)
    · exact Or.inl (authorised_of_resolve good resolved hperm
        fun hkind hm => absurd ⟨hkind, hm⟩ hsend)
    · obtain ⟨st, hst, hrefused⟩ :=
        k.entered.dispatchMethod_of_not_permits p k.domainOf arg0 hperm
      refine Or.inr ⟨st, hst, ?_⟩
      rw [hrefused]
      rfl

/-- On everything that is not an endpoint, a syscall without a transfer is `cap_invoke_in`. -/
theorem syscall_eq_capInvokeIn (p : Platform μ) (k : Kernel μ) (c m : BitVec 16)
    (arg0 rsp : BitVec 64)
    (hkind : ∀ e, (k.space.tables k.domainOf).entryAt c.toNat = some e → e.typeTag ≠ .endpoint) :
    k.syscall p 1 (c.setWidth 64) (m.setWidth 64) arg0 (cptrNone.setWidth 64) rsp
      = ({ sysret := some (k.current, ⟨(k.capInvokeIn p k.domainOf c m arg0).1.1.code,
            (k.capInvokeIn p k.domainOf c m arg0).1.2, cptrNone⟩) },
          (k.capInvokeIn p k.domainOf c m arg0).2.setReplyCptr cptrNone) := by
  have hdom : clampDomain k.domainOf = k.domainOf := by
    apply Fin.ext
    have := k.domainOf.isLt
    show min (k.domainOf : ℕ) (maxDomains - 1) = k.domainOf
    omega
  have hnarrow : ∀ a : BitVec 16, ¬(0xffff : BitVec 64) < a.setWidth 64 := by
    intro a
    rw [BitVec.not_lt, BitVec.le_def, BitVec.toNat_setWidth]
    have := a.isLt
    have hmod : a.toNat % 2 ^ 64 = a.toNat := Nat.mod_eq_of_lt (by omega)
    rw [hmod]
    show a.toNat ≤ 65535
    omega
  have hback : ∀ a : BitVec 16, (a.setWidth 64).setWidth 16 = a := fun a => by
    rw [BitVec.setWidth_setWidth_of_le _ (by decide), BitVec.setWidth_eq]
  simp only [syscall, capInvokeIn]
  rw [hdom, if_neg (by simp),
    if_neg (not_or.mpr ⟨hnarrow c, not_or.mpr ⟨hnarrow m, hnarrow _⟩⟩), hback, hback, hback,
    capInvokeIpc,
    show (k.setReplyCptr cptrNone).resolve (k.setReplyCptr cptrNone).domainOf c m
      = k.resolve k.domainOf c m from rfl]
  cases hres : k.resolve k.domainOf c m with
  | error st => rfl
  | ok e =>
    have hne := hkind e (resolve_eq_ok hres).1
    dsimp only
    rw [if_neg fun h => hne h.1, if_neg fun h => hne h.1, if_neg (by simp),
      dispatchMethod_setReplyCptr]
    have hcur : (k.dispatchMethod p k.domainOf e m arg0).2.current = k.current := by
      obtain ⟨_, _, _, _, h⟩ := (k.plain_dispatchMethod p k.domainOf e m arg0).payload
      rw [h]
      rfl
    rw [← hcur]
    rfl

end Kernel

/-- **No method without its right, and a refused call has no effect.** For every state and all
arguments, a syscall is authorised, or it returns an error at once and leaves everything but the
word for the reply CPtr as it was. For everything that is not an endpoint, and without a transfer,
`cap_invoke_in` in the running domain gives the same status, reply and effects. -/
theorem syscall_gated {μ : Type} (p : Platform μ) (k : Kernel μ) :
    (∀ nr cptr method arg0 xfer rsp, k.Authorised nr cptr method xfer ∨
      ∃ st, st ≠ .ok ∧ k.syscall p nr cptr method arg0 xfer rsp
        = ({ sysret := some (k.current, .refused st) }, k.setReplyCptr cptrNone)) ∧
    ∀ c m arg0 rsp,
      (∀ e, (k.space.tables k.domainOf).entryAt c.toNat = some e → e.typeTag ≠ .endpoint) →
        k.syscall p 1 (c.setWidth 64) (m.setWidth 64) arg0 (cptrNone.setWidth 64) rsp
          = ({ sysret := some (k.current, ⟨(k.capInvokeIn p k.domainOf c m arg0).1.1.code,
                (k.capInvokeIn p k.domainOf c m arg0).1.2, cptrNone⟩) },
              (k.capInvokeIn p k.domainOf c m arg0).2.setReplyCptr cptrNone) :=
  ⟨k.authorised_or_refused p, k.syscall_eq_capInvokeIn p⟩

end Cairn
