import Cairn.Kernel.Boot
import Cairn.Kernel.Gate

/-!
# The system that is shipped

`main.rs` starts four programs: a client in domain 1, a server in domain 2, the supervised program
in domain 4 and a disk driver in domain 5. What they may do is laid out in `grants`: the boot code
gives that much, the client may grant its Memory capability to the server, and a restart gives the
supervised domain a new Memory capability. Here it is shown that nothing else ever happens, with
any programs in the four places that act on the kernel through syscalls, interrupts and faults: they
can make any calls, in any order, with preemptions and faults in between.

That is a restriction. `DQ_MAP` puts the rings of the disk into the one address space, and the boot
code calls it before the programs run; a program that writes descriptors there has the device write
to any memory, the tables of the kernel included. No such step is among the operations here.

Two facts carry this. Only the client's endpoint capability has `GRANT_CAP`, and of its capabilities
only the Memory one has `DELEGATE`; so what moves is that one, and it moves to whoever meets the
client at an endpoint. And no endpoint is reached from the domains 4 and 5, so the one who meets the
client is the server.

## Main definitions

* `services` — the methods each domain can have served
* `Shipped` — what the running system keeps

## Main results

* `Shipped.step` — every step
* `shipped_authority` — every run after booting, whatever the calls outside answered
-/

namespace Cairn

/-- The domains with a program. -/
def programs : List ℕ := [5, 1, 2, 4]

/-- The methods each program can have served. -/
def services : ℕ → List (ObjectKind × BitVec 16)
  | 1 => [(.endpoint, Kernel.eSend), (.endpoint, Kernel.eRecv), (.memory, Kernel.mAlloc)]
  | 2 => [(.endpoint, Kernel.eSend), (.endpoint, Kernel.eRecv), (.memory, Kernel.mAlloc),
      (.notification, Kernel.nSignal)]
  | 4 => [(.memory, Kernel.mAlloc)]
  | 5 => [(.deviceQueue, Kernel.dqInfo), (.deviceQueue, Kernel.dqMap),
      (.deviceQueue, Kernel.dqReport), (.deviceQueue, Kernel.dqSubmit)]
  | _ => []

/-! ### The lists -/

/-- A capability of a program permits services of the program only. -/
theorem mem_services {d : ℕ} (hd : d ∈ programs) {e : CapEntry}
    (he : (e.typeTag, e.rights) ∈ grants d) {method : BitVec 16} (hperm : e.Permits method) :
    (e.typeTag, method) ∈ services d := by
  have hlist : ∀ d ∈ programs, ∀ g ∈ grants d, ∀ row ∈ methodTable, row.1 = g.1 →
      g.2.contains row.2.2 = true → (g.1, row.2.1) ∈ services d := by decide
  obtain ⟨r, hrow, hr⟩ := hperm
  exact hlist d hd _ he _ hrow rfl hr

theorem grants_endpoint {d : ℕ} (hd : d ∈ programs) {rights : Rights}
    (h : (ObjectKind.endpoint, rights) ∈ grants d) : d = 1 ∨ d = 2 := by
  have hlist : ∀ d ∈ programs, ∀ g ∈ grants d, g.1 = .endpoint → d = 1 ∨ d = 2 := by decide
  exact hlist d hd _ h rfl

theorem grants_grantCap {d : ℕ} (hd : d ∈ programs) {kind : ObjectKind} {rights : Rights}
    (h : (kind, rights) ∈ grants d) (hgrant : rights.contains .grantCap = true) : d = 1 := by
  have hlist : ∀ d ∈ programs, ∀ g ∈ grants d, g.2.contains .grantCap = true → d = 1 := by decide
  exact hlist d hd _ h hgrant

/-- What the client can give away, the server may have. -/
theorem grants_delegate {kind : ObjectKind} {rights : Rights} (h : (kind, rights) ∈ grants 1)
    (hdel : rights.contains .delegate = true) : (kind, rights) ∈ grants 2 := by
  have hlist : ∀ g ∈ grants 1, g.2.contains .delegate = true → g ∈ grants 2 := by decide
  exact hlist _ h hdel

/-! ### The invariant -/

/-- What the running system keeps: domains hold what is listed for them, programs live in the four
domains, those parked are the client and the server, and a parked sender with a capability to
transfer is the client. -/
structure Shipped {μ : Type} (p : Platform μ) (m₀ : μ) (k : Kernel μ) : Prop where
  reached : ∃ h, OrderlyRun p m₀ h ∧ kernelAfter p m₀ h = k
  endowed : k.Endowed
  peopled : ∀ d : Fin maxDomains, k.Populated d → (d : ℕ) ∈ programs
  peers : ∀ i, (k.endpoints i).state ≠ .idle →
    (k.endpoints i).peerDomain = 1 ∨ (k.endpoints i).peerDomain = 2
  offers : ∀ i, (k.endpoints i).state = .sendWait → (k.endpoints i).xferCptr ≠ cptrNone →
    (k.endpoints i).peerDomain = 1

theorem Booting.shipped {μ : Type} {p : Platform μ} {m₀ : μ}
    {C : List (Fin capTableSlots × ObjectKind × Rights)} {k : Kernel μ}
    (h : Booting p m₀ programs C k) : Shipped p m₀ k where
  reached := h.reached
  endowed := h.granted
  peopled := by
    rintro d ⟨t, ht, hp, hd⟩
    exact hd ▸ h.lives t ht hp
  peers := fun i hi => absurd (h.idle i) hi
  offers := by
    intro i hi
    cases (h.idle i).symm.trans hi

namespace Shipped

variable {μ : Type} {p : Platform μ} {m₀ : μ} {k : Kernel μ}

theorem sound (h : Shipped p m₀ k) : k.Sound := by
  obtain ⟨hist, hrun, rfl⟩ := h.reached
  exact hrun.sound

theorem apart (h : Shipped p m₀ k) : k.Apart := by
  obtain ⟨hist, hrun, rfl⟩ := h.reached
  exact hrun.apart

theorem rights_le (h : Shipped p m₀ k) (d : Fin maxDomains) (i : Fin capTableSlots) (e : CapEntry)
    (he : k.slot d i = some e) : e.rights ≤ .all := by
  obtain ⟨hist, -, rfl⟩ := h.reached
  exact rights_le_all p m₀ hist he

/-- The capabilities of a domain with a program. -/
theorem mem_grants (h : Shipped p m₀ k) {d : Fin maxDomains} (hd : k.Populated d)
    {s : Fin capTableSlots} {e : CapEntry} (he : k.slot d s = some e) :
    (e.typeTag, e.rights) ∈ grants d := by
  refine h.endowed d s e ?_ he
  rintro rfl
  exact absurd (h.peopled 0 hd) (by decide)

/-- Only the client and the server reach an endpoint. -/
theorem eq_of_reaches (h : Shipped p m₀ k) {d : Fin maxDomains} (hd : k.Populated d)
    {i : Fin objectTableSize} (hr : k.Reaches d i) : (d : ℕ) = 1 ∨ (d : ℕ) = 2 := by
  rcases hr with ⟨s, e, he, hkind, -⟩ | ⟨hi, hpeer⟩
  · have hg := h.mem_grants hd he
    rw [hkind] at hg
    exact grants_endpoint (h.peopled d hd) hg
  · rw [← hpeer]
    exact h.peers i hi

/-- Only the client sends a capability. -/
theorem eq_of_authorised (h : Shipped p m₀ k) (h3 : k.InRing3)
    {nr cptr method arg0 xfer rsp : BitVec 64} (ha : k.Authorised nr cptr method xfer) {c : Call}
    (hcall : k.callOf (.syscall nr cptr method arg0 xfer rsp) = some c) {msg : BitVec 64}
    {x : BitVec 16} (hside : c.side = .send msg x) (hx : x ≠ cptrNone) : (c.domain : ℕ) = 1 := by
  have hpop := h.sound.populated_current h3
  obtain ⟨e, -, hentry, -, -, -, -, -, -, hgrant⟩ := ha.entry
  obtain ⟨hc, hslot⟩ := CapTable.entryAt_eq_some_iff.mp hentry
  rw [(Kernel.callOf_eq_some hcall).2]
  refine grants_grantCap (h.peopled _ hpop) (h.mem_grants hpop hslot) ?_
  rw [Kernel.callOf] at hcall
  split at hcall
  · cases hcall
  rename_i hnarrow
  split at hcall
  · cases hcall
  rename_i e' hres
  -- the entry the call resolved is the one it is authorised by
  have heq : (cptr.setWidth 16).toNat = cptr.toNat := by
    have := ha.narrow.1
    bv_omega
  have hsame := (Kernel.resolve_eq_ok hres).1
  rw [heq] at hsame
  cases hentry.symm.trans hsame
  split at hcall
  · rename_i hsend
    split at hcall
    · cases hcall
      cases hside
      exact hgrant hsend.1 hsend.2 hx
    · cases hcall
  split at hcall
  · split at hcall
    · cases hcall
      cases hside
    · cases hcall
  · cases hcall

/-! ### One step -/

/-- A step of the running system, as far as authority and reach go. -/
theorem of_flows (h : Shipped p m₀ k) {op : Op μ} (hop : k.Permitted op)
    (hafter : op.afterBoot = true) (hend : (k.step p op).2.Endowed)
    (hoff : ∀ i, ((k.step p op).2.endpoints i).state = .sendWait →
      ((k.step p op).2.endpoints i).xferCptr ≠ cptrNone →
      ((k.step p op).2.endpoints i).peerDomain = 1) : Shipped p m₀ (k.step p op).2 := by
  have hflow := h.sound.flows_step h.rights_le p hop hafter
  have hreached : ∃ hist, OrderlyRun p m₀ hist ∧ kernelAfter p m₀ hist = (k.step p op).2 := by
    have horderly : k.Orderly op := by
      refine ⟨hop, ?_⟩
      cases op with
      | syscall | tick | fault | outside => trivial
      | _ => cases hafter
    obtain ⟨hist, hrun, rfl⟩ := h.reached
    exact ⟨op :: hist, ⟨horderly, hrun⟩, rfl⟩
  have hsound : (k.step p op).2.Sound := by
    obtain ⟨hist, hrun, heq⟩ := hreached
    exact heq ▸ hrun.sound
  refine ⟨hreached, hend, fun d hd => h.peopled d (hflow.populated d hd), fun i hi => ?_, hoff⟩
  obtain ⟨t, hw⟩ := hsound.waits i hi
  have hlt : ((k.step p op).2.endpoints i).peerDomain < maxDomains :=
    hw.domain ▸ hsound.domain_lt t hw.present
  have hpop := hflow.populated ⟨_, hlt⟩ (hsound.populated_waiting hw rfl)
  exact h.eq_of_reaches hpop (hflow.parked i ⟨_, hlt⟩ hi rfl)

/-- A capability moves from the client to the server, and is one the server may have. -/
theorem endowed_syscall (h : Shipped p m₀ k) (h3 : k.InRing3)
    {nr cptr method xfer : BitVec 64} (ha : k.Authorised nr cptr method xfer)
    (arg0 rsp : BitVec 64) :
    (k.step p (.syscall nr cptr method arg0 xfer rsp)).2.Endowed := by
  intro d s e hd he
  have hcons := Kernel.conserving_syscall p h.rights_le nr cptr method arg0 xfer rsp
  rcases hcons.change with hsame |
    ⟨c, src, dst, i, j, e₀, hcall, hw, hsrc, hdst, hi, hne, hheld, hgone, -, hnew, hrest⟩
  · exact h.endowed d s e hd ((hsame d s).symm.trans he)
  by_cases hleft : d = src ∧ s = i
  · obtain ⟨rfl, rfl⟩ := hleft
    cases hgone.symm.trans he
  by_cases hcame : d = dst ∧ s = j
  · obtain ⟨rfl, rfl⟩ := hcame
    cases hnew.symm.trans he
    have hidle : (k.endpoints c.ep).state ≠ .idle := hw ▸ c.side.awaits_ne_idle
    obtain ⟨hpops, hrs⟩ := h.sound.party h3 hcall hidle (Or.inl hsrc)
    obtain ⟨hpopd, hrd⟩ := h.sound.party h3 hcall hidle (Or.inr hdst)
    -- the slot named is one of the table, so it is not `CPTR_NONE`
    have hx : c.xfer (k.endpoints c.ep) ≠ cptrNone := by
      intro hnone
      rw [hnone] at hi
      have hlt := i.isLt
      rw [← hi, capTableSlots] at hlt
      exact absurd hlt (by decide)
    have hclient : (src : ℕ) = 1 := by
      rw [hsrc]
      rw [Call.xfer] at hx
      rw [Call.sendDomain]
      cases hside : c.side with
      | send msg x =>
        rw [hside] at hx
        exact h.eq_of_authorised h3 ha hcall hside hx
      | recv =>
        rw [hside] at hx hw
        exact h.offers c.ep hw hx
    have hserver : (d : ℕ) = 2 := by
      rcases h.eq_of_reaches hpopd hrd with h₁ | h₂
      · exact absurd (Fin.ext (hclient.trans h₁.symm)) hne
      · exact h₂
    have hdel : e₀.rights.contains .delegate = true := by
      by_contra hno
      have hstuck := (hcons.failure c hcall hx (.notDelegable src i e₀ hsrc hi hheld
        (Bool.eq_false_iff.mpr hno))).1
      cases hheld.symm.trans ((hstuck src i).symm.trans hgone)
    have hg := h.mem_grants hpops hheld
    rw [hclient] at hg
    rw [hserver]
    exact grants_delegate hg hdel
  · exact h.endowed d s e hd ((hrest d s hleft hcame).symm.trans he)

/-- A termination empties the table of its domain, up to the capability of a restart. -/
theorem endowed_fault (h : Shipped p m₀ k) (h3 : k.InRing3) : (k.step p .fault).2.Endowed := by
  intro d s e hd he
  have hpop := h.sound.populated_current h3
  have hcur : (k.task k.current).domain = k.domainOf := h.sound.domainOf_eq.symm
  have h0 : k.domainOf ≠ 0 := by
    intro h0
    exact absurd (h.peopled _ (h0 ▸ hpop)) (by decide)
  have hframe := k.deathFrame_terminateCurrent p h0 hcur
  by_cases hdc : d = k.domainOf
  · subst hdc
    rcases hframe.domain with hnew | ⟨hfault, i, o, -, -, hset⟩
    · rw [Kernel.slot, Kernel.step, Space.slot, hnew] at he
      cases he
    · rw [Kernel.slot, Kernel.step, Space.slot, hset, Space.slots_set] at he
      split at he
      · cases he
        rw [hfault]
        exact List.mem_cons_self
      · cases he
  · rw [Kernel.slot, Kernel.step, Space.slot, hframe.tables d hdc hd] at he
    exact h.endowed d s e hd he

/-- **Every step of the running system.** -/
theorem step (h : Shipped p m₀ k) {op : Op μ} (hop : k.Permitted op)
    (hafter : op.afterBoot = true) : Shipped p m₀ (k.step p op).2 := by
  cases op with
  | syscall nr cptr method arg0 xfer rsp =>
    rcases k.authorised_or_refused p nr cptr method arg0 xfer rsp with ha | ⟨st, -, heq⟩
    · refine h.of_flows hop hafter (h.endowed_syscall hop ha arg0 rsp) fun i hi hx => ?_
      rcases k.endpoint_syscall p nr cptr method arg0 xfer rsp i with hsame | ⟨c, hcall, rfl, hend⟩
      · rw [hsame] at hi hx ⊢
        exact h.offers i hi hx
      rcases hend with ⟨-, hidle⟩ | ⟨-, hoffer⟩
      · cases hi.symm.trans hidle
      · rw [hoffer] at hi hx ⊢
        rw [c.offer_peerDomain]
        cases hside : c.side with
        | send msg x =>
          rw [Call.offer, hside] at hx
          exact h.eq_of_authorised hop ha hcall hside hx
        | recv =>
          rw [c.offer_state, hside] at hi
          cases hi
    · have hk : (k.step p (.syscall nr cptr method arg0 xfer rsp)).2 = k.entered :=
        congrArg Prod.snd heq
      refine h.of_flows hop hafter ?_ fun i => ?_
      · rw [hk]
        exact h.endowed
      · rw [hk]
        exact h.offers i
  | tick rsp =>
    have hboard := (k.scheduleTick_keeps p rsp).1
    refine h.of_flows hop hafter (fun d s e hd he => ?_) fun i => ?_
    · rw [Kernel.step, Kernel.slot, hboard.space] at he
      exact h.endowed d s e hd he
    · rw [Kernel.step, hboard.endpoints]
      exact h.offers i
  | fault =>
    refine h.of_flows hop hafter (h.endowed_fault hop) fun i => ?_
    rw [h.sound.endpoints_fault p]
    exact h.offers i
  | outside m => exact h.of_flows hop hafter h.endowed h.offers
  | _ => cases hafter

/-- Those who meet are the client and the server. -/
theorem meeting (h : Shipped p m₀ k) {op : Op μ} (hop : k.Permitted op) {t : ℕ} {r : IpcResult}
    (hwoke : (k.step p op).1.woke = some (t, r)) :
    ∃ u : Fin maxTasks, t = u ∧
      ((k.task k.current).domain = 1 ∧ (k.task u).domain = 2 ∨
        (k.task k.current).domain = 2 ∧ (k.task u).domain = 1) := by
  obtain ⟨u, d, d', rfl, hd, hd', hnb⟩ := h.sound.neighbours_of_woke hop hwoke
  obtain ⟨c, u', hcall, hu, hwait⟩ := h.sound.woke hwoke
  obtain rfl : u = u' := Fin.ext hu
  have h3 : k.InRing3 := by
    cases op with
    | syscall => exact hop
    | _ => cases hcall
  have hne := h.apart.apart k.current u (h.sound.ne_current hwait.blocked).symm
    h.sound.current_present hwait.present h3
  obtain ⟨i, hr, hr'⟩ := hnb.meet
  refine ⟨u, rfl, ?_⟩
  show (k.seat k.current).domain = 1 ∧ (k.seat u).domain = 2 ∨
    (k.seat k.current).domain = 2 ∧ (k.seat u).domain = 1
  rw [hd, hd'] at hne ⊢
  rcases h.eq_of_reaches hnb.left hr with h₁ | h₁ <;>
    rcases h.eq_of_reaches hnb.right hr' with h₂ | h₂
  · exact absurd (h₁.trans h₂.symm) hne
  · exact Or.inl ⟨h₁, h₂⟩
  · exact Or.inr ⟨h₁, h₂⟩
  · exact absurd (h₁.trans h₂.symm) hne

/-- A syscall is refused or is one of the services of the program that makes it. -/
theorem served (h : Shipped p m₀ k) (h3 : k.InRing3) (nr cptr method arg0 xfer rsp : BitVec 64) :
    Kernel.SyscallRefused k (k.syscall p nr cptr method arg0 xfer rsp) ∨
      ∃ e, (k.space.tables k.domainOf).entryAt cptr.toNat = some e ∧
        (e.typeTag, method.setWidth 16) ∈ services (k.task k.current).domain ∧
        (e.typeTag = .endpoint → method.setWidth 16 = Kernel.eSend →
          xfer.setWidth 16 ≠ cptrNone → (k.task k.current).domain = 1) := by
  rcases k.authorised_or_refused p nr cptr method arg0 xfer rsp with ha | href
  · obtain ⟨e, -, hentry, -, -, -, -, -, hperm, hgrant⟩ := ha.entry
    obtain ⟨hc, hslot⟩ := CapTable.entryAt_eq_some_iff.mp hentry
    have hpop := h.sound.populated_current h3
    have hmem := h.mem_grants hpop hslot
    have hdom : (k.task k.current).domain = k.domainOf := h.sound.domainOf_eq.symm
    rw [hdom]
    exact Or.inr ⟨e, hentry, mem_services (h.peopled _ hpop) hmem hperm, fun hkind hsend hx =>
      grants_grantCap (h.peopled _ hpop) hmem (hgrant hkind hsend hx)⟩
  · exact Or.inl href

end Shipped

/-- The state of the running system after every run. -/
theorem shipped_after {μ : Type} (p : Platform μ) (env : BootEnv μ) (m₀ : μ) {run : List (Op μ)}
    (hperm : Runs.Every (fun k op => (k.step p op).2) (booted p env m₀) Kernel.Permitted run)
    (hafter : ∀ op ∈ run, op.afterBoot = true) :
    Shipped p m₀ (Runs.after (fun k op => (k.step p op).2) (booted p env m₀) run) := by
  induction run with
  | nil => exact (booting_booted p env m₀).shipped
  | cons op run ih =>
    have hprev := ih hperm.2 fun o ho => hafter o (List.mem_cons_of_mem op ho)
    exact hprev.step hperm.1 (hafter op List.mem_cons_self)

/-- **Authority in the shipped system.** Boot with any answers of the disk, the loader and the
timer, and run programs that reach the memory of the kernel through syscalls, interrupts and faults
only, and not by DMA through the rings that are mapped; with any syscalls, preemptions, faults and
restarts. Then every domain but the root holds capabilities of the kinds and rights that `grants`
lists for it; whatever is not refused to a program is one of its services, and only the client sends
a capability; and whenever a call wakes a task, one of the two is the client and the other the
server. -/
theorem shipped_authority {μ : Type} (p : Platform μ) (env : BootEnv μ) (m₀ : μ)
    {run : List (Op μ)}
    (hperm : Runs.Every (fun k op => (k.step p op).2) (booted p env m₀) Kernel.Permitted run)
    (hafter : ∀ op ∈ run, op.afterBoot = true) {k : Kernel μ}
    (hk : k = Runs.after (fun k op => (k.step p op).2) (booted p env m₀) run) :
    (∀ (d : Fin maxDomains) s e, d ≠ 0 → k.slot d s = some e →
      (e.typeTag, e.rights) ∈ grants d) ∧
    (k.InRing3 → ∀ nr cptr method arg0 xfer rsp,
      Kernel.SyscallRefused k (k.syscall p nr cptr method arg0 xfer rsp) ∨
        ∃ e, (k.space.tables k.domainOf).entryAt cptr.toNat = some e ∧
          (e.typeTag, method.setWidth 16) ∈ services (k.task k.current).domain ∧
          (e.typeTag = .endpoint → method.setWidth 16 = Kernel.eSend →
            xfer.setWidth 16 ≠ cptrNone → (k.task k.current).domain = 1)) ∧
    ∀ op t r, k.Permitted op → (k.step p op).1.woke = some (t, r) →
      ∃ u : Fin maxTasks, t = u ∧
        ((k.task k.current).domain = 1 ∧ (k.task u).domain = 2 ∨
          (k.task k.current).domain = 2 ∧ (k.task u).domain = 1) := by
  have h := shipped_after p env m₀ hperm hafter
  rw [← hk] at h
  exact ⟨h.endowed, h.served, fun op t r hop hwoke => h.meeting hop hwoke⟩

/-- Calls that succeed, on a store without a root. -/
def wellBoot : BootEnv Unit where
  recover m := (none, m)
  put m := (some (8, 59, 0xabc), m)
  extentContentHash _ _ m := (some 0xabc, m)
  loadExtent _ _ m := (some 0x5000, m)
  initTimer m := (true, m)
  setupUserTask code stack _ m := (some (code, stack + 4096), m)
  writeSector _ m := (true, m)
  bakeParams _ m := m

/-- The supervised program faults and is restarted, and the server calls `E_RECV`. -/
def serverWaits : List (Op Unit) := [.syscall 1 2 2 0 0xffff 0x300, .fault, .tick 0x100]

theorem permitted_serverWaits : Runs.Every (fun k op => (k.step bareMachine op).2)
    (booted bareMachine wellBoot ()) Kernel.Permitted serverWaits := by
  refine ⟨?_, ?_, trivial, trivial⟩
  · show TaskFrame.ring3 _ = true
    decide +kernel
  · show TaskFrame.ring3 _ = true
    decide +kernel

/-- The client is next; it sends `7` with its Memory capability, and wakes the server. -/
theorem shipped_authority_serverWaits :
    ((Runs.after (fun k op => (k.step bareMachine op).2) (booted bareMachine wellBoot ())
        serverWaits).step bareMachine (.syscall 1 0 1 7 1 0x400)).1.woke.isSome = true ∧
      ∀ (d : Fin maxDomains) s e, d ≠ 0 →
        (Runs.after (fun k op => (k.step bareMachine op).2) (booted bareMachine wellBoot ())
          serverWaits).slot d s = some e → (e.typeTag, e.rights) ∈ grants d :=
  ⟨by decide +kernel,
    (shipped_authority bareMachine wellBoot () permitted_serverWaits (by decide) rfl).1⟩

end Cairn
