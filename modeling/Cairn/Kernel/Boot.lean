import Cairn.Kernel.Confinement
import Cairn.Kernel.Constructors
import Cairn.Kernel.Rendezvous

/-!
# The boot thread

`kmain_main` in `main.rs`, from the recovery of the object store to `sti`: the self-tests, the three
demonstrations with their capabilities, and the admission of the four ring-3 programs. What it
calls outside the kernel state (the object store, the disk, the loader, the timer) is a parameter;
each of these calls may fail, and the code goes on or gives up as the source does.

The code is written in the state monad over the kernel, in stages. `sched::init`, which the source
calls in the middle, is part of `Kernel.init` here: nothing before it touches the scheduler. The
results of self-tests, which the source prints, are dropped.

## Main definitions

* `BootEnv` — the calls outside the kernel state
* `Boot.main` — the boot code
* `grants` — the capabilities each domain is given
* `Booting` — what holds at every point of the boot code
* `Boot.Leaves` — what a piece of the boot code ends in, with one rule for each call it makes

## Main results

* `booting_booted` — the state in which interrupts are enabled, whatever those calls answer
-/

namespace Cairn

/-- The programs of `user.rs`. -/
inductive Blob
  | client
  | server
  | faulter
  | driver
  deriving DecidableEq, Repr

/-- What the boot code calls outside the kernel state. -/
structure BootEnv (μ : Type) where
  /-- `objstore::recover`. -/
  recover : μ → Option (BitVec 64 × BitVec 32 × BitVec 64) × μ
  /-- `objstore::put` of the boot message. -/
  put : μ → Option (BitVec 64 × BitVec 32 × BitVec 64) × μ
  /-- `objstore::extent_content_hash`. -/
  extentContentHash : BitVec 64 → BitVec 32 → μ → Option (BitVec 64) × μ
  /-- `objstore::load_extent`. -/
  loadExtent : BitVec 64 → BitVec 32 → μ → Option (BitVec 64) × μ
  /-- `apic::init_timer`. -/
  initTimer : μ → Bool × μ
  /-- `user::setup_user_task`, with the addresses of the code and the stack page. -/
  setupUserTask : BitVec 64 → BitVec 64 → Blob → μ → Option (BitVec 64 × BitVec 64) × μ
  /-- `virtio_blk::write_sector` of the magic number. -/
  writeSector : BitVec 64 → μ → Bool × μ
  /-- The sentinel and the parameters written into the shared buffer. -/
  bakeParams : DeviceQueueDesc → μ → μ

namespace Boot

open Kernel (mAlloc mFree nSignal nPoll eSend xRead xWrite xMap dqMap dqSubmit)

variable {μ : Type} (p : Platform μ) (env : BootEnv μ)

/-! ### The calls -/

/-- A call outside the kernel state. -/
def outside {α : Type} (f : μ → α × μ) : StateM (Kernel μ) α :=
  fun k => ((f k.machine).1, { k with machine := (f k.machine).2 })

/-- A constructor. -/
def construct (c : Constructor) : StateM (Kernel μ) (Option (Fin capTableSlots)) :=
  fun k => c.call p k

/-- `delegate_from_root`, without a badge. -/
def delegateFromRoot (dst : ℕ) (src : Fin capTableSlots) (mask : Rights) :
    StateM (Kernel μ) (Option (Fin capTableSlots)) :=
  fun k => k.delegateFromRoot dst src mask 0

/-- `opt.and_then(|m| delegate_from_root(dst, m, mask, 0))`. -/
def delegateSome (dst : ℕ) (src : Option (Fin capTableSlots)) (mask : Rights) :
    StateM (Kernel μ) (Option (Fin capTableSlots)) :=
  match src with
  | some src => delegateFromRoot dst src mask
  | none => pure none

/-- `cap_invoke_in`, with its result dropped. -/
def capInvokeIn (domain : ℕ) (c : Fin capTableSlots) (method : BitVec 16) (arg : BitVec 64) :
    StateM (Kernel μ) Unit :=
  fun k => ((), (k.capInvokeIn p domain (.ofNat 16 c) method arg).2)

/-- `cap_invoke`, with its result dropped. -/
def capInvoke (c : Fin capTableSlots) (method : BitVec 16) (arg : BitVec 64) :
    StateM (Kernel μ) Unit :=
  fun k => capInvokeIn p k.domainOf c method arg k

/-- The revocation in `demo_revoke_then_invoke` and `revoke_timeslice`: of the object behind a
root capability, if it resolves. -/
def revokeRoot (c : Fin capTableSlots) : StateM (Kernel μ) Bool :=
  fun k =>
    match (k.space.tables 0).lookup c k.space.objects with
    | .ok e =>
      (true, { k with space := { k.space with objects := (k.space.objects.revoke e.objectId).2 } })
    | .error _ => (false, k)

/-- `demo_revoke_then_invoke`. -/
def demoRevokeThenInvoke (c : Fin capTableSlots) : StateM (Kernel μ) Unit := do
  if ← revokeRoot c then capInvokeIn p 0 c mAlloc 0

/-- `admit_user`, with the deadline at the end of the period and the budget the boot code gives. -/
def admitUser (entry : BitVec 64 × BitVec 64) (mem c : Fin capTableSlots)
    (domain period : ℕ) : StateM (Kernel μ) Unit :=
  fun k => ((), (k.admitUser p entry.1 entry.2 (.ofNat 16 mem) c domain period period 1000000).2)

/-! ### The stages -/

/-- Re-mint the root extent that survived the reboot. -/
def recoverRoot : StateM (Kernel μ) Unit := do
  let some (lba, len, hash) ← outside env.recover | pure ()
  let some ext ← construct p (.mintExtent lba len hash) | pure ()
  capInvoke p ext xRead 0

/-- A content-addressed extent, with a copy in domain 3 that must not read. -/
def extentProof (lba : BitVec 64) (len : BitVec 32) (hash : BitVec 64) :
    StateM (Kernel μ) Unit := do
  let some ext ← construct p (.mintExtent lba len hash) | pure ()
  capInvoke p ext xRead 0
  let _ ← outside (env.extentContentHash lba len)
  let some nc ← delegateFromRoot 3 ext (.union .invoke .write) | pure ()
  capInvokeIn p 3 nc xRead 0
  capInvokeIn p 3 nc xWrite 0

/-- The same extent mapped, with a copy in domain 3 that must not map. -/
def extentMapProof (lba : BitVec 64) (len : BitVec 32) (hash : BitVec 64) :
    StateM (Kernel μ) Unit := do
  let some frame ← outside (env.loadExtent lba len) | pure ()
  let some mext ← construct p (.mintExtentMapped lba len hash frame) | pure ()
  capInvoke p mext xMap 0
  let some c ← delegateFromRoot 3 mext (.union .invoke .read) | pure ()
  capInvokeIn p 3 c xMap 0

/-- Commit an object and show both. -/
def putExtent : StateM (Kernel μ) Unit := do
  let some (lba, len, hash) ← outside env.put | pure ()
  extentProof p env lba len hash
  extentMapProof p env lba len hash

/-- The first capability: allocate twice, free in vain, revoke. -/
def capSelfTest : StateM (Kernel μ) Unit := do
  let some c ← construct p .initRoot | pure ()
  capInvoke p c mAlloc 0
  capInvoke p c mAlloc 0
  capInvoke p c mFree 0x100
  demoRevokeThenInvoke p c

/-- A Memory capability for domain 2, and the same number in its table. -/
def perDomain : StateM (Kernel μ) Unit := do
  let some mem ← construct p .initRoot | pure ()
  let some c ← delegateFromRoot 2 mem .invoke | pure ()
  capInvokeIn p 2 c mAlloc 0
  capInvokeIn p 2 mem mAlloc 0

/-- A notification that domain 2 may signal and not poll. -/
def notify : StateM (Kernel μ) Unit := do
  let some n ← construct p .createNotification | pure ()
  let some c ← delegateFromRoot 2 n (.union .invoke .write) | pure ()
  capInvokeIn p 2 c nSignal 0b101
  capInvokeIn p 2 c nPoll 0
  capInvokeIn p 0 n nPoll 0
  capInvokeIn p 0 n nPoll 0

/-- The supervised domain. -/
def startFaulter : StateM (Kernel μ) Unit := do
  let mem ← construct p .initRoot
  let faultMem ← delegateSome Kernel.faultDomain mem .invoke
  let blob ← outside (env.setupUserTask 0x420000 0x7df000 .faulter)
  let slice ← construct p .mintTimeslice
  match faultMem, blob, slice with
  | some fm, some b, some ft =>
    modify fun k => k.registerFaulter b.1 b.2 2
    admitUser p b fm ft Kernel.faultDomain 5000000
  | _, _, _ => pure ()

/-- The admission of the server and the client. -/
def admitPair (eps epc : Fin capTableSlots) (server client : BitVec 64 × BitVec 64) :
    StateM (Kernel μ) Unit := do
  let t₁ ← construct p .mintTimeslice
  let t₂ ← construct p .mintTimeslice
  match t₁, t₂ with
  | some t₁, some t₂ =>
    admitUser p server eps t₁ 2 5000000
    admitUser p client epc t₂ 1 5000000
  | _, _ => pure ()

/-- The client in domain 1 and the server in domain 2, with one endpoint and the Memory capability
that the client will grant. -/
def startPair : StateM (Kernel μ) Unit := do
  let ep ← construct p .createEndpoint
  let epClient ← delegateSome 1 ep (.union .invoke .grantCap)
  let epServer ← delegateSome 2 ep .invoke
  let mem ← construct p .initRoot
  let clientMem ← delegateSome 1 mem (.union .invoke .delegate)
  let server ← outside (env.setupUserTask 0x410000 0x7ef000 .server)
  let client ← outside (env.setupUserTask 0x400000 0x7ff000 .client)
  match epServer, epClient, clientMem, server, client with
  | some eps, some epc, some _, some server, some client => admitPair p eps epc server client
  | _, _, _, _, _ => pure ()

/-- `E_SEND` with a transfer through an endpoint capability without `GRANT_CAP`, from domain 3. The
boot thread must not park here; it does not, because the call is refused first. -/
def grantGate : StateM (Kernel μ) Unit := do
  let some ep ← construct p .createEndpoint | pure ()
  let some c ← delegateFromRoot 3 ep .invoke | pure ()
  modify fun k => k.setCurrentDomain 3
  modify fun k => (k.capInvokeIpc p (.ofNat 16 c) eSend 0xbeef 5).2
  modify fun k => k.setCurrentDomain 0

/-- A revoked TimeSlice, whose `admit_check` is printed. -/
def revokedSlice : StateM (Kernel μ) Unit := do
  let some c ← construct p .mintTimeslice | pure ()
  let _ ← revokeRoot c

/-- The driver in domain 5, once its queue is mapped. -/
def admitDriver (dq : Fin capTableSlots) : StateM (Kernel μ) Unit := do
  let blob ← outside (env.setupUserTask 0x430000 0x7cf000 .driver)
  let slice ← construct p .mintTimeslice
  match blob, slice with
  | some b, some t => admitUser p b dq t 5 2000000
  | _, _ => pure ()

/-- `c.map(|c| cap_invoke_in(3, c, method, arg))`. -/
def invokeThird (c : Option (Fin capTableSlots)) (method : BitVec 16) (arg : BitVec 64) :
    StateM (Kernel μ) Unit :=
  match c with
  | some c => capInvokeIn p 3 c method arg
  | none => pure ()

/-- The DeviceQueue: one capability with `MAP` for the driver, one without for domain 3. -/
def grantQueue (dqd : DeviceQueueDesc) (dq : Fin capTableSlots) : StateM (Kernel μ) Unit := do
  let drv ← delegateFromRoot 5 dq (.union (.union (.union .invoke .read) .write) .map)
  let nomap ← delegateFromRoot 3 dq (.union (.union .invoke .read) .write)
  invokeThird p nomap dqSubmit 32700
  let _ ← outside fun m => ((), env.bakeParams dqd m)
  let some c := drv | pure ()
  capInvokeIn p 5 c dqMap 0
  invokeThird p nomap dqMap 0
  admitDriver p env c

/-- The ring-3 driver. -/
def startDriver : StateM (Kernel μ) Unit := do
  let seeded ← outside (env.writeSector 32700)
  let k ← get
  let dq ← construct p (.createDeviceQueue 0xca1707d0dead0007 32700)
  match seeded, p.deviceQueueDesc k.machine, dq with
  | true, some dqd, some dq => grantQueue p env dqd dq
  | _, _, _ => pure ()

/-- What is started once there is a timer. -/
def startTasks : StateM (Kernel μ) Unit := do
  startFaulter p env
  startPair p env
  grantGate p
  revokedSlice p
  startDriver p env

/-- `kmain_main`, from the recovery of the object store to `sti`. -/
def main : StateM (Kernel μ) Unit := do
  recoverRoot p env
  putExtent p env
  capSelfTest p
  perDomain p
  notify p
  if ← outside env.initTimer then startTasks p env

end Boot

/-- The state in which interrupts are enabled. -/
def booted {μ : Type} (p : Platform μ) (env : BootEnv μ) (m₀ : μ) : Kernel μ :=
  (Boot.main p env (Kernel.init p m₀)).2

/-! ### What is given to whom -/

/-- The kinds and rights of the capabilities a domain can come to hold: those the boot code
delegates, and in the server's domain the one the client grants. -/
def grants : ℕ → List (ObjectKind × Rights)
  | 1 => [(.endpoint, .union .invoke .grantCap), (.memory, .union .invoke .delegate)]
  | 2 => [(.memory, .invoke), (.notification, .union .invoke .write), (.endpoint, .invoke),
      (.memory, .union .invoke .delegate)]
  | 3 => [(.extent, .union .invoke .write), (.extent, .union .invoke .read), (.endpoint, .invoke),
      (.deviceQueue, .union (.union .invoke .read) .write)]
  | 4 => [(.memory, .invoke)]
  | 5 => [(.deviceQueue, .union (.union (.union .invoke .read) .write) .map)]
  | _ => []

/-- Every domain but the root holds capabilities it has been granted. -/
def Kernel.Endowed {μ : Type} (k : Kernel μ) : Prop :=
  ∀ (d : Fin maxDomains) s e, d ≠ 0 → k.slot d s = some e → (e.typeTag, e.rights) ∈ grants d

/-- The root capability in slot `s` has this kind and these rights. -/
def Kernel.RootHas {μ : Type} (k : Kernel μ) (s : Fin capTableSlots) (kind : ObjectKind)
    (rights : Rights) : Prop :=
  ∃ e, k.slot 0 s = some e ∧ e.typeTag = kind ∧ e.rights = rights

/-- What holds at every point of the boot code, when programs have been admitted into the domains
`L` and it remembers the root capabilities `C`: the state is reached by orderly operations, every
domain but the root holds capabilities of its list, nobody is parked, and the boot thread runs. -/
structure Booting {μ : Type} (p : Platform μ) (m₀ : μ) (L : List ℕ)
    (C : List (Fin capTableSlots × ObjectKind × Rights)) (k : Kernel μ) : Prop where
  reached : ∃ h, OrderlyRun p m₀ h ∧ kernelAfter p m₀ h = k
  granted : k.Endowed
  root : ∀ x ∈ C, k.RootHas x.1 x.2.1 x.2.2
  idle : ∀ i, (k.endpoints i).state = .idle
  parkedIn : ∀ t, k.parkedIn t = false
  current : k.current = 0
  lives : ∀ t, t ≠ 0 → (k.seat t).present = true → (k.seat t).domain ∈ L

/-! ### Constructors -/

namespace Constructor

variable {μ : Type}

/-- The operation a constructor is. -/
def op : Constructor → Op μ
  | initRoot => .initRoot
  | createNotification => .createNotification
  | createEndpoint => .createEndpoint
  | mintTimeslice => .mintTimeslice
  | mintExtent lba len hash => .mintExtent ⟨lba, len, hash, 0⟩
  | mintExtentMapped lba len hash frame => .mintExtent ⟨lba, len, hash, frame⟩
  | createDeviceQueue magic lba => .createDeviceQueue magic lba

/-- The rights of the root capability it mints. -/
def rights : Constructor → Rights
  | createNotification => Kernel.notificationRights
  | createEndpoint => Kernel.endpointRights
  | mintTimeslice => .invoke
  | _ => Kernel.mappableRights

theorem step_op (c : Constructor) (p : Platform μ) (k : Kernel μ) :
    (k.step p c.op).2 = (c.call p k).2 := by
  cases c <;> rfl

theorem background_op (c : Constructor) : (c.op : Op μ).background = true := by
  cases c <;> rfl

theorem orderly_op (c : Constructor) (k : Kernel μ) : k.Orderly c.op := by
  cases c <;> exact ⟨trivial, trivial⟩

theorem not_writes_op (c : Constructor) (p : Platform μ) (k : Kernel μ) {d : Fin maxDomains}
    (hd : d ≠ 0) : ¬k.Writes p c.op d := by
  cases c <;> exact hd

end Constructor

namespace Kernel

variable {μ : Type}

/-- A constructor mints a root capability or fails, and takes none away. -/
structure RootMinted (k : Kernel μ) (kind : ObjectKind) (rights : Rights)
    (r : Option (Fin capTableSlots) × Kernel μ) : Prop where
  kept : ∀ s e, k.slot 0 s = some e → r.2.slot 0 s = some e
  minted : ∀ s, r.1 = some s → r.2.RootHas s kind rights

theorem RootMinted.failed (k : Kernel μ) (kind : ObjectKind) (rights : Rights) {k' : Kernel μ}
    (h : k'.space.tables = k.space.tables) : k.RootMinted kind rights (none, k') where
  kept := by
    intro s e he
    show (k'.space.tables 0).slots s = some e
    rw [h]
    exact he
  minted := by
    intro s hs
    cases hs

theorem rootMinted_construct (k : Kernel μ) (kind : ObjectKind) (rights : Rights)
    (payload : Fin objectTableSize → Kernel μ → Kernel μ)
    (hpay : ∀ oid k, (payload oid k).space = k.space) :
    k.RootMinted kind rights (k.construct kind rights payload) := by
  rw [construct]
  cases hcreate : k.space.objects.createObject kind with
  | none => exact .failed k kind rights rfl
  | some r =>
    obtain ⟨oid, ot⟩ := r
    obtain ⟨-, -, rfl⟩ := ObjectTable.createObject_eq_some_iff.mp hcreate
    dsimp only
    rw [hpay]
    dsimp only
    cases hmint : CapTable.mint (k.space.tables 0) _ oid rights 0 with
    | error st => exact .failed k kind rights (by rw [hpay])
    | ok r =>
      obtain ⟨slot, table⟩ := r
      obtain ⟨hfree, m, hm, -, rfl⟩ := CapTable.mint_eq_ok_iff.mp hmint
      obtain ⟨_, hmeta⟩ := ObjectTable.metaAt_eq_some_iff.mp hm
      have hnone := CapTable.freeSlot_eq_some hfree
      refine ⟨fun s e he => ?_, fun s hs => ?_⟩
      · have hne : s ≠ slot := by
          rintro rfl
          cases hnone.symm.trans he
        show Space.slot (Space.setTable _ 0 _) 0 s = some e
        rw [Space.slot_setTable, if_pos rfl, Space.slots_set, if_neg hne]
        exact he
      · cases hs
        refine ⟨⟨oid, rights, m.currentEpoch, m.kind, 0⟩, ?_, ?_, rfl⟩
        · show Space.slot (Space.setTable _ 0 _) 0 slot = some _
          rw [Space.slot_setTable, if_pos rfl, Space.slots_set, if_pos rfl]
        · rw [← hmeta]
          simp only [Fin.eta, Function.update_self]

theorem rootMinted_call (k : Kernel μ) (p : Platform μ) (c : Constructor) :
    k.RootMinted c.kind c.rights (c.call p k) := by
  cases c with
  | createDeviceQueue magic lba =>
    rw [Constructor.call, createDeviceQueue]
    split
    · exact .failed k _ _ rfl
    · exact k.rootMinted_construct .deviceQueue mappableRights _ fun _ _ => rfl
  | mintExtent lba len hash =>
    rw [Constructor.call, Kernel.mintExtent]
    exact k.rootMinted_construct .extent mappableRights _ fun _ _ => rfl
  | mintExtentMapped lba len hash frame =>
    rw [Constructor.call, Kernel.mintExtent]
    exact k.rootMinted_construct .extent mappableRights _ fun _ _ => rfl
  | initRoot => exact k.rootMinted_construct .memory mappableRights _ fun _ _ => rfl
  | createNotification =>
    rw [Constructor.call, Kernel.createNotification]
    exact k.rootMinted_construct .notification notificationRights _ fun _ _ => rfl
  | createEndpoint =>
    rw [Constructor.call, Kernel.createEndpoint]
    exact k.rootMinted_construct .endpoint endpointRights _ fun _ _ => rfl
  | mintTimeslice =>
    rw [Constructor.call, Kernel.mintTimeslice]
    exact k.rootMinted_construct .timeSlice .invoke _ fun _ _ => rfl

/-- A delegation from the root fails, or copies an entry into the other table. -/
theorem delegateFromRoot_slot (k : Kernel μ) {d : Fin maxDomains} (hd : d ≠ 0)
    (src : Fin capTableSlots) (mask : Rights) :
    k.delegateFromRoot d src mask 0 = (none, k) ∨
      ∃ i e, k.slot 0 src = some e ∧
        (k.delegateFromRoot d src mask 0).1 = some i ∧
        (k.delegateFromRoot d src mask 0).2.slot d i = some (e.child mask 0) ∧
        ∀ d' j, ¬(d' = d ∧ j = i) →
          (k.delegateFromRoot d src mask 0).2.slot d' j = k.slot d' j := by
  have hd' : (d : ℕ) ≠ 0 ∧ (d : ℕ) < maxDomains := ⟨fun h => hd (Fin.ext h), d.isLt⟩
  rw [delegateFromRoot, dif_pos hd']
  split
  · rename_i i table hdel
    obtain ⟨e, he, -, -, -, rfl⟩ := CapTable.delegate_eq_ok_iff.mp hdel
    rw [CapTable.entryAt_val] at he
    refine Or.inr ⟨i, e, he, rfl, ?_, fun d' j hne => ?_⟩
    · show Space.slot (Space.setTable _ d _) d i = _
      rw [Space.slot_setTable, if_pos rfl, Space.slots_set, if_pos rfl]
    · show Space.slot (Space.setTable _ d _) d' j = _
      rw [Space.slot_setTable]
      split
      · rename_i heq
        subst heq
        rw [Space.slots_set, if_neg fun hj => hne ⟨rfl, hj⟩]
        rfl
      · rfl
  · exact Or.inl rfl

end Kernel

/-! ### The calls of the boot code -/

namespace Booting

variable {μ : Type} {p : Platform μ} {m₀ : μ} {L : List ℕ}
  {C : List (Fin capTableSlots × ObjectKind × Rights)} {k : Kernel μ}

theorem sound (h : Booting p m₀ L C k) : k.Sound := by
  obtain ⟨hist, hrun, rfl⟩ := h.reached
  exact hrun.sound

theorem apart (h : Booting p m₀ L C k) : k.Apart := by
  obtain ⟨hist, hrun, rfl⟩ := h.reached
  exact hrun.apart

/-- The boot code forgets a root capability. -/
theorem forget (h : Booting p m₀ L C k) : Booting p m₀ L [] k :=
  { h with root := fun _ hx => absurd hx List.not_mem_nil }

/-- An operation in the background, if what it writes is accounted for. -/
theorem step (h : Booting p m₀ L C k) (op : Op μ) (hbg : op.background = true)
    (hop : k.Orderly op) {C' : List (Fin capTableSlots × ObjectKind × Rights)}
    (hgranted : (k.step p op).2.Endowed)
    (hroot : ∀ x ∈ C', (k.step p op).2.RootHas x.1 x.2.1 x.2.2) :
    Booting p m₀ L C' (k.step p op).2 := by
  have haside := (k.aside_step p hbg).1
  obtain ⟨hist, hrun, rfl⟩ := h.reached
  refine ⟨⟨op :: hist, ⟨hop, hrun⟩, rfl⟩, hgranted, hroot, fun i => ?_, fun t => ?_, ?_,
    fun t ht hp => ?_⟩
  · rw [haside.endpoints]
    exact h.idle i
  · rw [haside.parkedIn]
    exact h.parkedIn t
  · exact haside.current.trans h.current
  · rw [haside.seat] at hp ⊢
    exact h.lives t ht hp

/-- An operation in the background that writes no table. -/
theorem background (h : Booting p m₀ L C k) (op : Op μ) (hbg : op.background = true)
    (hop : k.Orderly op) (hw : ∀ d, ¬k.Writes p op d) :
    Booting p m₀ L C (k.step p op).2 := by
  refine h.step op hbg hop (fun d s e hd he => ?_) fun x hx => ?_
  · rw [Kernel.slot_of_not_writes (hw d)] at he
    exact h.granted d s e hd he
  · obtain ⟨e, he, hkind⟩ := h.root x hx
    exact ⟨e, (Kernel.slot_of_not_writes (hw 0) _).trans he, hkind⟩

theorem construct (h : Booting p m₀ L C k) (c : Constructor) :
    Booting p m₀ L C (c.call p k).2 ∧
      ∀ s, (c.call p k).1 = some s →
        Booting p m₀ L ((s, c.kind, c.rights) :: C) (c.call p k).2 := by
  have hminted := k.rootMinted_call p c
  have hgranted : (k.step p c.op).2.Endowed := by
    intro d s e hd he
    rw [Kernel.slot_of_not_writes (c.not_writes_op p k hd)] at he
    exact h.granted d s e hd he
  have hroot : ∀ x ∈ C, (k.step p c.op).2.RootHas x.1 x.2.1 x.2.2 := by
    intro x hx
    obtain ⟨e, he, hkind⟩ := h.root x hx
    rw [c.step_op]
    exact ⟨e, hminted.kept _ _ he, hkind⟩
  rw [← c.step_op]
  refine ⟨h.step c.op c.background_op (c.orderly_op k) hgranted hroot, fun s hs => ?_⟩
  refine h.step c.op c.background_op (c.orderly_op k) hgranted fun x hx => ?_
  rcases List.mem_cons.mp hx with rfl | hx
  · rw [c.step_op]
    exact hminted.minted s hs
  · exact hroot x hx

/-- A delegation, if the list of the domain has what it gives. -/
theorem delegate (h : Booting p m₀ L C k) {d : Fin maxDomains} (hd : d ≠ 0)
    {src : Fin capTableSlots} {kind : ObjectKind} {rights mask : Rights}
    (hsrc : (src, kind, rights) ∈ C) (hgrants : (kind, rights.inter mask) ∈ grants d) :
    Booting p m₀ L C (k.delegateFromRoot d src mask 0).2 ∧
      ∀ i, (k.delegateFromRoot d src mask 0).1 = some i →
        ∃ e, (k.delegateFromRoot d src mask 0).2.slot d i = some e ∧ e.typeTag = kind ∧
          e.rights = rights.inter mask := by
  obtain ⟨e₀, he₀, hkind, hrights⟩ := h.root _ hsrc
  have hop : k.Orderly (.delegateFromRoot d src mask 0) := by
    refine ⟨trivial, fun t ht => ?_⟩
    rw [h.parkedIn t] at ht
    cases ht
  rcases k.delegateFromRoot_slot hd src mask with heq | ⟨i, e, he, hi, hnew, hrest⟩
  · rw [heq]
    refine ⟨h, fun i hi => ?_⟩
    cases hi
  cases he₀.symm.trans he
  refine ⟨h.step (.delegateFromRoot d src mask 0) rfl hop (fun d' s e hd' he' => ?_)
    fun x hx => ?_, fun j hj => ?_⟩
  · by_cases hslot : d' = d ∧ s = i
    · obtain ⟨rfl, rfl⟩ := hslot
      cases hnew.symm.trans he'
      show (e₀.typeTag, e₀.rights.inter mask) ∈ grants d'
      rw [hkind, hrights]
      exact hgrants
    · exact h.granted d' s e hd' ((hrest d' s hslot).symm.trans he')
  · obtain ⟨e, he, hx'⟩ := h.root x hx
    exact ⟨e, (hrest 0 _ fun hslot => hd hslot.1.symm).trans he, hx'⟩
  · cases hi.symm.trans hj
    refine ⟨_, hnew, hkind, ?_⟩
    show e₀.rights.inter mask = rights.inter mask
    rw [hrights]

theorem capInvokeIn (h : Booting p m₀ L C k) (d : ℕ) (c method : BitVec 16) (arg : BitVec 64) :
    Booting p m₀ L C (k.capInvokeIn p d c method arg).2 :=
  h.background (.capInvokeIn d c method arg) rfl ⟨trivial, trivial⟩ fun _ => id

theorem outside (h : Booting p m₀ L C k) (m : μ) : Booting p m₀ L C { k with machine := m } :=
  h.background (.outside m) rfl ⟨trivial, trivial⟩ fun _ => id

theorem registerFaulter (h : Booting p m₀ L C k) (entry stackTop : BitVec 64) (budget : ℕ) :
    Booting p m₀ L C (k.registerFaulter entry stackTop budget) :=
  h.background (.registerFaulter entry stackTop budget) rfl ⟨trivial, trivial⟩ fun _ => id

theorem revokeRoot (h : Booting p m₀ L C k) (c : Fin capTableSlots) :
    Booting p m₀ L C (Boot.revokeRoot c k).2 := by
  rw [Boot.revokeRoot]
  split
  · rename_i e _
    exact h.background (.revoke e.objectId) rfl ⟨trivial, trivial⟩ fun _ => id
  · exact h

/-- The admission of a program into a domain where there is none. -/
theorem admitUser (h : Booting p m₀ L C k) (entry : BitVec 64 × BitVec 64)
    (mem c : Fin capTableSlots) {d : ℕ} (period : ℕ) (hlt : d < maxDomains) (h0 : d ≠ 0)
    (hd : d ∉ L) : Booting p m₀ (d :: L) C (Boot.admitUser p entry mem c d period k).2 := by
  have hop : k.Orderly (.admitUser entry.1 entry.2 (.ofNat 16 mem) c d period period 1000000) := by
    refine ⟨hlt, fun t ht heq => ?_⟩
    by_cases ht0 : t = 0
    · subst ht0
      exact h0 (heq.symm.trans h.apart.idle_domain)
    · exact hd (heq ▸ h.lives t ht0 ht)
  have hreached : ∃ hist, OrderlyRun p m₀ hist ∧
      kernelAfter p m₀ hist = (Boot.admitUser p entry mem c d period k).2 := by
    obtain ⟨hist, hrun, rfl⟩ := h.reached
    exact ⟨_ :: hist, ⟨hop, hrun⟩, rfl⟩
  rcases k.admitWith_cases p _ c d period period 1000000 with heq |
    ⟨i, k', heq, hi, habs, -, hseat, -, hin, hep, hspace, hcur, -⟩
  · have hsame : (Boot.admitUser p entry mem c d period k).2 = k := congrArg Prod.snd heq
    rw [hsame]
    exact { h with lives := fun t ht hp => List.mem_cons_of_mem d (h.lives t ht hp) }
  · have hnew : (Boot.admitUser p entry mem c d period k).2 = k' := congrArg Prod.snd heq
    rw [hnew] at hreached ⊢
    have hslot : ∀ d s, k'.slot d s = k.slot d s := fun d s => by rw [Kernel.slot, hspace]; rfl
    refine ⟨hreached, fun d s e hd he => ?_, fun x hx => ?_, fun j => ?_, fun t => ?_,
      hcur.trans h.current, fun t ht hp => ?_⟩
    · exact h.granted d s e hd ((hslot d s).symm.trans he)
    · obtain ⟨e, he, hkind⟩ := h.root x hx
      exact ⟨e, (hslot 0 _).trans he, hkind⟩
    · rw [hep]
      exact h.idle j
    · rw [hin, Function.update_apply]
      split
      · rfl
      · exact h.parkedIn t
    · rw [hseat, Function.update_apply] at hp ⊢
      split
      · exact List.mem_cons_self
      · rename_i hti
        rw [if_neg hti] at hp
        exact List.mem_cons_of_mem d (h.lives t ht hp)

end Booting

/-! ### The stages in order -/

/-- A piece of boot code, run in `k`, ends with programs in the domains `L` at most. -/
def Boot.Leaves {μ α : Type} (p : Platform μ) (m₀ : μ) (L : List ℕ) (prog : StateM (Kernel μ) α)
    (k : Kernel μ) : Prop :=
  Booting p m₀ L [] (prog k).2

namespace Booting

variable {μ α β : Type} {p : Platform μ} {m₀ : μ} {L L' : List ℕ}
  {C : List (Fin capTableSlots × ObjectKind × Rights)} {k : Kernel μ}

open Boot (Leaves)

theorem done (h : Booting p m₀ L C k) (hL : L ⊆ L') (a : α) : Leaves p m₀ L' (pure a) k :=
  { h.forget with lives := fun t ht hp => hL (h.lives t ht hp) }

theorem thenConstruct (h : Booting p m₀ L C k) (c : Constructor)
    {rest : Option (Fin capTableSlots) → StateM (Kernel μ) α}
    (hnone : ∀ k', Booting p m₀ L C k' → Leaves p m₀ L' (rest none) k')
    (hsome : ∀ s k', Booting p m₀ L ((s, c.kind, c.rights) :: C) k' →
      Leaves p m₀ L' (rest (some s)) k') : Leaves p m₀ L' (Boot.construct p c >>= rest) k := by
  obtain ⟨hk, hminted⟩ := h.construct c
  show Leaves p m₀ L' (rest (c.call p k).1) (c.call p k).2
  generalize c.call p k = r at hk hminted
  obtain ⟨s, k'⟩ := r
  cases s with
  | none => exact hnone k' hk
  | some s => exact hsome s k' (hminted s rfl)

theorem thenDelegate (h : Booting p m₀ L C k) {d : Fin maxDomains} (hd : d ≠ 0)
    {src : Fin capTableSlots} {kind : ObjectKind} {rights mask : Rights}
    (hsrc : (src, kind, rights) ∈ C) (hgrants : (kind, rights.inter mask) ∈ grants d)
    {rest : Option (Fin capTableSlots) → StateM (Kernel μ) α}
    (hnone : ∀ k', Booting p m₀ L C k' → Leaves p m₀ L' (rest none) k')
    (hsome : ∀ i k', Booting p m₀ L C k' →
      (∃ e, k'.slot d i = some e ∧ e.typeTag = kind ∧ e.rights = rights.inter mask) →
      Leaves p m₀ L' (rest (some i)) k') :
    Leaves p m₀ L' (Boot.delegateFromRoot d src mask >>= rest) k := by
  obtain ⟨hk, hcopy⟩ := h.delegate hd hsrc hgrants
  show Leaves p m₀ L' (rest (k.delegateFromRoot d src mask 0).1)
    (k.delegateFromRoot d src mask 0).2
  generalize k.delegateFromRoot d src mask 0 = r at hk hcopy
  obtain ⟨i, k'⟩ := r
  cases i with
  | none => exact hnone k' hk
  | some i => exact hsome i k' hk (hcopy i rfl)

theorem thenOutside (h : Booting p m₀ L C k) (f : μ → β × μ) {rest : β → StateM (Kernel μ) α}
    (hrest : ∀ b k', Booting p m₀ L C k' → Leaves p m₀ L' (rest b) k') :
    Leaves p m₀ L' (Boot.outside f >>= rest) k :=
  hrest _ _ (h.outside _)

theorem thenInvoke (h : Booting p m₀ L C k) (d : ℕ) (c : Fin capTableSlots) (method : BitVec 16)
    (arg : BitVec 64) {rest : Unit → StateM (Kernel μ) α}
    (hrest : ∀ k', Booting p m₀ L C k' → Leaves p m₀ L' (rest ()) k') :
    Leaves p m₀ L' (Boot.capInvokeIn p d c method arg >>= rest) k :=
  hrest _ (h.capInvokeIn d _ method arg)

/-- The same with the current domain. -/
theorem thenInvokeHere (h : Booting p m₀ L C k) (c : Fin capTableSlots) (method : BitVec 16)
    (arg : BitVec 64) {rest : Unit → StateM (Kernel μ) α}
    (hrest : ∀ k', Booting p m₀ L C k' → Leaves p m₀ L' (rest ()) k') :
    Leaves p m₀ L' (Boot.capInvoke p c method arg >>= rest) k :=
  hrest _ (h.capInvokeIn k.domainOf _ method arg)

theorem invoke (h : Booting p m₀ L C k) (d : ℕ) (c : Fin capTableSlots) (method : BitVec 16)
    (arg : BitVec 64) : Leaves p m₀ L (Boot.capInvokeIn p d c method arg) k :=
  (h.capInvokeIn d _ method arg).forget

end Booting

theorem Boot.Leaves.get {μ α : Type} {p : Platform μ} {m₀ : μ} {L : List ℕ} {k : Kernel μ}
    {rest : Kernel μ → StateM (Kernel μ) α} (h : Leaves p m₀ L (rest k) k) :
    Leaves p m₀ L (MonadState.get >>= rest) k := h

theorem Boot.Leaves.seq {μ α : Type} {p : Platform μ} {m₀ : μ} {L L' : List ℕ}
    {stage : StateM (Kernel μ) Unit} {k : Kernel μ} (h : Leaves p m₀ L stage k)
    {rest : Unit → StateM (Kernel μ) α}
    (hrest : ∀ k', Booting p m₀ L [] k' → Leaves p m₀ L' (rest ()) k') :
    Leaves p m₀ L' (stage >>= rest) k :=
  hrest _ h

namespace Booting

variable {μ : Type} {p : Platform μ} {m₀ : μ} {L : List ℕ}
  {C : List (Fin capTableSlots × ObjectKind × Rights)} {k : Kernel μ} {env : BootEnv μ}

open Boot (Leaves)

theorem recoverRoot (h : Booting p m₀ L C k) : Leaves p m₀ L (Boot.recoverRoot p env) k := by
  refine h.thenOutside _ fun found k h => ?_
  cases found with
  | none => exact h.done (List.Subset.refl L) _
  | some root =>
    obtain ⟨lba, len, hash⟩ := root
    refine h.thenConstruct (.mintExtent lba len hash) (fun k h => ?_) fun ext k h => ?_
    · exact h.done (List.Subset.refl L) _
    · exact h.invoke _ ext _ _

theorem extentProof (h : Booting p m₀ L C k) (lba : BitVec 64) (len : BitVec 32)
    (hash : BitVec 64) : Leaves p m₀ L (Boot.extentProof p env lba len hash) k := by
  refine h.thenConstruct (.mintExtent lba len hash) (fun k h => ?_) fun ext k h => ?_
  · exact h.done (List.Subset.refl L) _
  refine h.thenInvokeHere ext _ _ fun k h => h.thenOutside _ fun _ k h => ?_
  have hgrants : (ObjectKind.extent, Kernel.mappableRights.inter (.union .invoke .write)) ∈
      grants 3 := by decide
  refine h.thenDelegate (d := 3) (by decide) List.mem_cons_self hgrants (fun k h => ?_)
    fun nc k h _ => ?_
  · exact h.done (List.Subset.refl L) _
  · exact h.thenInvoke 3 nc _ _ fun k h => h.invoke 3 nc _ _

theorem extentMapProof (h : Booting p m₀ L C k) (lba : BitVec 64) (len : BitVec 32)
    (hash : BitVec 64) : Leaves p m₀ L (Boot.extentMapProof p env lba len hash) k := by
  refine h.thenOutside _ fun frame k h => ?_
  cases frame with
  | none => exact h.done (List.Subset.refl L) _
  | some frame =>
    refine h.thenConstruct (.mintExtentMapped lba len hash frame) (fun k h => ?_) fun ext k h => ?_
    · exact h.done (List.Subset.refl L) _
    refine h.thenInvokeHere ext _ _ fun k h => ?_
    have hgrants : (ObjectKind.extent, Kernel.mappableRights.inter (.union .invoke .read)) ∈
        grants 3 := by decide
    refine h.thenDelegate (d := 3) (by decide) List.mem_cons_self hgrants (fun k h => ?_)
      fun c k h _ => ?_
    · exact h.done (List.Subset.refl L) _
    · exact h.invoke 3 c _ _

theorem putExtent (h : Booting p m₀ L C k) : Leaves p m₀ L (Boot.putExtent p env) k := by
  refine h.thenOutside _ fun committed k h => ?_
  cases committed with
  | none => exact h.done (List.Subset.refl L) _
  | some extent =>
    obtain ⟨lba, len, hash⟩ := extent
    exact (h.extentProof lba len hash).seq fun k h => h.extentMapProof lba len hash

theorem capSelfTest (h : Booting p m₀ L C k) : Leaves p m₀ L (Boot.capSelfTest p) k := by
  refine h.thenConstruct .initRoot (fun k h => ?_) fun c k h => ?_
  · exact h.done (List.Subset.refl L) _
  refine h.thenInvokeHere c _ _ fun k h => h.thenInvokeHere c _ _ fun k h =>
    h.thenInvokeHere c _ _ fun k h => ?_
  have hrev := h.revokeRoot c
  show Leaves p m₀ L (if (Boot.revokeRoot c k).1 = true then _ else _) (Boot.revokeRoot c k).2
  split
  · exact hrev.invoke 0 c _ _
  · exact hrev.done (List.Subset.refl L) _

theorem perDomain (h : Booting p m₀ L C k) : Leaves p m₀ L (Boot.perDomain p) k := by
  refine h.thenConstruct .initRoot (fun k h => ?_) fun mem k h => ?_
  · exact h.done (List.Subset.refl L) _
  refine h.thenDelegate (d := 2) (by decide) List.mem_cons_self (by decide) (fun k h => ?_)
    fun c k h _ => ?_
  · exact h.done (List.Subset.refl L) _
  · exact h.thenInvoke 2 c _ _ fun k h => h.invoke 2 mem _ _

theorem notify (h : Booting p m₀ L C k) : Leaves p m₀ L (Boot.notify p) k := by
  refine h.thenConstruct .createNotification (fun k h => ?_) fun n k h => ?_
  · exact h.done (List.Subset.refl L) _
  refine h.thenDelegate (d := 2) (by decide) List.mem_cons_self (by decide) (fun k h => ?_)
    fun c k h _ => ?_
  · exact h.done (List.Subset.refl L) _
  · exact h.thenInvoke 2 c _ _ fun k h => h.thenInvoke 2 c _ _ fun k h =>
      h.thenInvoke 0 n _ _ fun k h => h.invoke 0 n _ _

/-- `opt.and_then(..)` with the root capability just made, if it was made. -/
theorem thenDelegateSome (h : Booting p m₀ L C k) {L' : List ℕ} {d : Fin maxDomains} (hd : d ≠ 0)
    {src : Option (Fin capTableSlots)} {kind : ObjectKind} {rights mask : Rights}
    (hsrc : ∀ s, src = some s → (s, kind, rights) ∈ C)
    (hgrants : (kind, rights.inter mask) ∈ grants d) {α : Type}
    {rest : Option (Fin capTableSlots) → StateM (Kernel μ) α}
    (hrest : ∀ r k', Booting p m₀ L C k' → Leaves p m₀ L' (rest r) k') :
    Leaves p m₀ L' (Boot.delegateSome d src mask >>= rest) k := by
  cases src with
  | none => exact hrest none k h
  | some src =>
    exact h.thenDelegate hd (hsrc src rfl) hgrants (hrest none) fun i k h _ => hrest (some i) k h

/-- A constructor whose failure is looked at later. -/
theorem thenConstructSome (h : Booting p m₀ L C k) {L' : List ℕ} (c : Constructor) {α : Type}
    {rest : Option (Fin capTableSlots) → StateM (Kernel μ) α}
    (hrest : ∀ r C' k', C ⊆ C' → (∀ s, r = some s → (s, c.kind, c.rights) ∈ C') →
      Booting p m₀ L C' k' → Leaves p m₀ L' (rest r) k') :
    Leaves p m₀ L' (Boot.construct p c >>= rest) k := by
  refine h.thenConstruct c (fun k h => ?_) fun s k h => ?_
  · exact hrest none C k (List.Subset.refl C) (fun s hs => by cases hs) h
  · refine hrest (some s) _ k (List.subset_cons_self _ C) (fun s' hs => ?_) h
    cases hs
    exact List.mem_cons_self

theorem startFaulter (h : Booting p m₀ L C k) (hL : 4 ∉ L) :
    Leaves p m₀ (4 :: L) (Boot.startFaulter p env) k := by
  refine h.thenConstructSome .initRoot fun mem C k _ hmem h => ?_
  refine h.thenDelegateSome (d := 4) (by decide) hmem (by decide) fun faultMem k h => ?_
  refine h.thenOutside _ fun blob k h => ?_
  refine h.thenConstructSome .mintTimeslice fun slice C k _ _ h => ?_
  rcases faultMem with _ | fm
  · exact h.done (List.subset_cons_self 4 L) _
  rcases blob with _ | b
  · exact h.done (List.subset_cons_self 4 L) _
  rcases slice with _ | ft
  · exact h.done (List.subset_cons_self 4 L) _
  exact ((h.registerFaulter b.1 b.2 2).admitUser b fm ft 5000000 (by decide) (by decide) hL).forget

theorem admitPair (h : Booting p m₀ L C k) (hL₁ : 1 ∉ L) (hL₂ : 2 ∉ L) (eps epc : Fin capTableSlots)
    (server client : BitVec 64 × BitVec 64) :
    Leaves p m₀ (1 :: 2 :: L) (Boot.admitPair p eps epc server client) k := by
  have hsub : L ⊆ 1 :: 2 :: L :=
    List.Subset.trans (List.subset_cons_self 2 L) (List.subset_cons_self 1 _)
  refine h.thenConstructSome .mintTimeslice fun t₁ C k _ _ h => ?_
  refine h.thenConstructSome .mintTimeslice fun t₂ C k _ _ h => ?_
  rcases t₁ with _ | t₁
  · exact h.done hsub _
  rcases t₂ with _ | t₂
  · exact h.done hsub _
  have hserver := h.admitUser server eps t₁ 5000000 (by decide) (by decide) hL₂
  refine (hserver.admitUser client epc t₂ 5000000 (by decide) (by decide) fun h₁ => ?_).forget
  rcases List.mem_cons.mp h₁ with h₁ | h₁
  · exact absurd h₁ (by decide)
  · exact hL₁ h₁

theorem startPair (h : Booting p m₀ L C k) (hL₁ : 1 ∉ L) (hL₂ : 2 ∉ L) :
    Leaves p m₀ (1 :: 2 :: L) (Boot.startPair p env) k := by
  have hsub : L ⊆ 1 :: 2 :: L :=
    List.Subset.trans (List.subset_cons_self 2 L) (List.subset_cons_self 1 _)
  refine h.thenConstructSome .createEndpoint fun ep C k _ hep h => ?_
  refine h.thenDelegateSome (d := 1) (by decide) hep (by decide) fun epc k h => ?_
  refine h.thenDelegateSome (d := 2) (by decide) hep (by decide) fun eps k h => ?_
  refine h.thenConstructSome .initRoot fun mem C k _ hmem h => ?_
  refine h.thenDelegateSome (d := 1) (by decide) hmem (by decide) fun clientMem k h => ?_
  refine h.thenOutside _ fun server k h => h.thenOutside _ fun client k h => ?_
  rcases eps with _ | eps
  · exact h.done hsub _
  rcases epc with _ | epc
  · exact h.done hsub _
  rcases clientMem with _ | cm
  · exact h.done hsub _
  rcases server with _ | server
  · exact h.done hsub _
  rcases client with _ | client
  · exact h.done hsub _
  exact h.admitPair hL₁ hL₂ eps epc server client

/-- Without `GRANT_CAP` the send is refused, and the current domain is put back. -/
theorem gate_refused (h : Booting p m₀ L C k) {i : Fin capTableSlots} {e : CapEntry}
    (he : k.slot 3 i = some e) (hkind : e.typeTag = .endpoint)
    (hrights : e.rights.contains .grantCap ≠ true) :
    (((k.setCurrentDomain 3).capInvokeIpc p (.ofNat 16 i) Kernel.eSend 0xbeef 5).2).setCurrentDomain
      0 = k := by
  have hsame : ((k.setCurrentDomain 3).capInvokeIpc p (.ofNat 16 i) Kernel.eSend 0xbeef 5).2
      = k.setCurrentDomain 3 := by
    rw [Kernel.capInvokeIpc]
    split
    · rfl
    · rename_i e' hres
      have hentry := (Kernel.resolve_eq_ok hres).1
      have hi : (BitVec.ofNat 16 (i : ℕ)).toNat = i := by
        rw [BitVec.toNat_ofNat]
        exact Nat.mod_eq_of_lt (i.isLt.trans (by rw [capTableSlots]; decide))
      rw [hi, CapTable.entryAt_val] at hentry
      cases he.symm.trans hentry
      rw [if_pos ⟨hkind, rfl⟩]
      obtain ⟨st, -, heq⟩ := (k.setCurrentDomain 3).epSend_of_not_grantCap
        (k.setCurrentDomain 3).domainOf e.objectId 0xbeef
        (by decide : (5 : BitVec 16) ≠ cptrNone) hrights
      rw [heq]
  have hdomain : k.currentDomain = 0 := by
    rw [h.sound.domain, h.current]
    exact h.apart.idle_domain
  rw [hsame, Kernel.setCurrentDomain, Kernel.setCurrentDomain, ← hdomain]

theorem grantGate (h : Booting p m₀ L C k) : Leaves p m₀ L (Boot.grantGate p) k := by
  refine h.thenConstruct .createEndpoint (fun k h => ?_) fun ep k h => ?_
  · exact h.done (List.Subset.refl L) _
  refine h.thenDelegate (d := 3) (by decide) List.mem_cons_self (by decide) (fun k h => ?_)
    fun i k h hcopy => ?_
  · exact h.done (List.Subset.refl L) _
  obtain ⟨e, he, hkind, hrights⟩ := hcopy
  have hno : e.rights.contains .grantCap ≠ true := by
    rw [hrights]
    decide
  show Booting p m₀ L [] (((k.setCurrentDomain 3).capInvokeIpc p (.ofNat 16 i) Kernel.eSend 0xbeef
    5).2.setCurrentDomain 0)
  rw [h.gate_refused he hkind hno]
  exact h.forget

theorem revokedSlice (h : Booting p m₀ L C k) : Leaves p m₀ L (Boot.revokedSlice p) k := by
  refine h.thenConstruct .mintTimeslice (fun k h => ?_) fun c k h => ?_
  · exact h.done (List.Subset.refl L) _
  · exact (h.revokeRoot c).forget

theorem admitDriver (h : Booting p m₀ L C k) (hL : 5 ∉ L) (dq : Fin capTableSlots) :
    Leaves p m₀ (5 :: L) (Boot.admitDriver p env dq) k := by
  refine h.thenOutside _ fun blob k h => ?_
  refine h.thenConstructSome .mintTimeslice fun slice C k _ _ h => ?_
  rcases blob with _ | b
  · exact h.done (List.subset_cons_self 5 L) _
  rcases slice with _ | t
  · exact h.done (List.subset_cons_self 5 L) _
  exact (h.admitUser b dq t 2000000 (by decide) (by decide) hL).forget

theorem invokeThird (h : Booting p m₀ L C k) (c : Option (Fin capTableSlots)) (method : BitVec 16)
    (arg : BitVec 64) : Leaves p m₀ L (Boot.invokeThird p c method arg) k := by
  cases c with
  | none => exact h.forget
  | some c => exact h.invoke 3 c method arg

theorem grantQueue (h : Booting p m₀ L C k) (hL : 5 ∉ L) (dqd : DeviceQueueDesc)
    {dq : Fin capTableSlots} (hdq : (dq, .deviceQueue, Kernel.mappableRights) ∈ C) :
    Leaves p m₀ (5 :: L) (Boot.grantQueue p env dqd dq) k := by
  have hsome : ∀ s, some dq = some s → (s, ObjectKind.deviceQueue, Kernel.mappableRights) ∈ C := by
    intro s hs
    cases hs
    exact hdq
  refine h.thenDelegateSome (d := 5) (by decide) hsome (by decide) fun drv k h => ?_
  refine h.thenDelegateSome (d := 3) (by decide) hsome (by decide) fun nomap k h => ?_
  refine (h.invokeThird nomap _ _).seq fun k h => h.thenOutside _ fun _ k h => ?_
  rcases drv with _ | c
  · exact h.done (List.subset_cons_self 5 L) _
  exact h.thenInvoke 5 c _ _ fun k h => (h.invokeThird nomap _ _).seq fun k h =>
    h.admitDriver hL c

theorem startDriver (h : Booting p m₀ L C k) (hL : 5 ∉ L) :
    Leaves p m₀ (5 :: L) (Boot.startDriver p env) k := by
  refine h.thenOutside _ fun seeded k h => ?_
  refine Leaves.get ?_
  refine h.thenConstructSome _ fun dq C k' _ hdq h => ?_
  rcases seeded with _ | _
  · exact h.done (List.subset_cons_self 5 L) _
  rcases hdesc : p.deviceQueueDesc k.machine with _ | dqd
  · exact h.done (List.subset_cons_self 5 L) _
  rcases dq with _ | dq
  · exact h.done (List.subset_cons_self 5 L) _
  exact h.grantQueue hL dqd (hdq dq rfl)

theorem startTasks (h : Booting p m₀ [] C k) :
    Leaves p m₀ [5, 1, 2, 4] (Boot.startTasks p env) k := by
  refine (h.startFaulter List.not_mem_nil).seq fun k h => ?_
  refine (h.startPair (by decide) (by decide)).seq fun k h => ?_
  exact h.grantGate.seq fun k h => h.revokedSlice.seq fun k h => h.startDriver (by decide)

theorem main (h : Booting p m₀ [] C k) : Leaves p m₀ [5, 1, 2, 4] (Boot.main p env) k := by
  refine h.recoverRoot.seq fun k h => h.putExtent.seq fun k h => h.capSelfTest.seq fun k h =>
    h.perDomain.seq fun k h => h.notify.seq fun k h => h.thenOutside _ fun timer k h => ?_
  cases timer with
  | false => exact h.done (List.nil_subset _) _
  | true => exact h.startTasks

end Booting

theorem booting_init {μ : Type} (p : Platform μ) (m₀ : μ) :
    Booting p m₀ [] [] (Kernel.init p m₀) where
  reached := ⟨[], trivial, rfl⟩
  granted := by
    intro d s e _ he
    cases he
  root := fun _ hx => absurd hx List.not_mem_nil
  idle := fun _ => rfl
  parkedIn := fun _ => rfl
  current := rfl
  lives := by
    intro t ht hp
    rw [Kernel.seat_init, if_neg ht] at hp
    cases hp

/-- **The boot code.** Whatever the calls outside answer, the machine is released in a state that
orderly operations reach, with programs in the four domains at most, and with the capabilities of
`grants` outside the root domain. -/
theorem booting_booted {μ : Type} (p : Platform μ) (env : BootEnv μ) (m₀ : μ) :
    Booting p m₀ [5, 1, 2, 4] [] (booted p env m₀) :=
  (booting_init p m₀).main

end Cairn
