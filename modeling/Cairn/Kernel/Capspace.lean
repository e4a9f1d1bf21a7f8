import Cairn.Kernel.State

/-!
# The capability space: constructors, delegation and non-blocking methods

`kernel/src/capspace.rs`, the parts that neither block nor move a capability. A constructor
creates an object, fills its side table and mints a capability for it in the root domain; the
seven constructors differ in the kind, the rights and the side table only, and are one
definition at seven arguments. `dispatch_method` answers every method that is not an endpoint
rendezvous.

## Main definitions

* `Kernel.construct`, and the constructors `initRoot`, `createNotification`, `createEndpoint`,
  `mintTimeslice`, `mintExtent`, `createDeviceQueue`
* `Kernel.delegateFromRoot`, `Kernel.admitCheck`
* `Kernel.resolve` — the check and lookup in front of every method
* `Kernel.dispatchMethod`, `Kernel.capInvokeIn`, `Kernel.extentMetadata`

## Main results

* `Kernel.plain_dispatchMethod` — a non-blocking method changes notification words, ledgers and
  the machine only, and never answers `ErrType`
-/

namespace Cairn

namespace Kernel

variable {μ : Type}

/-! ### Constructors -/

/-- Create an object, fill its side table, and mint a capability for it in the root domain. When
the table of the root domain is full, the object has been created nevertheless. -/
def construct (k : Kernel μ) (kind : ObjectKind) (rights : Rights)
    (payload : Fin objectTableSize → Kernel μ → Kernel μ) :
    Option (Fin capTableSlots) × Kernel μ :=
  match k.space.objects.createObject kind with
  | none => (none, k)
  | some (oid, ot) =>
    let k := payload oid { k with space := { k.space with objects := ot } }
    match (k.space.tables 0).mint k.space.objects oid rights 0 with
    | .ok (slot, table) => (some slot, { k with space := k.space.setTable 0 table })
    | .error _ => (none, k)

/-- The rights of a Memory, Extent or DeviceQueue root capability. -/
def mappableRights : Rights :=
  .union (.union (.union (.union .read .write) .invoke) .map) .delegate

/-- The rights of a Notification root capability. -/
def notificationRights : Rights := .union (.union (.union .invoke .read) .write) .delegate

/-- The rights of an Endpoint root capability. -/
def endpointRights : Rights :=
  .union (.union (.union (.union .invoke .read) .write) .grantCap) .delegate

/-- `init_root`. -/
def initRoot (k : Kernel μ) : Option (Fin capTableSlots) × Kernel μ :=
  k.construct .memory mappableRights fun _ k => k

/-- `create_notification`. -/
def createNotification (k : Kernel μ) : Option (Fin capTableSlots) × Kernel μ :=
  k.construct .notification notificationRights fun _ k => k

/-- `create_endpoint`. -/
def createEndpoint (k : Kernel μ) : Option (Fin capTableSlots) × Kernel μ :=
  k.construct .endpoint endpointRights fun _ k => k

/-- `mint_timeslice`. -/
def mintTimeslice (k : Kernel μ) : Option (Fin capTableSlots) × Kernel μ :=
  k.construct .timeSlice .invoke fun _ k => k

/-- `mint_extent_inner`, behind `mint_extent` (no frame) and `mint_extent_mapped`. -/
def mintExtent (k : Kernel μ) (info : ExtentMeta) : Option (Fin capTableSlots) × Kernel μ :=
  k.construct .extent mappableRights fun oid k =>
    { k with extents := Function.update k.extents oid info }

/-- `create_device_queue`. -/
def createDeviceQueue (p : Platform μ) (k : Kernel μ) (magic scratchLba : BitVec 64) :
    Option (Fin capTableSlots) × Kernel μ :=
  match p.deviceQueueDesc k.machine with
  | none => (none, k)
  | some dqd =>
    k.construct .deviceQueue mappableRights fun oid k =>
      { k with devqueues := Function.update k.devqueues oid ⟨dqd, magic, scratchLba⟩ }

/-! ### Delegation and admission checks -/

/-- `delegate_from_root`. -/
def delegateFromRoot (k : Kernel μ) (dstDomain : ℕ) (srcCptr : ℕ) (mask : Rights)
    (badge : BitVec 16) : Option (Fin capTableSlots) × Kernel μ :=
  if h : dstDomain ≠ 0 ∧ dstDomain < maxDomains then
    match (k.space.tables 0).delegate k.space.objects srcCptr mask badge
        (k.space.tables ⟨dstDomain, h.2⟩) with
    | .ok (slot, table) =>
      (some slot, { k with space := k.space.setTable ⟨dstDomain, h.2⟩ table })
    | .error _ => (none, k)
  else (none, k)

/-- `M_GRANT_TIME`. -/
def mGrantTime : ℕ := 1

/-- `admit_check`. The kind of the capability is not consulted. -/
def admitCheck (k : Kernel μ) (cptr : ℕ) : Status :=
  (k.space.tables 0).invoke k.space.objects cptr mGrantTime .invoke

/-- The check and the lookup in front of every method: the entry at `cptr` in the table of a
domain, if it is live and carries `INVOKE`. -/
def resolve (k : Kernel μ) (d : Fin maxDomains) (cptr method : BitVec 16) :
    Except Status CapEntry :=
  match (k.space.tables d).invoke k.space.objects cptr.toNat method.toNat .invoke with
  | .ok => (k.space.tables d).lookup cptr.toNat k.space.objects
  | st => .error st

/-! ### Methods -/

def mAlloc : BitVec 16 := 1

def mFree : BitVec 16 := 2

def nSignal : BitVec 16 := 1

def nPoll : BitVec 16 := 2

def eSend : BitVec 16 := 1

def eRecv : BitVec 16 := 2

def xRead : BitVec 16 := 1

def xWrite : BitVec 16 := 2

def xCommit : BitVec 16 := 3

def xMap : BitVec 16 := 4

def dqInfo : BitVec 16 := 1

def dqMap : BitVec 16 := 2

def dqReport : BitVec 16 := 3

def dqSubmit : BitVec 16 := 4

/-- `EXTENT_MAP_BASE`. -/
def extentMapBase : BitVec 64 := 0x1100000

/-- `DQ_BASE`. -/
def dqBase : BitVec 64 := 0x1000000

/-- The right `dispatch_method` asks for on top of `INVOKE`. -/
def methodRight (kind : ObjectKind) (method : BitVec 16) : Rights :=
  if kind = .notification ∧ method = nSignal then .write
  else if kind = .notification ∧ method = nPoll then .read
  else if kind = .extent ∧ method = xRead then .read
  else if kind = .extent ∧ (method = xWrite ∨ method = xCommit) then .write
  else if kind = .extent ∧ method = xMap then .map
  else if kind = .deviceQueue ∧ method = dqInfo then .read
  else if kind = .deviceQueue ∧ method = dqMap then .map
  else if kind = .deviceQueue ∧ method = dqReport then .write
  else if kind = .deviceQueue ∧ method = dqSubmit then .write
  else .empty

/-- `record_domain_map`. -/
def recordDomainMap (k : Kernel μ) (d : Fin maxDomains) (va : BitVec 64) : Kernel μ :=
  { k with domainMaps := Function.update k.domainMaps d ((k.domainMaps d).record va) }

/-- `notify_signal`. -/
def notifySignal (k : Kernel μ) (oid : ℕ) (bits : BitVec 64) : Kernel μ :=
  if h : oid < objectTableSize then
    { k with notify := Function.update k.notify ⟨oid, h⟩ (k.notify ⟨oid, h⟩ ||| bits) }
  else k

/-- `notify_take`. -/
def notifyTake (k : Kernel μ) (oid : ℕ) : BitVec 64 × Kernel μ :=
  if h : oid < objectTableSize then
    (k.notify ⟨oid, h⟩, { k with notify := Function.update k.notify ⟨oid, h⟩ 0 })
  else (0, k)

/-- `X_READ`: the content hash. -/
def extentHash (k : Kernel μ) (oid : ℕ) : BitVec 64 :=
  if h : oid < objectTableSize then (k.extents ⟨oid, h⟩).hash else 0

/-- `extent_map`. -/
def extentMap (p : Platform μ) (k : Kernel μ) (d : Fin maxDomains) (oid : ℕ) :
    (Status × BitVec 64) × Kernel μ :=
  if h : oid < objectTableSize then
    let frame := (k.extents ⟨oid, h⟩).dataFramePhys
    if frame = 0 then ((.errMethod, 0), k)
    else
      match p.mapUserPhys extentMapBase frame false false false k.machine with
      | (true, m) => ((.ok, extentMapBase), { k with machine := m }.recordDomainMap d extentMapBase)
      | (false, m) => ((.errMethod, 0), { k with machine := m })
  else ((.errBadCPtr, 0), k)

/-- `devqueue_qsize`. -/
def devqueueQsize (k : Kernel μ) (oid : ℕ) : BitVec 64 :=
  if h : oid < objectTableSize then (k.devqueues ⟨oid, h⟩).qsize.setWidth 64 else 0

/-- The loop of `devqueue_map`: map and record the pages `(va, phys, writable, no_cache)`,
stopping at the first one that cannot be mapped. The pages before it stay mapped. -/
def mapPages (p : Platform μ) (d : Fin maxDomains) :
    List (BitVec 64 × BitVec 64 × Bool × Bool) → Kernel μ → Bool × Kernel μ
  | [], k => (true, k)
  | (va, phys, writable, nc) :: pages, k =>
    match p.mapUserPhys va phys writable false nc k.machine with
    | (true, m) => mapPages p d pages ({ k with machine := m }.recordDomainMap d va)
    | (false, m) => (false, { k with machine := m })

/-- The pages of `devqueue_map`. -/
def dqPages (m : DqMeta) : List (BitVec 64 × BitVec 64 × Bool × Bool) :=
  [(dqBase, m.descPhys, true, false), (dqBase + 0x1000, m.availPhys, true, false),
    (dqBase + 0x2000, m.usedPhys, false, false), (dqBase + 0x3000, m.bufPhys, true, false),
    (dqBase + 0x4000, m.doorbellPhys, true, true)]

/-- `devqueue_map`. -/
def devqueueMap (p : Platform μ) (k : Kernel μ) (d : Fin maxDomains) (oid : ℕ) :
    (Status × BitVec 64) × Kernel μ :=
  if h : oid < objectTableSize then
    let m := k.devqueues ⟨oid, h⟩
    if m.bufPhys = 0 then ((.errMethod, 0), k)
    else
      match mapPages p d (dqPages m) k with
      | (true, k) => ((.ok, dqBase), k)
      | (false, k) => ((.errMethod, 0), k)
  else ((.errBadCPtr, 0), k)

/-- `devqueue_report`. -/
def devqueueReport (k : Kernel μ) (oid : ℕ) (reported : BitVec 64) : Status × BitVec 64 :=
  if h : oid < objectTableSize then
    (.ok, if reported = (k.devqueues ⟨oid, h⟩).magic then 1 else 0)
  else (.errBadCPtr, 0)

/-- `devqueue_submit`. -/
def devqueueSubmit (p : Platform μ) (k : Kernel μ) (oid : ℕ) (lba : BitVec 64) :
    (Status × BitVec 64) × Kernel μ :=
  if h : oid < objectTableSize then
    if (k.devqueues ⟨oid, h⟩).bufPhys = 0 then ((.errMethod, 0), k)
    else
      match p.readSector lba k.machine with
      | (some sect, m) => ((.ok, fnv1a (sect.take 512)), { k with machine := m })
      | (none, m) => ((.errMethod, 0), { k with machine := m })
  else ((.errBadCPtr, 0), k)

/-- `dispatch_method`. `M_FREE`, `X_WRITE` and `X_COMMIT` are refused like an unknown method. -/
def dispatchMethod (p : Platform μ) (k : Kernel μ) (d : Fin maxDomains) (e : CapEntry)
    (method : BitVec 16) (arg : BitVec 64) : (Status × BitVec 64) × Kernel μ :=
  if !e.rights.contains (methodRight e.typeTag method) then ((.errRights, 0), k)
  else if e.typeTag = .memory ∧ method = mAlloc then
    match p.allocateFrame k.machine with
    | (some frame, m) => ((.ok, frame), { k with machine := m })
    | (none, m) => ((.errRights, 0), { k with machine := m })
  else if e.typeTag = .memory ∧ method = mFree then ((.errMethod, 0), k)
  else if e.typeTag = .notification ∧ method = nSignal then
    ((.ok, 0), k.notifySignal e.objectId arg)
  else if e.typeTag = .notification ∧ method = nPoll then
    ((.ok, (k.notifyTake e.objectId).1), (k.notifyTake e.objectId).2)
  else if e.typeTag = .extent ∧ method = xRead then ((.ok, k.extentHash e.objectId), k)
  else if e.typeTag = .extent ∧ method = xMap then k.extentMap p d e.objectId
  else if e.typeTag = .deviceQueue ∧ method = dqInfo then ((.ok, k.devqueueQsize e.objectId), k)
  else if e.typeTag = .deviceQueue ∧ method = dqMap then k.devqueueMap p d e.objectId
  else if e.typeTag = .deviceQueue ∧ method = dqReport then
    (k.devqueueReport e.objectId arg, k)
  else if e.typeTag = .deviceQueue ∧ method = dqSubmit then k.devqueueSubmit p e.objectId arg
  else ((.errMethod, 0), k)

/-- `cap_invoke_in`. -/
def capInvokeIn (p : Platform μ) (k : Kernel μ) (domain : ℕ) (cptr method : BitVec 16)
    (arg : BitVec 64) : (Status × BitVec 64) × Kernel μ :=
  let d := clampDomain domain
  match k.resolve d cptr method with
  | .ok e => k.dispatchMethod p d e method arg
  | .error st => ((st, 0), k)

/-- `extent_metadata`: `(lba, len, hash)` behind an Extent capability with `INVOKE` and `READ`. -/
def extentMetadata (k : Kernel μ) (domain : ℕ) (cptr : BitVec 16) :
    Option (BitVec 64 × BitVec 32 × BitVec 64) :=
  let d := clampDomain domain
  if (k.space.tables d).invoke k.space.objects cptr.toNat xRead.toNat .invoke ≠ .ok then none
  else
    match (k.space.tables d).lookup cptr.toNat k.space.objects with
    | .ok e =>
      if e.typeTag = .extent ∧ e.rights.contains .read then
        if h : e.objectId < objectTableSize then
          let m := k.extents ⟨e.objectId, h⟩
          some (m.lba, m.len, m.hash)
        else none
      else none
    | .error _ => none

/-! ### What a non-blocking method can change -/

/-- Notification words, ledgers, the machine and the word for the reply CPtr may differ, nothing
else. -/
def PayloadOnly (k k' : Kernel μ) : Prop :=
  ∃ n l m r, k' = { k with
    notify := n, domainMaps := l, machine := m, perCpu := { k.perCpu with replyCptr := r } }

theorem PayloadOnly.refl (k : Kernel μ) : PayloadOnly k k := ⟨_, _, _, _, rfl⟩

theorem PayloadOnly.trans {k₁ k₂ k₃ : Kernel μ} (h₁ : PayloadOnly k₁ k₂)
    (h₂ : PayloadOnly k₂ k₃) : PayloadOnly k₁ k₃ := by
  obtain ⟨_, _, _, _, rfl⟩ := h₁
  obtain ⟨n, l, m, r, rfl⟩ := h₂
  exact ⟨n, l, m, r, rfl⟩

/-- What every method without a rendezvous has in common: it changes payloads only, and never
answers `ErrType`. -/
structure Plain (k : Kernel μ) (r : (Status × BitVec 64) × Kernel μ) : Prop where
  payload : PayloadOnly k r.2
  status : r.1.1 ≠ .errType

theorem Plain.ite {k : Kernel μ} {c : Prop} [Decidable c] {a b : (Status × BitVec 64) × Kernel μ}
    (ha : Plain k a) (hb : Plain k b) : Plain k (if c then a else b) :=
  iteInduction (motive := Plain k) (fun _ => ha) (fun _ => hb)

theorem mapPages_payload (p : Platform μ) (d : Fin maxDomains)
    (pages : List (BitVec 64 × BitVec 64 × Bool × Bool)) (k : Kernel μ) :
    PayloadOnly k (mapPages p d pages k).2 := by
  induction pages generalizing k with
  | nil => exact .refl k
  | cons page pages ih =>
    obtain ⟨va, phys, writable, nc⟩ := page
    simp only [mapPages]
    rcases p.mapUserPhys va phys writable false nc k.machine with ⟨_ | _, m⟩
    · exact ⟨_, _, _, _, rfl⟩
    · exact PayloadOnly.trans ⟨_, _, _, _, rfl⟩ (ih ({ k with machine := m }.recordDomainMap d va))

theorem plain_devqueueMap (p : Platform μ) (k : Kernel μ) (d : Fin maxDomains) (oid : ℕ) :
    Plain k (k.devqueueMap p d oid) := by
  simp only [devqueueMap]
  split
  · refine .ite ⟨.refl k, nofun⟩ ?_
    split
    · rename_i hmap
      exact ⟨congrArg Prod.snd hmap ▸ mapPages_payload p d _ k, nofun⟩
    · rename_i hmap
      exact ⟨congrArg Prod.snd hmap ▸ mapPages_payload p d _ k, nofun⟩
  · exact ⟨.refl k, nofun⟩

theorem plain_extentMap (p : Platform μ) (k : Kernel μ) (d : Fin maxDomains) (oid : ℕ) :
    Plain k (k.extentMap p d oid) := by
  simp only [extentMap]
  split
  · refine .ite ⟨.refl k, nofun⟩ ?_
    split <;> exact ⟨⟨_, _, _, _, rfl⟩, nofun⟩
  · exact ⟨.refl k, nofun⟩

theorem plain_devqueueSubmit (p : Platform μ) (k : Kernel μ) (oid : ℕ) (lba : BitVec 64) :
    Plain k (k.devqueueSubmit p oid lba) := by
  rw [devqueueSubmit]
  split
  · refine .ite ⟨.refl k, nofun⟩ ?_
    split <;> exact ⟨⟨_, _, _, _, rfl⟩, nofun⟩
  · exact ⟨.refl k, nofun⟩

/-- A method that does not block changes payloads only, and never answers `ErrType`. -/
theorem plain_dispatchMethod (p : Platform μ) (k : Kernel μ) (d : Fin maxDomains) (e : CapEntry)
    (method : BitVec 16) (arg : BitVec 64) : Plain k (k.dispatchMethod p d e method arg) := by
  have hsame : ∀ {st : Status} {reply : BitVec 64}, st ≠ .errType → Plain k ((st, reply), k) :=
    fun hst => ⟨.refl k, hst⟩
  rw [dispatchMethod]
  refine .ite (hsame nofun) (.ite ?alloc (.ite (hsame nofun) (.ite ?signal (.ite ?poll
    (.ite (hsame nofun) (.ite (k.plain_extentMap p d _) (.ite (hsame nofun)
      (.ite (k.plain_devqueueMap p d _) (.ite ?report (.ite (k.plain_devqueueSubmit p _ arg)
        (hsame nofun)))))))))))
  case alloc => split <;> exact ⟨⟨_, _, _, _, rfl⟩, nofun⟩
  case signal =>
    refine ⟨?_, nofun⟩
    rw [notifySignal]
    split <;> exact ⟨_, _, _, _, rfl⟩
  case poll =>
    refine ⟨?_, nofun⟩
    rw [notifyTake]
    split <;> exact ⟨_, _, _, _, rfl⟩
  case report =>
    rw [devqueueReport]
    split <;> exact hsame nofun

theorem payload_capInvokeIn (p : Platform μ) (k : Kernel μ) (domain : ℕ)
    (cptr method : BitVec 16) (arg : BitVec 64) :
    PayloadOnly k (k.capInvokeIn p domain cptr method arg).2 := by
  rw [capInvokeIn]
  split
  · exact (k.plain_dispatchMethod p _ _ method arg).payload
  · exact .refl k

end Kernel

end Cairn
