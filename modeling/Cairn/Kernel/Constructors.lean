import Cairn.Kernel.Authority
import Cairn.Kernel.Parking

/-!
# Failed constructors

Every constructor of `capspace.rs` takes the same steps: an object id from the object table, a
record in the side table of the kind, a capability in the table of the root domain. The last step
can fail when the first has not, because the object table has four times as many places as a
capability table. None of the constructors undoes the first two steps then: it answers `None`, and
leaves an object behind that no capability names.

A constructor is called in two places: directly, and by the restart hook of `terminate_current`,
which calls two of them one after the other in states between the steps of a run.
`Kernel.Constructs` lists the calls a step makes with the states they are made in.

## Main definitions

* `Constructor`, `Constructor.call` — the constructors with their arguments
* `Kernel.Untouched` — object table, capability tables and side tables are as before
* `Constructor.Overflows` — the root table is the only table that is full

## Main results

* `Constructor.untouched_iff` — one call
* `Kernel.exists_constructs_of_created` — the calls of a step are all there
* `failed_constructors_untouched_iff` — every call of a run
-/

namespace Cairn

/-- The object constructors of `capspace.rs`, with their arguments. -/
inductive Constructor
  | initRoot
  | createNotification
  | createEndpoint
  | mintTimeslice
  | mintExtent (lba : BitVec 64) (len : BitVec 32) (hash : BitVec 64)
  | mintExtentMapped (lba : BitVec 64) (len : BitVec 32) (hash dataFramePhys : BitVec 64)
  | createDeviceQueue (magic scratchLba : BitVec 64)

namespace Constructor

variable {μ : Type}

/-- The call of a constructor: the CPtr it returns, if any. -/
def call (p : Platform μ) (k : Kernel μ) : Constructor → Option (Fin capTableSlots) × Kernel μ
  | initRoot => k.initRoot
  | createNotification => k.createNotification
  | createEndpoint => k.createEndpoint
  | mintTimeslice => k.mintTimeslice
  | mintExtent lba len hash => k.mintExtent ⟨lba, len, hash, 0⟩
  | mintExtentMapped lba len hash dataFramePhys => k.mintExtent ⟨lba, len, hash, dataFramePhys⟩
  | createDeviceQueue magic scratchLba => k.createDeviceQueue p magic scratchLba

/-- The kind of the object. -/
def kind : Constructor → ObjectKind
  | initRoot => .memory
  | createNotification => .notification
  | createEndpoint => .endpoint
  | mintTimeslice => .timeSlice
  | mintExtent .. | mintExtentMapped .. => .extent
  | createDeviceQueue .. => .deviceQueue

/-- A DeviceQueue needs the device; the other constructors need nothing. -/
def Ready (p : Platform μ) (k : Kernel μ) : Constructor → Prop
  | createDeviceQueue .. => (p.deviceQueueDesc k.machine).isSome = true
  | _ => True

/-- The constructor gets an object id and finds no slot in the root table for the capability. -/
structure Overflows (p : Platform μ) (k : Kernel μ) (c : Constructor) : Prop where
  ready : c.Ready p k
  /-- The object table has a free id. -/
  room : ∃ i, (k.space.objects.metas i).present = false
  /-- The root table has no free slot. -/
  full : ∀ i, (k.space.tables 0).slots i ≠ none

end Constructor

namespace Kernel

variable {μ : Type}

/-- The object table, all capability tables and the side tables of extents and device queues are
the same. -/
structure Untouched (k k' : Kernel μ) : Prop where
  space : k'.space = k.space
  extents : k'.extents = k.extents
  devqueues : k'.devqueues = k.devqueues

theorem Untouched.refl (k : Kernel μ) : Untouched k k := ⟨rfl, rfl, rfl⟩

/-- **The three ends of a constructor**: no object id and nothing written, an object without a
capability, or a capability. The side table may have been written in the second case too. -/
inductive ConstructEnd (k : Kernel μ) (kind : ObjectKind) :
    Option (Fin capTableSlots) × Kernel μ → Prop
  | noObject (hobjects : ∀ i, (k.space.objects.metas i).present = true) :
    ConstructEnd k kind (none, k)
  | noSlot (oid : Fin objectTableSize) (k' : Kernel μ)
    (hfresh : (k.space.objects.metas oid).present = false)
    (hfull : ∀ i, (k.space.tables 0).slots i ≠ none)
    (hspace : k'.space =
      ⟨⟨Function.update k.space.objects.metas oid ⟨kind, 0, true⟩⟩, k.space.tables⟩) :
    ConstructEnd k kind (none, k')
  | done (slot : Fin capTableSlots) (k' : Kernel μ)
    (hslot : (k.space.tables 0).slots slot = none) :
    ConstructEnd k kind (some slot, k')

theorem constructEnd_construct (k : Kernel μ) (kind : ObjectKind) (rights : Rights)
    (payload : Fin objectTableSize → Kernel μ → Kernel μ)
    (hpay : ∀ oid k, (payload oid k).space = k.space) :
    ConstructEnd k kind (k.construct kind rights payload) := by
  rw [construct]
  cases hcreate : k.space.objects.createObject kind with
  | none =>
    refine .noObject fun i => ?_
    exact ObjectTable.createObject_eq_none_iff.mp hcreate i
  | some r =>
    obtain ⟨oid, ot⟩ := r
    dsimp only
    rw [hpay]
    dsimp only
    cases hmint : CapTable.mint (k.space.tables 0) ot oid rights 0 with
    | ok r => exact .done _ _ (CapTable.freeSlot_eq_some (CapTable.mint_eq_ok_iff.mp hmint).1)
    | error st =>
      have hfull : (k.space.tables 0).freeSlot = none := by
        cases hfree : (k.space.tables 0).freeSlot with
        | none => rfl
        | some slot => cases (CapTable.mint_created hcreate hfree rights 0).symm.trans hmint
      obtain ⟨hfresh, -, rfl⟩ := ObjectTable.createObject_eq_some_iff.mp hcreate
      exact .noSlot oid _ hfresh (CapTable.freeSlot_eq_none_iff.mp hfull) (hpay oid _)

end Kernel

namespace Constructor

variable {μ : Type}

/-- A constructor that is ready ends in one of the three ways. -/
theorem constructEnd_call (p : Platform μ) (k : Kernel μ) {c : Constructor} (hc : c.Ready p k) :
    k.ConstructEnd c.kind (c.call p k) := by
  -- the functions are unfolded first: unifying with them folded is slow
  cases c with
  | initRoot | createNotification | createEndpoint | mintTimeslice | mintExtent
  | mintExtentMapped =>
    simp only [call, Kernel.initRoot, Kernel.createNotification, Kernel.createEndpoint,
      Kernel.mintTimeslice, Kernel.mintExtent]
    exact k.constructEnd_construct _ _ _ fun _ _ => rfl
  | createDeviceQueue magic scratchLba =>
    obtain ⟨dqd, hdqd⟩ := Option.isSome_iff_exists.mp hc
    simp only [call, Kernel.createDeviceQueue, hdqd]
    exact k.constructEnd_construct _ _ _ fun _ _ => rfl

/-- Only `create_device_queue` can be called before it is ready, and it does nothing then. -/
theorem call_of_not_ready (p : Platform μ) (k : Kernel μ) {c : Constructor} (hc : ¬c.Ready p k) :
    c.call p k = (none, k) := by
  cases c with
  | initRoot | createNotification | createEndpoint | mintTimeslice | mintExtent
  | mintExtentMapped => exact absurd trivial hc
  | createDeviceQueue magic scratchLba =>
    rw [Ready, Option.not_isSome_iff_eq_none] at hc
    rw [call, Kernel.createDeviceQueue, hc]

/-- **The missed case.** A constructor that overflows the root table answers `None` and leaves a
new object behind, which no capability table names. -/
theorem Overflows.leaves_object {p : Platform μ} {k : Kernel μ} {c : Constructor}
    (h : c.Overflows p k) :
    (c.call p k).1 = none ∧ (c.call p k).2.space.tables = k.space.tables ∧
      ∃ oid, (k.space.objects.metas oid).present = false ∧
        ((c.call p k).2.space.objects.metas oid).present = true := by
  have hend := constructEnd_call p k h.ready
  generalize c.call p k = r at hend ⊢
  cases hend with
  | noObject hobjects =>
    obtain ⟨i, hi⟩ := h.room
    rw [hobjects i] at hi
    cases hi
  | noSlot oid k' hfresh hfull hspace =>
    refine ⟨rfl, by simp only [hspace], oid, hfresh, ?_⟩
    simp only [hspace, Function.update_self]
  | done slot k' hslot => exact absurd hslot (h.full slot)

/-- **One call.** A constructor that fails has touched nothing, unless it overflows the root
table. -/
theorem untouched_iff (p : Platform μ) (k : Kernel μ) (c : Constructor) :
    ((c.call p k).1 = none → k.Untouched (c.call p k).2) ↔ ¬c.Overflows p k := by
  constructor
  · intro huntouched hover
    obtain ⟨hnone, -, oid, hfresh, hpresent⟩ := hover.leaves_object
    rw [(huntouched hnone).space, hfresh] at hpresent
    cases hpresent
  · intro hover hnone
    by_cases hready : c.Ready p k
    · have hend := constructEnd_call p k hready
      generalize c.call p k = r at hend hnone ⊢
      cases hend with
      | noObject hobjects => exact .refl k
      | noSlot oid k' hfresh hfull hspace => exact absurd ⟨hready, ⟨oid, hfresh⟩, hfull⟩ hover
      | done slot k' hslot => cases hnone
    · rw [call_of_not_ready p k hready]
      exact .refl k

end Constructor

/-! ### The calls of a run -/

namespace Kernel

variable {μ : Type}

/-- The constructor calls of one step, each with the state in which it is made. A termination
makes two if the domain is restarted: the Memory capability once the dead domain is reaped and the
budget charged, and the time slice after the Memory capability has been delegated or not. -/
inductive Constructs (p : Platform μ) (k : Kernel μ) : Op μ → Constructor → Kernel μ → Prop
  | initRoot : Constructs p k .initRoot .initRoot k
  | createNotification : Constructs p k .createNotification .createNotification k
  | createEndpoint : Constructs p k .createEndpoint .createEndpoint k
  | mintTimeslice : Constructs p k .mintTimeslice .mintTimeslice k
  | mintExtent (lba : BitVec 64) (len : BitVec 32) (hash : BitVec 64) :
    Constructs p k (.mintExtent ⟨lba, len, hash, 0⟩) (.mintExtent lba len hash) k
  | mintExtentMapped (lba : BitVec 64) (len : BitVec 32) (hash frame : BitVec 64) :
    Constructs p k (.mintExtent ⟨lba, len, hash, frame⟩) (.mintExtentMapped lba len hash frame) k
  | createDeviceQueue (magic scratchLba : BitVec 64) :
    Constructs p k (.createDeviceQueue magic scratchLba) (.createDeviceQueue magic scratchLba) k
  | restartMemory (hdom : (k.task k.current).domain = faultDomain)
    (hbudget : k.faulter.restarts ≠ 0) :
    Constructs p k .fault .initRoot (k.reaped p).spend
  | restartTime (hdom : (k.task k.current).domain = faultDomain)
    (hbudget : k.faulter.restarts ≠ 0) :
    Constructs p k .fault .mintTimeslice (k.reaped p).spend.regrant.2

theorem createObject_mem_constructOps {s : Space (Fin maxDomains)} {kind kind' : ObjectKind}
    {rights : Rights} (h : .createObject kind ∈ constructOps s kind' rights) : kind = kind' := by
  rw [constructOps] at h
  split at h
  · cases h
  · simpa using h

theorem createObject_notMem_delegateOps (kind : ObjectKind) (dst src : ℕ) (mask : Rights)
    (badge : BitVec 16) : .createObject kind ∉ delegateOps dst src mask badge := by
  rw [delegateOps]
  split <;> simp

theorem createObject_notMem_transferOps (kind : ObjectKind) (s : Space (Fin maxDomains)) (src : ℕ)
    (xfer : BitVec 16) (dst : ℕ) : .createObject kind ∉ transferOps s src xfer dst := by
  rw [transferOps]
  split
  · split <;> simp
  · simp

theorem createObject_notMem_reapOps (kind : ObjectKind) (domain : ℕ) :
    .createObject kind ∉ reapOps domain := by
  rw [reapOps]
  split <;> simp

theorem createObject_mem_regrantOps {k : Kernel μ} {kind : ObjectKind}
    (h : .createObject kind ∈ k.regrantOps) : kind = .memory ∨ kind = .timeSlice := by
  rw [regrantOps, List.mem_append, List.mem_append] at h
  rcases h with h | h | h
  · exact Or.inr (createObject_mem_constructOps h)
  · cases hroot : k.initRoot.1 with
    | none =>
      rw [hroot] at h
      cases h
    | some m =>
      rw [hroot] at h
      exact absurd h (createObject_notMem_delegateOps _ _ _ _ _)
  · exact Or.inl (createObject_mem_constructOps h)

/-- The object table is written to by these calls only. -/
theorem exists_constructs {p : Platform μ} {k : Kernel μ} {op : Op μ} {kind : ObjectKind}
    (h : .createObject kind ∈ k.coreOps p op) :
    ∃ c k', k.Constructs p op c k' ∧ c.kind = kind := by
  cases op with
  | initRoot => exact ⟨_, _, .initRoot, (createObject_mem_constructOps h).symm⟩
  | createNotification =>
    exact ⟨_, _, .createNotification, (createObject_mem_constructOps h).symm⟩
  | createEndpoint => exact ⟨_, _, .createEndpoint, (createObject_mem_constructOps h).symm⟩
  | mintTimeslice => exact ⟨_, _, .mintTimeslice, (createObject_mem_constructOps h).symm⟩
  | mintExtent info =>
    exact ⟨_, _, .mintExtentMapped info.lba info.len info.hash info.dataFramePhys,
      (createObject_mem_constructOps h).symm⟩
  | createDeviceQueue magic lba =>
    rw [coreOps] at h
    split at h
    · exact ⟨_, _, .createDeviceQueue magic lba, (createObject_mem_constructOps h).symm⟩
    · cases h
  | delegateFromRoot dst src mask badge =>
    exact absurd h (createObject_notMem_delegateOps _ _ _ _ _)
  | syscall nr c method arg0 xfer rsp =>
    rw [coreOps] at h
    split at h
    · exact absurd h (createObject_notMem_transferOps _ _ _ _ _)
    · cases h
  | fault =>
    rw [coreOps, List.mem_append] at h
    rcases h with h | h
    · rw [restartOps] at h
      split at h
      · cases h
      · rename_i hrestart
        obtain ⟨hdom, hbudget⟩ := not_or.mp hrestart
        have hbudget' : (k.reaped p).faulter.restarts ≠ 0 := hbudget
        rw [faulter_reaped] at hbudget'
        rcases createObject_mem_regrantOps h with rfl | rfl
        · exact ⟨_, _, .restartMemory (not_not.mp hdom) hbudget', rfl⟩
        · exact ⟨_, _, .restartTime (not_not.mp hdom) hbudget', rfl⟩
    · exact absurd h (createObject_notMem_reapOps _ _)
  | sealCap | revoke => simp [coreOps] at h
  | _ => cases h

/-- No call is missing: a step in which an object appears makes one of these calls. -/
theorem exists_constructs_of_created (p : Platform μ) (k : Kernel μ) (op : Op μ)
    {j : Fin objectTableSize} (habs : (k.space.objects.metas j).present = false)
    (hp : ((k.step p op).2.space.objects.metas j).present = true) :
    ∃ c k', k.Constructs p op c k' := by
  have hemits := k.emits_step p op
  rw [hemits.after_eq] at hp
  obtain ⟨g, ot, hg, -⟩ := Space.exists_created hemits.not_destroyObject habs hp
  obtain ⟨c, k', hc, -⟩ := exists_constructs (hg.mem List.mem_cons_self)
  exact ⟨c, k', hc⟩

end Kernel

/-- **A failed constructor leaves no trace exactly when it does not overflow the root table.**
In every run, the constructor calls that answered `None` have all left the object table, the
capability tables and the side tables as they were, if and only if none of the calls found the
root table full while the object table had a free id, and the device, where it is needed, was
there. -/
theorem failed_constructors_untouched_iff {μ : Type} (p : Platform μ) (m₀ : μ)
    (h : List (Op μ)) :
    (∀ g op, op :: g <:+ h → ∀ c k, (kernelAfter p m₀ g).Constructs p op c k →
        (c.call p k).1 = none → k.Untouched (c.call p k).2) ↔
      ∀ g op, op :: g <:+ h → ∀ c k, (kernelAfter p m₀ g).Constructs p op c k →
        ¬c.Overflows p k :=
  forall₃_congr fun _ _ _ => forall₃_congr fun c k _ => c.untouched_iff p k

/-! ### A full root table -/

theorem capTableSlots_lt_objectTableSize : capTableSlots < objectTableSize := by
  rw [capTableSlots, objectTableSize]
  decide

namespace Kernel

/-- The lowest `n` object ids and the lowest `n` slots of the root table are taken, and no extent
has been recorded. -/
structure Filled {μ : Type} (k : Kernel μ) (n : ℕ) : Prop where
  objects : ∀ i : Fin objectTableSize, (k.space.objects.metas i).present = true ↔ i < n
  slots : ∀ i : Fin capTableSlots, (k.space.tables 0).slots i ≠ none ↔ i < n
  extents : k.extents = fun _ => ⟨0, 0, 0, 0⟩

variable {μ : Type} {k : Kernel μ} {n : ℕ}

theorem Filled.fresh (h : k.Filled n) (hn : n < objectTableSize) :
    (k.space.objects.metas ⟨n, hn⟩).present = false := by
  simpa using (h.objects ⟨n, hn⟩).not.mpr (lt_irrefl n)

/-- The next object gets the id `n`. -/
theorem Filled.createObject (h : k.Filled n) (hn : n < objectTableSize) (kind : ObjectKind) :
    k.space.objects.createObject kind
      = some (⟨n, hn⟩, ⟨Function.update k.space.objects.metas ⟨n, hn⟩ ⟨kind, 0, true⟩⟩) :=
  ObjectTable.createObject_eq_some_iff.mpr ⟨h.fresh hn, fun j hj => (h.objects j).mpr hj, rfl⟩

/-- The next capability gets the slot `n`. -/
theorem Filled.freeSlot (h : k.Filled n) (hn : n < capTableSlots) :
    (k.space.tables 0).freeSlot = some ⟨n, hn⟩ := by
  refine Fin.find?_eq_some_iff.mpr ⟨?_, fun j hj => ?_⟩
  · simpa using (h.slots ⟨n, hn⟩).not.mpr (lt_irrefl n)
  · simpa [Option.isSome_iff_ne_none] using (h.slots j).mpr hj

/-- `init_root` takes the next id and the next slot. -/
theorem Filled.initRoot (h : k.Filled n) (hn : n < capTableSlots) :
    k.initRoot.2.Filled (n + 1) := by
  have hcreate := h.createObject (hn.trans capTableSlots_lt_objectTableSize) .memory
  have hmint := CapTable.mint_created hcreate (h.freeSlot hn) mappableRights 0
  rw [Kernel.initRoot, construct]
  simp only [hcreate, hmint]
  refine ⟨fun i => ?_, fun i => ?_, h.extents⟩
  · simp only [Space.setTable, Function.update_apply, Fin.ext_iff]
    split
    · rename_i hi
      simp only [hi, true_iff]
      exact Nat.lt_succ_self n
    · rw [h.objects]
      omega
  · simp only [Space.setTable, CapTable.set, Function.update_self, Function.update_apply,
      Fin.ext_iff]
    split
    · simp only [reduceCtorEq, not_false_iff, true_iff, ne_eq]
      omega
    · rw [h.slots]
      omega

/-- The object id that comes next when the root table is full. -/
def nextId : Fin objectTableSize := ⟨capTableSlots, capTableSlots_lt_objectTableSize⟩

/-- `mint_extent` when the root table is full. -/
theorem Filled.mintExtent (h : k.Filled capTableSlots) (info : ExtentMeta) :
    k.mintExtent info = (none, { k with
      space := ⟨⟨Function.update k.space.objects.metas nextId ⟨.extent, 0, true⟩⟩, k.space.tables⟩
      extents := Function.update k.extents nextId info }) := by
  have hcreate := h.createObject capTableSlots_lt_objectTableSize .extent
  have hfull : (k.space.tables 0).freeSlot = none :=
    CapTable.freeSlot_eq_none_iff.mpr fun i => (h.slots i).mpr i.isLt
  rw [Kernel.mintExtent, construct]
  simp only [hcreate, CapTable.mint, hfull]
  rfl

/-- The object and the record `mint_extent` leaves behind when the root table is full. -/
theorem Filled.mintExtent_leaves (h : k.Filled capTableSlots) (p : Platform μ) (lba : BitVec 64)
    (len : BitVec 32) (hash : BitVec 64) :
    ((Constructor.mintExtent lba len hash).call p k).1 = none ∧
      (k.space.objects.metas nextId).present = false ∧
      ((Constructor.mintExtent lba len hash).call p k).2.space.objects.metas nextId
        = ⟨.extent, 0, true⟩ ∧
      k.extents nextId = ⟨0, 0, 0, 0⟩ ∧
      ((Constructor.mintExtent lba len hash).call p k).2.extents nextId = ⟨lba, len, hash, 0⟩ := by
  rw [Constructor.call, h.mintExtent]
  refine ⟨rfl, h.fresh _, Function.update_self .., ?_, Function.update_self ..⟩
  rw [h.extents]

end Kernel

theorem filled_replicate_initRoot {μ : Type} (p : Platform μ) (m₀ : μ) {n : ℕ}
    (hn : n ≤ capTableSlots) : (kernelAfter p m₀ (List.replicate n .initRoot)).Filled n := by
  induction n with
  | zero =>
    refine ⟨fun i => ?_, fun i => ?_, rfl⟩ <;>
      simp [kernelAfter, Kernel.init, Space.new, ObjectTable.new, CapTable.new]
  | succ n ih => exact (ih (by omega)).initRoot (by omega)

/-- The kernel after `init_root` has filled the root table. -/
def fullRoot : Kernel Unit := kernelAfter bareMachine () (List.replicate capTableSlots .initRoot)

theorem filled_fullRoot : fullRoot.Filled capTableSlots :=
  filled_replicate_initRoot bareMachine () le_rfl

/-- **`mint_extent` on a full root table** answers `None`. Yet an object of kind Extent is there
that was not there before, and its record is in the side table. -/
theorem mintExtent_fullRoot :
    ((Constructor.mintExtent 7 512 0xabc).call bareMachine fullRoot).1 = none ∧
      (fullRoot.space.objects.metas Kernel.nextId).present = false ∧
      ((Constructor.mintExtent 7 512 0xabc).call bareMachine fullRoot).2.space.objects.metas
        Kernel.nextId = ⟨.extent, 0, true⟩ ∧
      fullRoot.extents Kernel.nextId = ⟨0, 0, 0, 0⟩ ∧
      ((Constructor.mintExtent 7 512 0xabc).call bareMachine fullRoot).2.extents Kernel.nextId
        = ⟨7, 512, 0xabc, 0⟩ :=
  filled_fullRoot.mintExtent_leaves bareMachine 7 512 0xabc

end Cairn
