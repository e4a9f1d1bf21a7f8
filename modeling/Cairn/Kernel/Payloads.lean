import Cairn.Kernel.Constructors
import Cairn.Kernel.Sides

/-!
# Capabilities and their payloads

The capability core knows that an object exists, of which kind it is and at which epoch; its
payload stands in a side table. Nothing but the id ties the two together, and a constructor writes
the payload before it knows whether the root table has room for the capability.

Two facts keep them together. The kernel never destroys an object, so an id is given out once
(`fresh_of_created`); and a record is written by the constructor of its object only
(`Kernel.records_kept`).

## Main definitions

* `ExtentMinted`, `QueueCreated` — the record the constructor of an object was given
* `Coherent` — every object has the record of its constructor

## Main results

* `coherent_after`, `ExtentMinted.unique`, `QueueCreated.unique`
* `Kernel.extentMetadata_eq_some_iff`
* `payloads_coherent`
-/

namespace Cairn

/-! ### The objects of a run -/

namespace Kernel

variable {μ : Type}

/-- An object stays present and keeps its kind. -/
theorem metas_step_kept (p : Platform μ) (k : Kernel μ) (op : Op μ) {j : Fin objectTableSize}
    (hp : (k.space.objects.metas j).present = true) :
    ((k.step p op).2.space.objects.metas j).present = true ∧
      ((k.step p op).2.space.objects.metas j).kind = (k.space.objects.metas j).kind := by
  have hemits := k.emits_step p op
  rw [hemits.after_eq]
  exact Space.metas_kept_after hemits.not_destroyObject hp

/-- Extents and device queues are created by their constructors only. -/
theorem createObject_mem_coreOps {p : Platform μ} {k : Kernel μ} {op : Op μ} {kind : ObjectKind}
    (h : .createObject kind ∈ k.coreOps p op) :
    (kind = .extent → ∃ info, op = .mintExtent info) ∧
      (kind = .deviceQueue → ∃ magic lba, op = .createDeviceQueue magic lba) := by
  obtain ⟨c, k', hc, rfl⟩ := exists_constructs h
  cases hc with
  | mintExtent | mintExtentMapped =>
    refine ⟨fun _ => ⟨_, rfl⟩, fun hkind => ?_⟩
    cases hkind
  | createDeviceQueue magic lba =>
    refine ⟨fun hkind => ?_, fun _ => ⟨magic, lba, rfl⟩⟩
    cases hkind
  | initRoot | createNotification | createEndpoint | mintTimeslice | restartMemory | restartTime =>
    refine ⟨fun hkind => ?_, fun hkind => ?_⟩ <;> cases hkind

/-- What the constructor of an object answered, when it issued the operations of a construction. -/
theorem created_of_suffix_constructOps {s : Space (Fin maxDomains)} {kind : ObjectKind}
    {rights : Rights} {g : List (CapOp (Fin maxDomains))}
    (h : .createObject kind :: g <:+ constructOps s kind rights) : g = [] := by
  rw [constructOps] at h
  split at h
  · exact absurd (List.suffix_nil.mp h) (List.cons_ne_nil _ _)
  · rcases List.suffix_cons_iff.mp h with heq | h
    · cases heq
    · rcases List.suffix_cons_iff.mp h with heq | h
      · cases heq
        rfl
      · exact absurd (List.suffix_nil.mp h) (List.cons_ne_nil _ _)

/-- **Where an extent or a device queue comes from.** An object of these kinds was there before
the step, or the step is its constructor and has just obtained its id. -/
theorem created_step (p : Platform μ) (k : Kernel μ) (op : Op μ) {j : Fin objectTableSize}
    {kind : ObjectKind} (hp : ((k.step p op).2.space.objects.metas j).present = true)
    (hkind : ((k.step p op).2.space.objects.metas j).kind = kind)
    (hrec : kind = .extent ∨ kind = .deviceQueue) :
    ((k.space.objects.metas j).present = true ∧ (k.space.objects.metas j).kind = kind) ∨
      ((∃ info, op = .mintExtent info ∧ kind = .extent) ∨
        ∃ magic lba, op = .createDeviceQueue magic lba ∧ kind = .deviceQueue) ∧
      ∃ ot, k.space.objects.createObject kind = some (j, ot) := by
  by_cases hbefore : (k.space.objects.metas j).present = true
  · exact Or.inl ⟨hbefore, (k.metas_step_kept p op hbefore).2.symm.trans hkind⟩
  refine Or.inr ?_
  have hemits := k.emits_step p op
  have hspace := hemits.after_eq
  rw [hspace] at hp hkind
  obtain ⟨g, ot, hg, hnew⟩ := Space.exists_created hemits.not_destroyObject
    (Bool.eq_false_iff.mpr hbefore) hp
  rw [hkind] at hg hnew
  obtain ⟨hext, hqueue⟩ := createObject_mem_coreOps (hg.mem List.mem_cons_self)
  rcases hrec with rfl | rfl
  · obtain ⟨info, rfl⟩ := hext rfl
    obtain rfl := created_of_suffix_constructOps hg
    exact ⟨Or.inl ⟨info, rfl, rfl⟩, ot, hnew⟩
  · obtain ⟨magic, lba, rfl⟩ := hqueue rfl
    rw [coreOps] at hg
    split at hg
    · obtain rfl := created_of_suffix_constructOps hg
      exact ⟨Or.inr ⟨magic, lba, rfl, rfl⟩, ot, hnew⟩
    · exact absurd (List.suffix_nil.mp hg) (List.cons_ne_nil _ _)

/-- Whether or not the root table had room, the object is there. -/
theorem present_construct (k : Kernel μ) {kind : ObjectKind} {rights : Rights}
    (payload : Fin objectTableSize → Kernel μ → Kernel μ)
    (hpay : ∀ oid k, (payload oid k).space = k.space) {j : Fin objectTableSize} {ot : ObjectTable}
    (hnew : k.space.objects.createObject kind = some (j, ot)) :
    ((k.construct kind rights payload).2.space.objects.metas j).present = true := by
  obtain ⟨-, -, rfl⟩ := ObjectTable.createObject_eq_some_iff.mp hnew
  rw [construct, hnew]
  dsimp only
  split
  · show ((payload j _).space.objects.metas j).present = true
    rw [hpay]
    simp
  · rw [hpay]
    simp

end Kernel

/-! ### The record of an object -/

section Records

variable {μ : Type} (p : Platform μ) (m₀ : μ)

/-- The operation `op` of the run, made after `g`, is a constructor call for an object of this
kind that was given the id `oid`. -/
def MadeBy (h : List (Op μ)) (kind : ObjectKind) (oid : ℕ) (op : Op μ) (g : List (Op μ)) : Prop :=
  op :: g <:+ h ∧ ∃ (j : Fin objectTableSize) (ot : ObjectTable), oid = j ∧
    (kernelAfter p m₀ g).space.objects.createObject kind = some (j, ot)

/-- In the run, `mint_extent_inner` was called with `info` and made object `oid`. -/
def ExtentMinted (h : List (Op μ)) (oid : ℕ) (info : ExtentMeta) : Prop :=
  ∃ g, MadeBy p m₀ h .extent oid (.mintExtent info) g

/-- In the run, `create_device_queue` made object `oid`, from the rings the device had then and
the two words it was given. -/
def QueueCreated (h : List (Op μ)) (oid : ℕ) (m : DqMeta) : Prop :=
  ∃ g, MadeBy p m₀ h .deviceQueue oid (.createDeviceQueue m.magic m.scratchLba) g ∧
    p.deviceQueueDesc (kernelAfter p m₀ g).machine = some m.toDeviceQueueDesc

variable {p m₀} {h h' : List (Op μ)} {oid : ℕ}

theorem MadeBy.mono {kind : ObjectKind} {op : Op μ} {g : List (Op μ)}
    (hm : MadeBy p m₀ h kind oid op g) (hh : h <:+ h') : MadeBy p m₀ h' kind oid op g :=
  ⟨hm.1.trans hh, hm.2⟩

theorem ExtentMinted.mono {info : ExtentMeta} (hm : ExtentMinted p m₀ h oid info)
    (hh : h <:+ h') : ExtentMinted p m₀ h' oid info := by
  obtain ⟨g, hg⟩ := hm
  exact ⟨g, hg.mono hh⟩

theorem QueueCreated.mono {m : DqMeta} (hm : QueueCreated p m₀ h oid m) (hh : h <:+ h') :
    QueueCreated p m₀ h' oid m := by
  obtain ⟨g, hg, hready⟩ := hm
  exact ⟨g, hg.mono hh, hready⟩

theorem present_of_suffix {g : List (Op μ)} (hg : g <:+ h) {j : Fin objectTableSize}
    (hp : ((kernelAfter p m₀ g).space.objects.metas j).present = true) :
    ((kernelAfter p m₀ h).space.objects.metas j).present = true := by
  obtain ⟨f, rfl⟩ := hg
  induction f with
  | nil => exact hp
  | cons op f ih => exact (Kernel.metas_step_kept p _ op ih).1

/-- An object has one constructor call. -/
theorem MadeBy.unique {kind kind' : ObjectKind} {op op' : Op μ} {g g' : List (Op μ)}
    (hm : MadeBy p m₀ h kind oid op g) (hm' : MadeBy p m₀ h kind' oid op' g')
    (hmade : ∀ j : Fin objectTableSize, oid = j →
      ((kernelAfter p m₀ (op :: g)).space.objects.metas j).present = true)
    (hmade' : ∀ j : Fin objectTableSize, oid = j →
      ((kernelAfter p m₀ (op' :: g')).space.objects.metas j).present = true) :
    op = op' ∧ g = g' := by
  -- had one call come before the other, the id would have been taken
  have early : ∀ {kind : ObjectKind} {op op' : Op μ} {g g' : List (Op μ)},
      MadeBy p m₀ h kind oid op' g' → (∀ j : Fin objectTableSize, oid = j →
        ((kernelAfter p m₀ (op :: g)).space.objects.metas j).present = true) →
      op :: g <:+ op' :: g' → op = op' ∧ g = g' := by
    intro kind op op' g g' hm hmade hsuf
    rcases List.suffix_cons_iff.mp hsuf with heq | hsuf
    · exact List.cons.inj heq
    · obtain ⟨-, j, ot, hj, hnew⟩ := hm
      have hp := present_of_suffix hsuf (hmade j hj)
      rw [(ObjectTable.createObject_eq_some_iff.mp hnew).1] at hp
      cases hp
  rcases List.suffix_or_suffix_of_suffix hm.1 hm'.1 with hsuf | hsuf
  · exact early hm' hmade hsuf
  · obtain ⟨hop, hg⟩ := early hm hmade' hsuf
    exact ⟨hop.symm, hg.symm⟩

theorem MadeBy.present_extent {info : ExtentMeta} {g : List (Op μ)}
    (hm : MadeBy p m₀ h .extent oid (.mintExtent info) g) (j : Fin objectTableSize)
    (hj : oid = j) :
    ((kernelAfter p m₀ (.mintExtent info :: g)).space.objects.metas j).present = true := by
  obtain ⟨-, j', ot, hj', hnew⟩ := hm
  obtain rfl : j = j' := Fin.ext (hj.symm.trans hj')
  exact Kernel.present_construct (kernelAfter p m₀ g)
    (fun oid k => { k with extents := Function.update k.extents oid info }) (fun _ _ => rfl) hnew

theorem MadeBy.present_queue {magic lba : BitVec 64} {dqd : DeviceQueueDesc} {g : List (Op μ)}
    (hm : MadeBy p m₀ h .deviceQueue oid (.createDeviceQueue magic lba) g)
    (hready : p.deviceQueueDesc (kernelAfter p m₀ g).machine = some dqd)
    (j : Fin objectTableSize) (hj : oid = j) :
    ((kernelAfter p m₀ (.createDeviceQueue magic lba :: g)).space.objects.metas j).present
      = true := by
  obtain ⟨-, j', ot, hj', hnew⟩ := hm
  obtain rfl : j = j' := Fin.ext (hj.symm.trans hj')
  show (((kernelAfter p m₀ g).createDeviceQueue p magic lba).2.space.objects.metas j).present = true
  rw [Kernel.createDeviceQueue, hready]
  exact Kernel.present_construct (kernelAfter p m₀ g)
    (fun oid k => { k with devqueues := Function.update k.devqueues oid ⟨dqd, magic, lba⟩ })
    (fun _ _ => rfl) hnew

theorem ExtentMinted.unique {info info' : ExtentMeta} (hm : ExtentMinted p m₀ h oid info)
    (hm' : ExtentMinted p m₀ h oid info') : info = info' := by
  obtain ⟨g, hg⟩ := hm
  obtain ⟨g', hg'⟩ := hm'
  obtain ⟨hop, -⟩ := hg.unique hg' hg.present_extent hg'.present_extent
  exact Op.mintExtent.inj hop

theorem QueueCreated.unique {m m' : DqMeta} (hm : QueueCreated p m₀ h oid m)
    (hm' : QueueCreated p m₀ h oid m') : m = m' := by
  obtain ⟨g, hg, hready⟩ := hm
  obtain ⟨g', hg', hready'⟩ := hm'
  obtain ⟨hop, rfl⟩ := hg.unique hg' (hg.present_queue hready) (hg'.present_queue hready')
  obtain ⟨hmagic, hlba⟩ := Op.createDeviceQueue.inj hop
  have hdesc := Option.some.inj (hready.symm.trans hready')
  cases m
  cases m'
  simp_all

variable (p m₀)

/-- Every extent and every device queue has the record of its constructor. -/
structure Coherent (h : List (Op μ)) : Prop where
  extents : ∀ j, ((kernelAfter p m₀ h).space.objects.metas j).present = true →
    ((kernelAfter p m₀ h).space.objects.metas j).kind = .extent →
      ExtentMinted p m₀ h j ((kernelAfter p m₀ h).extents j)
  devqueues : ∀ j, ((kernelAfter p m₀ h).space.objects.metas j).present = true →
    ((kernelAfter p m₀ h).space.objects.metas j).kind = .deviceQueue →
      QueueCreated p m₀ h j ((kernelAfter p m₀ h).devqueues j)

variable {p m₀}

/-- A step writes no record of an object that is already there. -/
theorem Kernel.records_kept (p : Platform μ) (k : Kernel μ) (op : Op μ) {j : Fin objectTableSize}
    (hp : (k.space.objects.metas j).present = true) :
    (k.step p op).2.extents j = k.extents j ∧ (k.step p op).2.devqueues j = k.devqueues j := by
  -- the id a constructor obtains is not that of `j`
  have hne : ∀ {kind : ObjectKind} {oid : Fin objectTableSize} {ot : ObjectTable},
      k.space.objects.createObject kind = some (oid, ot) → j ≠ oid := by
    rintro kind oid ot hnew rfl
    rw [(ObjectTable.createObject_eq_some_iff.mp hnew).1] at hp
    cases hp
  cases k.sideStep p op with
  | method inv e call =>
    obtain ⟨_, _, _, _, heq⟩ := (k.plain_dispatchMethod p inv.domain e inv.method inv.arg).payload
    have hx := call.sides.extents
    have hq := call.sides.devqueues
    rw [heq] at hx hq
    exact ⟨congrFun hx j, congrFun hq j⟩
  | extent info oid ot created sides =>
    exact ⟨(congrFun sides.extents j).trans (Function.update_of_ne (hne created) _ _),
      congrFun sides.devqueues j⟩
  | queue magic lba dqd oid ot ready created sides =>
    exact ⟨congrFun sides.extents j,
      (congrFun sides.devqueues j).trans (Function.update_of_ne (hne created) _ _)⟩
  | nothing sides quiet => exact ⟨congrFun sides.extents j, congrFun sides.devqueues j⟩

theorem Kernel.extents_mintExtent (k : Kernel μ) (info : ExtentMeta) {j : Fin objectTableSize}
    {ot : ObjectTable} (hnew : k.space.objects.createObject .extent = some (j, ot)) :
    (k.mintExtent info).2.extents j = info := by
  have hsides := sameSides_created hnew mappableRights
    fun oid k => { k with extents := Function.update k.extents oid info }
  exact (congrFun hsides.extents j).trans (Function.update_self _ _ _)

theorem Kernel.devqueues_createDeviceQueue (p : Platform μ) (k : Kernel μ)
    (magic lba : BitVec 64) {dqd : DeviceQueueDesc} {j : Fin objectTableSize} {ot : ObjectTable}
    (hready : p.deviceQueueDesc k.machine = some dqd)
    (hnew : k.space.objects.createObject .deviceQueue = some (j, ot)) :
    (k.createDeviceQueue p magic lba).2.devqueues j = ⟨dqd, magic, lba⟩ := by
  have hsides := sameSides_created hnew mappableRights fun oid k =>
    { k with devqueues := Function.update k.devqueues oid ⟨dqd, magic, lba⟩ }
  rw [createDeviceQueue, hready]
  exact (congrFun hsides.devqueues j).trans (Function.update_self _ _ _)

/-- **Payloads stay with their objects**, whatever the kernel does. -/
theorem coherent_after (p : Platform μ) (m₀ : μ) (h : List (Op μ)) : Coherent p m₀ h := by
  induction h with
  | nil =>
    refine ⟨fun j hp => ?_, fun j hp => ?_⟩
    · cases hp
    · cases hp
  | cons op h ih =>
    have hsuf : h <:+ op :: h := List.suffix_cons op h
    refine ⟨fun j hp hkind => ?_, fun j hp hkind => ?_⟩
    · rcases (kernelAfter p m₀ h).created_step p op hp hkind (Or.inl rfl) with ⟨hp', hkind'⟩ |
        ⟨⟨info, rfl, -⟩ | ⟨_, _, -, hkind'⟩, ot, hnew⟩
      · rw [show (kernelAfter p m₀ (op :: h)).extents j = _ from
          ((kernelAfter p m₀ h).records_kept p op hp').1]
        exact (ih.extents j hp' hkind').mono hsuf
      · rw [show (kernelAfter p m₀ (.mintExtent info :: h)).extents j = _ from
          (kernelAfter p m₀ h).extents_mintExtent info hnew]
        exact ⟨h, List.suffix_refl _, j, ot, rfl, hnew⟩
      · cases hkind'
    · rcases (kernelAfter p m₀ h).created_step p op hp hkind (Or.inr rfl) with ⟨hp', hkind'⟩ |
        ⟨⟨_, -, hkind'⟩ | ⟨magic, lba, rfl, -⟩, ot, hnew⟩
      · rw [show (kernelAfter p m₀ (op :: h)).devqueues j = _ from
          ((kernelAfter p m₀ h).records_kept p op hp').2]
        exact (ih.devqueues j hp' hkind').mono hsuf
      · cases hkind'
      · cases hready : p.deviceQueueDesc (kernelAfter p m₀ h).machine with
        | none =>
          -- without a device nothing was created
          have hsame : kernelAfter p m₀ (.createDeviceQueue magic lba :: h)
              = kernelAfter p m₀ h := by
            show ((kernelAfter p m₀ h).createDeviceQueue p magic lba).2 = _
            rw [Kernel.createDeviceQueue, hready]
          rw [hsame, (ObjectTable.createObject_eq_some_iff.mp hnew).1] at hp
          cases hp
        | some dqd =>
          rw [show (kernelAfter p m₀ (.createDeviceQueue magic lba :: h)).devqueues j = _ from
            (kernelAfter p m₀ h).devqueues_createDeviceQueue p magic lba hready hnew]
          exact ⟨h, ⟨List.suffix_refl _, j, ot, rfl, hnew⟩, hready⟩

end Records

/-! ### Reading through a capability -/

namespace Kernel

variable {μ : Type}

theorem resolve_of_entryAt {k : Kernel μ} {d : Fin maxDomains} {c : BitVec 16} {e : CapEntry}
    (he : k.entryAt d c = some e) (m : BitVec 16) :
    k.resolve d c m = .ok e ↔ e.check k.space.objects = .ok ∧ e.rights.contains .invoke = true := by
  constructor
  · intro h
    exact (resolve_eq_ok h).2
  · rintro ⟨hcheck, hinv⟩
    rw [resolve, CapTable.invoke_of_entryAt he, if_pos hcheck, if_pos hinv]
    exact CapTable.lookup_eq_ok_iff.mpr ⟨he, hcheck⟩

/-- When `X_READ` on an Extent capability succeeds. -/
theorem capInvokeIn_xRead_ok_iff (p : Platform μ) {k : Kernel μ} {domain : ℕ} {c : BitVec 16}
    {e : CapEntry} (he : k.entryAt (clampDomain domain) c = some e) (hkind : e.typeTag = .extent)
    (arg : BitVec 64) : (k.capInvokeIn p domain c xRead arg).1.1 = .ok ↔
      (e.check k.space.objects = .ok ∧ e.rights.contains .invoke = true) ∧
        e.rights.contains .read = true := by
  rw [← resolve_of_entryAt he xRead]
  cases hres : k.resolve (clampDomain domain) c xRead with
  | error st =>
    rw [k.capInvokeIn_of_error p arg hres]
    constructor
    · rintro rfl
      exact absurd hres (k.resolve_ne_error_ok _ _ _)
    · rintro ⟨h, -⟩
      cases h
  | ok e' =>
    obtain rfl : e' = e := Option.some.inj ((resolve_eq_ok hres).1.symm.trans he)
    rw [k.capInvokeIn_of_ok p arg hres, k.dispatchMethod_of_row p _ e' arg 3 (by rw [hkind]; rfl)]
    cases e'.rights.contains .read <;> simp

theorem extentMetadata_of_entryAt {k : Kernel μ} {domain : ℕ} {c : BitVec 16} {e : CapEntry}
    (he : k.entryAt (clampDomain domain) c = some e) :
    k.extentMetadata domain c =
      if (e.check k.space.objects = .ok ∧ e.rights.contains .invoke = true) ∧
          e.typeTag = .extent ∧ e.rights.contains .read = true then
        if hid : e.objectId < objectTableSize then
          some ((k.extents ⟨e.objectId, hid⟩).lba, (k.extents ⟨e.objectId, hid⟩).len,
            (k.extents ⟨e.objectId, hid⟩).hash)
        else none
      else none := by
  have hinvoke := @CapTable.invoke_of_entryAt _ k.space.objects _ _ he xRead.toNat .invoke
  have hlookup := @CapTable.lookup_of_entryAt _ k.space.objects _ _ he
  simp only [extentMetadata]
  rw [hinvoke, hlookup]
  by_cases hcheck : e.check k.space.objects = .ok
  · by_cases hinv : e.rights.contains .invoke = true
    · simp [hcheck, hinv]
    · simp [hcheck, hinv]
  · simp [hcheck]

/-- `extent_metadata` answers exactly when `X_READ` on an Extent capability does. -/
theorem extentMetadata_eq_some_iff (p : Platform μ) (k : Kernel μ) (domain : ℕ) (c : BitVec 16)
    (arg : BitVec 64) (r : BitVec 64 × BitVec 32 × BitVec 64) :
    k.extentMetadata domain c = some r ↔
      ∃ e, k.entryAt (clampDomain domain) c = some e ∧ e.typeTag = .extent ∧
        (k.capInvokeIn p domain c xRead arg).1.1 = .ok ∧
        ∃ hid : e.objectId < objectTableSize,
          r = ((k.extents ⟨e.objectId, hid⟩).lba, (k.extents ⟨e.objectId, hid⟩).len,
            (k.extents ⟨e.objectId, hid⟩).hash) := by
  cases he : k.entryAt (clampDomain domain) c with
  | none =>
    have hnone : k.extentMetadata domain c = none := by
      have hinvoke := @CapTable.invoke_of_entryAt_none _ k.space.objects _ he xRead.toNat .invoke
      simp only [extentMetadata]
      rw [hinvoke]
      rfl
    simp [hnone]
  | some e =>
    rw [extentMetadata_of_entryAt he]
    constructor
    · intro h
      split at h
      · rename_i hall
        split at h
        · rename_i hid
          exact ⟨e, rfl, hall.2.1,
            (capInvokeIn_xRead_ok_iff p he hall.2.1 arg).mpr ⟨hall.1, hall.2.2⟩, hid,
            (Option.some.inj h).symm⟩
        · cases h
      · cases h
    · rintro ⟨e', he', hkind, hok, hid, rfl⟩
      obtain rfl : e = e' := Option.some.inj he'
      obtain ⟨hlive, hread⟩ := (capInvokeIn_xRead_ok_iff p he hkind arg).mp hok
      rw [if_pos ⟨hlive, hkind, hread⟩, dif_pos hid]

end Kernel

section Entries

variable {μ : Type} {p : Platform μ} {m₀ : μ} {h : List (Op μ)} {d : Fin maxDomains} {e : CapEntry}

/-- The record of an entry, in a table `table` that holds a record `R` for every object of the
entry's kind. -/
theorem record_iff {α : Type} {R : ℕ → α → Prop} {table : Fin objectTableSize → α}
    {kind : ObjectKind} (hunique : ∀ {oid a b}, R oid a → R oid b → a = b)
    (htable : ∀ j, ((kernelAfter p m₀ h).space.objects.metas j).present = true →
      ((kernelAfter p m₀ h).space.objects.metas j).kind = kind → R j (table j))
    {i : Fin capTableSlots} (he : (kernelAfter p m₀ h).slot d i = some e)
    (hkind : e.typeTag = kind) :
    ∃ hid : e.objectId < objectTableSize, ∀ a, R e.objectId a ↔ table ⟨e.objectId, hid⟩ = a := by
  obtain ⟨j, hj, hp, hk⟩ := named_after p m₀ h d i e he
  have hrec := htable j hp (hk.trans hkind)
  have hid : e.objectId < objectTableSize := hj ▸ j.isLt
  refine ⟨hid, fun a => ?_⟩
  rw [show (⟨e.objectId, hid⟩ : Fin objectTableSize) = j from Fin.ext hj, hj]
  constructor
  · exact fun ha => hunique hrec ha
  · rintro rfl
    exact hrec

/-- The record of an Extent entry is the one its constructor was given. -/
theorem extentMinted_iff {i : Fin capTableSlots} (he : (kernelAfter p m₀ h).slot d i = some e)
    (hkind : e.typeTag = .extent) :
    ∃ hid : e.objectId < objectTableSize, ∀ info, ExtentMinted p m₀ h e.objectId info ↔
      (kernelAfter p m₀ h).extents ⟨e.objectId, hid⟩ = info :=
  record_iff ExtentMinted.unique (coherent_after p m₀ h).extents he hkind

theorem queueCreated_iff {i : Fin capTableSlots} (he : (kernelAfter p m₀ h).slot d i = some e)
    (hkind : e.typeTag = .deviceQueue) :
    ∃ hid : e.objectId < objectTableSize, ∀ m, QueueCreated p m₀ h e.objectId m ↔
      (kernelAfter p m₀ h).devqueues ⟨e.objectId, hid⟩ = m :=
  record_iff QueueCreated.unique (coherent_after p m₀ h).devqueues he hkind

/-- The record behind an entry that is named by a CPtr. -/
theorem extents_of_entryAt {c : BitVec 16} {info : ExtentMeta}
    (he : (kernelAfter p m₀ h).entryAt d c = some e) (hkind : e.typeTag = .extent)
    (hinfo : ExtentMinted p m₀ h e.objectId info) :
    ∃ hid : e.objectId < objectTableSize,
      (kernelAfter p m₀ h).extents ⟨e.objectId, hid⟩ = info := by
  obtain ⟨hc, hslot⟩ := CapTable.entryAt_eq_some_iff.mp he
  obtain ⟨hid, hiff⟩ := extentMinted_iff hslot hkind
  exact ⟨hid, (hiff info).mp hinfo⟩

theorem devqueues_of_entryAt {c : BitVec 16} {m : DqMeta}
    (he : (kernelAfter p m₀ h).entryAt d c = some e) (hkind : e.typeTag = .deviceQueue)
    (hm : QueueCreated p m₀ h e.objectId m) :
    ∃ hid : e.objectId < objectTableSize,
      (kernelAfter p m₀ h).devqueues ⟨e.objectId, hid⟩ = m := by
  obtain ⟨hc, hslot⟩ := CapTable.entryAt_eq_some_iff.mp he
  obtain ⟨hid, hiff⟩ := queueCreated_iff hslot hkind
  exact ⟨hid, (hiff m).mp hm⟩

/-- What a successful `X_READ` answers. -/
theorem reply_xRead {op : Op μ} {inv : Invocation} {info : ExtentMeta}
    (hmade : (kernelAfter p m₀ h).invocation p op = some inv) (hmethod : inv.method = Kernel.xRead)
    (hok : inv.status = Status.ok.code)
    (he : (kernelAfter p m₀ h).entryAt inv.domain inv.cptr = some e) (hkind : e.typeTag = .extent)
    (hinfo : ExtentMinted p m₀ h e.objectId info) : inv.reply = info.hash := by
  have call := Kernel.dispatches_of_ok hmade hok he (by rw [hkind]; decide)
  obtain ⟨hid, hrec⟩ := extents_of_entryAt he hkind hinfo
  have hgate := (kernelAfter p m₀ h).dispatchMethod_of_row p inv.domain e inv.arg 3
    (by rw [hkind]; rfl)
  rw [← hmethod] at hgate
  rw [(call.of_gate hok hgate).1, ← hrec]
  exact dif_pos hid

/-- What a successful `DQ_INFO` answers. -/
theorem reply_dqInfo {op : Op μ} {inv : Invocation} {m : DqMeta}
    (hmade : (kernelAfter p m₀ h).invocation p op = some inv) (hmethod : inv.method = Kernel.dqInfo)
    (hok : inv.status = Status.ok.code)
    (he : (kernelAfter p m₀ h).entryAt inv.domain inv.cptr = some e)
    (hkind : e.typeTag = .deviceQueue) (hm : QueueCreated p m₀ h e.objectId m) :
    inv.reply = m.qsize.setWidth 64 := by
  have call := Kernel.dispatches_of_ok hmade hok he (by rw [hkind]; decide)
  obtain ⟨hid, hrec⟩ := devqueues_of_entryAt he hkind hm
  have hgate := (kernelAfter p m₀ h).dispatchMethod_of_row p inv.domain e inv.arg 5
    (by rw [hkind]; rfl)
  rw [← hmethod] at hgate
  rw [(call.of_gate hok hgate).1, ← hrec]
  exact dif_pos hid

/-- What `extent_metadata` answers. -/
theorem extentMetadata_iff_minted {domain : ℕ} {c : BitVec 16} {arg : BitVec 64}
    {r : BitVec 64 × BitVec 32 × BitVec 64} :
    (kernelAfter p m₀ h).extentMetadata domain c = some r ↔
      ∃ e info, (kernelAfter p m₀ h).entryAt (Kernel.clampDomain domain) c = some e ∧
        e.typeTag = .extent ∧ ExtentMinted p m₀ h e.objectId info ∧
        ((kernelAfter p m₀ h).capInvokeIn p domain c Kernel.xRead arg).1.1 = .ok ∧
        r = (info.lba, info.len, info.hash) := by
  rw [(kernelAfter p m₀ h).extentMetadata_eq_some_iff p domain c arg r]
  constructor
  · rintro ⟨e, he, hkind, hok, hid, rfl⟩
    obtain ⟨hc, hslot⟩ := CapTable.entryAt_eq_some_iff.mp he
    obtain ⟨_, hiff⟩ := extentMinted_iff hslot hkind
    exact ⟨e, _, he, hkind, (hiff _).mpr rfl, hok, rfl⟩
  · rintro ⟨e, info, he, hkind, hinfo, hok, rfl⟩
    obtain ⟨hid, rfl⟩ := extents_of_entryAt he hkind hinfo
    exact ⟨e, he, hkind, hok, hid, rfl⟩

end Entries

/-- **Capability and payload stay coherent.** After any run of constructors, delegations, seals,
revocations, syscalls, ticks, faults and restarts:

* an object is created under an id that no earlier constructor has obtained and no entry of any
  table has ever named;
* the record of every stored Extent or DeviceQueue entry, however it got there, is the one its
  constructor was given, and there is one such constructor call;
* a successful `X_READ` through an Extent entry, by either way in, returns the hash it was minted
  with; `extent_metadata` returns that record exactly when `X_READ` on the Extent entry at the same
  place succeeds; and a successful `DQ_INFO` returns the size captured at creation. -/
theorem payloads_coherent {μ : Type} (p : Platform μ) (m₀ : μ) (h : List (Op μ)) :
    let k := kernelAfter p m₀ h
    (∀ g kind j ot, .createObject kind :: g <:+ coreRun p m₀ h →
      (spaceAfter g).objects.createObject kind = some (j, ot) →
        (∀ g' kind' ot', .createObject kind' :: g' <:+ g →
          (spaceAfter g').objects.createObject kind' ≠ some (j, ot')) ∧
        ∀ g', g' <:+ g → ∀ d i e, (spaceAfter g').slot d i = some e → e.objectId ≠ j) ∧
    (∀ d i e, k.slot d i = some e → e.typeTag = .extent →
      ∃ hid : e.objectId < objectTableSize, ∀ info,
        ExtentMinted p m₀ h e.objectId info ↔ k.extents ⟨e.objectId, hid⟩ = info) ∧
    (∀ d i e, k.slot d i = some e → e.typeTag = .deviceQueue →
      ∃ hid : e.objectId < objectTableSize, ∀ m,
        QueueCreated p m₀ h e.objectId m ↔ k.devqueues ⟨e.objectId, hid⟩ = m) ∧
    (∀ op inv e info, k.invocation p op = some inv → inv.method = Kernel.xRead →
      inv.status = Status.ok.code → k.entryAt inv.domain inv.cptr = some e →
      e.typeTag = .extent → ExtentMinted p m₀ h e.objectId info → inv.reply = info.hash) ∧
    (∀ domain c arg r, k.extentMetadata domain c = some r ↔
      ∃ e info, k.entryAt (Kernel.clampDomain domain) c = some e ∧ e.typeTag = .extent ∧
        ExtentMinted p m₀ h e.objectId info ∧
        (k.capInvokeIn p domain c Kernel.xRead arg).1.1 = .ok ∧
        r = (info.lba, info.len, info.hash)) ∧
    ∀ op inv e m, k.invocation p op = some inv → inv.method = Kernel.dqInfo →
      inv.status = Status.ok.code → k.entryAt inv.domain inv.cptr = some e →
      e.typeTag = .deviceQueue → QueueCreated p m₀ h e.objectId m →
        inv.reply = m.qsize.setWidth 64 := by
  intro k
  refine ⟨?_, fun d i e he => extentMinted_iff he, fun d i e he => queueCreated_iff he,
    fun op inv e info hmade hmethod hok he => reply_xRead hmade hmethod hok he,
    fun domain c arg r => extentMetadata_iff_minted,
    fun op inv e m hmade hmethod hok he => reply_dqInfo hmade hmethod hok he⟩
  intro g kind j ot hg hnew
  exact (fresh_of_created (emits_run p m₀ h).not_destroyObject
    ((List.suffix_cons _ _).trans hg) hnew).2

end Cairn
