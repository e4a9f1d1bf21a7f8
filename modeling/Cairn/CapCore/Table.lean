import Mathlib.Data.Fin.Basic
import Cairn.CapCore.Capability

/-!
# The object table and the capability tables

`crates/cap-core/src/table.rs`. The global object table holds, for each small object id, the
kind, the current epoch and a presence flag; a capability table is a fixed array of optional
entries, indexed by the CPtr. Arrays of the source are functions on `Fin n`, updated with
`Function.update`.

Every operation takes the tables it reads and returns the one it writes. A failed operation
returns only its status: each of the source's error paths leaves before the first write.

## The liveness check

`invoke`, `delegate` and `lookup` repeat one test of an entry against its object: in range,
present, same kind, same epoch, with `ErrRevoked` taking precedence over `ErrType`. It is
`CapEntry.check` here, and the three operations are written over it.

## Main definitions

* `ObjectTable.createObject`, `ObjectTable.revoke`, `ObjectTable.destroyObject`
* `CapTable.mint`, `CapTable.invoke`, `CapTable.delegate`, `CapTable.seal`, `CapTable.lookup`

## Main results

* `CapEntry.check_eq_ok_iff`, `CapEntry.check_of_names` — the check, case by case
* `CapTable.mint_eq_ok_iff`, `CapTable.delegate_eq_ok_iff` — what a successful copy writes
-/

namespace Cairn

/-- `CAP_TABLE_SLOTS`. -/
@[irreducible] def capTableSlots : ℕ := 256

/-- `OBJECT_TABLE_SIZE`. -/
@[irreducible] def objectTableSize : ℕ := 1024

instance : NeZero capTableSlots := ⟨by rw [capTableSlots]; decide⟩

instance : NeZero objectTableSize := ⟨by rw [objectTableSize]; decide⟩

/-- Status codes of table operations. -/
inductive Status
  | ok
  | errBadCPtr
  | errRevoked
  | errType
  | errRights
  | errMethod
  deriving DecidableEq, Repr

/-- `status as u64`: the discriminant. -/
def Status.code : Status → ℕ
  | .ok => 0
  | .errBadCPtr => 1
  | .errRevoked => 2
  | .errType => 3
  | .errRights => 4
  | .errMethod => 5

theorem Status.code_injective : Function.Injective Status.code := by
  intro a b h
  cases a <;> cases b <;> first | rfl | exact absurd h (by decide)

/-! ### The object table -/

/-- Per-object metadata. -/
structure ObjectMeta where
  kind : ObjectKind
  currentEpoch : BitVec 32
  present : Bool
  deriving DecidableEq, Repr

/-- The global object table. -/
structure ObjectTable where
  metas : Fin objectTableSize → ObjectMeta

namespace ObjectTable

/-- `ObjectTable::new()`: every id is absent. -/
def new : ObjectTable := ⟨fun _ => ⟨.null, 0, false⟩⟩

/-- The metadata at an object id, absent when the id is out of range. -/
def metaAt (ot : ObjectTable) (oid : ℕ) : Option ObjectMeta :=
  if h : oid < objectTableSize then some (ot.metas ⟨oid, h⟩) else none

theorem metaAt_eq_some_iff {ot : ObjectTable} {oid : ℕ} {m : ObjectMeta} :
    ot.metaAt oid = some m ↔ ∃ h : oid < objectTableSize, ot.metas ⟨oid, h⟩ = m := by
  rw [metaAt]
  split
  · rename_i h
    exact ⟨fun hm => ⟨h, Option.some.inj hm⟩, fun ⟨_, hm⟩ => congrArg some hm⟩
  · rename_i h
    exact ⟨fun hm => (by cases hm), fun ⟨h', _⟩ => absurd h' h⟩

/-- `create_object`: the first absent id gets the kind and epoch `0`. The epoch restarts even
when the id carried an object before. -/
def createObject (ot : ObjectTable) (kind : ObjectKind) :
    Option (Fin objectTableSize × ObjectTable) :=
  match Fin.find? fun i => !(ot.metas i).present with
  | some i => some (i, ⟨Function.update ot.metas i ⟨kind, 0, true⟩⟩)
  | none => none

/-- The lowest id without an object, which is the next one that is handed out. -/
def LowestAbsent (ot : ObjectTable) (i : Fin objectTableSize) : Prop :=
  (ot.metas i).present = false ∧ ∀ j < i, (ot.metas j).present = true

/-- `revoke`: bump the epoch of a present object, wrapping at `2 ^ 32`. -/
def revoke (ot : ObjectTable) (oid : ℕ) : Status × ObjectTable :=
  if h : oid < objectTableSize then
    let m := ot.metas ⟨oid, h⟩
    if m.present then
      (.ok, ⟨Function.update ot.metas ⟨oid, h⟩ { m with currentEpoch := m.currentEpoch + 1 }⟩)
    else (.errBadCPtr, ot)
  else (.errBadCPtr, ot)

/-- `destroy_object`: mark an id absent and clear its kind; the epoch stays. -/
def destroyObject (ot : ObjectTable) (oid : ℕ) : ObjectTable :=
  if h : oid < objectTableSize then
    ⟨Function.update ot.metas ⟨oid, h⟩ { ot.metas ⟨oid, h⟩ with present := false, kind := .null }⟩
  else ot

theorem createObject_eq_some_iff {ot ot' : ObjectTable} {kind : ObjectKind}
    {i : Fin objectTableSize} :
    ot.createObject kind = some (i, ot') ↔
      (ot.metas i).present = false ∧ (∀ j < i, (ot.metas j).present = true) ∧
        ot' = ⟨Function.update ot.metas i ⟨kind, 0, true⟩⟩ := by
  rw [createObject]
  cases hf : Fin.find? fun i => !(ot.metas i).present with
  | none =>
    have := Fin.eq_false_of_find?_eq_none hf i
    simp_all
  | some j =>
    obtain ⟨hj, hlt⟩ := Fin.find?_eq_some_iff.mp hf
    simp only [Bool.not_eq_true', Bool.not_eq_false'] at hj hlt
    simp only [Option.some.injEq, Prod.mk.injEq]
    constructor
    · rintro ⟨rfl, rfl⟩
      exact ⟨hj, hlt, rfl⟩
    · rintro ⟨hi, hbelow, rfl⟩
      have hij : j = i := by
        rcases lt_trichotomy j i with h | h | h
        · exact absurd (hbelow j h) (by simp [hj])
        · exact h
        · exact absurd (hlt i h) (by simp [hi])
      exact ⟨hij, by rw [hij]⟩

theorem exists_createObject_iff {ot : ObjectTable} {kind : ObjectKind} {i : Fin objectTableSize} :
    (∃ ot', ot.createObject kind = some (i, ot')) ↔ ot.LowestAbsent i := by
  constructor
  · rintro ⟨ot', h⟩
    obtain ⟨habs, hlow, -⟩ := createObject_eq_some_iff.mp h
    exact ⟨habs, hlow⟩
  · rintro ⟨habs, hlow⟩
    exact ⟨_, createObject_eq_some_iff.mpr ⟨habs, hlow, rfl⟩⟩

theorem createObject_eq_none_iff {ot : ObjectTable} {kind : ObjectKind} :
    ot.createObject kind = none ↔ ∀ i, (ot.metas i).present = true := by
  rw [createObject]
  cases hf : Fin.find? fun i => !(ot.metas i).present with
  | none => simpa using Fin.find?_eq_none_iff.mp hf
  | some i =>
    have habs := (Fin.find?_eq_some_iff.mp hf).1
    simp only [Bool.not_eq_true'] at habs
    simp only [reduceCtorEq, false_iff]
    intro hall
    rw [hall i] at habs
    cases habs

/-- What `revoke` does to one object: nothing, or one wrapping increment. -/
theorem revoke_cases (ot : ObjectTable) (oid : ℕ) :
    (∃ h : oid < objectTableSize, (ot.metas ⟨oid, h⟩).present = true ∧
        ot.revoke oid = (.ok, ⟨Function.update ot.metas ⟨oid, h⟩
          { ot.metas ⟨oid, h⟩ with currentEpoch := (ot.metas ⟨oid, h⟩).currentEpoch + 1 }⟩)) ∨
      (∀ h : oid < objectTableSize, (ot.metas ⟨oid, h⟩).present = false) ∧
        ot.revoke oid = (.errBadCPtr, ot) := by
  by_cases h : oid < objectTableSize
  · cases hp : (ot.metas ⟨oid, h⟩).present with
    | true => exact Or.inl ⟨h, hp, by simp [revoke, h, hp]⟩
    | false => exact Or.inr ⟨fun _ => hp, by simp [revoke, h, hp]⟩
  · exact Or.inr ⟨fun h' => absurd h' h, by simp [revoke, h]⟩

end ObjectTable

/-! ### Checking one entry -/

/-- The liveness check shared by `invoke`, `delegate` and `lookup`. -/
def CapEntry.check (e : CapEntry) (ot : ObjectTable) : Status :=
  match ot.metaAt e.objectId with
  | none => .errBadCPtr
  | some m =>
    if !m.present || e.typeTag ≠ m.kind || e.epoch ≠ m.currentEpoch then
      if e.epoch ≠ m.currentEpoch then .errRevoked else .errType
    else .ok

/-- `e` names the present object `m`: in range, of its kind. What is left to decide is the
epoch. -/
structure CapEntry.Names (e : CapEntry) (ot : ObjectTable) (m : ObjectMeta) : Prop where
  at_id : ot.metaAt e.objectId = some m
  present : m.present = true
  kind : e.typeTag = m.kind

theorem CapEntry.check_eq_ok_iff {e : CapEntry} {ot : ObjectTable} :
    e.check ot = .ok ↔ ∃ m, e.Names ot m ∧ e.epoch = m.currentEpoch := by
  rw [CapEntry.check]
  constructor
  · intro h
    cases hm : ot.metaAt e.objectId with
    | none => simp [hm] at h
    | some m =>
      simp only [hm] at h
      split at h
      · split at h <;> cases h
      · rename_i hlive
        simp only [ne_eq, Bool.or_eq_true, Bool.not_eq_true', decide_eq_true_eq, not_or,
          Bool.not_eq_false, not_not] at hlive
        exact ⟨m, ⟨hm, hlive.1.1, hlive.1.2⟩, hlive.2⟩
  · rintro ⟨m, hm, he⟩
    simp [hm.at_id, hm.present, hm.kind, he]

/-- For an entry that names a present object, the check decides the epoch and nothing else. -/
theorem CapEntry.check_of_names {e : CapEntry} {ot : ObjectTable} {m : ObjectMeta}
    (h : e.Names ot m) :
    e.check ot = if e.epoch = m.currentEpoch then .ok else .errRevoked := by
  simp only [CapEntry.check, h.at_id, h.present, h.kind]
  split <;> simp_all

theorem CapEntry.check_eq_ok_iff_metas {e : CapEntry} {ot : ObjectTable}
    (hlt : e.objectId < objectTableSize) :
    e.check ot = .ok ↔ (ot.metas ⟨e.objectId, hlt⟩).present = true ∧
      e.typeTag = (ot.metas ⟨e.objectId, hlt⟩).kind ∧
      e.epoch = (ot.metas ⟨e.objectId, hlt⟩).currentEpoch := by
  rw [CapEntry.check_eq_ok_iff]
  constructor
  · rintro ⟨m, hm, he⟩
    obtain ⟨_, rfl⟩ := ObjectTable.metaAt_eq_some_iff.mp hm.at_id
    exact ⟨hm.present, hm.kind, he⟩
  · rintro ⟨hp, hk, he⟩
    exact ⟨_, ⟨ObjectTable.metaAt_eq_some_iff.mpr ⟨hlt, rfl⟩, hp, hk⟩, he⟩

/-- The child a delegation of `e` creates. -/
def CapEntry.child (e : CapEntry) (mask : Rights) (badge : BitVec 16) : CapEntry :=
  { e with rights := e.rights.inter mask, badge := badge }

/-! ### Capability tables -/

/-- A capability table. -/
structure CapTable where
  slots : Fin capTableSlots → Option CapEntry

namespace CapTable

/-- `CapTable::new()`. -/
def new : CapTable := ⟨fun _ => none⟩

/-- The entry at a CPtr. An out-of-range CPtr and an empty slot are the same `ErrBadCPtr` in
every operation, so they are one `none` here. -/
def entryAt (t : CapTable) (cptr : ℕ) : Option CapEntry :=
  if h : cptr < capTableSlots then t.slots ⟨cptr, h⟩ else none

/-- `slots.iter().position(|s| s.is_none())`. -/
def freeSlot (t : CapTable) : Option (Fin capTableSlots) :=
  Fin.find? fun i => (t.slots i).isNone

/-- Store an entry in a slot, or clear it. -/
def set (t : CapTable) (i : Fin capTableSlots) (e : Option CapEntry) : CapTable :=
  ⟨Function.update t.slots i e⟩

/-- `mint`: a capability for a present object, at its current epoch. -/
def mint (t : CapTable) (ot : ObjectTable) (oid : ℕ) (rights : Rights) (badge : BitVec 16) :
    Except Status (Fin capTableSlots × CapTable) :=
  match t.freeSlot with
  | none => .error .errBadCPtr
  | some slot =>
    match ot.metaAt oid with
    | none => .error .errBadCPtr
    | some m =>
      if m.present then
        .ok (slot, t.set slot (some ⟨oid, rights, m.currentEpoch, m.kind, badge⟩))
      else .error .errBadCPtr

/-- `invoke`: the check performed on every `cap_invoke`. The method is not consulted. -/
def invoke (t : CapTable) (ot : ObjectTable) (cptr : ℕ) (_method : ℕ) (required : Rights) :
    Status :=
  match t.entryAt cptr with
  | none => .errBadCPtr
  | some e =>
    match e.check ot with
    | .ok => if e.rights.contains required then .ok else .errRights
    | st => st

/-- `delegate`: copy a subset of the rights of `src` into another table. -/
def delegate (src : CapTable) (ot : ObjectTable) (srcCptr : ℕ) (mask : Rights)
    (badge : BitVec 16) (dst : CapTable) : Except Status (Fin capTableSlots × CapTable) :=
  match src.entryAt srcCptr with
  | none => .error .errBadCPtr
  | some e =>
    if e.rights.contains .delegate then
      match e.check ot with
      | .ok =>
        match dst.freeSlot with
        | some slot => .ok (slot, dst.set slot (some (e.child mask badge)))
        | none => .error .errBadCPtr
      | st => .error st
    else .error .errRights

/-- `lookup`: the entry, if it is still live. -/
def lookup (t : CapTable) (cptr : ℕ) (ot : ObjectTable) : Except Status CapEntry :=
  match t.entryAt cptr with
  | none => .error .errBadCPtr
  | some e =>
    match e.check ot with
    | .ok => .ok e
    | st => .error st

end CapTable

/-- `seal`: clear `DELEGATE` on an entry, and nothing else. -/
def CapTable.seal (t : CapTable) (cptr : ℕ) : Status × CapTable :=
  if h : cptr < capTableSlots then
    match t.slots ⟨cptr, h⟩ with
    | some e => (.ok, t.set ⟨cptr, h⟩ (some { e with rights := e.rights.remove .delegate }))
    | none => (.errBadCPtr, t)
  else (.errBadCPtr, t)

/-! ### What the operations do

One lemma for each operation: the exact condition of success and the table it leaves. Nothing
below unfolds an operation again. -/

namespace CapTable

@[simp] theorem entryAt_new (c : ℕ) : new.entryAt c = none := by
  rw [entryAt]
  split <;> rfl

theorem entryAt_val (t : CapTable) (i : Fin capTableSlots) : t.entryAt i = t.slots i := by
  simp [entryAt]

theorem entryAt_eq_some_iff {t : CapTable} {c : ℕ} {e : CapEntry} :
    t.entryAt c = some e ↔ ∃ h : c < capTableSlots, t.slots ⟨c, h⟩ = some e := by
  rw [entryAt]
  split
  · rename_i h
    exact ⟨fun he => ⟨h, he⟩, fun ⟨_, he⟩ => he⟩
  · rename_i h
    exact ⟨fun he => (by cases he), fun ⟨h', _⟩ => absurd h' h⟩

theorem freeSlot_eq_some {t : CapTable} {i : Fin capTableSlots} (h : t.freeSlot = some i) :
    t.slots i = none := by
  have := (Fin.find?_eq_some_iff.mp h).1
  simpa using this

theorem freeSlot_eq_none_iff {t : CapTable} :
    t.freeSlot = none ↔ ∀ i, t.slots i ≠ none := by
  rw [freeSlot, Fin.find?_eq_none_iff]
  simp only [Option.isNone_eq_false_iff, Option.isSome_iff_ne_none]

/-- Success of `mint`, and the entry it stores. -/
theorem mint_eq_ok_iff {t t' : CapTable} {ot : ObjectTable} {oid : ℕ} {r : Rights}
    {b : BitVec 16} {i : Fin capTableSlots} :
    t.mint ot oid r b = .ok (i, t') ↔
      t.freeSlot = some i ∧ ∃ m, ot.metaAt oid = some m ∧ m.present = true ∧
        t' = t.set i (some ⟨oid, r, m.currentEpoch, m.kind, b⟩) := by
  rw [mint]
  cases hf : t.freeSlot with
  | none => simp
  | some j =>
    cases hm : ot.metaAt oid with
    | none => simp
    | some m =>
      cases hp : m.present with
      | false => simp [hp]
      | true =>
        simp only [if_true, Except.ok.injEq, Prod.mk.injEq, Option.some.injEq,
          exists_eq_left', hp, true_and]
        constructor
        · rintro ⟨rfl, rfl⟩; exact ⟨rfl, rfl⟩
        · rintro ⟨rfl, rfl⟩; exact ⟨rfl, rfl⟩

/-- The capability of an object just created: only a full table refuses it. -/
theorem mint_created {t : CapTable} {ot ot' : ObjectTable} {kind : ObjectKind}
    {oid : Fin objectTableSize} {slot : Fin capTableSlots}
    (hcreate : ot.createObject kind = some (oid, ot')) (hfree : t.freeSlot = some slot)
    (r : Rights) (b : BitVec 16) :
    t.mint ot' oid r b = .ok (slot, t.set slot (some ⟨oid, r, 0, kind, b⟩)) := by
  obtain ⟨-, -, rfl⟩ := ObjectTable.createObject_eq_some_iff.mp hcreate
  refine mint_eq_ok_iff.mpr ⟨hfree, ⟨kind, 0, true⟩, ?_, rfl, rfl⟩
  exact ObjectTable.metaAt_eq_some_iff.mpr ⟨oid.isLt, Function.update_self ..⟩

/-- Success of `delegate`, and the entry it stores. -/
theorem delegate_eq_ok_iff {src dst dst' : CapTable} {ot : ObjectTable} {c : ℕ} {mask : Rights}
    {b : BitVec 16} {i : Fin capTableSlots} :
    src.delegate ot c mask b dst = .ok (i, dst') ↔
      ∃ e, src.entryAt c = some e ∧ e.rights.contains .delegate = true ∧ e.check ot = .ok ∧
        dst.freeSlot = some i ∧ dst' = dst.set i (some (e.child mask b)) := by
  rw [delegate]
  cases he : src.entryAt c with
  | none => simp
  | some e =>
    cases hd : e.rights.contains .delegate with
    | false => simp [hd]
    | true =>
      cases hc : e.check ot <;> simp [hd, hc]
      cases hf : dst.freeSlot with
      | none => simp
      | some j =>
        simp only [Except.ok.injEq, Prod.mk.injEq, Option.some.injEq]
        constructor
        · rintro ⟨rfl, rfl⟩; exact ⟨rfl, rfl⟩
        · rintro ⟨rfl, rfl⟩; exact ⟨rfl, rfl⟩

theorem delegate_of_entryAt {src : CapTable} {ot : ObjectTable} {c : ℕ} {e : CapEntry}
    (h : src.entryAt c = some e) (mask : Rights) (b : BitVec 16) (dst : CapTable) :
    src.delegate ot c mask b dst = if e.rights.contains .delegate then
      (if e.check ot = .ok then
        (match dst.freeSlot with
          | some slot => .ok (slot, dst.set slot (some (e.child mask b)))
          | none => .error .errBadCPtr)
      else .error (e.check ot)) else .error .errRights := by
  simp only [delegate, h]
  cases e.check ot <;> simp

theorem lookup_eq_ok_iff {t : CapTable} {ot : ObjectTable} {c : ℕ} {e : CapEntry} :
    t.lookup c ot = .ok e ↔ t.entryAt c = some e ∧ e.check ot = .ok := by
  rw [lookup]
  cases he : t.entryAt c with
  | none => simp
  | some e' =>
    simp only [Option.some.injEq]
    cases hc : e'.check ot <;> simp
    all_goals rintro rfl; simp [hc]

theorem lookup_of_entryAt {t : CapTable} {ot : ObjectTable} {c : ℕ} {e : CapEntry}
    (h : t.entryAt c = some e) :
    t.lookup c ot = if e.check ot = .ok then .ok e else .error (e.check ot) := by
  simp only [lookup, h]
  cases e.check ot <;> rfl

theorem invoke_of_entryAt {t : CapTable} {ot : ObjectTable} {c : ℕ} {e : CapEntry}
    (h : t.entryAt c = some e) (method : ℕ) (r : Rights) :
    t.invoke ot c method r = if e.check ot = .ok then
      (if e.rights.contains r then .ok else .errRights) else e.check ot := by
  simp only [invoke, h]
  cases e.check ot <;> simp

theorem invoke_of_entryAt_none {t : CapTable} {ot : ObjectTable} {c : ℕ}
    (h : t.entryAt c = none) (method : ℕ) (r : Rights) :
    t.invoke ot c method r = .errBadCPtr := by
  simp [invoke, h]

theorem seal_cases (t : CapTable) (c : ℕ) :
    (∃ (h : c < capTableSlots) (e : CapEntry), t.slots ⟨c, h⟩ = some e ∧
        CapTable.seal t c
          = (.ok, t.set ⟨c, h⟩ (some { e with rights := e.rights.remove .delegate }))) ∨
      (t.entryAt c = none ∧ CapTable.seal t c = (.errBadCPtr, t)) := by
  by_cases h : c < capTableSlots
  · cases he : t.slots ⟨c, h⟩ with
    | some e => exact Or.inl ⟨h, e, he, by simp [CapTable.seal, h, he]⟩
    | none => exact Or.inr ⟨by simp [entryAt, h, he], by simp [CapTable.seal, h, he]⟩
  · exact Or.inr ⟨by simp [entryAt, h], by simp [CapTable.seal, h]⟩

end CapTable

end Cairn
