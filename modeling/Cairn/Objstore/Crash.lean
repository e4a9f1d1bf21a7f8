import Cairn.Internal.Runs
import Cairn.Objstore.Commit

/-!
# Crash consistency of the object store

The store over whole lives of a disk: boots, commits, commits that fail, and power failures at any
point inside a mount or a commit, each leaving any medium the unflushed writes allow. After every
such history the next mount finds the list of some of the byte strings put so far, and recovery
answers its last one.

Which one that is is a matter of what the histories can tell. A commit whose power failed may or
may not have reached the medium; the next completed mount decides, and from then on the byte
string it found counts as committed even though no `put` ever answered for it. `settled` is the
last byte string that is committed in this sense, and `pending` the one whose fate is still open.

## Main definitions

* `Machine`, `StoreOp`, `Machine.step`, `Allowed` — the system and its runs
* `acked`, `settled`, `pending`, `committed` — what a history says about committed byte strings
* `Reflects` — a machine in which a list is committed
* `Commits` — a history that commits a list

## Main results

* `exists_commits` — every history commits a list
* `recover_settled_or_pending` — crash consistency
-/

namespace Cairn

open Block

/-! ### The system -/

/-- A disk, and the store in RAM while the power is on. -/
structure Machine where
  /-- The block device. -/
  disk : Device Sector
  /-- The store of the running boot. -/
  store : Option Store

/-- What can happen to a machine. -/
inductive StoreOp
  /-- A boot that completes its mount. -/
  | boot
  /-- A `put` no operation of which fails. -/
  | put (bytes : List Byte)
  /-- A `put` whose operation `k` reports a failure, having taken effect or not. -/
  | failedPut (bytes : List Byte) (k : ℕ) (effect : Bool)
  /-- The power fails between operations and leaves a medium. -/
  | crash (medium : ℕ → Sector)
  /-- The power fails during a mount. -/
  | crashInMount (medium : ℕ → Sector)
  /-- The power fails during a `put`. -/
  | crashInPut (bytes : List Byte) (medium : ℕ → Sector)

namespace Machine

/-- Run a `put` with given outcomes, if the store is there. -/
def put (m : Machine) (o : List Outcome) (bytes : List Byte) : Option Extent × Machine :=
  match m.store with
  | none => (none, m)
  | some st =>
    let r := run o (Cairn.put st bytes) m.disk
    (r.1.1, ⟨r.2.1, some r.1.2⟩)

/-- Boot: mount with fresh statics. -/
@[irreducible] def boot (m : Machine) : Machine :=
  let r := run [] (mount .boot) m.disk
  ⟨r.2.1, some r.1⟩

/-- One step. -/
def step (m : Machine) : StoreOp → Machine
  | .boot => m.boot
  | .put bytes => (m.put [] bytes).2
  | .failedPut bytes k effect => (m.put (failAt k effect) bytes).2
  | .crash medium => ⟨⟨medium, []⟩, none⟩
  | .crashInMount medium => ⟨⟨medium, []⟩, none⟩
  | .crashInPut _ medium => ⟨⟨medium, []⟩, none⟩

/-- What `recover` answers. -/
def recover (m : Machine) : Option Extent :=
  match m.store with
  | none => none
  | some st => (run [] (Cairn.recover st) m.disk).1

end Machine

/-- Sequence number and sector numbers of a commit stay below `2 ^ 64`. -/
def Room (st : Store) (bytes : List Byte) : Prop :=
  st.mounted.seq.toNat + 1 < 2 ^ 64 ∧
    st.mounted.logHeadLba.toNat + ndata bytes.length + 1 < 2 ^ 64

instance (st : Store) (bytes : List Byte) : Decidable (Room st bytes) :=
  inferInstanceAs (Decidable (_ ∧ _))

/-- The steps a run may take: commits have room, a power failure leaves a medium the unflushed
writes of some device on the way allow, and failures come before the superblock is accepted. -/
def Allowed (m : Machine) : StoreOp → Prop
  | .boot => True
  | .put bytes => ∀ st, m.store = some st → Room st bytes
  | .failedPut bytes k effect =>
    (∀ st, m.store = some st → Room st bytes) ∧ bytes.length < 2 ^ 32 ∧ Harmless bytes k effect
  | .crash medium => Landed torn m.disk medium
  | .crashInMount medium => ∃ d, Visits [] (mount .boot) m.disk d ∧ Landed torn d medium
  | .crashInPut bytes medium => ∃ st d, m.store = some st ∧ Room st bytes ∧
    Visits [] (put st bytes) m.disk d ∧ Landed torn d medium

/-- The machine after a run, from a disk that is not mounted. -/
def machineAfter (d₀ : Device Sector) (h : List StoreOp) : Machine :=
  Runs.after Machine.step ⟨d₀, none⟩ h

@[simp] theorem machineAfter_cons (d₀ : Device Sector) (op : StoreOp) (h : List StoreOp) :
    machineAfter d₀ (op :: h) = (machineAfter d₀ h).step op := rfl

/-! ### One step -/

/-- The list is committed: the disk is blank and the list empty, or the disk holds the list; and
a running boot has mounted it. -/
def Reflects (recs : List (List Byte)) (m : Machine) : Prop :=
  (recs = [] ∧ Blank m.disk ∧ m.store = none) ∨
    (Holds recs m.disk ∧ (m.store = none ∨ m.store = some (storeOf recs)))

/-- A running boot has mounted the list. -/
theorem Reflects.of_store {recs : List (List Byte)} {m : Machine} (h : Reflects recs m)
    {st : Store} (hst : m.store = some st) : Holds recs m.disk ∧ st = storeOf recs := by
  rcases h with ⟨-, -, hoff⟩ | ⟨hholds, hoff | hon⟩
  · rw [hoff] at hst
    cases hst
  · rw [hoff] at hst
    cases hst
  · rw [hon] at hst
    exact ⟨hholds, (Option.some.inj hst).symm⟩

theorem Room.fits {recs : List (List Byte)} {bytes : List Byte} (h : Room (storeOf recs) bytes)
    (hfits : Fits recs) (hlen : bytes.length < 2 ^ 32) : Fits (recs ++ [bytes]) where
  seq := by
    have := h.1
    rw [storeOf, hfits.toNat_seq] at this
    simp only [List.length_append, List.length_singleton]
    omega
  head := by
    have := h.2
    rw [storeOf, hfits.toNat_logHead] at this
    rw [logHead_append]
    exact this
  len b hb := by
    rcases List.mem_append.mp hb with hb | hb
    · exact hfits.len b hb
    · rw [List.mem_singleton.mp hb]
      exact hlen

/-- A byte string that is too long is refused without any operation. -/
theorem put_of_long (st : Store) {bytes : List Byte} (hlen : 2 ^ 32 ≤ bytes.length) :
    put st bytes = .ret (none, st) := by
  rw [put]
  simp only [if_pos hlen, ite_self]
  rfl

theorem Machine.exists_store_boot (m : Machine) : ∃ st, (m.step .boot).store = some st := by
  rw [step, boot]
  exact ⟨_, rfl⟩

/-- A boot of a disk that holds a list only reads. -/
theorem Machine.boot_of_holds {recs : List (List Byte)} {m : Machine} (h : Holds recs m.disk) :
    m.boot.disk = m.disk ∧ m.boot.store = some (storeOf recs) := by
  obtain ⟨-, hdisk, hst⟩ := mount_of_holds h .boot
  rw [Machine.boot]
  exact ⟨hdisk, congrArg some hst⟩

/-- **A boot** mounts the list. -/
theorem Reflects.boot {recs : List (List Byte)} {m : Machine} (h : Reflects recs m) :
    Holds recs m.boot.disk ∧ m.boot.store = some (storeOf recs) := by
  rcases h with ⟨rfl, hblank, -⟩ | ⟨hholds, -⟩
  · obtain ⟨-, hclean, hst⟩ := mount_of_blank hblank .boot
    rw [Machine.boot]
    exact ⟨hclean.toHolds, congrArg some hst⟩
  · obtain ⟨hdisk, hst⟩ := m.boot_of_holds hholds
    exact ⟨by rw [hdisk]; exact hholds, hst⟩

/-- **A power failure during a mount** loses nothing. -/
theorem Reflects.crashInMount {recs : List (List Byte)} {m : Machine} (h : Reflects recs m)
    {d : Device Sector} {medium : ℕ → Sector} (hv : Visits [] (mount .boot) m.disk d)
    (hl : Landed torn d medium) : Reflects recs ⟨⟨medium, []⟩, none⟩ := by
  rcases h with ⟨rfl, hblank, -⟩ | ⟨hholds, -⟩
  · rcases hblank.crash ((mount_of_blank hblank .boot).1 d hv) hl with hb | hh
    · exact Or.inl ⟨rfl, hb, rfl⟩
    · exact Or.inr ⟨hh, Or.inl rfl⟩
  · rw [(mount_of_holds hholds .boot).1 d hv] at hl
    exact Or.inr ⟨hholds.crash hl, Or.inl rfl⟩

/-- **A commit** answers the extent of its bytes and appends them to the list. -/
theorem put_of_holds {recs : List (List Byte)} {d : Device Sector} (h : Holds recs d)
    {bytes : List Byte} (hfits : Fits (recs ++ [bytes])) :
    (run [] (put (storeOf recs) bytes) d).1
        = (some (extentOf recs bytes), storeOf (recs ++ [bytes])) ∧
      Clean (recs ++ [bytes]) (run [] (put (storeOf recs) bytes) d).2.1 := by
  have hend := (put_spec h hfits []).2
  generalize (run [] (put (storeOf recs) bytes) d).1 = r at hend
  generalize (run [] (put (storeOf recs) bytes) d).2.1 = d' at hend
  cases hend with
  | committed _ clean => exact ⟨rfl, clean⟩
  | early fails _ _ => cases fails.fails
  | accepted fails _ _ => cases fails.fails
  | flushed fails _ => cases fails.fails

/-- **A power failure during a commit** leaves the old list or the new one. -/
theorem PutVisit.crash {recs : List (List Byte)} {bytes : List Byte} {d : Device Sector}
    (h : PutVisit recs bytes d) {medium : ℕ → Sector} (hl : Landed torn d medium) :
    Holds recs ⟨medium, []⟩ ∨ Holds (recs ++ [bytes]) ⟨medium, []⟩ := by
  rcases h with hholds | hcommitting | hclean
  · exact Or.inl (hholds.crash hl)
  · exact hcommitting.crash hl
  · exact Or.inr (hclean.toHolds.crash hl)

/-- A power failure between operations. -/
theorem Reflects.crash {recs : List (List Byte)} {m : Machine} (h : Reflects recs m)
    {medium : ℕ → Sector} (hl : Landed torn m.disk medium) :
    Reflects recs ⟨⟨medium, []⟩, none⟩ := by
  rcases h with ⟨rfl, hblank, -⟩ | ⟨hholds, -⟩
  · rcases hblank.crash (Or.inl rfl) hl with hb | hh
    · exact Or.inl ⟨rfl, hb, rfl⟩
    · exact Or.inr ⟨hh, Or.inl rfl⟩
  · exact Or.inr ⟨hholds.crash hl, Or.inl rfl⟩

/-! ### Histories -/

section History

variable (d₀ : Device Sector)

/-- The byte strings whose `put` answered, with its answers, latest first. -/
def acked : List StoreOp → List (Extent × List Byte)
  | [] => []
  | .put bytes :: h =>
    match ((machineAfter d₀ h).put [] bytes).1 with
    | some e => (e, bytes) :: acked h
    | none => acked h
  | _ :: h => acked h

/-- The `put` a power failure interrupted and no completed mount has decided yet, with the answer
it would have given. -/
def pending : List StoreOp → Option (Extent × List Byte)
  | [] => none
  | .boot :: _ => none
  | .crashInPut bytes _ :: h => ((machineAfter d₀ h).put [] bytes).1.map (·, bytes)
  | _ :: h => pending h

/-- The last byte string that is committed: its `put` answered, or a mount found it as the root. -/
def settled : List StoreOp → Option (Extent × List Byte)
  | [] => none
  | .put bytes :: h =>
    match ((machineAfter d₀ h).put [] bytes).1 with
    | some e => some (e, bytes)
    | none => settled h
  | .boot :: h =>
    match pending d₀ h with
    | some (e, bytes) =>
      if (machineAfter d₀ h).boot.store.map (·.mounted.root) = some e then some (e, bytes)
      else settled h
    | none => settled h
  | _ :: h => settled h

/-- The byte strings that are committed, with their extents, oldest first: their `put` answered,
or a mount found them as the root. -/
def committed : List StoreOp → List (Extent × List Byte)
  | [] => []
  | .put bytes :: h =>
    match ((machineAfter d₀ h).put [] bytes).1 with
    | some e => committed h ++ [(e, bytes)]
    | none => committed h
  | .boot :: h =>
    match pending d₀ h with
    | some (e, bytes) =>
      if (machineAfter d₀ h).boot.store.map (·.mounted.root) = some e then
        committed h ++ [(e, bytes)]
      else committed h
    | none => committed h
  | _ :: h => committed h

variable {d₀}

/-- The settled byte string is the last one committed. -/
theorem settled_eq_getLast? (h : List StoreOp) : settled d₀ h = (committed d₀ h).getLast? := by
  induction h with
  | nil => rfl
  | cons op h ih =>
    cases op with
    | boot =>
      rw [settled, committed]
      split
      · split
        · exact List.getLast?_concat.symm
        · exact ih
      · exact ih
    | put bytes =>
      rw [settled, committed]
      split
      · exact List.getLast?_concat.symm
      · exact ih
    | failedPut | crash | crashInMount | crashInPut => exact ih

theorem mem_committed_of_mem_acked {h : List StoreOp} {p : Extent × List Byte}
    (hp : p ∈ acked d₀ h) : p ∈ committed d₀ h := by
  induction h with
  | nil => exact hp
  | cons op h ih =>
    cases op with
    | boot =>
      rw [committed]
      split
      · split
        · exact List.mem_append_left _ (ih hp)
        · exact ih hp
      · exact ih hp
    | put bytes =>
      rw [acked] at hp
      rw [committed]
      split at hp
      · rcases List.mem_cons.mp hp with rfl | hp
        · exact List.mem_append_right _ (List.mem_singleton_self _)
        · exact List.mem_append_left _ (ih hp)
      · exact ih hp
    | failedPut | crash | crashInMount | crashInPut => exact ih hp

/-- A completed mount settles what was pending, or leaves the settled byte string. -/
theorem settled_boot (h : List StoreOp) :
    settled d₀ (.boot :: h) = settled d₀ h ∨
      settled d₀ (.boot :: h) = pending d₀ h ∧ pending d₀ h ≠ none := by
  rw [settled]
  split
  · next heq =>
    split
    · exact Or.inr ⟨heq.symm, by simp [heq]⟩
    · exact Or.inl rfl
  · exact Or.inl rfl

end History

/-- What may have become of the pending `put`. -/
inductive Fate (recs : List (List Byte)) (m : Machine) : Option (Extent × List Byte) → Prop
  /-- Nothing is pending. -/
  | decided (reflects : Reflects recs m) : Fate recs m none
  /-- The pending byte string is committed or not. -/
  | undecided {bytes : List Byte} (off : m.store = none)
      (reflects : Reflects recs m ∨ Reflects (recs ++ [bytes]) m) :
      Fate recs m (some (extentOf recs bytes, bytes))

/-- The list a history has committed. -/
structure Tracks (d₀ : Device Sector) (h : List StoreOp) (recs : List (List Byte)) : Prop where
  /-- Its last byte string is the settled one. -/
  root_eq : settled d₀ h = lastExtent recs
  /-- It contains every byte string whose `put` answered, at the extent of the answer. -/
  acked_mem : ∀ p ∈ acked d₀ h, ∃ pre post, recs = pre ++ p.2 :: post ∧ p.1 = extentOf pre p.2
  /-- The machine reflects it, up to the pending `put`. -/
  fate : Fate recs (machineAfter d₀ h) (pending d₀ h)

/-- A root is older than the extent a commit on top of it gets. -/
theorem root_ne_extentOf {recs : List (List Byte)} (hfits : Fits recs) (bytes : List Byte) :
    (sbOf recs).root ≠ extentOf recs bytes := by
  intro heq
  have hlba : (sbOf recs).rootLba.toNat = logHead recs := by
    rw [← hfits.toNat_logHead]
    exact congrArg (fun e => e.lba.toNat) heq
  rcases List.eq_nil_or_concat recs with rfl | ⟨init, b, hrecs⟩
  · exact absurd hlba (by decide)
  · rw [List.concat_eq_append] at hrecs
    subst hrecs
    rw [sbOf_append, logHead_append] at hlba
    have := hfits.of_append.toNat_logHead
    simp only [Superblock.commit] at hlba
    omega

theorem root_sbOf_append (recs : List (List Byte)) (bytes : List Byte) :
    (sbOf (recs ++ [bytes])).root = extentOf recs bytes := by
  rw [sbOf_append]
  rfl

theorem Machine.put_off {m : Machine} (h : m.store = none) (o : List Outcome)
    (bytes : List Byte) : m.put o bytes = (none, m) := by
  rw [Machine.put]
  rw [h]

theorem Machine.put_on {m : Machine} {st : Store} (h : m.store = some st) (o : List Outcome)
    (bytes : List Byte) :
    m.put o bytes = ((run o (Cairn.put st bytes) m.disk).1.1,
      ⟨(run o (Cairn.put st bytes) m.disk).2.1, some (run o (Cairn.put st bytes) m.disk).1.2⟩) := by
  rw [Machine.put]
  rw [h]

/-- What a `put` of a running boot does to a machine that reflects a list. -/
theorem Reflects.put {recs : List (List Byte)} {m : Machine} (h : Reflects recs m)
    {st : Store} (hst : m.store = some st) {bytes : List Byte} (hroom : Room st bytes) :
    (m.put [] bytes).1 = none ∧ (m.put [] bytes).2 = m ∧ 2 ^ 32 ≤ bytes.length ∨
      (m.put [] bytes).1 = some (extentOf recs bytes) ∧ Fits (recs ++ [bytes]) ∧
        Reflects (recs ++ [bytes]) (m.put [] bytes).2 := by
  obtain ⟨hholds, rfl⟩ := h.of_store hst
  rw [Machine.put_on hst]
  rcases Nat.lt_or_ge bytes.length (2 ^ 32) with hlen | hlen
  · have hfits := hroom.fits hholds.fits hlen
    obtain ⟨hans, hclean⟩ := put_of_holds hholds hfits
    refine Or.inr ⟨congrArg Prod.fst hans, hfits, Or.inr ⟨hclean.toHolds, Or.inr ?_⟩⟩
    exact congrArg (fun r => some r.2) hans
  · refine Or.inl ?_
    rw [put_of_long _ hlen]
    refine ⟨rfl, ?_, hlen⟩
    change Machine.mk m.disk (some (storeOf recs)) = m
    rw [← hst]

theorem Reflects.failedPut {recs : List (List Byte)} {m : Machine} (h : Reflects recs m)
    {st : Store} (hst : m.store = some st) {bytes : List Byte} (hroom : Room st bytes)
    (hlen : bytes.length < 2 ^ 32) {k : ℕ} {effect : Bool} (hk : Harmless bytes k effect) :
    Reflects recs (m.put (failAt k effect) bytes).2 := by
  obtain ⟨hholds, rfl⟩ := h.of_store hst
  obtain ⟨hans, ⟨-, hh⟩ | ⟨hnot, -⟩⟩ := failedPut_cases hholds (hroom.fits hholds.fits hlen)
    (k := k) (by rw [Harmless] at hk; omega) effect
  swap
  · exact absurd hk hnot
  rw [Machine.put_on hst]
  exact Or.inr ⟨hh, Or.inr (congrArg (fun r => some r.2) hans)⟩

/-- Appending to the list keeps the extents in it. -/
theorem exists_split_append {recs : List (List Byte)} {p : Extent × List Byte}
    (h : ∃ pre post, recs = pre ++ p.2 :: post ∧ p.1 = extentOf pre p.2) (b : List Byte) :
    ∃ pre post, recs ++ [b] = pre ++ p.2 :: post ∧ p.1 = extentOf pre p.2 := by
  obtain ⟨pre, post, rfl, he⟩ := h
  exact ⟨pre, post ++ [b], by simp, he⟩

/-- A history commits a list: the extents of the list are those committed, and the machine reflects
it up to the pending `put`. -/
structure Commits (d₀ : Device Sector) (h : List StoreOp) (recs : List (List Byte)) : Prop where
  /-- The committed extents are those of the list. -/
  committed_eq : committed d₀ h = extentsOn [] recs
  /-- The machine reflects it, up to the pending `put`. -/
  fate : Fate recs (machineAfter d₀ h) (pending d₀ h)

section Step

variable {d₀ : Device Sector} {h : List StoreOp} {recs : List (List Byte)}

/-- With the power on, nothing is pending. -/
theorem Fate.reflects {m : Machine} {p : Option (Extent × List Byte)} (hfate : Fate recs m p)
    {st : Store} (hst : m.store = some st) : p = none ∧ Reflects recs m := by
  cases hfate with
  | decided reflects => exact ⟨rfl, reflects⟩
  | undecided off _ =>
    rw [off] at hst
    cases hst

/-- A power failure that loses nothing of any list leaves everything as it was. -/
theorem Fate.off {m : Machine} {p : Option (Extent × List Byte)} (hfate : Fate recs m p)
    {medium : ℕ → Sector}
    (hcrash : ∀ recs', Reflects recs' m → Reflects recs' ⟨⟨medium, []⟩, none⟩) :
    Fate recs ⟨⟨medium, []⟩, none⟩ p := by
  cases hfate with
  | decided reflects => exact .decided (hcrash recs reflects)
  | undecided _ reflects => exact .undecided rfl (reflects.imp (hcrash _) (hcrash _))

/-- The last extent committed is the settled one, and every answered one is among them. -/
theorem Commits.tracks (hc : Commits d₀ h recs) : Tracks d₀ h recs where
  root_eq := by rw [settled_eq_getLast?, hc.committed_eq, getLast?_extentsOn]
  acked_mem p hp := by
    have hmem := mem_committed_of_mem_acked hp
    rw [hc.committed_eq] at hmem
    exact exists_split_of_mem_extentsOn hmem
  fate := hc.fate

theorem Tracks.reflects (ht : Tracks d₀ h recs) {st : Store}
    (hst : (machineAfter d₀ h).store = some st) :
    pending d₀ h = none ∧ Reflects recs (machineAfter d₀ h) := ht.fate.reflects hst

/-- **A completed mount decides** what became of the pending `put`. -/
theorem Commits.boot (hc : Commits d₀ h recs) : ∃ recs', Commits d₀ (.boot :: h) recs' := by
  obtain ⟨hcomm, hfate⟩ := hc
  have hsb : ∀ recs', Reflects recs' (machineAfter d₀ h) →
      Fits recs' ∧ Reflects recs' (machineAfter d₀ (.boot :: h)) ∧
        (machineAfter d₀ h).boot.store.map (·.mounted.root) = some (sbOf recs').root := by
    intro recs' hr
    obtain ⟨hh, hst⟩ := hr.boot
    exact ⟨hh.fits, Or.inr ⟨hh, Or.inr hst⟩, by rw [hst]; rfl⟩
  generalize hp : pending d₀ h = p at hfate
  cases hfate with
  | decided reflects =>
    refine ⟨recs, ?_, .decided (hsb recs reflects).2.1⟩
    simp only [committed, hp, hcomm]
  | @undecided bytes off reflects =>
    rcases reflects with hold | hnew
    · -- the interrupted commit did not reach the medium
      obtain ⟨hfits, hrefl, hroot⟩ := hsb recs hold
      refine ⟨recs, ?_, .decided hrefl⟩
      simp only [committed, hp, hroot, Option.some.injEq, if_neg (root_ne_extentOf hfits bytes),
        hcomm]
    · -- it did
      obtain ⟨-, hrefl, hroot⟩ := hsb _ hnew
      rw [root_sbOf_append] at hroot
      refine ⟨recs ++ [bytes], ?_, .decided hrefl⟩
      simp only [committed, hp, hroot, if_true, hcomm, extentsOn_append, List.nil_append]

theorem Commits.put (hc : Commits d₀ h recs) {bytes : List Byte}
    (hok : Allowed (machineAfter d₀ h) (.put bytes)) :
    ∃ recs', Commits d₀ (.put bytes :: h) recs' := by
  -- a `put` that answers nothing and changes nothing commits nothing
  have hidle : ((machineAfter d₀ h).put [] bytes).1 = none →
      ((machineAfter d₀ h).put [] bytes).2 = machineAfter d₀ h →
      Commits d₀ (.put bytes :: h) recs := by
    intro hnone hsame
    refine ⟨?_, ?_⟩
    · simp only [committed, hnone, hc.committed_eq]
    · rw [machineAfter_cons, Machine.step, hsame]
      exact hc.fate
  cases hst : (machineAfter d₀ h).store with
  | none =>
    have hput := Machine.put_off hst [] bytes
    exact ⟨recs, hidle (congrArg Prod.fst hput) (congrArg Prod.snd hput)⟩
  | some st =>
    obtain ⟨hpend, hrefl⟩ := hc.fate.reflects hst
    rcases hrefl.put hst (hok st hst) with ⟨hnone, hsame, -⟩ | ⟨hsome, -, hnew⟩
    · exact ⟨recs, hidle hnone hsame⟩
    · refine ⟨recs ++ [bytes], ?_, ?_⟩
      · simp only [committed, hsome, hc.committed_eq, extentsOn_append, List.nil_append]
      · rw [show pending d₀ (.put bytes :: h) = none from hpend]
        exact .decided hnew

theorem Commits.failedPut (hc : Commits d₀ h recs) {bytes : List Byte} {k : ℕ} {effect : Bool}
    (hok : Allowed (machineAfter d₀ h) (.failedPut bytes k effect)) :
    Commits d₀ (.failedPut bytes k effect :: h) recs := by
  obtain ⟨hroom, hlen, hk⟩ := hok
  refine ⟨hc.committed_eq, ?_⟩
  cases hst : (machineAfter d₀ h).store with
  | none =>
    rw [machineAfter_cons, Machine.step, Machine.put_off hst]
    exact hc.fate
  | some st =>
    obtain ⟨hpend, hrefl⟩ := hc.fate.reflects hst
    rw [show pending d₀ (.failedPut bytes k effect :: h) = none from hpend]
    exact .decided (hrefl.failedPut hst (hroom st hst) hlen hk)

theorem Commits.crashInPut (hc : Commits d₀ h recs) {bytes : List Byte} {medium : ℕ → Sector}
    (hok : Allowed (machineAfter d₀ h) (.crashInPut bytes medium)) :
    Commits d₀ (.crashInPut bytes medium :: h) recs := by
  obtain ⟨st, d, hst, hroom, hv, hl⟩ := hok
  obtain ⟨-, hrefl⟩ := hc.fate.reflects hst
  refine ⟨hc.committed_eq, ?_⟩
  obtain ⟨hholds, rfl⟩ := hrefl.of_store hst
  rcases hrefl.put hst hroom with ⟨hnone, -, hlong⟩ | ⟨hsome, hfits, -⟩
  · rw [show pending d₀ (.crashInPut bytes medium :: h) = none by simp only [pending, hnone]; rfl]
    rw [put_of_long _ hlong] at hv
    obtain rfl : d = (machineAfter d₀ h).disk := hv
    exact .decided (hrefl.crash hl)
  · rw [show pending d₀ (.crashInPut bytes medium :: h) = some (extentOf recs bytes, bytes) by
      simp only [pending, hsome]; rfl]
    refine .undecided rfl ?_
    exact (((put_spec hholds hfits []).1 d hv).crash hl).imp
      (fun hh => Or.inr ⟨hh, Or.inl rfl⟩) (fun hh => Or.inr ⟨hh, Or.inl rfl⟩)

end Step

/-- **Every history commits a list.** -/
theorem exists_commits {d₀ : Device Sector} (hblank : Blank d₀) {h : List StoreOp}
    (hrun : Runs.Every Machine.step ⟨d₀, none⟩ Allowed h) : ∃ recs, Commits d₀ h recs := by
  induction h with
  | nil => exact ⟨[], rfl, .decided (Or.inl ⟨rfl, hblank, rfl⟩)⟩
  | cons op h ih =>
    obtain ⟨hop, hrun⟩ := hrun
    obtain ⟨recs, hc⟩ := ih hrun
    cases op with
    | boot => exact hc.boot
    | put bytes => exact hc.put hop
    | failedPut bytes k effect => exact ⟨recs, hc.failedPut hop⟩
    | crash medium => exact ⟨recs, hc.committed_eq, hc.fate.off fun _ hr => hr.crash hop⟩
    | crashInMount medium =>
      obtain ⟨d, hv, hl⟩ := hop
      exact ⟨recs, hc.committed_eq, hc.fate.off fun _ hr => hr.crashInMount hv hl⟩
    | crashInPut bytes medium => exact ⟨recs, hc.crashInPut hop⟩

theorem exists_tracks {d₀ : Device Sector} (hblank : Blank d₀) {h : List StoreOp}
    (hrun : Runs.Every Machine.step ⟨d₀, none⟩ Allowed h) : ∃ recs, Tracks d₀ h recs :=
  (exists_commits hblank hrun).imp fun _ hc => hc.tracks

/-- **Crash consistency.** After any run from a blank disk, the next mount succeeds and recovery
answers the root: the byte string that was settled, or the one whose `put` the power failure
interrupted. Nothing is answered only for an empty root and when nothing was ever committed. The
bytes of the root are on the medium at the answered extent, and so are those of every `put` that
ever answered. -/
theorem recover_settled_or_pending {d₀ : Device Sector} (hblank : Blank d₀) {h : List StoreOp}
    (hrun : Runs.Every Machine.step ⟨d₀, none⟩ Allowed h) :
    ∃ root, (root = settled d₀ h ∨ root = pending d₀ h ∧ pending d₀ h ≠ none) ∧
      (machineAfter d₀ (.boot :: h)).recover = recovered root ∧
      (∀ p, root = some p → Shows (machineAfter d₀ (.boot :: h)).disk.durable p.1 p.2) ∧
      ∀ p ∈ acked d₀ h, Shows (machineAfter d₀ (.boot :: h)).disk.durable p.1 p.2 := by
  obtain ⟨recs', ht'⟩ := exists_tracks (h := .boot :: h) hblank ⟨trivial, hrun⟩
  obtain ⟨st, hst⟩ := (machineAfter d₀ h).exists_store_boot
  obtain ⟨hholds, rfl⟩ := (ht'.reflects hst).2.of_store hst
  have hshow : ∀ p : Extent × List Byte,
      (∃ pre post, recs' = pre ++ p.2 :: post ∧ p.1 = extentOf pre p.2) →
      Shows (machineAfter d₀ (.boot :: h)).disk.durable p.1 p.2 := by
    rintro p ⟨pre, post, hrecs, he⟩
    rw [he]
    exact hholds.shows hrecs
  refine ⟨settled d₀ (.boot :: h), settled_boot h, ?_, fun p hp => ?_,
    fun p hp => hshow p (ht'.acked_mem p hp)⟩
  · rw [Machine.recover, machineAfter_cons, hst, ht'.root_eq]
    exact congrArg Prod.fst (recover_of_holds hholds)
  · rw [ht'.root_eq] at hp
    rcases List.eq_nil_or_concat recs' with rfl | ⟨init, b, hrecs⟩
    · cases hp
    · rw [List.concat_eq_append] at hrecs
      rw [hrecs, lastExtent_append] at hp
      cases hp
      exact hshow _ ⟨init, [], hrecs, rfl⟩

/-! ### Two short lives of a disk -/

/-- A disk of zeros. -/
def zeroDisk : Device Sector := ⟨fun _ => .zero, []⟩

theorem blank_zeroDisk : Blank zeroDisk := by
  have hzero : checkSuperblock .zero = .invalid := by decide
  exact ⟨rfl, hzero, hzero⟩

theorem boot_zeroDisk : Holds [] (machineAfter zeroDisk [.boot]).disk ∧
    (machineAfter zeroDisk [.boot]).store = some (storeOf []) :=
  Reflects.boot (Or.inl ⟨rfl, blank_zeroDisk, rfl⟩)

theorem reflects_boot_zeroDisk : Reflects [] (machineAfter zeroDisk [.boot]) :=
  Or.inr ⟨boot_zeroDisk.1, Or.inr boot_zeroDisk.2⟩

/-- One commit on a fresh disk is recovered by the next boot. -/
theorem recover_settled_or_pending_one_put :
    Blank zeroDisk ∧
      (machineAfter zeroDisk [.boot, .put [7], .boot]).recover = some (extentOf [] [7]) := by
  have hst := boot_zeroDisk.2
  have hroom : Room (storeOf []) [7] := by decide
  have hallowed : Allowed (machineAfter zeroDisk [.boot]) (.put [7]) := fun st hs => by
    rw [hst] at hs
    cases hs
    exact hroom
  have hsome : ((machineAfter zeroDisk [.boot]).put [] [7]).1 = some (extentOf [] [7]) := by
    rcases reflects_boot_zeroDisk.put hst hroom with ⟨-, -, hlong⟩ | ⟨hsome, -, -⟩
    · exact absurd hlong (by decide)
    · exact hsome
  obtain ⟨root, hroot, hrec, -⟩ := recover_settled_or_pending blank_zeroDisk
    (h := [.put [7], .boot]) ⟨hallowed, trivial, trivial⟩
  refine ⟨blank_zeroDisk, hrec.trans ?_⟩
  rcases hroot with rfl | ⟨-, hpend⟩
  · simp only [settled, hsome]
    rfl
  · exact absurd rfl hpend

/-- The medium after the first commit. -/
def firstCommit : ℕ → Sector :=
  (run [] (put (storeOf []) [1]) (machineAfter zeroDisk [.boot]).disk).2.1.durable

/-- Power fails at the very end of the first commit, and in the next boot at the very beginning of
the second one. -/
def twoCrashes : List StoreOp :=
  [.crashInPut [2] firstCommit, .boot, .crashInPut [1] firstCommit, .boot]

/-- **An interrupted commit may be the root without ever being answered.** No `put` of the run has
answered, the power failed during the second one, and recovery answers the first. -/
theorem recover_neither_acked_nor_pending :
    Runs.Every Machine.step ⟨zeroDisk, none⟩ Allowed twoCrashes ∧ acked zeroDisk twoCrashes = [] ∧
      pending zeroDisk twoCrashes = some (extentOf [[1]] [2], [2]) ∧
      (machineAfter zeroDisk (.boot :: twoCrashes)).recover = some (extentOf [] [1]) ∧
      extentOf [] [1] ≠ extentOf [[1]] [2] := by
  obtain ⟨hholds₀, hst₀⟩ := boot_zeroDisk
  have hroom₀ : Room (storeOf []) [1] := by decide
  have hroom₁ : Room (storeOf [[1]]) [2] := by decide
  -- the first commit reached the medium
  have hclean := (put_of_holds hholds₀ (hroom₀.fits hholds₀.fits (by decide))).2
  have hholds₁ : Holds [[1]] ⟨firstCommit, []⟩ :=
    hclean.toHolds.crash (landed_durable torn _)
  have hrefl₁ : Reflects [[1]] (machineAfter zeroDisk [.crashInPut [1] firstCommit, .boot]) :=
    Or.inr ⟨hholds₁, Or.inl rfl⟩
  obtain ⟨hholds₂, hst₂⟩ := hrefl₁.boot
  have hdisk₂ : (machineAfter zeroDisk [.boot, .crashInPut [1] firstCommit, .boot]).disk
      = ⟨firstCommit, []⟩ := by
    rw [machineAfter_cons, Machine.step, (Machine.boot_of_holds hholds₁).1]
    rfl
  refine ⟨⟨⟨_, _, hst₂, hroom₁, visits_start _ _ _, ?_⟩, trivial,
    ⟨_, _, hst₀, hroom₀, visits_run _ _ _, landed_durable torn _⟩, trivial, trivial⟩, rfl, ?_, ?_,
    by decide⟩
  · change Landed torn (machineAfter zeroDisk _).disk firstCommit
    rw [hdisk₂]
    exact landed_durable torn _
  · have hrefl₂ : Reflects [[1]]
        (machineAfter zeroDisk [.boot, .crashInPut [1] firstCommit, .boot]) :=
      Or.inr ⟨hholds₂, Or.inr hst₂⟩
    rcases hrefl₂.put hst₂ hroom₁ with ⟨-, -, hlong⟩ | ⟨hsome, -, -⟩
    · exact absurd hlong (by decide)
    · rw [twoCrashes, pending, hsome]
      rfl
  · -- nothing of the second commit did
    have hrefl₃ : Reflects [[1]] (machineAfter zeroDisk twoCrashes) :=
      Or.inr ⟨hholds₁, Or.inl rfl⟩
    obtain ⟨hholds₄, hst₄⟩ := hrefl₃.boot
    rw [machineAfter_cons, Machine.step, Machine.recover, hst₄]
    exact congrArg Prod.fst (recover_of_holds hholds₄)

end Cairn
