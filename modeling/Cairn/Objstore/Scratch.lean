import Mathlib.Algebra.BigOperators.Group.List.Basic
import Mathlib.Data.Fintype.Basic
import Cairn.Objstore.ReadError

/-!
# Scratch sectors

Two places outside the store write fixed sectors at every boot: `smoke_test` of
`kernel/src/virtio_blk.rs` writes sector 32760 before the store is mounted, and the DeviceQueue
demonstration of `kernel/src/main.rs` seeds sector 32700 after the commits of the boot. Both lie
near the end of a disk of 32768 sectors and are meant to be clear of the log. Nothing keeps the log
away from them: `put` starts at the log head, whatever it is, and has no upper limit.

So a sector of a committed extent can be written again, by one of these two writes and by nothing
else. The mounts and the later commits of every boot stay clear of it, because the superblock slots
are never scribbled on and every boot therefore finds the log head where the last one left it. That
the data in front of it may have been scribbled on does not matter here, since a mount does not
look at it.

A run is any sequence of the steps of a boot. The boots of the kernel, a smoke test, a mount, a
recovery, commits and a seed write, one after the other, are among them.

## Main definitions

* `smokeTest`, `seedDeviceQueue` — the two writes
* `BootOp`, `BootState.step`, `BootState.writes` — the steps of a boot and the sectors they write
* `Store.Reaches` — a commit would put data in a sector

## Main results

* `Rooted.step` — every boot finds the log head where it was left
* `extents_kept_iff` — what is committed is written again exactly where the log reaches a scratch
  sector
* `extent_overwritten_by_seed` — one large object reaches that far
-/

namespace Cairn

open Block

/-! ### The writes -/

/-- `SMOKE_LBA`. -/
def smokeLba : BitVec 64 := 32760

/-- The test pattern of `smoke_test`. -/
def smokePattern : Sector := fun i => BitVec.ofNat 8 i ^^^ 0xA5

/-- `smoke_test`, on a device that has been initialised: write a sector and read it back. -/
def smokeTest : Prog Sector Bool := do
  if ← writeSector smokeLba.toNat smokePattern then
    match ← readSector smokeLba.toNat with
    | some s => return decide (smokePattern = s)
    | none => return false
  else return false

/-- `DQ_MAGIC`. -/
def dqMagic : BitVec 64 := 0xCA1707D0DEAD0007

/-- `DQ_SCRATCH_LBA`. -/
def dqScratchLba : BitVec 64 := 32700

/-- The seed write of the DeviceQueue demonstration. -/
def seedDeviceQueue : Prog Sector Bool :=
  writeSector dqScratchLba.toNat (Sector.zero.wrU64 0 dqMagic)

/-! ### Boots -/

/-- The steps of a boot. -/
inductive BootOp
  /-- The smoke test, with which a boot begins. -/
  | smokeTest
  /-- The mount. -/
  | mount
  /-- The recovery. -/
  | recover
  /-- A commit. -/
  | put (bytes : List Byte)
  /-- The seed write. -/
  | seed

/-- A disk and the statics of the store. -/
structure BootState where
  /-- The block device. -/
  disk : Device Sector
  /-- The statics. -/
  store : Store

/-- The program of a step, which ends with the statics. A boot begins with fresh ones. -/
def BootOp.prog (st : Store) : BootOp → Prog Sector Store
  | .smokeTest => do
    let _ ← Cairn.smokeTest
    return .boot
  | .mount => Cairn.mount st
  | .recover => do
    let _ ← Cairn.recover st
    return st
  | .put bytes => do
    let r ← Cairn.put st bytes
    return r.2
  | .seed => do
    let _ ← seedDeviceQueue
    return st

/-- The scratch sector a step writes. -/
def BootOp.scratch : BootOp → Option ℕ
  | .smokeTest => some smokeLba.toNat
  | .seed => some dqScratchLba.toNat
  | _ => none

namespace BootState

/-- One step, no operation of which fails. -/
def step (s : BootState) (op : BootOp) : BootState :=
  ⟨(run [] (op.prog s.store) s.disk).2.1, (run [] (op.prog s.store) s.disk).1⟩

/-- The sectors a step writes. -/
def writes (s : BootState) (op : BootOp) : List ℕ := Block.writes (op.prog s.store) s.disk

/-- What `put` answers. -/
def extent (s : BootState) (bytes : List Byte) : Option Extent :=
  (run [] (Cairn.put s.store bytes) s.disk).1.1

end BootState

/-- A disk of `N` sectors answers no write of the step with an error. -/
def OnDisk (N : ℕ) (s : BootState) (op : BootOp) : Prop := ∀ x ∈ s.writes op, x < N

/-- The state after a run, from a disk that is not mounted. -/
def bootAfter (d₀ : Device Sector) (h : List BootOp) : BootState :=
  Runs.after BootState.step ⟨d₀, .boot⟩ h

/-- The data sectors of an extent. -/
def Extent.Covers (e : Extent) (x : ℕ) : Prop :=
  e.lba.toNat ≤ x ∧ x < e.lba.toNat + ndata e.len.toNat

/-- A commit of `bytes` would go through and put data in sector `x`. -/
def Store.Reaches (st : Store) (bytes : List Byte) (x : ℕ) : Prop :=
  st.mountedOk = true ∧ bytes.length < 2 ^ 32 ∧ st.mounted.logHeadLba.toNat ≤ x ∧
    x < st.mounted.logHeadLba.toNat + ndata bytes.length

/-! ### The sectors each step writes -/

theorem run_readSuperblock (slot : BitVec 64) (d : Device Sector) :
    run [] (readSuperblock slot) d = (slotRead .ok d slot, d, []) := rfl

theorem writes_readSuperblock (slot : BitVec 64) (d : Device Sector) :
    Block.writes (readSuperblock slot) d = [] := rfl

/-- A mount writes the first slot if it formats, and otherwise nothing. -/
theorem writes_mount (st : Store) (d : Device Sector) :
    Block.writes (mount st) d
      = if slotRead .ok d lbaSbA = .invalid ∧ slotRead .ok d lbaSbB = .invalid
        then [lbaSbA.toNat] else [] := by
  rw [mount, writes_bind, writes_readSuperblock, run_readSuperblock, writes_bind,
    writes_readSuperblock, run_readSuperblock, List.nil_append, List.nil_append]
  cases slotRead .ok d lbaSbA <;> cases slotRead .ok d lbaSbB <;> rfl

theorem writes_hashExtent (lba : BitVec 64) (len todo s consumed : ℕ) (h : BitVec 64)
    (d : Device Sector) : Block.writes (hashExtent lba len todo s consumed h) d = [] := by
  induction todo generalizing s consumed h with
  | zero => rfl
  | succ todo ih => exact ih _ _ _

/-- Recovery only reads. -/
theorem writes_recover (st : Store) (d : Device Sector) :
    Block.writes (recover st) d = [] := by
  rw [recover]
  split
  · rfl
  · rw [writes_bind, extentContentHash, writes_hashExtent, List.nil_append]
    split
    · split <;> rfl
    · rfl

/-- The data loop succeeds and writes one sector a round. -/
theorem writeData_ok (L : BitVec 64) (bytes : List Byte) (todo s written : ℕ)
    (d : Device Sector) :
    (run [] (writeData L bytes todo s written) d).1 = true ∧
      Block.writes (writeData L bytes todo s written) d
        = (List.range' s todo).map fun i => (L + BitVec.ofNat 64 i).toNat := by
  induction todo generalizing s written d with
  | zero => exact ⟨rfl, rfl⟩
  | succ todo ih =>
    obtain ⟨hrun, hwrites⟩ := ih (s + 1) _ _
    exact ⟨hrun, congrArg (_ :: ·) hwrites⟩

/-- A commit writes its data, its header and the other slot. -/
theorem writes_put {st : Store} {bytes : List Byte} (hok : st.mountedOk = true)
    (hlen : bytes.length < 2 ^ 32) (d : Device Sector) :
    Block.writes (put st bytes) d
      = ((List.range' 0 (ndata bytes.length)).map fun i =>
          (st.mounted.logHeadLba + BitVec.ofNat 64 i).toNat) ++
        [(st.mounted.logHeadLba + BitVec.ofNat 64 (ndata bytes.length)).toNat,
          (otherSlot st.mountedSlot).toNat] := by
  obtain ⟨hrun, hwrites⟩ :=
    writeData_ok st.mounted.logHeadLba bytes (ndata bytes.length) 0 0 d
  have hlen' : ¬ 2 ^ 32 ≤ bytes.length := by omega
  rw [put]
  simp only [hok, Bool.true_eq_false, if_false, if_neg hlen']
  rw [writes_bind, hwrites, hrun]
  rfl

namespace BootState

variable (s : BootState)

theorem writes_smokeTest : s.writes .smokeTest = [smokeLba.toNat] := rfl

theorem writes_seed : s.writes .seed = [dqScratchLba.toNat] := rfl

theorem writes_recover : s.writes .recover = [] := by
  rw [writes, BootOp.prog, writes_bind, Cairn.writes_recover]
  rfl

theorem writes_put (bytes : List Byte) :
    s.writes (.put bytes) = Block.writes (Cairn.put s.store bytes) s.disk := by
  rw [writes, BootOp.prog, writes_bind, writes_pure, List.append_nil]

theorem store_recover : (s.step .recover).store = s.store := by
  rw [step, BootOp.prog, run_bind]
  rfl

end BootState

/-! ### The log head

The list of the committed byte strings determines the log head. What the steps keep is that the
superblock slots show this list; the sectors behind them need not. -/

/-- The slots show the list: one its superblock, the other nothing valid or the one before. -/
def SlotsShow (recs : List (List Byte)) (d : Device Sector) : Prop :=
  slotRead .ok d (slotOf recs) = .valid (sbOf recs) ∧
    (slotRead .ok d (otherSlot (slotOf recs)) = .invalid ∨
      ∃ init b, recs = init ++ [b] ∧
        slotRead .ok d (otherSlot (slotOf recs)) = .valid (sbOf init))

/-- Neither slot is valid. -/
def Unformatted (d : Device Sector) : Prop :=
  slotRead .ok d lbaSbA = .invalid ∧ slotRead .ok d lbaSbB = .invalid

/-- The state of a boot on a disk of `N` sectors to which the list has been committed. -/
structure Rooted (N : ℕ) (recs : List (List Byte)) (s : BootState) : Prop where
  /-- The list fits the machine. -/
  fits : Fits recs
  /-- The list fits the disk. -/
  head : logHead recs ≤ N + 2
  /-- The slots show the list, or nothing before the first mount. -/
  slots : SlotsShow recs s.disk ∨ (recs = [] ∧ Unformatted s.disk ∧ s.store.mountedOk = false)
  /-- A mounted store is the one of the list. -/
  store : s.store.mountedOk = true → s.store = storeOf recs

theorem slotRead_congr {d d' : Device Sector} (h : ∀ x < 2, d'.view x = d.view x)
    {slot : BitVec 64} (hslot : slot.toNat < 2) : slotRead .ok d' slot = slotRead .ok d slot :=
  congrArg checkSuperblock (h _ hslot)

theorem SlotsShow.congr {recs : List (List Byte)} {d d' : Device Sector} (hs : SlotsShow recs d)
    (h : ∀ x < 2, d'.view x = d.view x) : SlotsShow recs d' := by
  rw [SlotsShow, slotRead_congr h (slotOf_lt recs),
    slotRead_congr h (otherSlot_lt_two (slotOf recs))]
  exact hs

theorem Unformatted.congr {d d' : Device Sector} (hu : Unformatted d)
    (h : ∀ x < 2, d'.view x = d.view x) : Unformatted d' := by
  rw [Unformatted, slotRead_congr h (by decide), slotRead_congr h (by decide)]
  exact hu

theorem length_add_two_le_logHead (recs : List (List Byte)) : recs.length + 2 ≤ logHead recs := by
  have h := List.length_le_sum_of_one_le (recs.map fun b => ndata b.length + 1) (by simp)
  rw [List.length_map] at h
  rw [logHead]
  omega

theorem logHead_le_of_prefix {recs recs' : List (List Byte)} (h : recs <+: recs') :
    logHead recs ≤ logHead recs' := by
  obtain ⟨post, rfl⟩ := h
  simp only [logHead, List.map_append, List.sum_append]
  omega

/-- A commit shows the longer list. -/
theorem SlotsShow.commit {recs : List (List Byte)} {d d' : Device Sector} (hs : SlotsShow recs d)
    {b : List Byte}
    (hslot : d'.view (otherSlot (slotOf recs)).toNat = ((sbOf recs).commit b).encode)
    (hlive : d'.view (slotOf recs).toNat = d.view (slotOf recs).toNat) :
    SlotsShow (recs ++ [b]) d' := by
  rw [SlotsShow, slotOf_append, otherSlot_otherSlot]
  refine ⟨?_, Or.inr ⟨recs, b, rfl, ?_⟩⟩
  · rw [slotRead, hslot, checkSuperblock_encode, sbOf_append]
  · rw [slotRead, hlive]
    exact hs.1

theorem run_mount_of_slotsShow {recs : List (List Byte)} {d : Device Sector} (hfits : Fits recs)
    (hs : SlotsShow recs d) (st : Store) :
    (run [] (mount st) d).1 = storeOf recs ∧ (run [] (mount st) d).2.1 = d :=
  (mount_of_pick (pick_live hfits hs.1 hs.2) st).2.symm

theorem run_mount_of_unformatted {d : Device Sector} (hu : Unformatted d) (st : Store) :
    (run [] (mount st) d).1 = storeOf [] ∧ SlotsShow [] (run [] (mount st) d).2.1 := by
  have hrun : run [] (mount st) d
      = (storeOf [], (d.write lbaSbA.toNat Superblock.formatted.encode).flush, []) := by
    rw [mount, run_bind, run_readSuperblock, run_bind, run_readSuperblock, hu.1, hu.2]
    rfl
  rw [hrun]
  refine ⟨rfl, ?_, Or.inl ?_⟩
  · rw [slotRead, Device.view_flush, Device.view_write,
      if_pos (show (slotOf []).toNat = lbaSbA.toNat from rfl), checkSuperblock_encode]
    rfl
  · rw [slotRead, Device.view_flush, Device.view_write, if_neg (by decide)]
    exact hu.2

/-- A commit on top of a list. -/
theorem run_put_storeOf {recs : List (List Byte)} (hfits : Fits recs) {b : List Byte}
    (hlen : b.length < 2 ^ 32) (hL : logHead recs + ndata b.length + 1 < 2 ^ 64)
    (d : Device Sector) :
    (run [] (put (storeOf recs) b) d).1 = (some (extentOf recs b), storeOf (recs ++ [b])) ∧
      (run [] (put (storeOf recs) b) d).2.1.view (otherSlot (slotOf recs)).toNat
        = ((sbOf recs).commit b).encode ∧
      (run [] (put (storeOf recs) b) d).2.1.view (slotOf recs).toNat
        = d.view (slotOf recs).toNat := by
  have hhead : (storeOf recs).mounted.logHeadLba.toNat = logHead recs := hfits.toNat_logHead
  obtain ⟨-, hres, hview⟩ :=
    put_footprint (storeOf recs) d rfl hlen (by rw [hhead]; exact hL)
  have htwo := two_le_logHead recs
  have hslot := slotOf_lt recs
  have hne : (slotOf recs).toNat ≠ (otherSlot (storeOf recs).mountedSlot).toNat :=
    slotOf_ne_otherSlot recs
  refine ⟨?_, ?_, ?_⟩
  · rw [hres, storeOf, storeOf, sbOf_append, slotOf_append]
    rfl
  · exact (hview _).trans (if_pos rfl)
  · rw [hview, if_neg hne, writtenView, hhead, if_neg (by omega), if_neg (by omega)]

namespace Rooted

variable {N : ℕ} {recs : List (List Byte)} {s s' : BootState}

/-- A step that leaves the slots alone, and keeps the store or starts a boot. -/
theorem frame (h : Rooted N recs s) (hview : ∀ x < 2, s'.disk.view x = s.disk.view x)
    (hst : s'.store = s.store ∨ s'.store = .boot) : Rooted N recs s' where
  fits := h.fits
  head := h.head
  slots := by
    rcases h.slots with hs | ⟨hrecs, hu, hoff⟩
    · exact Or.inl (hs.congr hview)
    · refine Or.inr ⟨hrecs, hu.congr hview, ?_⟩
      rcases hst with hst | hst
      · rw [hst, hoff]
      · rw [hst]; rfl
  store hok := by
    rcases hst with hst | hst
    · rw [hst] at hok ⊢
      exact h.store hok
    · rw [hst] at hok
      cases hok

/-- A step that writes no slot. -/
theorem of_writes (h : Rooted N recs s) {op : BootOp} (hw : ∀ x ∈ s.writes op, 2 ≤ x)
    (hst : (s.step op).store = s.store ∨ (s.step op).store = .boot) : Rooted N recs (s.step op) :=
  h.frame (fun x hx => view_run_of_not_mem fun hmem => by have := hw x hmem; omega) hst

/-- Mounting finds the list. -/
theorem mount (h : Rooted N recs s) :
    Rooted N recs (s.step .mount) ∧ (s.step .mount).store = storeOf recs := by
  rcases h.slots with hs | ⟨rfl, hu, -⟩
  · obtain ⟨hst, hdisk⟩ := run_mount_of_slotsShow h.fits hs s.store
    have hs' : SlotsShow recs (s.step .mount).disk :=
      hs.congr fun x _ => congrFun (congrArg Device.view hdisk) x
    exact ⟨⟨h.fits, h.head, Or.inl hs', fun _ => hst⟩, hst⟩
  · obtain ⟨hst, hs⟩ := run_mount_of_unformatted hu s.store
    exact ⟨⟨h.fits, h.head, Or.inl hs, fun _ => hst⟩, hst⟩

/-- The sectors a commit on a disk of `N` sectors writes all lie on the disk, and so does the
log head behind them. -/
theorem room (h : Rooted N recs s) (hN : N ≤ 2 ^ 55) (hok : s.store.mountedOk = true)
    {b : List Byte} (hlen : b.length < 2 ^ 32) (hop : OnDisk N s (.put b)) :
    logHead recs + ndata b.length < N := by
  by_contra hge
  have hst := h.store hok
  have hhead : s.store.mounted.logHeadLba.toNat = logHead recs := by
    rw [hst]; exact h.fits.toNat_logHead
  -- The first sector that is not on the disk would be written.
  have hmem : N - logHead recs ≤ ndata b.length →
      (s.store.mounted.logHeadLba + BitVec.ofNat 64 (N - logHead recs)).toNat
        ∈ s.writes (.put b) := by
    intro hi
    rw [s.writes_put, writes_put hok hlen]
    rcases Nat.lt_or_eq_of_le hi with hlt | heq
    · simp only [List.mem_append, List.mem_map, List.mem_range'_1]
      exact Or.inl ⟨_, ⟨by omega, by omega⟩, rfl⟩
    · rw [heq]
      simp
  have hlba := hop _ (hmem (by omega))
  have hbound := h.head
  rw [toNat_lba_add (by omega), hhead] at hlba
  omega

/-- **A commit** answers the extent at the log head, and the list grows. -/
theorem put (h : Rooted N recs s) (hN : N ≤ 2 ^ 55) (hok : s.store.mountedOk = true)
    {b : List Byte} (hlen : b.length < 2 ^ 32) (hop : OnDisk N s (.put b)) :
    s.extent b = some (extentOf recs b) ∧ Rooted N (recs ++ [b]) (s.step (.put b)) := by
  have hroom := h.room hN hok hlen hop
  have hlog := logHead_append recs b
  have hnum := length_add_two_le_logHead (recs ++ [b])
  have hs : SlotsShow recs s.disk := by
    rcases h.slots with hs | ⟨-, -, hoff⟩
    · exact hs
    · rw [hoff] at hok
      cases hok
  obtain ⟨hres, hother, hlive⟩ := run_put_storeOf h.fits hlen (by omega) s.disk
  rw [← h.store hok] at hres hother hlive
  have hstep : s.step (.put b)
      = ⟨(run [] (Cairn.put s.store b) s.disk).2.1, storeOf (recs ++ [b])⟩ := by
    rw [BootState.step, BootOp.prog, run_bind, run_nil_outcomes, hres]
    rfl
  have hslots : SlotsShow (recs ++ [b]) (s.step (.put b)).disk := by
    rw [hstep]
    exact hs.commit hother hlive
  refine ⟨congrArg Prod.fst hres, ⟨by omega, by omega, ?_⟩, by omega, Or.inl hslots, fun _ => ?_⟩
  · intro c hc
    rcases List.mem_append.mp hc with hc | hc
    · exact h.fits.len c hc
    · rw [List.mem_singleton.mp hc]
      exact hlen
  · rw [hstep]

/-- A refused commit does nothing. -/
theorem put_refused (h : Rooted N recs s) {b : List Byte}
    (hput : Cairn.put s.store b = .ret (none, s.store)) : Rooted N recs (s.step (.put b)) := by
  refine h.frame (fun x _ => ?_) (Or.inl ?_)
  · rw [BootState.step, BootOp.prog, hput]
    rfl
  · rw [BootState.step, BootOp.prog, hput]
    rfl

/-- **Every step keeps the log head or advances it.** -/
theorem step (h : Rooted N recs s) (hN : N ≤ 2 ^ 55) {op : BootOp} (hop : OnDisk N s op) :
    ∃ recs', recs <+: recs' ∧ Rooted N recs' (s.step op) := by
  cases op with
  | smokeTest =>
    refine ⟨recs, List.prefix_rfl, h.of_writes (fun x hx => ?_) (Or.inr rfl)⟩
    rw [s.writes_smokeTest, List.mem_singleton] at hx
    rw [hx]
    decide
  | mount => exact ⟨recs, List.prefix_rfl, h.mount.1⟩
  | recover =>
    refine ⟨recs, List.prefix_rfl, h.of_writes (fun x hx => ?_) (Or.inl s.store_recover)⟩
    rw [s.writes_recover] at hx
    cases hx
  | put b =>
    rcases put_starts_or_refused s.store b with ⟨hok, hlen⟩ | hput
    · exact ⟨recs ++ [b], List.prefix_append .., (h.put hN hok hlen hop).2⟩
    · exact ⟨recs, List.prefix_rfl, h.put_refused hput⟩
  | seed =>
    refine ⟨recs, List.prefix_rfl, h.of_writes (fun x hx => ?_) (Or.inl rfl)⟩
    rw [s.writes_seed, List.mem_singleton] at hx
    rw [hx]
    decide

/-- Whether `put` answers an extent with a given sector. -/
theorem exists_extent_iff (h : Rooted N recs s) (hN : N ≤ 2 ^ 55) {b : List Byte}
    (hop : OnDisk N s (.put b)) {x : ℕ} :
    (∃ e, s.extent b = some e ∧ e.Covers x) ↔ s.store.Reaches b x := by
  rcases put_starts_or_refused s.store b with ⟨hok, hlen⟩ | hput
  · rw [(h.put hN hok hlen hop).1, Store.Reaches, hok, h.store hok]
    have hcovers : (extentOf recs b).Covers x ↔
        (storeOf recs).mounted.logHeadLba.toNat ≤ x ∧
          x < (storeOf recs).mounted.logHeadLba.toNat + ndata b.length := by
      rw [Extent.Covers, extentOf, BitVec.toNat_ofNat, Nat.mod_eq_of_lt hlen]
      rfl
    simp only [Option.some.injEq, exists_eq_left', hcovers, hlen, true_and]
  · constructor
    · rintro ⟨e, he, -⟩
      rw [BootState.extent, hput] at he
      cases he
    · intro hr
      have he := (h.put hN hr.1 hr.2.1 hop).1
      rw [BootState.extent, hput] at he
      cases he

/-- **What a step writes**: a slot, a sector behind the log head, or its scratch sector. -/
theorem mem_writes (h : Rooted N recs s) (hN : N ≤ 2 ^ 55) {op : BootOp} (hop : OnDisk N s op)
    {x : ℕ} (hx : x ∈ s.writes op) : x < 2 ∨ logHead recs ≤ x ∨ op.scratch = some x := by
  cases op with
  | smokeTest =>
    rw [s.writes_smokeTest, List.mem_singleton] at hx
    rw [hx]
    exact Or.inr (Or.inr rfl)
  | mount =>
    rw [BootState.writes, BootOp.prog, writes_mount] at hx
    split at hx
    · rw [List.mem_singleton.mp hx]
      exact Or.inl (by decide)
    · cases hx
  | recover =>
    rw [s.writes_recover] at hx
    cases hx
  | put b =>
    rw [s.writes_put] at hx
    rcases put_starts_or_refused s.store b with ⟨hok, hlen⟩ | hput
    · have hroom := h.room hN hok hlen hop
      have hhead : s.store.mounted.logHeadLba.toNat = logHead recs := by
        rw [h.store hok]
        exact h.fits.toNat_logHead
      have hlba : ∀ i ≤ ndata b.length,
          logHead recs ≤ (s.store.mounted.logHeadLba + BitVec.ofNat 64 i).toNat := by
        intro i hi
        rw [toNat_lba_add (by omega), hhead]
        omega
      rw [writes_put hok hlen] at hx
      simp only [List.mem_append, List.mem_map, List.mem_range'_1, List.mem_cons,
        List.not_mem_nil, or_false] at hx
      rcases hx with ⟨i, hi, rfl⟩ | rfl | rfl
      · exact Or.inr (Or.inl (hlba i (by omega)))
      · exact Or.inr (Or.inl (hlba _ le_rfl))
      · exact Or.inl (otherSlot_lt_two _)
    · rw [hput] at hx
      cases hx
  | seed =>
    rw [s.writes_seed, List.mem_singleton] at hx
    rw [hx]
    exact Or.inr (Or.inr rfl)

end Rooted

theorem mem_writes_of_scratch {s : BootState} {op : BootOp} {x : ℕ} (h : op.scratch = some x) :
    x ∈ s.writes op := by
  cases op with
  | smokeTest =>
    cases h
    rw [s.writes_smokeTest]
    exact List.mem_singleton.mpr rfl
  | seed =>
    cases h
    rw [s.writes_seed]
    exact List.mem_singleton.mpr rfl
  | _ => cases h

/-! ### Runs -/

theorem Blank.rooted {d₀ : Device Sector} (hblank : Blank d₀) (N : ℕ) :
    Rooted N [] ⟨d₀, .boot⟩ := by
  have hview : d₀.view = d₀.durable := Device.view_of_cache_nil hblank.flushed
  have hu : Unformatted d₀ := by
    rw [Unformatted, slotRead, slotRead, hview]
    exact ⟨hblank.slotA, hblank.slotB⟩
  exact ⟨.nil, by simp, Or.inr ⟨rfl, hu, rfl⟩, fun h => by cases h⟩

/-- A run from a state of the list leads to a state of a longer one. -/
theorem Rooted.run {N : ℕ} {recs : List (List Byte)} {d₀ : Device Sector} {f g : List BootOp}
    (h : Rooted N recs (bootAfter d₀ g)) (hN : N ≤ 2 ^ 55)
    (hrun : Runs.Every BootState.step ⟨d₀, .boot⟩ (OnDisk N) (f ++ g)) :
    ∃ recs', recs <+: recs' ∧ Rooted N recs' (bootAfter d₀ (f ++ g)) := by
  induction f with
  | nil => exact ⟨recs, List.prefix_rfl, h⟩
  | cons op f ih =>
    obtain ⟨hop, hrest⟩ := Runs.every_cons.mp hrun
    obtain ⟨recs₁, hpre₁, h₁⟩ := ih hrest
    obtain ⟨recs₂, hpre₂, h₂⟩ := h₁.step hN hop
    exact ⟨recs₂, hpre₁.trans hpre₂, h₂⟩

/-- **What is committed is written again exactly where the log reaches a scratch sector.** On a
disk that was not formatted, of at most `2 ^ 55` sectors, consider any run of boots without device
errors. No sector of an extent that `put` has answered is written by a later step, if and only if
no commit that goes through puts data in the scratch sector of a later smoke test or seed write. -/
theorem extents_kept_iff {N : ℕ} (hN : N ≤ 2 ^ 55) {d₀ : Device Sector} (hblank : Blank d₀)
    {h : List BootOp} (hrun : Runs.Every BootState.step ⟨d₀, .boot⟩ (OnDisk N) h) :
    (∀ g b f op, op :: f ++ .put b :: g <:+ h → ∀ e, (bootAfter d₀ g).extent b = some e →
        ∀ x, e.Covers x → x ∉ (bootAfter d₀ (f ++ .put b :: g)).writes op) ↔
      ∀ g b f op, op :: f ++ .put b :: g <:+ h →
        ∀ x, op.scratch = some x → ¬(bootAfter d₀ g).store.Reaches b x := by
  have hat : ∀ g b, .put b :: g <:+ h →
      ∃ recs, Rooted N recs (bootAfter d₀ g) ∧ OnDisk N (bootAfter d₀ g) (.put b) := by
    intro g b hput
    obtain ⟨hop, hbefore⟩ := Runs.every_cons.mp (Runs.every_of_suffix hput hrun)
    obtain ⟨recs, -, hr⟩ := (hblank.rooted N).run (f := g) (g := []) hN
      (by rw [List.append_nil]; exact hbefore)
    rw [List.append_nil] at hr
    exact ⟨recs, hr, hop⟩
  refine ⟨fun hkept g b f op hsuf x hx hreach => ?_, fun hclear g b f op hsuf e he x hx hw => ?_⟩
  · obtain ⟨recs, hr, hop⟩ := hat g b ((List.suffix_append _ _).trans hsuf)
    obtain ⟨e, he, hcov⟩ := (hr.exists_extent_iff hN hop).mpr hreach
    exact hkept g b f op hsuf e he x hcov (mem_writes_of_scratch hx)
  · obtain ⟨recs, hr, hop⟩ := hat g b ((List.suffix_append _ _).trans hsuf)
    have hreach := (hr.exists_extent_iff hN hop).mp ⟨e, he, hx⟩
    have ⟨hok, hlen, hlo, hhi⟩ := hreach
    -- The log head has passed the extent, so only a scratch write is left.
    obtain ⟨hlast, hrest⟩ := Runs.every_cons.mp (Runs.every_of_suffix hsuf hrun)
    obtain ⟨recs', hpre, hr'⟩ := (hr.put hN hok hlen hop).2.run hN hrest
    have hhead : (bootAfter d₀ g).store.mounted.logHeadLba.toNat = logHead recs := by
      rw [hr.store hok]
      exact hr.fits.toNat_logHead
    have htwo := two_le_logHead recs
    have hpassed := logHead_le_of_prefix hpre
    rw [logHead_append] at hpassed
    rcases hr'.mem_writes hN hlast hw with hslot | hbehind | hscratch
    · omega
    · omega
    · exact hclear g b f op hsuf x hscratch hreach

/-! ### A first boot -/

/-- A boot of a disk of zeros that commits one object. -/
def firstBoot (b : List Byte) : List BootOp := [.seed, .put b, .recover, .mount, .smokeTest]

theorem rooted_before_put :
    Rooted 32768 [] (bootAfter zeroDisk [.recover, .mount, .smokeTest]) ∧
      (bootAfter zeroDisk [.recover, .mount, .smokeTest]).store = storeOf [] ∧
      Runs.Every BootState.step ⟨zeroDisk, .boot⟩ (OnDisk 32768)
        [.recover, .mount, .smokeTest] := by
  have hsmoke : OnDisk 32768 (bootAfter zeroDisk []) .smokeTest := fun x hx => by
    rw [List.mem_singleton.mp hx]
    decide
  have hrooted : Rooted 32768 [] (bootAfter zeroDisk [.smokeTest]) :=
    (blank_zeroDisk.rooted 32768).of_writes
      (fun x hx => by rw [List.mem_singleton.mp hx]; decide) (Or.inr rfl)
  obtain ⟨hmounted, hst⟩ := hrooted.mount
  have hmount : OnDisk 32768 (bootAfter zeroDisk [.smokeTest]) .mount := fun x hx => by
    rw [BootState.writes, BootOp.prog, writes_mount] at hx
    split at hx
    · rw [List.mem_singleton.mp hx]
      decide
    · cases hx
  have hreads : ∀ x, x ∉ (bootAfter zeroDisk [.mount, .smokeTest]).writes .recover := by
    intro x hx
    rw [BootState.writes_recover] at hx
    cases hx
  have hsame := (bootAfter zeroDisk [.mount, .smokeTest]).store_recover
  refine ⟨hmounted.of_writes (fun x hx => absurd hx (hreads x)) (Or.inl hsame), hsame.trans hst, ?_⟩
  exact ⟨fun x hx => absurd hx (hreads x), hmount, hsmoke, trivial⟩

/-- An object that fits the disk is committed without an error. -/
theorem every_onDisk_firstBoot {b : List Byte} (hb : ndata b.length + 2 < 32768) :
    Runs.Every BootState.step ⟨zeroDisk, .boot⟩ (OnDisk 32768) (firstBoot b) := by
  obtain ⟨-, hst, hrun⟩ := rooted_before_put
  have hlen : b.length < 2 ^ 32 := by
    rw [ndata] at hb
    omega
  refine ⟨fun x hx => ?_, fun x hx => ?_, hrun⟩
  · rw [List.mem_singleton.mp hx]
    decide
  · rw [BootState.writes_put] at hx
    change x ∈ Block.writes (put (bootAfter zeroDisk _).store b) _ at hx
    rw [hst, writes_put rfl hlen] at hx
    have hlba : ∀ i ≤ ndata b.length,
        ((storeOf []).mounted.logHeadLba + BitVec.ofNat 64 i).toNat < 32768 := by
      intro i hi
      have htwo : (storeOf []).mounted.logHeadLba.toNat = 2 := rfl
      rw [toNat_lba_add (by omega), htwo]
      omega
    simp only [List.mem_append, List.mem_map, List.mem_range'_1, List.mem_cons,
      List.not_mem_nil, or_false] at hx
    rcases hx with ⟨i, hi, rfl⟩ | rfl | rfl
    · exact hlba i (by omega)
    · exact hlba _ le_rfl
    · exact (otherSlot_lt_two _).trans (by decide)

/-- The first boot with a one-byte object keeps clear of the scratch sectors. -/
theorem extents_kept_iff_one_byte :
    Runs.Every BootState.step ⟨zeroDisk, .boot⟩ (OnDisk 32768) (firstBoot [1]) ∧
      ((∀ g b f op, op :: f ++ .put b :: g <:+ firstBoot [1] →
          ∀ e, (bootAfter zeroDisk g).extent b = some e →
            ∀ x, e.Covers x → x ∉ (bootAfter zeroDisk (f ++ .put b :: g)).writes op) ↔
        ∀ g b f op, op :: f ++ .put b :: g <:+ firstBoot [1] →
          ∀ x, op.scratch = some x → ¬(bootAfter zeroDisk g).store.Reaches b x) :=
  have hrun := every_onDisk_firstBoot (b := [1]) (by decide)
  ⟨hrun, extents_kept_iff (by decide) blank_zeroDisk hrun⟩

/-- **An extent is overwritten.** On a disk of 32768 sectors one object of 32699 sectors, all
zeros, is committed at the first boot. Its last sector is the scratch sector, which the seed write
of the same boot then overwrites. -/
theorem extent_overwritten_by_seed :
    Runs.Every BootState.step ⟨zeroDisk, .boot⟩ (OnDisk 32768)
        (firstBoot (List.replicate (512 * 32699) 0)) ∧
      ∃ e, (bootAfter zeroDisk [.recover, .mount, .smokeTest]).extent
            (List.replicate (512 * 32699) 0) = some e ∧
        e.Covers 32700 ∧
        32700 ∈ (bootAfter zeroDisk
          [.put (List.replicate (512 * 32699) 0), .recover, .mount, .smokeTest]).writes .seed := by
  have hn : ndata (List.replicate (512 * 32699) (0 : Byte)).length = 32699 := by
    rw [List.length_replicate]
    rfl
  obtain ⟨hr, hst, -⟩ := rooted_before_put
  have hrun := every_onDisk_firstBoot (b := List.replicate (512 * 32699) 0) (by rw [hn]; decide)
  have hop := (Runs.every_cons.mp (Runs.every_cons.mp hrun).2).1
  have hreach : (bootAfter zeroDisk [.recover, .mount, .smokeTest]).store.Reaches
      (List.replicate (512 * 32699) 0) 32700 := by
    rw [hst, Store.Reaches, hn, List.length_replicate]
    decide
  obtain ⟨e, he, hcov⟩ := (hr.exists_extent_iff (by decide) hop).mpr hreach
  exact ⟨hrun, e, he, hcov, mem_writes_of_scratch rfl⟩

end Cairn
