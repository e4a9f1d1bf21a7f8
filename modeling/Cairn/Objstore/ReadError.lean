import Cairn.Objstore.Crash

/-!
# A read error at mount

`mount` tells a slot it could not read from one it read and found invalid, and formats only when
both slots were read. That keeps it from destroying the disk, but not from adopting the wrong
superblock: when the slot of the newest superblock cannot be read and the other one can, `mount`
adopts the superblock before, whose log head is the first sector of the newest extent. The next
`put` overwrites that extent.

This is the only way a read error costs committed data, and it costs data exactly when the newest
extent is not empty (`intact_iff_not_masked`).

## Main definitions

* `Machine.mountWith`, `Machine.putAll` — a mount with read errors, and the commits after it
* `Intact` — every acknowledged extent still has its hash
* `NewestMasked` — the newest superblock could not be read and the one before could

## Main results

* `Keeps.putAll` — commits leave everything below the log head alone
* `intact_iff_not_masked`
* `newest_extent_lost` — the shortest run that loses an extent
-/

namespace Cairn

open Block

/-! ### The scenario -/

/-- The run consists of boots and commits without device errors or power failures. -/
def StoreOp.Regular : StoreOp → Prop
  | .boot => True
  | .put _ => True
  | _ => False

/-- How a read goes that may fail. -/
def readOutcome (fails : Bool) : Outcome := if fails then .failed false else .ok

/-- The outcomes of a mount each of whose two reads may fail. -/
def readOutcomes (failA failB : Bool) : List Outcome := [readOutcome failA, readOutcome failB]

/-- A boot whose two slot reads may fail. -/
def Machine.mountWith (m : Machine) (failA failB : Bool) : Machine :=
  let r := run (readOutcomes failA failB) (mount .boot) m.disk
  ⟨r.2.1, some r.1⟩

/-- Commits one after the other, without device errors. -/
def Machine.putAll (m : Machine) : List (List Byte) → Machine
  | [] => m
  | b :: bs => (m.put [] b).2.putAll bs

/-- Each of the commits has room. -/
def RoomAll (m : Machine) : List (List Byte) → Prop
  | [] => True
  | b :: bs => (∀ st, m.store = some st → Room st b) ∧ RoomAll (m.put [] b).2 bs

/-- Every extent of the list still has its content hash on the disk. -/
def Intact (extents : List (Extent × List Byte)) (m : Machine) : Prop :=
  ∀ p ∈ extents, (run [] (extentContentHash p.1.lba p.1.len) m.disk).1 = some p.1.hash

/-- The slot of the mounted superblock could not be read at the next mount, and the other could. -/
def NewestMasked (m : Machine) (failA failB : Bool) : Prop :=
  ∃ st, m.store = some st ∧
    (st.mountedSlot = lbaSbA ∧ failA = true ∧ failB = false ∨
      st.mountedSlot = lbaSbB ∧ failB = true ∧ failA = false)

/-! ### Commits leave everything below the log head alone -/

/-- The store is mounted with a log head no lower than `L`, and the sectors from `2` to `L` read
as in `view`. -/
structure Keeps (L : ℕ) (view : ℕ → Sector) (m : Machine) : Prop where
  /-- The sectors below the log head. -/
  same : ∀ x, 2 ≤ x → x < L → m.disk.view x = view x
  /-- A mounted store is above them. -/
  above : ∀ st, m.store = some st → st.mountedOk = true → L ≤ st.mounted.logHeadLba.toNat

theorem Superblock.toNat_logHeadLba_commit {sb : Superblock} {bytes : List Byte}
    (h : sb.logHeadLba.toNat + ndata bytes.length + 1 < 2 ^ 64) :
    (sb.commit bytes).logHeadLba.toNat = sb.logHeadLba.toNat + ndata bytes.length + 1 := by
  have hone : (1 : BitVec 64).toNat = 1 := rfl
  rw [Superblock.commit, BitVec.toNat_add, BitVec.toNat_add, BitVec.toNat_ofNat, hone]
  omega

theorem put_of_unmounted {st : Store} (h : st.mountedOk = false) (bytes : List Byte) :
    put st bytes = .ret (none, st) := by
  rw [put]
  rw [if_pos h]
  rfl

/-- A `put` starts, or is refused before any operation. -/
theorem put_starts_or_refused (st : Store) (bytes : List Byte) :
    st.mountedOk = true ∧ bytes.length < 2 ^ 32 ∨ put st bytes = .ret (none, st) := by
  cases hok : st.mountedOk with
  | false => exact Or.inr (put_of_unmounted hok bytes)
  | true =>
    rcases Nat.lt_or_ge bytes.length (2 ^ 32) with hlen | hlen
    · exact Or.inl ⟨rfl, hlen⟩
    · exact Or.inr (put_of_long st hlen)

/-- A `put` that is refused before any operation leaves the machine alone. -/
theorem Machine.put_refused {m : Machine} {st : Store} (hst : m.store = some st)
    {bytes : List Byte} (h : Cairn.put st bytes = .ret (none, st)) : (m.put [] bytes).2 = m := by
  rw [Machine.put_on hst, h]
  change Machine.mk m.disk (some st) = m
  rw [← hst]

theorem Keeps.put {L : ℕ} {view : ℕ → Sector} {m : Machine} (h : Keeps L view m)
    {bytes : List Byte} (hroom : ∀ st, m.store = some st → Room st bytes) :
    Keeps L view (m.put [] bytes).2 := by
  cases hst : m.store with
  | none =>
    rw [Machine.put_off hst]
    exact h
  | some st =>
    rcases put_starts_or_refused st bytes with ⟨hok, hlen⟩ | hput
    · have hhead := (hroom st hst).2
      have hL := h.above st hst hok
      obtain ⟨-, hres, hview⟩ := put_footprint st m.disk hok hlen hhead
      rw [Machine.put_on hst, hres]
      refine ⟨fun x hx hxL => ?_, ?_⟩
      · have hslot := otherSlot_lt_two st.mountedSlot
        rw [hview, if_neg (by omega), writtenView, if_neg (by omega), if_neg (by omega)]
        exact h.same x hx hxL
      · rintro st' hst' -
        cases hst'
        simp only [Superblock.toNat_logHeadLba_commit hhead]
        omega
    · rw [Machine.put_refused hst hput]
      exact h

theorem Keeps.putAll {L : ℕ} {view : ℕ → Sector} {m : Machine} (h : Keeps L view m)
    {bs : List (List Byte)} (hroom : RoomAll m bs) : Keeps L view (m.putAll bs) := by
  induction bs generalizing m with
  | nil => exact h
  | cons b bs ih => exact ih (h.put hroom.1) hroom.2

/-- The hash of an extent below the log head. -/
theorem Keeps.hash {L : ℕ} {view : ℕ → Sector} {m : Machine} (h : Keeps L view m) {e : Extent}
    {bytes : List Byte} (hshow : Shows view e bytes)
    (hlow : e.lba.toNat + ndata e.len.toNat ≤ 2 ^ 64)
    (hext : bytes = [] ∨ 2 ≤ e.lba.toNat ∧ e.lba.toNat + ndata e.len.toNat ≤ L) :
    (run [] (extentContentHash e.lba e.len) m.disk).1 = some e.hash := by
  have hbytes : bytesAt m.disk.view e.lba.toNat e.len.toNat
      = bytesAt view e.lba.toNat e.len.toNat := by
    rcases hext with rfl | ⟨h2, hL⟩
    · rw [hshow.len]
      rfl
    · refine List.map_congr_left fun j hj => ?_
      have hj := List.mem_range.mp hj
      have hdiv : j / 512 < ndata e.len.toNat := by
        rw [ndata]
        omega
      rw [h.same _ (by omega) (by omega)]
  rw [run_extentContentHash hlow, hbytes, hshow.bytes, hshow.hash]

/-! ### Disks made by boots and commits -/

/-- What a run of boots and commits leaves. -/
theorem regular_spec {d₀ : Device Sector} (hblank : Blank d₀) {h : List StoreOp}
    (hrun : Runs.Every Machine.step ⟨d₀, none⟩ Allowed h) (hreg : ∀ op ∈ h, op.Regular) :
    (Blank (machineAfter d₀ h).disk ∧ (machineAfter d₀ h).store = none ∧ acked d₀ h = []) ∨
      ∃ recs, Clean recs (machineAfter d₀ h).disk ∧
        (machineAfter d₀ h).store = some (storeOf recs) ∧
        (acked d₀ h).head? = lastExtent recs ∧
        ∀ p ∈ acked d₀ h, ∃ pre post, recs = pre ++ p.2 :: post ∧ p.1 = extentOf pre p.2 := by
  induction h with
  | nil => exact Or.inl ⟨hblank, rfl, rfl⟩
  | cons op h ih =>
    have hop := hreg op List.mem_cons_self
    have ih := ih hrun.2 fun o ho => hreg o (List.mem_cons_of_mem _ ho)
    cases op with
    | boot =>
      rw [machineAfter_cons, Machine.step, show acked d₀ (.boot :: h) = acked d₀ h from rfl]
      rcases ih with ⟨hb, -, hnil⟩ | ⟨recs, hclean, -, hhead, hmem⟩
      · obtain ⟨-, hclean, hst⟩ := mount_of_blank hb .boot
        rw [Machine.boot]
        exact Or.inr ⟨[], hclean, congrArg some hst, by rw [hnil]; rfl, by simp [hnil]⟩
      · obtain ⟨hdisk, hst⟩ := Machine.boot_of_holds hclean.toHolds
        exact Or.inr ⟨recs, by rw [hdisk]; exact hclean, hst, hhead, hmem⟩
    | put bytes =>
      rw [machineAfter_cons, Machine.step]
      rcases ih with ⟨hb, hoff, hnil⟩ | ⟨recs, hclean, hst, hhead, hmem⟩
      · have hput := Machine.put_off hoff [] bytes
        simp only [acked, hput]
        exact Or.inl ⟨hb, hoff, hnil⟩
      · refine Or.inr ?_
        rcases Nat.lt_or_ge bytes.length (2 ^ 32) with hlen | hlen
        · have hfits := (hrun.1 _ hst).fits hclean.fits hlen
          obtain ⟨hans, hclean'⟩ := put_of_holds hclean.toHolds hfits
          have hput := Machine.put_on hst [] bytes
          rw [hans] at hput
          refine ⟨recs ++ [bytes], by rw [hput]; exact hclean', by rw [hput], ?_, ?_⟩
          · simp only [acked, hput, List.head?_cons, lastExtent_append]
          · simp only [acked, hput, List.mem_cons, forall_eq_or_imp]
            exact ⟨⟨recs, [], rfl, rfl⟩, fun q hq => exists_split_append (hmem q hq) bytes⟩
        · have hlong := put_of_long (storeOf recs) hlen
          have hnone : ((machineAfter d₀ h).put [] bytes).1 = none := by
            rw [Machine.put_on hst, hlong]
            rfl
          refine ⟨recs, by rw [Machine.put_refused hst hlong]; exact hclean,
            by rw [Machine.put_refused hst hlong]; exact hst, ?_⟩
          simp only [acked, hnone]
          exact ⟨hhead, hmem⟩
    | failedPut bytes k effect => exact hop.elim
    | crash medium => exact hop.elim
    | crashInMount medium => exact hop.elim
    | crashInPut bytes medium => exact hop.elim

/-! ### The mount -/

/-- Whether the read of the live slot fails. -/
def liveFails (recs : List (List Byte)) (failA failB : Bool) : Bool :=
  if slotOf recs = lbaSbA then failA else failB

/-- Whether the read of the other slot fails. -/
def otherFails (recs : List (List Byte)) (failA failB : Bool) : Bool :=
  if slotOf recs = lbaSbA then failB else failA

/-- The choice of `mount`, by live and other slot. -/
def pickBy (recs : List (List Byte)) (live other : SlotRead) : Option (Superblock × BitVec 64) :=
  if slotOf recs = lbaSbA then pickSuperblock live other else pickSuperblock other live

theorem pickBy_eq (recs : List (List Byte)) (d : Device Sector) (failA failB : Bool) :
    pickSuperblock (slotRead (readOutcome failA) d lbaSbA) (slotRead (readOutcome failB) d lbaSbB)
      = pickBy recs (slotRead (readOutcome (liveFails recs failA failB)) d (slotOf recs))
          (slotRead (readOutcome (otherFails recs failA failB)) d (otherSlot (slotOf recs))) := by
  rw [pickBy, liveFails, otherFails]
  rcases slotOf_cases recs with ⟨hs, ho⟩ | ⟨hs, ho⟩
  · rw [ho, hs]
    rfl
  · rw [ho, hs]
    rfl

/-- When the live slot cannot be read, the other one decides. -/
theorem pickBy_io (recs : List (List Byte)) (other : SlotRead) :
    pickBy recs .io other = match other with
      | .valid x => some (x, otherSlot (slotOf recs))
      | _ => none := by
  rw [pickBy]
  rcases slotOf_cases recs with ⟨hs, ho⟩ | ⟨hs, ho⟩
  · rw [ho, hs]
    cases other <;> rfl
  · rw [ho, hs]
    cases other <;> rfl

theorem pickBy_valid_io (recs : List (List Byte)) (x : Superblock) :
    pickBy recs (.valid x) .io = some (x, slotOf recs) := by
  rw [pickBy]
  rcases slotOf_cases recs with ⟨hs, -⟩ | ⟨hs, -⟩ <;> rw [hs] <;> rfl

/-- On a clean disk one of the slots is not invalid. -/
theorem Clean.not_both_invalid {recs : List (List Byte)} {d : Device Sector} (h : Clean recs d)
    (failA failB : Bool) : ¬ (slotRead (readOutcome failA) d lbaSbA = .invalid ∧
      slotRead (readOutcome failB) d lbaSbB = .invalid) := by
  rintro ⟨ha, hb⟩
  have hslot : slotRead (readOutcome (liveFails recs failA failB)) d (slotOf recs) = .invalid := by
    rw [liveFails]
    rcases slotOf_cases recs with ⟨hs, -⟩ | ⟨hs, -⟩ <;> rw [hs] <;> assumption
  cases hl : liveFails recs failA failB with
  | false =>
    rw [hl, show readOutcome false = .ok from rfl, h.slotRead_live] at hslot
    cases hslot
  | true =>
    rw [hl] at hslot
    cases hslot

/-- **A mount of a clean disk with read errors** only reads. It adopts the list if the live slot can
be read, the list before if only the other slot can, and nothing otherwise. -/
theorem Clean.mountWith {recs : List (List Byte)} {m : Machine} (h : Clean recs m.disk)
    (failA failB : Bool) :
    (∀ d, Visits (readOutcomes failA failB) (mount .boot) m.disk d → d = m.disk) ∧
      (m.mountWith failA failB).disk = m.disk ∧
      (liveFails recs failA failB = false ∧
          (m.mountWith failA failB).store = some (storeOf recs) ∨
        liveFails recs failA failB = true ∧ otherFails recs failA failB = false ∧
          (∃ init b, recs = init ++ [b] ∧
            (m.mountWith failA failB).store = some (storeOf init)) ∨
        liveFails recs failA failB = true ∧ (otherFails recs failA failB = true ∨ recs = []) ∧
          (m.mountWith failA failB).store = some .boot) := by
  have hlive := h.slotRead_live
  have hother := h.slotRead_other
  have hpick := pickBy_eq recs m.disk failA failB
  obtain ⟨hvisits, hdisk, hstore⟩ :=
    mount_spec_read (o := readOutcomes failA failB) .boot (h.not_both_invalid failA failB)
  refine ⟨hvisits, hdisk, ?_⟩
  rw [show goes (readOutcomes failA failB) 0 = readOutcome failA from rfl,
    show goes (readOutcomes failA failB) 1 = readOutcome failB from rfl, hpick] at hstore
  have hstore' : (m.mountWith failA failB).store = _ := congrArg some hstore
  rw [hstore']
  cases hl : liveFails recs failA failB with
  | false =>
    refine Or.inl ⟨rfl, ?_⟩
    rw [show readOutcome false = .ok from rfl, hlive]
    cases ho : otherFails recs failA failB with
    | true =>
      rw [show slotRead (readOutcome true) m.disk (otherSlot (slotOf recs)) = .io from rfl,
        pickBy_valid_io]
      rfl
    | false =>
      have hp := pickBy_eq recs m.disk false false
      simp only [liveFails, otherFails, ite_self] at hp
      rw [show readOutcome false = .ok from rfl] at hp ⊢
      rw [← hlive, ← hp, h.toHolds.pick]
      rfl
  | true =>
    refine Or.inr ?_
    rw [show slotRead (readOutcome true) m.disk (slotOf recs) = .io from rfl, pickBy_io]
    cases ho : otherFails recs failA failB with
    | true => exact Or.inr ⟨rfl, Or.inl rfl, rfl⟩
    | false =>
      rw [show readOutcome false = .ok from rfl, hother]
      rcases List.eq_nil_or_concat recs with hnil | ⟨init, b, hrecs⟩
      · refine Or.inr ⟨rfl, Or.inr hnil, ?_⟩
        rcases h.other with hinv | ⟨init, b, hrecs, -⟩
        · rw [hinv]
        · rw [hnil] at hrecs
          simp at hrecs
      · rw [List.concat_eq_append] at hrecs
        refine Or.inl ⟨rfl, rfl, init, b, hrecs, ?_⟩
        rw [h.previous init b hrecs, hrecs, slotOf_append, otherSlot_otherSlot]
        rfl

/-- The newest superblock is masked when its slot fails and the other does not. -/
theorem newestMasked_iff {recs : List (List Byte)} {m : Machine} {failA failB : Bool}
    (hst : m.store = some (storeOf recs)) :
    NewestMasked m failA failB ↔
      liveFails recs failA failB = true ∧ otherFails recs failA failB = false := by
  rw [NewestMasked, liveFails, otherFails]
  rw [hst]
  rcases slotOf_cases recs with ⟨hs, -⟩ | ⟨hs, -⟩ <;> simp [storeOf, hs, lbaSbA, lbaSbB]

/-! ### The exact condition -/

/-- The byte string with its first byte changed. -/
def flipFirst : List Byte → List Byte
  | [] => []
  | x :: xs => ~~~x :: xs

@[simp] theorem length_flipFirst (b : List Byte) : (flipFirst b).length = b.length := by
  cases b <;> rfl

theorem fnv1a_flipFirst_ne {b : List Byte} (hb : b ≠ []) : fnv1a (flipFirst b) ≠ fnv1a b := by
  cases b with
  | nil => exact absurd rfl hb
  | cons x xs =>
    have hx : ∀ x : Byte, ~~~x ≠ x := by decide
    exact fnv1a_cons_ne (hx x) xs

theorem room_of_fits {init : List (List Byte)} {b b' : List Byte} (h : Fits (init ++ [b]))
    (hlen : b'.length = b.length) : Room (storeOf init) b' := by
  have hinit := h.of_append
  have hseq := h.seq
  have hhead := h.head
  rw [logHead_append] at hhead
  simp only [List.length_append, List.length_singleton] at hseq
  refine ⟨?_, ?_⟩
  · rw [storeOf, hinit.toNat_seq]
    exact hseq
  · rw [storeOf, hinit.toNat_logHead, hlen]
    exact hhead

/-- The bytes a commit leaves at the log head. -/
theorem bytesAt_put {init : List (List Byte)} (hfits : Fits init) {b : List Byte}
    {d : Device Sector} {view : ℕ → Sector}
    (hview : ∀ x, 2 ≤ x → x < logHead init + ndata b.length →
      view x = writtenView (storeOf init) b d x) :
    bytesAt view (logHead init) b.length = b := by
  refine bytesAt_eq fun i hi => ?_
  have h2 := two_le_logHead init
  have hL : (storeOf init).mounted.logHeadLba.toNat = logHead init := hfits.toNat_logHead
  rw [hview _ (by omega) (by omega), writtenView, hL, if_neg (by omega), if_pos (by omega),
    Nat.add_sub_cancel_left]

/-- **The newest extent is lost** when the list before is adopted and another byte string is put. -/
theorem lost_of_adopted {init : List (List Byte)} {b : List Byte} {m : Machine}
    (h : Holds (init ++ [b]) m.disk) (hst : m.store = some (storeOf init)) (hb : b ≠ []) :
    RoomAll m [flipFirst b] ∧
      (run [] (extentContentHash (extentOf init b).lba (extentOf init b).len)
        (m.putAll [flipFirst b]).disk).1 ≠ some (extentOf init b).hash := by
  have hroom := room_of_fits h.fits (length_flipFirst b)
  have hlen : (flipFirst b).length < 2 ^ 32 := by
    rw [length_flipFirst]
    exact h.fits.len b (by simp)
  refine ⟨⟨fun st hs => ?_, trivial⟩, ?_⟩
  · rw [hst] at hs
    cases hs
    exact hroom
  obtain ⟨-, -, hview⟩ := put_footprint (storeOf init) m.disk rfl hlen hroom.2
  have hdisk : (m.putAll [flipFirst b]).disk
      = (run [] (put (storeOf init) (flipFirst b)) m.disk).2.1 := by
    rw [Machine.putAll, Machine.putAll, Machine.put_on hst]
  have hbytes : bytesAt (m.putAll [flipFirst b]).disk.view (logHead init) (flipFirst b).length
      = flipFirst b := by
    refine bytesAt_put (d := m.disk) h.fits.of_append fun x hx _ => ?_
    have := otherSlot_lt_two (storeOf init).mountedSlot
    rw [hdisk, hview, if_neg (by omega)]
  have hshow : Shows m.disk.durable (extentOf init b) b := h.shows rfl
  have hle : (extentOf init b).lba.toNat + ndata (extentOf init b).len.toNat ≤ 2 ^ 64 :=
    h.extent_le rfl
  rw [run_extentContentHash hle, hshow.len, hshow.hash]
  simp only [extentOf, h.fits.of_append.toNat_logHead]
  rw [← length_flipFirst, hbytes]
  exact fun heq => fnv1a_flipFirst_ne hb (Option.some.inj heq)

/-- The records of a list stand below its log head. -/
theorem below_logHead {recs pre post : List (List Byte)} {b : List Byte}
    (hrecs : recs = pre ++ b :: post) : b = [] ∨ logHead pre + ndata b.length ≤ logHead recs := by
  have hsplit := logHead_split pre post b
  rw [← hrecs] at hsplit
  exact Or.inr (by omega)

/-- An empty record may be left out, and the others still stand below the log head. -/
theorem below_logHead_init {init pre post : List (List Byte)} {c : List Byte}
    (hrecs : init ++ [[]] = pre ++ c :: post) :
    c = [] ∨ logHead pre + ndata c.length ≤ logHead init := by
  rcases List.eq_nil_or_concat post with rfl | ⟨post, e, rfl⟩
  · exact Or.inl (List.singleton_inj.mp (List.append_inj' hrecs rfl).2).symm
  · rw [List.concat_eq_append, ← List.cons_append, ← List.append_assoc] at hrecs
    exact below_logHead (List.append_inj' hrecs rfl).1

/-- What survives: the extents of a list below an adopted log head, and empty ones. -/
theorem intact_of_keeps {recs : List (List Byte)} {m m' : Machine} {L : ℕ}
    (h : Holds recs m.disk) (hkeeps : Keeps L m.disk.view m') {extents : List (Extent × List Byte)}
    (hmem : ∀ p ∈ extents, ∃ pre post, recs = pre ++ p.2 :: post ∧ p.1 = extentOf pre p.2)
    (hlow : ∀ pre b post, recs = pre ++ b :: post → b = [] ∨ logHead pre + ndata b.length ≤ L) :
    Intact extents m' := by
  intro p hp
  obtain ⟨pre, post, hrecs, he⟩ := hmem p hp
  rw [he]
  have hfits := h.fits
  rw [hrecs] at hfits
  refine hkeeps.hash (h.shows_view hrecs) (h.extent_le hrecs) ?_
  rw [(h.shows hrecs).len]
  refine (hlow _ _ _ hrecs).imp id fun hle => ?_
  simp only [extentOf, hfits.of_append.toNat_logHead]
  exact ⟨two_le_logHead pre, hle⟩

/-- The machine after an adopting mount keeps everything below the adopted log head. -/
theorem keeps_of_store {recs : List (List Byte)} (hfits : Fits recs) {m : Machine}
    (hst : m.store = some (storeOf recs)) : Keeps (logHead recs) m.disk.view m := by
  refine ⟨fun _ _ _ => rfl, fun st hs _ => ?_⟩
  rw [hst] at hs
  cases hs
  exact hfits.toNat_logHead.ge

/-- A mount of a blank disk writes only if both reads succeed. -/
theorem mount_blank_reads {d : Device Sector} (h : Blank d) (failA failB : Bool) :
    (∀ d', Visits (readOutcomes failA failB) (mount .boot) d d' → d' = d) ∨
      failA = false ∧ failB = false ∧ Blank d := by
  by_cases hfail : failA = true ∨ failB = true
  · refine Or.inl (mount_spec_read .boot ?_).1
    rintro ⟨ha, hb⟩
    rcases hfail with rfl | rfl
    · cases ha
    · cases hb
  · rw [not_or, Bool.not_eq_true, Bool.not_eq_true] at hfail
    exact Or.inr ⟨hfail.1, hfail.2, h⟩

/-- **Read errors at mount.** Take any disk made by boots and commits without errors, and a mount
either of whose two slot reads may fail. The mount writes nothing, unless both slots were read and
neither was valid. And every acknowledged extent keeps its hash through all later commits if and
only if it is not the case that the newest superblock could not be read, the one before could, and
the newest extent is not empty. -/
theorem intact_iff_not_masked {d₀ : Device Sector} (hblank : Blank d₀) {h : List StoreOp}
    (hrun : Runs.Every Machine.step ⟨d₀, none⟩ Allowed h) (hreg : ∀ op ∈ h, op.Regular)
    (failA failB : Bool) :
    ((∀ d, Visits (readOutcomes failA failB) (mount .boot) (machineAfter d₀ h).disk d →
        d = (machineAfter d₀ h).disk) ∨
      failA = false ∧ failB = false ∧ Blank (machineAfter d₀ h).disk) ∧
    ((∀ bs, RoomAll ((machineAfter d₀ h).mountWith failA failB) bs →
        Intact (acked d₀ h) (((machineAfter d₀ h).mountWith failA failB).putAll bs)) ↔
      ¬ (NewestMasked (machineAfter d₀ h) failA failB ∧
        ∃ p, (acked d₀ h).head? = some p ∧ p.2 ≠ [])) := by
  rcases regular_spec hblank hrun hreg with ⟨hb, hoff, hnil⟩ | ⟨recs, hclean, hst, hhead, hmem⟩
  · -- nothing was ever mounted, so nothing was acknowledged
    refine ⟨mount_blank_reads hb failA failB, iff_of_true (fun bs _ p hp => ?_) ?_⟩
    · rw [hnil] at hp
      cases hp
    · rintro ⟨⟨st, hs, -⟩, -⟩
      rw [hoff] at hs
      cases hs
  · obtain ⟨hvisits, hdisk, hmount⟩ := hclean.mountWith failA failB
    refine ⟨Or.inl hvisits, ?_⟩
    rw [newestMasked_iff hst, hhead]
    have hholds := hclean.toHolds
    rcases hmount with ⟨hlive, hstore⟩ | ⟨hlive, hother, init, b, rfl, hstore⟩ |
      ⟨hlive, hno, hstore⟩
    · -- the newest superblock was read
      have hkeeps := keeps_of_store hholds.fits hstore
      rw [hdisk] at hkeeps
      refine iff_of_true (fun bs hroom => ?_) (by simp [hlive])
      exact intact_of_keeps hholds (hkeeps.putAll hroom) hmem fun _ _ _ => below_logHead
    · -- the one before it was adopted
      rw [hlive, hother, lastExtent_append]
      by_cases hbe : b = []
      · subst hbe
        have hkeeps := keeps_of_store hholds.fits.of_append hstore
        rw [hdisk] at hkeeps
        refine iff_of_true (fun bs hroom => ?_) (by simp)
        exact intact_of_keeps hholds (hkeeps.putAll hroom) hmem fun _ _ _ => below_logHead_init
      · refine iff_of_false (fun hall => ?_) (by simp [hbe])
        have hmasked : Holds (init ++ [b]) ((machineAfter d₀ h).mountWith failA failB).disk := by
          rw [hdisk]
          exact hholds
        obtain ⟨hroom, hlost⟩ := lost_of_adopted hmasked hstore hbe
        rw [lastExtent_append] at hhead
        exact hlost (hall _ hroom _ (List.mem_of_head? hhead))
    · -- nothing was adopted, and an unmounted store refuses every commit
      refine iff_of_true (fun bs hroom => ?_) ?_
      · have hkeeps : Keeps (logHead recs) (machineAfter d₀ h).disk.view
            ((machineAfter d₀ h).mountWith failA failB) := by
          refine ⟨fun _ _ _ => by rw [hdisk], fun st hs hok => ?_⟩
          rw [hstore] at hs
          cases hs
          cases hok
        exact intact_of_keeps hholds (hkeeps.putAll hroom) hmem fun _ _ _ => below_logHead
      · rintro ⟨⟨-, hother⟩, p, hp, -⟩
        rcases hno with hno | rfl
        · rw [hno] at hother
          cases hother
        · cases hp

/-! ### One byte -/

/-- A fresh disk and one commit. -/
theorem one_put_zeroDisk :
    Runs.Every Machine.step ⟨zeroDisk, none⟩ Allowed [.put [1], .boot] ∧
      (∀ op ∈ [StoreOp.put [1], .boot], op.Regular) ∧
      Clean [[1]] (machineAfter zeroDisk [.put [1], .boot]).disk ∧
      (machineAfter zeroDisk [.put [1], .boot]).store = some (storeOf [[1]]) ∧
      acked zeroDisk [.put [1], .boot] = [(extentOf [] [1], [1])] := by
  obtain ⟨hholds, hst⟩ := boot_zeroDisk
  have hroom : Room (storeOf []) [1] := by decide
  obtain ⟨hans, hclean⟩ := put_of_holds hholds (hroom.fits hholds.fits (by decide))
  have hput := Machine.put_on hst [] [1]
  rw [hans] at hput
  refine ⟨⟨fun st hs => ?_, trivial, trivial⟩, by simp [StoreOp.Regular], ?_, ?_, ?_⟩
  · change (machineAfter zeroDisk [.boot]).store = some st at hs
    rw [hst] at hs
    cases hs
    exact hroom
  · rw [machineAfter_cons, Machine.step, hput]
    exact hclean
  · rw [machineAfter_cons, Machine.step, hput]
    rfl
  · simp only [acked, hput]

/-- When only the older slot cannot be read, the extent survives. -/
theorem intact_iff_not_masked_older :
    Intact (acked zeroDisk [.put [1], .boot])
      (((machineAfter zeroDisk [.put [1], .boot]).mountWith true false).putAll []) := by
  obtain ⟨hrun, hreg, -, hst, -⟩ := one_put_zeroDisk
  refine (intact_iff_not_masked blank_zeroDisk hrun hreg true false).2.mpr ?_ [] trivial
  rintro ⟨hmasked, -⟩
  rw [newestMasked_iff hst] at hmasked
  exact absurd hmasked (by decide)

/-- **The newest extent is lost.** One byte is committed, the slot of its superblock cannot be read
at the next mount, and one more byte is put: the first byte's extent no longer has its hash. -/
theorem newest_extent_lost :
    Runs.Every Machine.step ⟨zeroDisk, none⟩ Allowed [.put [1], .boot] ∧
      RoomAll ((machineAfter zeroDisk [.put [1], .boot]).mountWith false true) [flipFirst [1]] ∧
      ¬ Intact (acked zeroDisk [.put [1], .boot])
        (((machineAfter zeroDisk [.put [1], .boot]).mountWith false true).putAll
          [flipFirst [1]]) := by
  obtain ⟨hrun, -, hclean, -, hacked⟩ := one_put_zeroDisk
  obtain ⟨-, hdisk, hmount⟩ := hclean.mountWith false true
  rcases hmount with ⟨hlive, -⟩ | ⟨-, -, init, b, hrecs, hstore⟩ | ⟨-, hno, -⟩
  · exact absurd hlive (by decide)
  · obtain ⟨rfl, hb⟩ := List.append_inj' (show [] ++ [[1]] = init ++ [b] from hrecs) rfl
    cases hb
    have hholds : Holds ([] ++ [[1]])
        ((machineAfter zeroDisk [.put [1], .boot]).mountWith false true).disk := by
      rw [hdisk]
      exact hclean.toHolds
    obtain ⟨hroom, hlost⟩ := lost_of_adopted hholds hstore (by simp)
    refine ⟨hrun, hroom, fun hintact => hlost (hintact (extentOf [] [1], [1]) ?_)⟩
    rw [hacked]
    exact List.mem_singleton_self _
  · exact absurd hno (by decide)

end Cairn
