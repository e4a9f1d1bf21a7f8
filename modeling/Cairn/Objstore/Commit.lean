import Cairn.Objstore.Log

/-!
# What the operations of the store do to the list

The specifications of `put`, `mount` and `recover` over devices that hold a list of byte strings,
for every way the block operations may go. A commit passes only through devices that hold the old
list, are `Committing`, or hold the new list (`put_spec`), and `PutEnd` says which of these it ends
in, operation by operation; a mount of a device that holds a list adopts exactly that list
(`mount_of_holds`), and recovery compares the root's bytes on the medium with its hash
(`run_recover`).

## Main definitions

* `goes`, `FailsAt`, `failAt` — how the operations of a run go
* `PutEnd`, `Harmless` — the possible ends of a commit
* `Blank` — a disk neither slot of which is valid

## Main results

* `put_spec`, `failedPut_cases`, `put_footprint`
* `superblock_round_trip` — a written superblock is read back
* `mount_of_holds`, `mount_of_blank`
* `run_recover`, `recover_of_holds`
-/

namespace Cairn

open Block

/-! ### Outcomes -/

/-- How operation `i` of a run goes. -/
def goes (o : List Outcome) (i : ℕ) : Outcome := o.getD i .ok

/-- Operation `k` is the first to fail. -/
structure FailsAt (o : List Outcome) (k : ℕ) (effect : Bool) : Prop where
  /-- The operations before it succeed. -/
  before : ∀ i < k, goes o i = .ok
  /-- It fails. -/
  fails : goes o k = .failed effect

theorem headD_eq (o : List Outcome) : o.headD .ok = goes o 0 := by cases o <;> rfl

theorem headD_drop (o : List Outcome) (n : ℕ) : (o.drop n).headD .ok = goes o n := by
  rw [headD_eq, goes, goes, List.getD_eq_getElem?_getD, List.getD_eq_getElem?_getD,
    List.getElem?_drop, Nat.add_zero]

theorem goes_tail (o : List Outcome) (i : ℕ) : goes o.tail i = goes o (i + 1) := by
  cases o <;> rfl

/-- The outcomes of a run whose operation `k` fails. -/
def failAt (k : ℕ) (effect : Bool) : List Outcome := List.replicate k .ok ++ [.failed effect]

theorem goes_failAt (k i : ℕ) (effect : Bool) :
    goes (failAt k effect) i = if i = k then .failed effect else .ok := by
  rw [goes, failAt]
  rw [List.getD_eq_getElem?_getD, List.getElem?_append, List.length_replicate]
  rcases Nat.lt_trichotomy i k with hik | hik | hik
  · simp [hik, Nat.ne_of_lt hik]
  · simp [hik]
  · have h1 : ¬ i < k := by omega
    obtain ⟨j, hj⟩ := Nat.exists_eq_succ_of_ne_zero (show i - k ≠ 0 by omega)
    simp [h1, hj, Nat.ne_of_gt hik]

theorem FailsAt.of_failAt {k k' : ℕ} {effect effect' : Bool}
    (h : FailsAt (failAt k effect) k' effect') : k' = k ∧ effect' = effect := by
  have hf := h.fails
  rw [goes_failAt] at hf
  split at hf
  · rename_i hk
    exact ⟨hk, (Outcome.failed.inj hf).symm⟩
  · cases hf

theorem goes_nil (i : ℕ) : goes [] i = .ok := rfl

/-! ### The data sectors -/

/-- The bytes of a round of the data loop are a chunk. -/
theorem ofBytes_round {bytes : List Byte} {s written : ℕ} (hs : s < ndata bytes.length)
    (hw : written = min (s * 512) bytes.length) :
    Sector.ofBytes ((bytes.drop written).take
      (if 512 ≤ bytes.length - written then 512 else bytes.length - written)) = chunk bytes s := by
  have hlt : s * 512 < bytes.length := by
    rw [ndata] at hs
    omega
  have hws : written = s * 512 := by omega
  rw [chunk, hws]
  split
  · rfl
  · rename_i hshort
    rw [List.take_of_length_le (by simp), List.take_of_length_le (by simp; omega)]

/-- **The data loop**, under any outcomes. It keeps what writing the chunks keeps; if it reports
success, its operations succeeded and the chunks are what is read back, and if not, one of its
operations failed first. -/
theorem writeData_spec {I : Device Sector → Prop} (L : BitVec 64) (bytes : List Byte)
    (hI : ∀ d i, I d → I (d.write (L.toNat + i) (chunk bytes i)))
    (hL : L.toNat + ndata bytes.length < 2 ^ 64) (todo s written : ℕ) (o : List Outcome)
    (d : Device Sector) (hs : s + todo = ndata bytes.length)
    (hw : written = min (s * 512) bytes.length) (hd : I d) :
    Spec o (writeData L bytes todo s written) d I fun r d' o' => I d' ∧
      ((r = true ∧ o' = o.drop todo ∧ (∀ i < todo, goes o i = .ok) ∧
          ∀ x, d'.view x = if L.toNat + s ≤ x ∧ x < L.toNat + s + todo
            then chunk bytes (x - L.toNat) else d.view x) ∨
        (r = false ∧ ∃ k < todo, ∃ effect, FailsAt o k effect)) := by
  induction todo generalizing s written o d with
  | zero =>
    refine Spec.ret hd ⟨hd, Or.inl ⟨rfl, rfl, by simp, fun x => ?_⟩⟩
    rw [if_neg (by omega)]
  | succ todo ih =>
    have haddr : (L + BitVec.ofNat 64 s).toNat = L.toNat + s := toNat_lba_add (by omega)
    simp only [writeData, haddr, ofBytes_round (by omega : s < ndata bytes.length) hw]
    refine Spec.bind ?_
    have hround : I (d.write (L.toNat + s) (chunk bytes s)) := hI d s hd
    cases hgo : goes o 0 with
    | failed effect =>
      have heff : I ((Outcome.failed effect).effect d (d.write (L.toNat + s) (chunk bytes s))) := by
        cases effect
        · exact hd
        · exact hround
      refine Spec.write hd (by rw [headD_eq, hgo]; exact heff) ?_
      rw [headD_eq, hgo]
      exact Spec.ret heff ⟨heff, Or.inr ⟨rfl, 0, by omega, effect, by simp, hgo⟩⟩
    | ok =>
      refine Spec.write hd (by rw [headD_eq, hgo]; exact hround) ?_
      rw [headD_eq, hgo]
      have hnext : written + (if 512 ≤ bytes.length - written then 512 else bytes.length - written)
          = min ((s + 1) * 512) bytes.length := by
        split <;> omega
      refine (ih (s + 1) _ o.tail _ (by omega) hnext hround).mono (fun _ h => h) ?_
      rintro r d' o' ⟨hd', ⟨rfl, rfl, hok, hview⟩ | ⟨rfl, k, hk, effect, hfail⟩⟩
      · refine ⟨hd', Or.inl ⟨rfl, by rw [List.drop_tail], fun i hi => ?_, fun x => ?_⟩⟩
        · cases i with
          | zero => exact hgo
          | succ i => rw [← goes_tail]; exact hok i (by omega)
        · rw [hview, Device.view_write]
          by_cases hx : x = L.toNat + s
          · subst hx
            rw [if_neg (by omega), if_pos rfl, if_pos (by omega), Nat.add_sub_cancel_left]
          · rw [if_neg hx]
            exact if_congr (by omega) rfl rfl
      · refine ⟨hd', Or.inr ⟨rfl, k + 1, by omega, effect, fun i hi => ?_, ?_⟩⟩
        · cases i with
          | zero => exact hgo
          | succ i => rw [← goes_tail]; exact hfail.before i (by omega)
        · rw [← goes_tail]
          exact hfail.fails

/-! ### Commits -/

/-- How a commit of `b` on top of `recs` can end. With `n` data sectors, operation `n` writes the
header, `n + 1` flushes, `n + 2` writes the superblock and `n + 3` flushes it. -/
inductive PutEnd (recs : List (List Byte)) (b : List Byte) (o : List Outcome) :
    Option Extent × Store → Device Sector → Prop
  /-- Every operation succeeds. -/
  | committed {d : Device Sector} (ok : ∀ i < ndata b.length + 4, goes o i = .ok)
      (clean : Clean (recs ++ [b]) d) :
      PutEnd recs b o (some (extentOf recs b), storeOf (recs ++ [b])) d
  /-- The first failure comes before the superblock is accepted. -/
  | early {d : Device Sector} {k : ℕ} {effect : Bool} (fails : FailsAt o k effect)
      (le : k ≤ ndata b.length + 1 ∨ k = ndata b.length + 2 ∧ effect = false)
      (holds : Holds recs d) : PutEnd recs b o (none, storeOf recs) d
  /-- The superblock is accepted but not flushed. -/
  | accepted {d : Device Sector} {k : ℕ} {effect : Bool} (fails : FailsAt o k effect)
      (eq : k = ndata b.length + 2 ∧ effect = true ∨ k = ndata b.length + 3 ∧ effect = false)
      (committing : Committing recs b d) : PutEnd recs b o (none, storeOf recs) d
  /-- The final flush reports a failure and takes effect. -/
  | flushed {d : Device Sector} (fails : FailsAt o (ndata b.length + 3) true)
      (clean : Clean (recs ++ [b]) d) : PutEnd recs b o (none, storeOf recs) d

/-- The devices a commit passes through. -/
def PutVisit (recs : List (List Byte)) (b : List Byte) (d : Device Sector) : Prop :=
  Holds recs d ∨ Committing recs b d ∨ Clean (recs ++ [b]) d

/-- A failed operation has taken effect or not. -/
theorem effect_cases {P : Device Sector → Prop} {d d' : Device Sector} (h : P d) (h' : P d')
    (o : Outcome) : P (o.effect d d') := by
  rcases o with _ | _ | _
  · exact h'
  · exact h
  · exact h'

/-- The flip: the superblock write and its flush. -/
theorem flip_spec {recs : List (List Byte)} {b : List Byte} {d : Device Sector} {o : List Outcome}
    (h : Holds recs d) (hflushed : d.cache = []) (hfits : Fits (recs ++ [b]))
    (hstored : Stored (recs ++ [b]) d.durable)
    (hok : ∀ i < ndata b.length + 2, goes o i = .ok) :
    Spec (o.drop (ndata b.length + 2))
      (writeSuperblock (otherSlot (slotOf recs)) ((sbOf recs).commit b)) d (PutVisit recs b)
      fun r d' _ =>
        (r = true ∧ PutEnd recs b o (some (extentOf recs b), storeOf (recs ++ [b])) d') ∨
        (r = false ∧ PutEnd recs b o (none, storeOf recs) d') := by
  have hcommitting : Committing recs b
      (d.write (otherSlot (slotOf recs)).toNat ((sbOf recs).commit b).encode) :=
    ⟨h.congr (fun _ _ => rfl) (by simp), hfits, hstored, by rw [Device.cache_write, hflushed]⟩
  refine Spec.bind (Spec.write (Or.inl h)
    (effect_cases (P := PutVisit recs b) (Or.inl h) (Or.inr (Or.inl hcommitting)) _) ?_)
  rw [headD_drop, List.tail_drop]
  cases hgo : goes o (ndata b.length + 2) with
  | failed effect =>
    have hfail : FailsAt o (ndata b.length + 2) effect := ⟨hok, hgo⟩
    cases effect with
    | false => exact Spec.ret (Or.inl h) (Or.inr ⟨rfl, .early hfail (Or.inr ⟨rfl, rfl⟩) h⟩)
    | true =>
      exact Spec.ret (Or.inr (Or.inl hcommitting))
        (Or.inr ⟨rfl, .accepted hfail (Or.inl ⟨rfl, rfl⟩) hcommitting⟩)
  | ok =>
    have hok3 : ∀ i < ndata b.length + 3, goes o i = .ok := Nat.forall_lt_succ_right.mpr ⟨hok, hgo⟩
    have hclean := hcommitting.flush
    refine Spec.flush (Or.inr (Or.inl hcommitting))
      (effect_cases (P := PutVisit recs b) (Or.inr (Or.inl hcommitting)) (Or.inr (Or.inr hclean))
        _) ?_
    rw [headD_drop]
    cases hgo3 : goes o (ndata b.length + 3) with
    | ok => exact Or.inl ⟨rfl, .committed (Nat.forall_lt_succ_right.mpr ⟨hok3, hgo3⟩) hclean⟩
    | failed effect =>
      have hfail : FailsAt o (ndata b.length + 3) effect := ⟨hok3, hgo3⟩
      cases effect with
      | false => exact Or.inr ⟨rfl, .accepted hfail (Or.inr ⟨rfl, rfl⟩) hcommitting⟩
      | true => exact Or.inr ⟨rfl, .flushed hfail hclean⟩

/-- **A commit**, under any outcomes. -/
theorem put_spec {recs : List (List Byte)} {b : List Byte} {d : Device Sector} (h : Holds recs d)
    (hfits : Fits (recs ++ [b])) (o : List Outcome) :
    Spec o (put (storeOf recs) b) d (PutVisit recs b) fun r d' _ => PutEnd recs b o r d' := by
  have hlen : ¬ 2 ^ 32 ≤ b.length := by
    have := hfits.len b (by simp)
    omega
  have hhead := hfits.head
  rw [logHead_append] at hhead
  have hL : (sbOf recs).logHeadLba.toNat = logHead recs := h.fits.toNat_logHead
  have hhdr : ((sbOf recs).logHeadLba + BitVec.ofNat 64 (ndata b.length)).toNat
      = logHead recs + ndata b.length := by
    rw [toNat_lba_add (by omega), hL]
  rw [put]
  simp only [storeOf, Bool.true_eq_false, if_false, if_neg hlen, hhdr]
  refine Spec.bind ((writeData_spec (I := fun d => Holds recs d) (o := o) (d := d) _ b
    (fun d i hd => hd.write (by rw [hL]; omega) _) (by rw [hL]; omega) _ _ _ (by omega)
    (by omega) h).mono (fun _ hd => Or.inl hd) ?_)
  rintro r d₁ o₁ ⟨h₁, ⟨rfl, rfl, hok, hview⟩ | ⟨rfl, k, hk, effect, hfail⟩⟩
  swap
  · exact Spec.ret (Or.inl h₁) (.early hfail (Or.inl (by omega)) h₁)
  -- the header
  refine Spec.bind (Spec.write (Or.inl h₁)
    (effect_cases (P := PutVisit recs b) (Or.inl h₁) (Or.inl (h₁.write (by omega) _)) _) ?_)
  rw [headD_drop, List.tail_drop]
  set hdr := recordHeader (BitVec.ofNat 32 b.length) (fnv1a b) (sbOf recs).rootLba with hhdrdef
  have h₂ : Holds recs (d₁.write (logHead recs + ndata b.length) hdr) := h₁.write (by omega) _
  cases hgo : goes o (ndata b.length) with
  | failed effect =>
    have h₂' := effect_cases (P := Holds recs) h₁ h₂ (.failed effect)
    exact Spec.ret (Or.inl h₂') (.early ⟨hok, hgo⟩ (Or.inl (by omega)) h₂')
  | ok =>
    have hok1 := Nat.forall_lt_succ_right.mpr ⟨hok, hgo⟩
    -- the flush that makes data and header durable
    refine Spec.bind (Spec.flush (Or.inl h₂)
      (effect_cases (P := PutVisit recs b) (Or.inl h₂) (Or.inl h₂.flush) _) ?_)
    rw [headD_drop, List.tail_drop]
    cases hgo1 : goes o (ndata b.length + 1) with
    | failed effect =>
      have h₃ := effect_cases (P := Holds recs) h₂ h₂.flush (.failed effect)
      exact Spec.ret (Or.inl h₃) (.early ⟨hok1, hgo1⟩ (Or.inl (by omega)) h₃)
    | ok =>
      have hok2 := Nat.forall_lt_succ_right.mpr ⟨hok1, hgo1⟩
      have h₃ := h₂.flush
      have hstored : Stored (recs ++ [b])
          (d₁.write (logHead recs + ndata b.length) hdr).flush.durable := by
        refine h₃.stored.append (fun i hi => ?_) ?_
        · rw [Device.durable_flush, Device.view_write, if_neg (by omega), hview, hL,
            if_pos (by omega), Nat.add_sub_cancel_left]
        · rw [Device.durable_flush, Device.view_write, if_pos rfl]
      refine Spec.bind ((flip_spec h₃ rfl hfits hstored hok2).mono (fun _ hd => hd) ?_)
      rintro r d' o' (⟨rfl, hend⟩ | ⟨rfl, hend⟩)
      · refine Spec.ret ?_ ?_
        · cases hend with
          | committed _ clean => exact Or.inr (Or.inr clean)
        · rw [storeOf, slotOf_append, sbOf_append] at hend
          exact hend
      · refine Spec.ret ?_ hend
        cases hend with
        | early _ _ holds => exact Or.inl holds
        | accepted _ _ committing => exact Or.inr (Or.inl committing)
        | flushed _ clean => exact Or.inr (Or.inr clean)

/-- A failure before the device accepts the superblock. -/
def Harmless (bytes : List Byte) (k : ℕ) (effect : Bool) : Prop :=
  k ≤ ndata bytes.length + 1 ∨ k = ndata bytes.length + 2 ∧ effect = false

instance (bytes : List Byte) (k : ℕ) (effect : Bool) : Decidable (Harmless bytes k effect) :=
  inferInstanceAs (Decidable (_ ∨ _))

/-- How a commit ends whose operation `k` fails. -/
theorem failedPut_cases {recs : List (List Byte)} {b : List Byte} {d : Device Sector}
    (h : Holds recs d) (hfits : Fits (recs ++ [b])) {k : ℕ} (hk : k < ndata b.length + 4)
    (effect : Bool) :
    (run (failAt k effect) (put (storeOf recs) b) d).1 = (none, storeOf recs) ∧
      (Harmless b k effect ∧ Holds recs (run (failAt k effect) (put (storeOf recs) b) d).2.1 ∨
        ¬ Harmless b k effect ∧
          Flipped recs b (run (failAt k effect) (put (storeOf recs) b) d).2.1) := by
  have hend := (put_spec h hfits (failAt k effect)).2
  generalize (run (failAt k effect) (put (storeOf recs) b) d).1 = r at hend
  generalize (run (failAt k effect) (put (storeOf recs) b) d).2.1 = d' at hend
  cases hend with
  | committed ok _ =>
    have hok := ok k hk
    rw [goes_failAt, if_pos rfl] at hok
    cases hok
  | early fails le holds =>
    obtain ⟨rfl, rfl⟩ := fails.of_failAt
    exact ⟨rfl, Or.inl ⟨le, holds⟩⟩
  | accepted fails eq committing =>
    obtain ⟨rfl, rfl⟩ := fails.of_failAt
    refine ⟨rfl, Or.inr ⟨?_, committing.flipped⟩⟩
    rintro (hle | ⟨hk2, heff⟩)
    · omega
    · rcases eq with ⟨-, heff'⟩ | ⟨hk3, -⟩
      · rw [heff] at heff'
        cases heff'
      · omega
  | flushed fails clean =>
    obtain ⟨hk3, -⟩ := fails.of_failAt
    refine ⟨rfl, Or.inr ⟨?_, clean.flipped⟩⟩
    rintro (hle | ⟨hk2, -⟩) <;> omega

/-! ### The footprint of a commit

Whatever the disk holds, a commit writes its data and header from the log head on and one slot. -/

/-- The view of a device in which a commit has written its data and its header. -/
def writtenView (st : Store) (bytes : List Byte) (d : Device Sector) (x : ℕ) : Sector :=
  if x = st.mounted.logHeadLba.toNat + ndata bytes.length then
    recordHeader (BitVec.ofNat 32 bytes.length) (fnv1a bytes) st.mounted.rootLba
  else if st.mounted.logHeadLba.toNat ≤ x ∧ x < st.mounted.logHeadLba.toNat + ndata bytes.length
  then chunk bytes (x - st.mounted.logHeadLba.toNat)
  else d.view x

/-- **A commit from any mounted store**: on its way it passes a device on which its data and
header are durable and nothing else has changed, and it ends with the superblock in the other
slot. -/
theorem put_footprint (st : Store) {bytes : List Byte} (d : Device Sector)
    (hok : st.mountedOk = true) (hlen : bytes.length < 2 ^ 32)
    (hL : st.mounted.logHeadLba.toNat + ndata bytes.length + 1 < 2 ^ 64) :
    (∃ d₁, Visits [] (put st bytes) d d₁ ∧ d₁.cache = [] ∧
        ∀ x, d₁.durable x = writtenView st bytes d x) ∧
      (run [] (put st bytes) d).1
        = (some ⟨st.mounted.logHeadLba, BitVec.ofNat 32 bytes.length, fnv1a bytes⟩,
            ⟨st.mounted.commit bytes, true, otherSlot st.mountedSlot⟩) ∧
      (∀ x, (run [] (put st bytes) d).2.1.view x
        = if x = (otherSlot st.mountedSlot).toNat then (st.mounted.commit bytes).encode
          else writtenView st bytes d x) := by
  have hhdr : (st.mounted.logHeadLba + BitVec.ofNat 64 (ndata bytes.length)).toNat
      = st.mounted.logHeadLba.toNat + ndata bytes.length := toNat_lba_add (by omega)
  obtain ⟨d₁, hrun, hview⟩ : ∃ d₁,
      run [] (writeData st.mounted.logHeadLba bytes (ndata bytes.length) 0 0) d = (true, d₁, []) ∧
        ∀ x, d₁.view x = if st.mounted.logHeadLba.toNat + 0 ≤ x ∧
          x < st.mounted.logHeadLba.toNat + 0 + ndata bytes.length
          then chunk bytes (x - st.mounted.logHeadLba.toNat) else d.view x := by
    have hdata := (writeData_spec (I := fun _ => True) st.mounted.logHeadLba bytes
      (fun _ _ _ => trivial) (by omega) (ndata bytes.length) 0 0 [] d (by omega) (by omega)
      trivial).2.2
    rcases hdata with ⟨hr, ho, -, hview⟩ | ⟨-, k, -, effect, hfail⟩
    · rw [List.drop_nil] at ho
      exact ⟨_, Prod.ext hr (Prod.ext rfl ho), hview⟩
    · cases hfail.fails
  have hwritten : ∀ x, (d₁.write (st.mounted.logHeadLba.toNat + ndata bytes.length)
      (recordHeader (BitVec.ofNat 32 bytes.length) (fnv1a bytes) st.mounted.rootLba)).view x
        = writtenView st bytes d x := by
    intro x
    rw [Device.view_write, hview, Nat.add_zero]
    rfl
  have hlen' : ¬ 2 ^ 32 ≤ bytes.length := by omega
  rw [put]
  simp only [hok, Bool.true_eq_false, if_false, if_neg hlen', hhdr]
  refine ⟨⟨_, visits_bind_right (by rw [hrun]; exact Or.inr (Or.inr (visits_start _ _ _))), rfl,
    hwritten⟩, ?_, fun x => ?_⟩
  · rw [run_bind, hrun]
    rfl
  · rw [run_bind, hrun, ← hwritten x, ← Device.view_flush]
    exact Device.view_write _ _ _ _

/-! ### Mounting -/

/-- What reading a slot says, when the read goes as `o`. -/
def slotRead (o : Outcome) (d : Device Sector) (slot : BitVec 64) : SlotRead :=
  match o with
  | .ok => checkSuperblock (d.view slot.toNat)
  | .failed _ => .io

theorem readSuperblock_spec (o : List Outcome) (slot : BitVec 64) (d : Device Sector) :
    Spec o (readSuperblock slot) d (· = d) fun r d' o' =>
      r = slotRead (goes o 0) d slot ∧ d' = d ∧ o' = o.tail := by
  refine Spec.bind (Spec.read rfl ?_)
  rw [headD_eq]
  cases goes o 0 with
  | ok => exact Spec.ret rfl ⟨rfl, rfl, rfl⟩
  | failed effect => exact Spec.ret rfl ⟨rfl, rfl, rfl⟩

/-- Once the sector write has taken effect, the slot reads as the superblock, flushed or not. -/
theorem view_writeSuperblock {o : List Outcome} (hw : goes o 0 ≠ .failed false)
    (slot : BitVec 64) (sb : Superblock) (d : Device Sector) :
    (run o (writeSuperblock slot sb) d).2.1.view slot.toNat = sb.encode := by
  have hview : (d.write slot.toNat sb.encode).view slot.toNat = sb.encode := by
    rw [Device.view_write, if_pos rfl]
  rw [writeSuperblock, run_bind]
  simp only [writeSector, run, headD_eq]
  rcases hgo : goes o 0 with _ | _ | _
  · -- the write succeeds, and the flush goes one way or the other
    have hflush : (d.write slot.toNat sb.encode).flush.view slot.toNat = sb.encode := hview
    exact effect_cases (P := fun d' => d'.view slot.toNat = sb.encode) hview hflush
      (o.tail.headD .ok)
  · exact absurd hgo hw
  · exact hview

/-- **A superblock is read back.** Whatever its five fields are, wherever it is written and
whatever was there before: unless the sector write failed without effect, reading the slot gives
a valid superblock with the same fields. -/
theorem superblock_round_trip (sb : Superblock) (slot : BitVec 64) (d : Device Sector)
    (o o' : List Outcome) (hw : goes o 0 ≠ .failed false) (hr : goes o' 0 = .ok) :
    (run o' (readSuperblock slot) (run o (writeSuperblock slot sb) d).2.1).1 = .valid sb := by
  have hread := (readSuperblock_spec o' slot (run o (writeSuperblock slot sb) d).2.1).2.1
  rw [hread, hr, slotRead, view_writeSuperblock hw, checkSuperblock_encode]

/-- The largest values of all fields, over a slot of zeros. -/
theorem superblock_round_trip_allOnes :
    goes [] 0 ≠ .failed false ∧ goes [] 0 = .ok ∧
      (run [] (readSuperblock lbaSbB)
        (run [] (writeSuperblock lbaSbB ⟨-1, -1, -1, -1, -1⟩) ⟨fun _ => .zero, []⟩).2.1).1
          = .valid ⟨-1, -1, -1, -1, -1⟩ :=
  ⟨by decide, rfl, superblock_round_trip _ lbaSbB _ [] [] (by decide) rfl⟩

/-- A mount that finds a superblock, and one that refuses, only reads. -/
theorem mount_spec_read {o : List Outcome} {d : Device Sector} (st : Store)
    (h : ¬ (slotRead (goes o 0) d lbaSbA = .invalid ∧ slotRead (goes o 1) d lbaSbB = .invalid)) :
    Spec o (mount st) d (· = d) fun r d' _ => d' = d ∧
      r = match pickSuperblock (slotRead (goes o 0) d lbaSbA) (slotRead (goes o 1) d lbaSbB) with
        | some (sb, slot) => ⟨sb, true, slot⟩
        | none => st := by
  refine Spec.bind ((readSuperblock_spec o lbaSbA d).mono (fun _ hd => hd) ?_)
  rintro a d₁ o₁ ⟨rfl, rfl, rfl⟩
  refine Spec.bind ((readSuperblock_spec o.tail lbaSbB d₁).mono (fun _ hd => hd) ?_)
  rintro b d₂ o₂ ⟨rfl, rfl, rfl⟩
  rw [goes_tail]
  cases hpick : pickSuperblock (slotRead (goes o 0) d₂ lbaSbA)
      (slotRead (goes o (0 + 1)) d₂ lbaSbB) with
  | some p => exact Spec.ret rfl ⟨rfl, rfl⟩
  | none =>
    simp only [if_neg h]
    exact Spec.ret rfl ⟨rfl, rfl⟩

/-- A mount that can read both slots picks the live one. -/
theorem pick_live {recs : List (List Byte)} {d : Device Sector} (hfits : Fits recs)
    (hlive : slotRead .ok d (slotOf recs) = .valid (sbOf recs))
    (hother : slotRead .ok d (otherSlot (slotOf recs)) = .invalid ∨
      ∃ init b, recs = init ++ [b] ∧
        slotRead .ok d (otherSlot (slotOf recs)) = .valid (sbOf init)) :
    pickSuperblock (slotRead .ok d lbaSbA) (slotRead .ok d lbaSbB)
      = some (sbOf recs, slotOf recs) := by
  have hseq : ∀ init b, recs = init ++ [b] → (sbOf init).seq < (sbOf recs).seq := by
    rintro init b rfl
    rw [BitVec.lt_def, hfits.toNat_seq, hfits.of_append.toNat_seq]
    simp
  rcases slotOf_cases recs with ⟨hs, ho⟩ | ⟨hs, ho⟩
  · rw [hs] at hlive
    rw [ho] at hother
    rw [hlive, hs]
    rcases hother with hinv | ⟨init, b, hrecs, hval⟩
    · rw [hinv]; rfl
    · rw [hval, pickSuperblock, if_pos (BitVec.le_of_lt (hseq init b hrecs))]
  · rw [hs] at hlive
    rw [ho] at hother
    rw [hlive, hs]
    rcases hother with hinv | ⟨init, b, hrecs, hval⟩
    · rw [hinv]; rfl
    · rw [hval, pickSuperblock, if_neg (BitVec.not_le.mpr (hseq init b hrecs))]

theorem Holds.slotRead_live {recs : List (List Byte)} {d : Device Sector} (h : Holds recs d) :
    slotRead .ok d (slotOf recs) = .valid (sbOf recs) := by
  rw [slotRead, h.view_eq ((slotOf_lt recs).trans_le (two_le_logHead recs))]
  exact h.live

theorem Holds.slotRead_other {recs : List (List Byte)} {d : Device Sector} (h : Holds recs d) :
    slotRead .ok d (otherSlot (slotOf recs))
      = checkSuperblock (d.durable (otherSlot (slotOf recs)).toNat) := by
  rw [slotRead, h.view_eq ((otherSlot_lt_two (slotOf recs)).trans_le (two_le_logHead recs))]

/-- A device that holds a list shows a mount exactly its superblock. -/
theorem Holds.pick {recs : List (List Byte)} {d : Device Sector} (h : Holds recs d) :
    pickSuperblock (slotRead .ok d lbaSbA) (slotRead .ok d lbaSbB)
      = some (sbOf recs, slotOf recs) :=
  pick_live h.fits h.slotRead_live (by rw [h.slotRead_other]; exact h.other)

/-- A mount that can read both slots adopts the superblock it picks, and only reads. -/
theorem mount_of_pick {d : Device Sector} {sb : Superblock} {slot : BitVec 64}
    (hpick : pickSuperblock (slotRead .ok d lbaSbA) (slotRead .ok d lbaSbB) = some (sb, slot))
    (st : Store) : Spec [] (mount st) d (· = d) fun r d' _ => d' = d ∧ r = ⟨sb, true, slot⟩ := by
  refine (mount_spec_read st ?_).mono (fun _ hd => hd) ?_
  · rintro ⟨ha, hb⟩
    rw [goes_nil] at ha hb
    rw [ha, hb] at hpick
    cases hpick
  · rintro r d' o' ⟨rfl, rfl⟩
    rw [goes_nil, goes_nil, hpick]
    exact ⟨rfl, rfl⟩

/-- **A mount adopts the list the device holds**, and only reads. -/
theorem mount_of_holds {recs : List (List Byte)} {d : Device Sector} (h : Holds recs d)
    (st : Store) : Spec [] (mount st) d (· = d) fun r d' _ => d' = d ∧ r = storeOf recs :=
  mount_of_pick h.pick st

/-- A disk neither slot of which is valid. -/
structure Blank (d : Device Sector) : Prop where
  /-- Nothing is cached. -/
  flushed : d.cache = []
  /-- Slot A is not valid. -/
  slotA : checkSuperblock (d.durable lbaSbA.toNat) = .invalid
  /-- Slot B is not valid. -/
  slotB : checkSuperblock (d.durable lbaSbB.toNat) = .invalid

/-- The first superblock makes a blank disk one that holds the empty list. -/
theorem Blank.format {d d' : Device Sector} (h : Blank d) (hcache : d'.cache = [])
    (hslot : d'.durable lbaSbA.toNat = Superblock.formatted.encode)
    (hrest : ∀ x, x ≠ lbaSbA.toNat → d'.durable x = d.durable x) : Clean [] d' where
  fits := .nil
  live := by
    rw [show slotOf [] = lbaSbA from rfl, hslot, checkSuperblock_encode]
    rfl
  other := Or.inl (by
    rw [show otherSlot (slotOf []) = lbaSbB from rfl, hrest _ (by decide)]
    exact h.slotB)
  stored := fun pre b post hrecs => by simp at hrecs
  cached := by simp [hcache]
  flushed := hcache
  previous := fun init b hrecs => by simp at hrecs

/-- The devices a mount of a blank disk passes through. -/
def FormatVisit (d d' : Device Sector) : Prop :=
  d' = d ∨ d' = d.write lbaSbA.toNat Superblock.formatted.encode ∨ Clean [] d'

/-- **A mount formats a blank disk.** -/
theorem mount_of_blank {d : Device Sector} (h : Blank d) (st : Store) :
    Spec [] (mount st) d (FormatVisit d) fun r d' _ => Clean [] d' ∧ r = storeOf [] := by
  have hview : d.view = d.durable := Device.view_of_cache_nil h.flushed
  have ha : slotRead .ok d lbaSbA = .invalid := by rw [slotRead, hview]; exact h.slotA
  have hb : slotRead .ok d lbaSbB = .invalid := by rw [slotRead, hview]; exact h.slotB
  have hclean : Clean [] (d.write lbaSbA.toNat Superblock.formatted.encode).flush := by
    refine h.format rfl ?_ fun x hx => ?_
    · rw [Device.durable_flush, Device.view_write, if_pos rfl]
    · rw [Device.durable_flush, Device.view_write, if_neg hx, hview]
  refine Spec.bind ((readSuperblock_spec [] lbaSbA d).mono (fun _ hd => Or.inl hd) ?_)
  rintro a d₁ o₁ ⟨rfl, rfl, rfl⟩
  refine Spec.bind ((readSuperblock_spec _ lbaSbB d₁).mono (fun _ hd => Or.inl hd) ?_)
  rintro b d₂ o₂ ⟨rfl, rfl, rfl⟩
  simp only [List.tail_nil, goes_nil, ha, hb, pickSuperblock, and_self, if_true]
  refine Spec.bind (Spec.bind (Spec.write (Or.inl rfl) (Or.inr (Or.inl rfl)) ?_))
  refine Spec.flush (Or.inr (Or.inl rfl)) (Or.inr (Or.inr hclean)) ?_
  exact Spec.ret (Or.inr (Or.inr hclean)) ⟨hclean, rfl⟩

/-- A power failure during formatting leaves a blank disk or an empty list. -/
theorem Blank.crash {d d' : Device Sector} (h : Blank d) (hv : FormatVisit d d')
    {medium : ℕ → Sector} (hl : Landed torn d' medium) :
    Blank ⟨medium, []⟩ ∨ Holds [] ⟨medium, []⟩ := by
  rcases hv with rfl | rfl | hclean
  · have hmed : ∀ x, medium x = d'.durable x := fun x =>
      hl.eq_of_not_cached (by simp [h.flushed])
    exact Or.inl ⟨rfl, by simp only [hmed]; exact h.slotA, by simp only [hmed]; exact h.slotB⟩
  · have hrest : ∀ x, x ≠ lbaSbA.toNat → medium x = d.durable x := fun x hx =>
      hl.eq_of_not_cached (by simpa [h.flushed] using Ne.symm hx)
    have hB : checkSuperblock (medium lbaSbB.toNat) = .invalid := by
      rw [hrest _ (by decide)]
      exact h.slotB
    rcases hl lbaSbA.toNat with hold | ⟨s, hs, hnew | htorn⟩
    · exact Or.inl ⟨rfl, by simp only [hold]; exact h.slotA, hB⟩
    · simp only [Device.cache_write, h.flushed, List.mem_singleton, Prod.mk.injEq, true_and] at hs
      exact Or.inr (h.format rfl (hnew.trans hs) hrest).toHolds
    · exact Or.inl ⟨rfl, htorn (by decide), hB⟩
  · exact Or.inr (hclean.toHolds.crash hl)

/-! ### Recovery -/

/-- One more sector of an extent. -/
theorem bytesAt_add (medium : ℕ → Sector) (lba s : ℕ) {n : ℕ} (hn : n ≤ 512) :
    bytesAt medium lba (s * 512 + n)
      = bytesAt medium lba (s * 512) ++ (medium (lba + s)).take n := by
  rw [bytesAt, List.range_add, List.map_append, List.map_map]
  congr 1
  refine List.map_congr_left fun j hj => ?_
  have hj := List.mem_range.mp hj
  have hdiv : (s * 512 + j) / 512 = s := by omega
  have hmod : (s * 512 + j) % 512 = j := by omega
  simp only [Function.comp_apply, hdiv, hmod]

/-- **The hash loop** computes the hash of the bytes on the medium. -/
theorem run_hashExtent {d : Device Sector} {lba : BitVec 64} {len : ℕ}
    (hL : lba.toNat + ndata len ≤ 2 ^ 64) (todo s consumed : ℕ) (hs : s + todo = ndata len)
    (hc : consumed = min (s * 512) len) :
    run [] (hashExtent lba len todo s consumed (fnv1a (bytesAt d.view lba.toNat consumed))) d
      = (some (fnv1a (bytesAt d.view lba.toNat len)), d, []) := by
  induction todo generalizing s consumed with
  | zero =>
    have hlen : consumed = len := by
      rw [ndata] at hs
      omega
    rw [hashExtent, hlen]
    rfl
  | succ todo ih =>
    have hcs : consumed = s * 512 := by
      rw [ndata] at hs
      omega
    have haddr : (lba + BitVec.ofNat 64 s).toNat = lba.toNat + s := toNat_lba_add (by omega)
    set n := if 512 ≤ len - consumed then 512 else len - consumed with hn
    have hn512 : n ≤ 512 := by rw [hn]; split <;> omega
    have hstep : fnv1aStep (fnv1a (bytesAt d.view lba.toNat consumed))
        ((d.view (lba.toNat + s)).take n) = fnv1a (bytesAt d.view lba.toNat (consumed + n)) := by
      rw [hcs, bytesAt_add _ _ _ hn512, fnv1a, fnv1a, fnv1aStep_append]
    have hnext := ih (s + 1) (consumed + n) (by omega) (by rw [hn]; split <;> omega)
    rw [← hstep] at hnext
    simp only [hashExtent, haddr]
    exact hnext

theorem run_extentContentHash {d : Device Sector} {lba : BitVec 64} {len : BitVec 32}
    (hL : lba.toNat + ndata len.toNat ≤ 2 ^ 64) :
    run [] (extentContentHash lba len) d
      = (some (fnv1a (bytesAt d.view lba.toNat len.toNat)), d, []) :=
  run_hashExtent hL (ndata len.toNat) 0 0 (Nat.zero_add _) (by omega)

/-- **Recovery** answers the mounted root if its bytes on the medium have its hash. -/
theorem run_recover {d : Device Sector} {st : Store} {e : Extent} (hok : st.mountedOk = true)
    (hroot : st.mounted.root = e) (hlen : e.len ≠ 0)
    (hL : e.lba.toNat + ndata e.len.toNat ≤ 2 ^ 64) :
    run [] (recover st) d
      = (if fnv1a (bytesAt d.view e.lba.toNat e.len.toNat) = e.hash then some e else none,
          d, []) := by
  subst hroot
  have hcond : ¬ (st.mountedOk = false ∨ st.mounted.rootLen = 0) := by
    rintro (h | h)
    · rw [hok] at h
      cases h
    · exact hlen h
  have hhash : run [] (extentContentHash st.mounted.rootLba st.mounted.rootLen) d
      = (some (fnv1a (bytesAt d.view st.mounted.rootLba.toNat st.mounted.rootLen.toNat)), d, []) :=
    run_extentContentHash hL
  rw [recover, if_neg hcond, run_bind, hhash]
  by_cases hh : fnv1a (bytesAt d.view st.mounted.root.lba.toNat st.mounted.root.len.toNat)
      = st.mounted.root.hash
  · rw [if_pos hh]
    exact congrArg (run [] · d) (if_pos hh)
  · rw [if_neg hh]
    exact congrArg (run [] · d) (if_neg hh)

theorem run_recover_none {d : Device Sector} {st : Store}
    (h : st.mountedOk = false ∨ st.mounted.root.len = 0) :
    run [] (recover st) d = (none, d, []) := by
  change st.mountedOk = false ∨ st.mounted.rootLen = 0 at h
  rw [recover, if_pos h]
  rfl

/-- The last byte string of a list, with its extent. -/
def lastExtent (recs : List (List Byte)) : Option (Extent × List Byte) :=
  match recs.reverse with
  | [] => none
  | b :: rest => some (extentOf rest.reverse b, b)

@[simp] theorem lastExtent_nil : lastExtent [] = none := rfl

@[simp] theorem lastExtent_append (recs : List (List Byte)) (b : List Byte) :
    lastExtent (recs ++ [b]) = some (extentOf recs b, b) := by
  simp [lastExtent]

theorem getLast?_extentsOn (recs : List (List Byte)) :
    (extentsOn [] recs).getLast? = lastExtent recs := by
  rcases List.eq_nil_or_concat recs with rfl | ⟨init, b, rfl⟩
  · rfl
  · rw [List.concat_eq_append, extentsOn_append, List.getLast?_concat, lastExtent_append]
    rfl

/-- What recovery answers for a root: nothing for no root and for an empty one. -/
def recovered : Option (Extent × List Byte) → Option Extent
  | some (e, b) => if b = [] then none else some e
  | none => none

/-- The medium shows the bytes at the extent that describes them. -/
structure Shows (medium : ℕ → Sector) (e : Extent) (bytes : List Byte) : Prop where
  /-- The length. -/
  len : e.len.toNat = bytes.length
  /-- The hash. -/
  hash : e.hash = fnv1a bytes
  /-- The bytes. -/
  bytes : bytesAt medium e.lba.toNat e.len.toNat = bytes

/-- Every extent of a list a device holds is on its medium. -/
theorem Holds.shows {recs : List (List Byte)} {d : Device Sector} (h : Holds recs d)
    {pre post : List (List Byte)} {b : List Byte} (hrecs : recs = pre ++ b :: post) :
    Shows d.durable (extentOf pre b) b := by
  have hlen : b.length < 2 ^ 32 := h.fits.len b (by simp [hrecs])
  have hnat : (BitVec.ofNat 32 b.length).toNat = b.length := by
    rw [BitVec.toNat_ofNat, Nat.mod_eq_of_lt hlen]
  have hpre : Fits pre := by
    have hf := h.fits
    rw [hrecs] at hf
    exact hf.of_append
  refine ⟨hnat, rfl, ?_⟩
  simp only [extentOf, hnat, hpre.toNat_logHead]
  exact bytesAt_eq fun i hi => (h.stored pre b post hrecs).1 i hi

/-- And it is what a reader sees. -/
theorem Holds.shows_view {recs : List (List Byte)} {d : Device Sector} (h : Holds recs d)
    {pre post : List (List Byte)} {b : List Byte} (hrecs : recs = pre ++ b :: post) :
    Shows d.view (extentOf pre b) b :=
  h.flush.shows hrecs

/-- The sectors of an extent of a list have numbers below `2 ^ 64`. -/
theorem Holds.extent_le {recs : List (List Byte)} {d : Device Sector} (h : Holds recs d)
    {pre post : List (List Byte)} {b : List Byte} (hrecs : recs = pre ++ b :: post) :
    (extentOf pre b).lba.toNat + ndata (extentOf pre b).len.toNat ≤ 2 ^ 64 := by
  have hf := h.fits
  rw [hrecs] at hf
  have hsplit := logHead_split pre post b
  have hhead := hf.head
  rw [(h.shows hrecs).len]
  simp only [extentOf, hf.of_append.toNat_logHead]
  omega

/-- **Recovery of a device that holds a list** answers its last extent. -/
theorem recover_of_holds {recs : List (List Byte)} {d : Device Sector} (h : Holds recs d) :
    run [] (recover (storeOf recs)) d = (recovered (lastExtent recs), d, []) := by
  rcases List.eq_nil_or_concat recs with rfl | ⟨init, b, hrecs⟩
  · exact run_recover_none (Or.inr rfl)
  · rw [List.concat_eq_append] at hrecs
    subst hrecs
    have hshow : Shows d.view (extentOf init b) b := h.shows_view rfl
    have hroot : (storeOf (init ++ [b])).mounted.root = extentOf init b := by
      rw [storeOf, sbOf_append]
      rfl
    have hzero : (extentOf init b).len = 0 ↔ b = [] := by
      rw [← BitVec.toNat_inj, hshow.len]
      exact List.length_eq_zero_iff
    rw [lastExtent_append, recovered]
    by_cases hb : b = []
    · rw [if_pos hb]
      exact run_recover_none (Or.inr ((congrArg Extent.len hroot).trans (hzero.mpr hb)))
    · rw [if_neg hb, run_recover rfl hroot (fun hz => hb (hzero.mp hz)) (h.extent_le rfl),
        hshow.bytes, hshow.hash, if_pos rfl]

end Cairn
