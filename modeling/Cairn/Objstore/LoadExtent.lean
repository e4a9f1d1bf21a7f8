import Cairn.FrameAlloc.RangeList
import Cairn.Objstore.Crash

/-!
# Reading an extent back

`load_extent` of `kernel/src/objstore.rs`, and that `put` and the two functions that read an extent
agree on its bytes. Three loops cut a byte string into sectors: the one that writes it with a padded
last sector, the one that hashes it on read-back, and the one that copies it into a frame. They are
brought together by `ChunksAt`, that the sectors from `lba` on show the chunks of the string. The
writing loop establishes it one sector at a time, the reading loops consume it.

Sector numbers wrap at `2 ^ 64`, in the source and here, and no bound on them is assumed: the
sectors of one extent are different ones in any case. What has to be said is that none of them is
the superblock slot the commit overwrites at its end.

## Main definitions

* `loadExtent` — `load_extent`, over physical memory and the frame allocator
* `ChunksAt` — the sectors from `lba` on show a byte string
* `Loaded` — a frame shows the beginning of a byte string

## Main results

* `put_readers_agree` — what `put` answers is what the readers find
* `readers_disagree` — a commit that overwrites its own data
-/

namespace Cairn

open Block

/-! ### The program -/

/-- Physical memory, byte by byte. The source reaches it through its HHDM alias. -/
abbrev Ram := ℕ → Byte

/-- `write_bytes`: `n` zeros from address `a` on. -/
def Ram.zero (ram : Ram) (a n : ℕ) : Ram := fun x => if a ≤ x ∧ x < a + n then 0 else ram x

/-- `copy_nonoverlapping`: the first `n` bytes of a sector to address `a`. -/
def Ram.copy (ram : Ram) (a : ℕ) (s : Sector) (n : ℕ) : Ram :=
  fun x => if a ≤ x ∧ x < a + n then s.byte (x - a) else ram x

/-- The loop of `load_extent`: `todo` more sectors, `s` of them already copied to `phys`. -/
def loadSectors (lba : BitVec 64) (len phys : ℕ) : ℕ → ℕ → Ram → Prog Sector (Bool × Ram)
  | 0, _, ram => return (true, ram)
  | todo + 1, s, ram => do
    match ← readSector (lba + BitVec.ofNat 64 s).toNat with
    | none => return (false, ram)
    | some sect =>
      let off := s * 512
      let n := if 512 ≤ len - off then 512 else len - off
      loadSectors lba len phys todo (s + 1) (ram.copy (phys + off) sect n)

/-- `load_extent`: the bytes of an extent in a fresh zeroed frame, and the frame's address. A
failed read gives the frame back. -/
def loadExtent (fa : FrameAllocator) (ram : Ram) (lba : BitVec 64) (len : BitVec 32) :
    Prog Sector (Option ℕ × FrameAllocator × Ram) := do
  if len.toNat = 0 ∨ 4096 < len.toNat then return (none, fa, ram)
  else
    match fa.alloc with
    | (none, fa) => return (none, fa, ram)
    | (some fnum, fa) =>
      let phys := fnum * 4096
      let (ok, ram) ← loadSectors lba len.toNat phys (ndata len.toNat) 0 (ram.zero phys 4096)
      if ok then return (some phys, fa, ram) else return (none, fa.free fnum, ram)

/-! ### The sectors of an extent -/

/-- The first `n` sectors from `lba` on show the chunks of a byte string. -/
def ChunksAt (bytes : List Byte) (lba : BitVec 64) (n : ℕ) (d : Device Sector) : Prop :=
  ∀ i < n, d.view (lba + BitVec.ofNat 64 i).toNat = chunk bytes i

theorem ChunksAt.onRead {bytes : List Byte} {lba : BitVec 64} {n : ℕ} {d : Device Sector}
    (hd : ChunksAt bytes lba n d) {s : ℕ} (hs : s < n) {o : List Outcome} (ho : goes o 0 = .ok) :
    (o.headD .ok).onRead d (lba + BitVec.ofNat 64 s).toNat = some (chunk bytes s) := by
  rw [headD_eq, ho]
  exact congrArg some (hd s hs)

/-- The sectors of an extent are different ones, even when their numbers wrap. -/
theorem lba_add_ne (lba : BitVec 64) {i j : ℕ} (hij : i < j) (hj : j < 2 ^ 64) :
    (lba + BitVec.ofNat 64 i).toNat ≠ (lba + BitVec.ofNat 64 j).toNat := by
  intro h
  have hoff := (BitVec.add_right_inj lba).mp (BitVec.eq_of_toNat_eq h)
  have := congrArg BitVec.toNat hoff
  rw [BitVec.toNat_ofNat, BitVec.toNat_ofNat, Nat.mod_eq_of_lt (by omega),
    Nat.mod_eq_of_lt hj] at this
  omega

theorem ndata_lt {len : ℕ} (h : len < 2 ^ 32) : ndata len < 2 ^ 64 := by
  rw [ndata]
  omega

namespace ChunksAt

variable {bytes : List Byte} {lba : BitVec 64} {n : ℕ} {d : Device Sector}

/-- A write beside the extent. -/
theorem write (h : ChunksAt bytes lba n d) {x : ℕ} (s : Sector)
    (hx : ∀ i < n, (lba + BitVec.ofNat 64 i).toNat ≠ x) : ChunksAt bytes lba n (d.write x s) := by
  intro i hi
  rw [Device.view_write, if_neg (hx i hi)]
  exact h i hi

theorem flush (h : ChunksAt bytes lba n d) : ChunksAt bytes lba n d.flush := h

/-- The write of the next chunk. -/
theorem write_next (h : ChunksAt bytes lba n d) (hn : n < 2 ^ 64) :
    ChunksAt bytes lba (n + 1)
      (d.write (lba + BitVec.ofNat 64 n).toNat (chunk bytes n)) := by
  refine Nat.forall_lt_succ_right.mpr ⟨h.write _ fun i hi => lba_add_ne lba hi hn, ?_⟩
  rw [Device.view_write, if_pos rfl]

end ChunksAt

/-- **The data loop of `put`**, under any outcomes: if it reports success, the chunks are what is
read back. -/
theorem writeData_chunksAt {bytes : List Byte} (hlen : bytes.length < 2 ^ 32) (lba : BitVec 64)
    (todo s written : ℕ) (o : List Outcome) (d : Device Sector)
    (hs : s + todo = ndata bytes.length) (hw : written = min (s * 512) bytes.length)
    (hd : ChunksAt bytes lba s d) :
    Spec o (writeData lba bytes todo s written) d (fun _ => True) fun r d' _ =>
      r = true → ChunksAt bytes lba (ndata bytes.length) d' := by
  induction todo generalizing s written o d with
  | zero =>
    refine Spec.ret trivial fun _ => ?_
    rw [← hs]
    exact hd
  | succ todo ih =>
    have hbound := ndata_lt hlen
    simp only [writeData, ofBytes_round (by omega : s < ndata bytes.length) hw]
    refine Spec.bind (Spec.write trivial trivial ?_)
    cases o.headD .ok with
    | failed effect => exact Spec.ret trivial (fun h => by cases h)
    | ok =>
      have hnext : written + (if 512 ≤ bytes.length - written then 512 else bytes.length - written)
          = min ((s + 1) * 512) bytes.length := by
        split <;> omega
      exact ih (s + 1) _ _ _ (by omega) hnext (hd.write_next (by omega))

/-- **A commit that answers** leaves its bytes in the sectors from the log head on, unless one of
them is the slot it writes its superblock to. -/
theorem put_chunksAt (st : Store) (bytes : List Byte) (o : List Outcome) (d : Device Sector)
    (hclear : ∀ i < ndata bytes.length,
      st.mounted.logHeadLba + BitVec.ofNat 64 i ≠ otherSlot st.mountedSlot) :
    Spec o (put st bytes) d (fun _ => True) fun r d' _ => ∀ e, r.1 = some e →
      bytes.length < 2 ^ 32 ∧
        e = ⟨st.mounted.logHeadLba, BitVec.ofNat 32 bytes.length, fnv1a bytes⟩ ∧
        ChunksAt bytes st.mounted.logHeadLba (ndata bytes.length) d' := by
  -- every branch that gives up answers nothing
  have hnone : ∀ (o : List Outcome) (d : Device Sector),
      Spec o (pure (none, st) : Prog Sector (Option Extent × Store)) d (fun _ => True)
        fun r d' _ => ∀ e, r.1 = some e → bytes.length < 2 ^ 32 ∧
          e = ⟨st.mounted.logHeadLba, BitVec.ofNat 32 bytes.length, fnv1a bytes⟩ ∧
          ChunksAt bytes st.mounted.logHeadLba (ndata bytes.length) d' :=
    fun o d => Spec.ret trivial (fun e he => by cases he)
  rw [put]
  by_cases hok : st.mountedOk = false
  · rw [if_pos hok]
    exact hnone o d
  by_cases hlong : 2 ^ 32 ≤ bytes.length
  · rw [if_neg hok, if_pos hlong]
    exact hnone o d
  have hlen : bytes.length < 2 ^ 32 := Nat.lt_of_not_le hlong
  rw [if_neg hok, if_neg hlong]
  refine Spec.bind ((writeData_chunksAt hlen st.mounted.logHeadLba (ndata bytes.length) 0 0 o d
    (Nat.zero_add _) (by omega) (fun i hi => absurd hi (by omega))).mono (fun _ h => h) ?_)
  intro r d₁ o₁ hdata
  cases r with
  | false => exact hnone o₁ d₁
  | true =>
    -- the header
    have h₁ := hdata rfl
    refine Spec.bind (Spec.write trivial trivial ?_)
    cases o₁.headD .ok with
    | failed effect => exact hnone _ _
    | ok =>
      have h₂ := h₁.write (recordHeader (BitVec.ofNat 32 bytes.length) (fnv1a bytes)
        st.mounted.rootLba) fun i hi => lba_add_ne _ hi (ndata_lt hlen)
      refine Spec.bind (Spec.flush trivial trivial ?_)
      cases o₁.tail.headD .ok with
      | failed effect => exact hnone _ _
      | ok =>
        -- the superblock
        refine Spec.bind (Spec.bind (Spec.write trivial trivial ?_))
        cases o₁.tail.tail.headD .ok with
        | failed effect => exact Spec.ret trivial (hnone _ _)
        | ok =>
          have h₃ := h₂.flush.write (st.mounted.commit bytes).encode
            fun i hi h => hclear i hi (BitVec.eq_of_toNat_eq h)
          refine Spec.flush trivial trivial ?_
          cases o₁.tail.tail.tail.headD .ok with
          | failed effect => exact hnone _ _
          | ok =>
            exact Spec.ret trivial fun e he => ⟨hlen, (Option.some.inj he).symm, h₃.flush⟩

/-! ### The hash on read-back -/

/-- The bytes a reading loop takes from a sector. -/
theorem take_chunk (bytes : List Byte) (s : ℕ) {n : ℕ} (hn : n ≤ 512)
    (hlen : s * 512 + n ≤ bytes.length) :
    (chunk bytes s).take n = (bytes.drop (s * 512)).take n := by
  refine List.ext_getElem (by simp; omega) fun j hj hj' => ?_
  rw [Sector.length_take] at hj
  simp only [Sector.take, List.getElem_map, List.getElem_range, List.getElem_take,
    List.getElem_drop]
  rw [byte_chunk _ _ (by omega), List.getD_eq_getElem?_getD, List.getElem?_eq_getElem (by omega)]
  rfl

/-- **The streaming hash** over the chunks of a byte string is its hash. -/
theorem fnv1aStep_chunk (bytes : List Byte) (s : ℕ) {n : ℕ} (hn : n ≤ 512)
    (hlen : s * 512 + n ≤ bytes.length) :
    fnv1aStep (fnv1a (bytes.take (s * 512))) ((chunk bytes s).take n)
      = fnv1a (bytes.take (s * 512 + n)) := by
  rw [take_chunk bytes s hn hlen, fnv1a, fnv1a, ← fnv1aStep_append, List.take_add]

theorem hashExtent_of_chunksAt {bytes : List Byte} {lba : BitVec 64} {d : Device Sector}
    (hd : ChunksAt bytes lba (ndata bytes.length) d) (todo s consumed : ℕ) (o : List Outcome)
    (hs : s + todo = ndata bytes.length) (hc : consumed = min (s * 512) bytes.length)
    (ho : ∀ i < todo, goes o i = .ok) :
    (run o (hashExtent lba bytes.length todo s consumed (fnv1a (bytes.take consumed))) d).1
      = some (fnv1a bytes) := by
  induction todo generalizing s consumed o with
  | zero =>
    have hall : bytes.length ≤ consumed := by
      rw [ndata] at hs
      omega
    rw [List.take_of_length_le hall]
    rfl
  | succ todo ih =>
    have hcs : consumed = s * 512 := by
      rw [ndata] at hs
      omega
    set n := if 512 ≤ bytes.length - consumed then 512 else bytes.length - consumed with hn
    have hn512 : n ≤ 512 := by rw [hn]; split <;> omega
    have hfit : s * 512 + n ≤ bytes.length := by
      rw [ndata] at hs
      rw [hn]
      split <;> omega
    have hnext := ih (s + 1) (consumed + n) o.tail (by omega) (by rw [hn]; split <;> omega)
      fun i hi => (goes_tail o i).trans (ho (i + 1) (by omega))
    rw [hcs, ← fnv1aStep_chunk bytes s hn512 hfit, ← hcs] at hnext
    simp only [hashExtent]
    rw [run_readSector_bind, hd.onRead (by omega) (ho 0 (by omega))]
    exact hnext

/-! ### The copy in a frame -/

/-- The frame at `phys` shows the first `n` bytes of a byte string and zeros behind them, and the
rest of memory is `ram`. -/
structure Loaded (bytes : List Byte) (phys n : ℕ) (ram ram' : Ram) : Prop where
  /-- The bytes of the frame. -/
  frame : ∀ j < 4096, ram' (phys + j) = (bytes.take n).getD j 0
  /-- The rest of memory. -/
  rest : ∀ x, (x < phys ∨ phys + 4096 ≤ x) → ram' x = ram x

theorem Loaded.zero (bytes : List Byte) (phys : ℕ) (ram : Ram) :
    Loaded bytes phys 0 ram (ram.zero phys 4096) where
  frame j hj := by
    rw [Ram.zero, if_pos (by omega)]
    rfl
  rest x hx := by rw [Ram.zero, if_neg (by omega)]

/-- One round of the copying loop. -/
theorem Loaded.copy {bytes : List Byte} {phys s : ℕ} {ram ram' : Ram}
    (h : Loaded bytes phys (s * 512) ram ram') (hlen : bytes.length ≤ 4096)
    (hs : s * 512 < bytes.length) :
    Loaded bytes phys ((s + 1) * 512) ram (ram'.copy (phys + s * 512) (chunk bytes s)
      (if 512 ≤ bytes.length - s * 512 then 512 else bytes.length - s * 512)) := by
  generalize hn : (if 512 ≤ bytes.length - s * 512 then 512 else bytes.length - s * 512) = n
  obtain ⟨hn512, hfit, hmore⟩ : n ≤ 512 ∧ s * 512 + n ≤ bytes.length ∧
      (n = 512 ∨ s * 512 + n = bytes.length) := by
    rw [← hn]
    split <;> omega
  clear hn
  refine ⟨fun j hj => ?_, fun x hx => ?_⟩
  · rw [Ram.copy, List.getD_eq_getElem?_getD, List.getElem?_take]
    by_cases hin : s * 512 ≤ j ∧ j < s * 512 + n
    · -- a byte of this sector
      rw [if_pos (by omega), if_pos (by omega), byte_chunk _ _ (by omega),
        List.getD_eq_getElem?_getD]
      congr 3
      omega
    · rw [if_neg (by omega), h.frame j hj, List.getD_eq_getElem?_getD, List.getElem?_take]
      rcases Nat.lt_or_ge j (s * 512) with hlt | hge
      · rw [if_pos hlt, if_pos (hlt.trans_le (Nat.mul_le_mul_right 512 (Nat.le_succ s)))]
      · -- behind this sector, or behind the end of the byte string
        rw [if_neg (by omega)]
        split
        · rw [List.getElem?_eq_none (by omega)]
        · rfl
  · rw [Ram.copy, if_neg (by omega)]
    exact h.rest x hx

theorem loadSectors_of_chunksAt {bytes : List Byte} {lba : BitVec 64} {d : Device Sector}
    (hd : ChunksAt bytes lba (ndata bytes.length) d) (hlen : bytes.length ≤ 4096) {phys : ℕ}
    {ram : Ram} (todo s : ℕ) (ram' : Ram) (o : List Outcome)
    (hs : s + todo = ndata bytes.length) (ho : ∀ i < todo, goes o i = .ok)
    (hram : Loaded bytes phys (s * 512) ram ram') :
    ∃ ram'', (run o (loadSectors lba bytes.length phys todo s ram') d).1 = (true, ram'') ∧
      Loaded bytes phys (ndata bytes.length * 512) ram ram'' := by
  induction todo generalizing s ram' o with
  | zero =>
    refine ⟨ram', rfl, ?_⟩
    rw [← hs]
    exact hram
  | succ todo ih =>
    have hlt : s * 512 < bytes.length := by
      rw [ndata] at hs
      omega
    have hnext := ih (s + 1) _ o.tail (by omega)
      (fun i hi => (goes_tail o i).trans (ho (i + 1) (by omega))) (hram.copy hlen hlt)
    simp only [loadSectors]
    rw [run_readSector_bind, hd.onRead (by omega) (ho 0 (by omega))]
    exact hnext

/-! ### Agreement -/

section Readers

variable {bytes : List Byte} {lba : BitVec 64} {d : Device Sector} {o : List Outcome}

theorem toNat_ofNat_length (hlen : bytes.length < 2 ^ 32) :
    (BitVec.ofNat 32 bytes.length).toNat = bytes.length := by
  rw [BitVec.toNat_ofNat, Nat.mod_eq_of_lt hlen]

/-- **`extent_content_hash`** finds the hash of the bytes. -/
theorem extentContentHash_of_chunksAt (hd : ChunksAt bytes lba (ndata bytes.length) d)
    (hlen : bytes.length < 2 ^ 32) (ho : ∀ i < ndata bytes.length, goes o i = .ok) :
    (run o (extentContentHash lba (BitVec.ofNat 32 bytes.length)) d).1 = some (fnv1a bytes) := by
  rw [extentContentHash, toNat_ofNat_length hlen]
  exact hashExtent_of_chunksAt hd (ndata bytes.length) 0 0 o (Nat.zero_add _) (by omega) ho

/-- **`load_extent`** finds the bytes, and puts them in the frame it allocates. -/
theorem loadExtent_of_chunksAt (hd : ChunksAt bytes lba (ndata bytes.length) d)
    (hpos : 1 ≤ bytes.length) (hlen : bytes.length ≤ 4096)
    (ho : ∀ i < ndata bytes.length, goes o i = .ok) {fa fa' : FrameAllocator} {f : ℕ}
    (halloc : fa.alloc = (some f, fa')) (ram : Ram) :
    ∃ ram', (run o (loadExtent fa ram lba (BitVec.ofNat 32 bytes.length)) d).1
        = (some (f * 4096), fa', ram') ∧
      Loaded bytes (f * 4096) (ndata bytes.length * 512) ram ram' := by
  obtain ⟨ram', hrun, hloaded⟩ := loadSectors_of_chunksAt hd hlen (ndata bytes.length) 0 _ o
    (Nat.zero_add _) ho (Loaded.zero bytes (f * 4096) ram)
  refine ⟨ram', ?_, hloaded⟩
  have hrange : ¬ (bytes.length = 0 ∨ 4096 < bytes.length) := by omega
  rw [loadExtent, toNat_ofNat_length (by omega), if_neg hrange, halloc]
  dsimp only
  rw [run_bind, hrun]
  rfl

end Readers

/-- The hash loop over the sectors of a byte string, from the empty hash on. -/
theorem foldl_fnv1aStep_chunk (bytes : List Byte) {k : ℕ} (hk : k ≤ ndata bytes.length) :
    (List.range k).foldl (fun h s => fnv1aStep h
        ((chunk bytes s).take (min 512 (bytes.length - s * 512)))) fnv1aBasis
      = fnv1a (bytes.take (min (k * 512) bytes.length)) := by
  induction k with
  | zero => simp [fnv1a, fnv1aStep]
  | succ k ih =>
    have hlt : k * 512 < bytes.length := by
      rw [ndata] at hk
      omega
    rw [List.range_succ, List.foldl_append, ih (by omega), Nat.min_eq_left (by omega)]
    refine (fnv1aStep_chunk bytes k (by omega) (by omega)).trans ?_
    congr 2
    omega

/-- Data sectors in the log, with numbers that do not wrap, are not the slot a commit writes. -/
theorem ne_otherSlot_of_two_le {lba slot : BitVec 64} {n : ℕ} (hlog : 2 ≤ lba.toNat)
    (hfits : lba.toNat + n ≤ 2 ^ 64) : ∀ i < n, lba + BitVec.ofNat 64 i ≠ otherSlot slot := by
  intro i hi heq
  have haddr : (lba + BitVec.ofNat 64 i).toNat = lba.toNat + i := toNat_lba_add (by omega)
  have hslot := otherSlot_lt_two slot
  rw [heq] at haddr
  omega

/-- **`put` and the readers agree.** For every store, every byte string and every way the
operations go: if `put` answers, its answer has the length and the hash of the byte string, and as
long as the reads succeed, `extent_content_hash` answers that hash, and `load_extent` on a string of
at most a page fills the frame it gets with the string and zeros behind it. The hash taken sector
by sector is the hash of the whole string. The data must not lie on the slot the commit writes. -/
theorem put_readers_agree (st : Store) (bytes : List Byte)
    (hclear : ∀ i < ndata bytes.length,
      st.mounted.logHeadLba + BitVec.ofNat 64 i ≠ otherSlot st.mountedSlot)
    (o : List Outcome) (d : Device Sector) {e : Extent}
    (hput : (run o (put st bytes) d).1.1 = some e) :
    e.len.toNat = bytes.length ∧ e.hash = fnv1a bytes ∧
      (∀ o', (∀ i < ndata bytes.length, goes o' i = .ok) →
        (run o' (extentContentHash e.lba e.len) (run o (put st bytes) d).2.1).1 = some e.hash) ∧
      (∀ o', (∀ i < ndata bytes.length, goes o' i = .ok) →
        1 ≤ bytes.length → bytes.length ≤ 4096 →
        ∀ (fa fa' : FrameAllocator) (f : ℕ) (ram : Ram), fa.alloc = (some f, fa') →
          ∃ ram', (run o' (loadExtent fa ram e.lba e.len) (run o (put st bytes) d).2.1).1
              = (some (f * 4096), fa', ram') ∧
            ∀ j < 4096, ram' (f * 4096 + j) = bytes.getD j 0) ∧
      (List.range (ndata bytes.length)).foldl (fun h s => fnv1aStep h
          ((chunk bytes s).take (min 512 (bytes.length - s * 512)))) fnv1aBasis
        = fnv1a bytes := by
  obtain ⟨hlen, rfl, hd⟩ := (put_chunksAt st bytes o d hclear).2 e hput
  have hall : bytes.length ≤ ndata bytes.length * 512 := by
    rw [ndata]
    omega
  refine ⟨toNat_ofNat_length hlen, rfl, fun o' ho => extentContentHash_of_chunksAt hd hlen ho,
    fun o' ho hpos hpage fa fa' f ram halloc => ?_, ?_⟩
  · obtain ⟨ram', hrun, hloaded⟩ := loadExtent_of_chunksAt hd hpos hpage ho halloc ram
    refine ⟨ram', hrun, fun j hj => ?_⟩
    rw [hloaded.frame j hj, List.take_of_length_le hall]
  · rw [foldl_fnv1aStep_chunk bytes (Nat.le_refl _), Nat.min_eq_right hall, List.take_length]

/-- One byte on a fresh store, with one frame to load it in. -/
theorem put_readers_agree_one_byte :
    (run [] (put (storeOf []) [7]) zeroDisk).1.1 = some (extentOf [] [7]) ∧
      (run [] (extentContentHash 2 1) (run [] (put (storeOf []) [7]) zeroDisk).2.1).1
        = some (fnv1a [7]) ∧
      ∃ fa ram, (run [] (loadExtent (FrameAllocator.empty.addRegion 256 257) (fun _ => 0) 2 1)
          (run [] (put (storeOf []) [7]) zeroDisk).2.1).1 = (some (256 * 4096), fa, ram) ∧
        ∀ j < 4096, ram (256 * 4096 + j) = [7].getD j 0 := by
  have hput : (run [] (put (storeOf []) [7]) zeroDisk).1.1 = some (extentOf [] [7]) :=
    congrArg Prod.fst (@put_footprint (storeOf []) [7] zeroDisk rfl (by decide) (by decide)).2.1
  have halloc : (FrameAllocator.empty.addRegion 256 257).alloc.1 = some 256 := by decide
  obtain ⟨-, -, hhash, hload, -⟩ := put_readers_agree (storeOf []) [7]
    (ne_otherSlot_of_two_le (by decide) (by decide)) [] zeroDisk hput
  refine ⟨hput, hhash [] fun _ _ => rfl, ?_⟩
  obtain ⟨ram, hrun, hram⟩ := hload [] (fun _ _ => rfl) (by decide) (by decide) _ _ 256
    (fun _ => 0) (Prod.ext halloc rfl)
  exact ⟨_, ram, hrun, hram⟩

/-! ### A log head among the slots -/

/-- A superblock whose log head is slot A. -/
def strayHead : Superblock := ⟨1, 0, 0, 0, 0⟩

/-- A disk with that superblock in slot B. -/
def strayDisk : Device Sector := ⟨fun x => if x = 1 then strayHead.encode else .zero, []⟩

/-- **A commit may overwrite its own data.** A mount adopts any superblock with a valid hash. When
its log head is the slot the next commit writes, `put` of one byte answers and the superblock it
writes at the end replaces that byte, so the read-back finds another hash. -/
theorem readers_disagree :
    (run [] (mount .boot) strayDisk).1 = ⟨strayHead, true, lbaSbB⟩ ∧
      (run [] (put ⟨strayHead, true, lbaSbB⟩ [7]) strayDisk).1.1 = some ⟨0, 1, fnv1a [7]⟩ ∧
      (run [] (extentContentHash 0 1)
        (run [] (put ⟨strayHead, true, lbaSbB⟩ [7]) strayDisk).2.1).1 ≠ some (fnv1a [7]) := by
  obtain ⟨-, hput, hview⟩ := @put_footprint ⟨strayHead, true, lbaSbB⟩ [7] strayDisk rfl
    (by decide) (by decide)
  refine ⟨?_, congrArg Prod.fst hput, ?_⟩
  · have hA : slotRead .ok strayDisk lbaSbA = .invalid := by
      change checkSuperblock .zero = .invalid
      decide
    have hB : slotRead .ok strayDisk lbaSbB = .valid strayHead := checkSuperblock_encode strayHead
    exact ((mount_of_pick (by rw [hA, hB]; rfl) .boot).2).2
  · -- the byte at the log head is the first one of the superblock's magic
    have hbyte : (strayHead.commit [7]).encode.byte 0 = 0x67 := by decide
    generalize (run [] (put ⟨strayHead, true, lbaSbB⟩ [7]) strayDisk).2.1 = d at hview
    have hslot : d.view 0 = (strayHead.commit [7]).encode := (hview 0).trans (if_pos rfl)
    have hbytes : bytesAt d.view 0 1 = [0x67] := by
      rw [← hbyte, ← hslot]
      rfl
    have hhash : (run [] (extentContentHash 0 1) d).1 = some (fnv1a (bytesAt d.view 0 1)) :=
      congrArg Prod.fst (@run_extentContentHash d 0 1 (by decide))
    rw [hhash, hbytes]
    decide

end Cairn
