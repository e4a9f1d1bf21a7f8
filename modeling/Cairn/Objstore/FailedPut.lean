import Cairn.Objstore.ReadError

/-!
# A commit that fails

When a block operation of `put` reports a failure, `put` answers nothing and keeps the mounted
superblock. Up to the superblock write this is harmless: whatever reached the disk lies behind the
log head. Once the device has accepted the new superblock it is not. The failed commit may then be
the one the next mount adopts, while the next `put` of the same boot, which still starts at the old
log head, overwrites its sectors; a power failure right after that `put`'s first flush leaves a
valid superblock whose root has the wrong bytes, and the old root is out of reach.

## Main definitions

* `Recovers` — what recovery may answer after a failed and a second commit

## Main results

* `recovers_iff_harmless` — a failed commit is harmless exactly when it fails before the device
  accepts the superblock
* `root_lost_after_failed_flush` — the shortest run that loses the root
-/

namespace Cairn

open Block

/-- A mount of the medium recovers the root it had, or an object with one of two byte strings. -/
def Recovers (old : Device Sector) (root : Extent) (b₁ b₂ : List Byte) (medium : ℕ → Sector) :
    Prop :=
  ∃ e, (Machine.boot ⟨⟨medium, []⟩, none⟩).recover = some e ∧
    ((e = root ∧
        bytesAt medium e.lba.toNat e.len.toNat = bytesAt old.view e.lba.toNat e.len.toNat) ∨
      bytesAt medium e.lba.toNat e.len.toNat = b₁ ∨ bytesAt medium e.lba.toNat e.len.toNat = b₂)

/-- The machine a medium boots into, when it holds a list. -/
theorem recover_boot_of_holds {recs : List (List Byte)} {medium : ℕ → Sector}
    (h : Holds recs ⟨medium, []⟩) :
    (Machine.boot ⟨⟨medium, []⟩, none⟩).recover = recovered (lastExtent recs) := by
  obtain ⟨hdisk, hst⟩ := Machine.boot_of_holds (m := ⟨⟨medium, []⟩, none⟩) h
  rw [Machine.recover, hst, hdisk]
  exact congrArg Prod.fst (recover_of_holds h)

/-- A list with a nonempty last byte string is recovered. -/
theorem recover_boot_append {init : List (List Byte)} {b : List Byte} (hb : b ≠ [])
    {medium : ℕ → Sector} (h : Holds (init ++ [b]) ⟨medium, []⟩) :
    (Machine.boot ⟨⟨medium, []⟩, none⟩).recover = some (extentOf init b) ∧
      bytesAt medium (extentOf init b).lba.toNat (extentOf init b).len.toNat = b := by
  have hshow : Shows medium (extentOf init b) b := h.shows rfl
  refine ⟨?_, hshow.bytes⟩
  rw [recover_boot_of_holds h, lastExtent_append, recovered, if_neg hb]

/-- A store whose root is not empty has committed a byte string that is not empty. -/
theorem exists_root {recs : List (List Byte)} (hfits : Fits recs)
    (hroot : (sbOf recs).rootLen ≠ 0) : ∃ init R, recs = init ++ [R] ∧ R ≠ [] := by
  rcases List.eq_nil_or_concat recs with rfl | ⟨init, R, hrecs⟩
  · exact absurd rfl hroot
  · rw [List.concat_eq_append] at hrecs
    refine ⟨init, R, hrecs, ?_⟩
    rintro rfl
    rw [hrecs, sbOf_append] at hroot
    exact hroot rfl

/-- **After a harmless failure**, every power failure during the next commit leaves the root or the
new byte string. -/
theorem recovers_of_harmless {init : List (List Byte)} {R b₂ : List Byte} {d : Device Sector}
    (h : Holds (init ++ [R]) d) (hR : R ≠ []) (hb₂ : b₂ ≠ [])
    (hroom : Room (storeOf (init ++ [R])) b₂)
    {old : Device Sector} (hold : Holds (init ++ [R]) old) (b₁ : List Byte) {d' : Device Sector}
    {medium : ℕ → Sector} (hv : Visits [] (put (storeOf (init ++ [R])) b₂) d d')
    (hl : Landed torn d' medium) : Recovers old (extentOf init R) b₁ b₂ medium := by
  have hroot : Holds (init ++ [R]) ⟨medium, []⟩ → Recovers old (extentOf init R) b₁ b₂ medium :=
    fun hh => by
      obtain ⟨hrec, hbytes⟩ := recover_boot_append hR hh
      have hshow : Shows old.view (extentOf init R) R := hold.shows_view rfl
      exact ⟨_, hrec, Or.inl ⟨rfl, hbytes.trans hshow.bytes.symm⟩⟩
  rcases Nat.lt_or_ge b₂.length (2 ^ 32) with hlen | hlen
  · have hfits := hroom.fits h.fits hlen
    rcases ((put_spec h hfits []).1 d' hv).crash hl with hh | hh
    · exact hroot hh
    · obtain ⟨hrec, hbytes⟩ := recover_boot_append hb₂ hh
      exact ⟨_, hrec, Or.inr (Or.inr hbytes)⟩
  · rw [put_of_long _ hlen] at hv
    obtain rfl : d' = d := hv
    exact hroot (h.crash hl)

/-- **After a flip that was not answered**, the next commit can make recovery answer nothing. -/
theorem not_recovers_of_flipped {recs : List (List Byte)} {b : List Byte} {d : Device Sector}
    (h : Flipped recs b d) (hb : b ≠ []) :
    ∃ d' medium, Visits [] (put (storeOf recs) (flipFirst b)) d d' ∧ Landed torn d' medium ∧
      (Machine.boot ⟨⟨medium, []⟩, none⟩).recover = none := by
  have hfits := h.fits.of_append
  have hroom := room_of_fits h.fits (length_flipFirst b)
  have hblen : b.length < 2 ^ 32 := h.fits.len b (by simp)
  obtain ⟨⟨d', hv, hflushed, hdur⟩, -, -⟩ := put_footprint (storeOf recs) d rfl
    (by rw [length_flipFirst]; exact hblen) hroom.2
  refine ⟨d', d'.durable, hv, landed_durable torn d', ?_⟩
  -- the slots are as they were, the data of the failed commit is overwritten
  have hL : (storeOf recs).mounted.logHeadLba.toNat = logHead recs := hfits.toNat_logHead
  have h2 := two_le_logHead recs
  have hslot : ∀ x < 2, d'.durable x = d.view x := fun x hx => by
    rw [hdur, writtenView, hL, if_neg (by omega), if_neg (by omega)]
  have hbytes : bytesAt d'.durable (logHead recs) (flipFirst b).length = flipFirst b :=
    bytesAt_put hfits fun x _ _ => hdur x
  have hpick : pickSuperblock (slotRead .ok ⟨d'.durable, []⟩ lbaSbA)
      (slotRead .ok ⟨d'.durable, []⟩ lbaSbB)
        = some (sbOf (recs ++ [b]), slotOf (recs ++ [b])) := by
    refine pick_live h.fits ?_ (Or.inr ⟨recs, b, rfl, ?_⟩)
    · rw [slotOf_append]
      exact (congrArg checkSuperblock (hslot _ (otherSlot_lt_two (slotOf recs)))).trans h.new
    · rw [slotOf_append, otherSlot_otherSlot]
      exact (congrArg checkSuperblock (hslot _ (slotOf_lt recs))).trans h.old
  obtain ⟨-, hdisk, hst⟩ := mount_of_pick hpick .boot
  have hlen : (extentOf recs b).len.toNat = b.length := by
    simp only [extentOf, BitVec.toNat_ofNat]
    exact Nat.mod_eq_of_lt hblen
  have hlba : (extentOf recs b).lba.toNat = logHead recs := hL
  have hhead := h.fits.head
  rw [logHead_append] at hhead
  have hrec := run_recover (d := ⟨d'.durable, []⟩)
    (show (storeOf (recs ++ [b])).mountedOk = true from rfl) (root_sbOf_append recs b)
    (fun hz => hb (List.length_eq_zero_iff.mp (hlen.symm.trans (congrArg BitVec.toNat hz))))
    (by rw [hlen, hlba]; omega)
  have hne : fnv1a (flipFirst b) ≠ (extentOf recs b).hash := fnv1a_flipFirst_ne hb
  rw [hlen, hlba, Device.view_of_cache_nil rfl, ← length_flipFirst, hbytes, if_neg hne] at hrec
  rw [Machine.boot, Machine.recover]
  simp only [hdisk, hst]
  exact congrArg Prod.fst hrec

/-- **A failed commit is harmless exactly when it fails before the device accepts the
superblock.** Take any running boot of any run in which earlier failures were harmless, whose root
`R` is not empty, and a `put` of a nonempty `b₁` whose operation `k` reports a failure, having
taken effect or not. The `put` answers nothing; and every power failure during or after a further
`put` of any nonempty `b₂` leaves a medium from which a mount recovers `R`, `b₁` or `b₂`, if and
only if the failure came before the superblock write, or was that write and had no effect. -/
theorem recovers_iff_harmless {d₀ : Device Sector} (hblank : Blank d₀) {h : List StoreOp}
    (hrun : Runs.Every Machine.step ⟨d₀, none⟩ Allowed h) {st : Store}
    (hst : (machineAfter d₀ h).store = some st) (hroot : st.mounted.rootLen ≠ 0)
    {b₁ : List Byte} (hb₁ : b₁ ≠ []) (hlen : b₁.length < 2 ^ 32) (hroom : Room st b₁) {k : ℕ}
    (hk : k < ndata b₁.length + 4) (effect : Bool) :
    ((machineAfter d₀ h).put (failAt k effect) b₁).1 = none ∧
      ((∀ b₂, b₂ ≠ [] → ∀ st', ((machineAfter d₀ h).put (failAt k effect) b₁).2.store = some st' →
          Room st' b₂ → ∀ d medium,
          Visits [] (put st' b₂) ((machineAfter d₀ h).put (failAt k effect) b₁).2.disk d →
          Landed torn d medium →
          Recovers (machineAfter d₀ h).disk st.mounted.root b₁ b₂ medium) ↔
        Harmless b₁ k effect) := by
  obtain ⟨recs, ht⟩ := exists_tracks hblank hrun
  obtain ⟨hholds, rfl⟩ := (ht.reflects hst).2.of_store hst
  have hfits := hroom.fits hholds.fits hlen
  obtain ⟨hres, hcases⟩ := failedPut_cases hholds hfits hk effect
  rw [Machine.put_on hst, hres]
  refine ⟨rfl, ?_⟩
  rcases hcases with ⟨hharm, hholds₁⟩ | ⟨hharm, hflip⟩
  · refine iff_of_true ?_ hharm
    rintro b₂ hb₂ st' hst' hroom₂ d medium hv hl
    cases hst'
    obtain ⟨init, R, rfl, hR⟩ := exists_root hholds.fits hroot
    rw [show (storeOf (init ++ [R])).mounted.root = extentOf init R from root_sbOf_append init R]
    exact recovers_of_harmless hholds₁ hR hb₂ hroom₂ hholds b₁ hv hl
  · refine iff_of_false (fun hall => ?_) hharm
    obtain ⟨d, medium, hv, hl, hnone⟩ := not_recovers_of_flipped hflip hb₁
    have hne : flipFirst b₁ ≠ [] := fun h0 => hb₁ (by
      rw [← List.length_eq_zero_iff, ← length_flipFirst, h0]
      rfl)
    obtain ⟨e, he, -⟩ := hall (flipFirst b₁) hne _ rfl
      (room_of_fits hfits (length_flipFirst b₁)) d medium hv hl
    rw [hnone] at he
    cases he

/-! ### One byte again -/

/-- After one commit of one byte on a fresh disk, a commit of a second one fails. -/
theorem failed_second_put (k : ℕ) (hk : k < 5) (effect : Bool) :
    ((machineAfter zeroDisk [.put [1], .boot]).put (failAt k effect) [2]).1 = none ∧
      ((machineAfter zeroDisk [.put [1], .boot]).put (failAt k effect) [2]).2.store
        = some (storeOf [[1]]) ∧
      (¬ Harmless [2] k effect → Flipped [[1]] [2]
        ((machineAfter zeroDisk [.put [1], .boot]).put (failAt k effect) [2]).2.disk) := by
  obtain ⟨-, -, hclean, hst, -⟩ := one_put_zeroDisk
  have hroom : Room (storeOf [[1]]) [2] := by decide
  obtain ⟨hres, hcases⟩ := failedPut_cases hclean.toHolds
    (hroom.fits hclean.fits (by decide)) hk effect
  rw [Machine.put_on hst, hres]
  refine ⟨rfl, rfl, fun hnot => ?_⟩
  rcases hcases with ⟨hharm, -⟩ | ⟨-, hflip⟩
  · exact absurd hharm hnot
  · exact hflip

/-- A failed data write leaves the first byte recoverable, whatever happens to a third one. -/
theorem recovers_iff_harmless_first_write :
    ((machineAfter zeroDisk [.put [1], .boot]).put (failAt 0 true) [2]).1 = none ∧
      ∀ d medium, Visits [] (put (storeOf [[1]]) [3])
          ((machineAfter zeroDisk [.put [1], .boot]).put (failAt 0 true) [2]).2.disk d →
        Landed torn d medium →
        Recovers (machineAfter zeroDisk [.put [1], .boot]).disk (extentOf [] [1]) [2] [3]
          medium := by
  obtain ⟨hrun, -, -, hst, -⟩ := one_put_zeroDisk
  obtain ⟨-, hst', -⟩ := failed_second_put 0 (by decide) true
  have hiff := recovers_iff_harmless blank_zeroDisk hrun hst (by decide)
    (show ([2] : List Byte) ≠ [] by decide) (by decide) (by decide) (k := 0) (by decide) true
  refine ⟨hiff.1, fun d medium hv hl => ?_⟩
  have hrec := hiff.2.mpr (Or.inl (by decide)) [3] (by decide) _ hst' (by decide) d medium hv hl
  rwa [show (storeOf [[1]]).mounted.root = extentOf [] [1] from root_sbOf_append [] [1]] at hrec

/-- **The root is lost.** One byte is committed, the flush that should make the superblock of a
second one durable reports a failure, and the power fails after the first flush of a third `put`:
recovery answers nothing. -/
theorem root_lost_after_failed_flush :
    Runs.Every Machine.step ⟨zeroDisk, none⟩ Allowed [.put [1], .boot] ∧
      ((machineAfter zeroDisk [.put [1], .boot]).put (failAt 4 false) [2]).1 = none ∧
      ∃ d medium, Visits [] (put (storeOf [[1]]) (flipFirst [2]))
          ((machineAfter zeroDisk [.put [1], .boot]).put (failAt 4 false) [2]).2.disk d ∧
        Landed torn d medium ∧ (Machine.boot ⟨⟨medium, []⟩, none⟩).recover = none := by
  obtain ⟨hrun, -⟩ := one_put_zeroDisk
  obtain ⟨hnone, -, hflip⟩ := failed_second_put 4 (by decide) false
  exact ⟨hrun, hnone, not_recovers_of_flipped (hflip (by decide)) (by decide)⟩

end Cairn
