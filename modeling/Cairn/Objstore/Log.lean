import Cairn.Objstore.Store
import Mathlib.Data.List.Induction
import Mathlib.Order.Nat

/-!
# The log as a list of committed byte strings

What the store is for is said by a list: the byte strings committed so far, oldest first. The list
determines everything the store keeps. The superblock is what the commits make of the formatted
one (`sbOf`), it lives in slot A or B by parity (`slotOf`), the extents follow each other from
sector `2` on (`logHead`), and a device *holds* the list when its medium shows all of this and its
cache is confined to the sectors behind the log (`Holds`).

Between operations the store is described by `Holds` alone. A commit in flight is either still
writing behind the log, where a crash loses only what was never promised, or `Committing`: the
data is durable and the new superblock is the one unflushed write. From such a device a crash
leaves the old list or the new one (`Committing.crash`).

## Main definitions

* `logHead`, `sbOf`, `slotOf`, `storeOf`, `extentOf`, `extentsOn` — what a list of byte strings
  determines
* `Stored`, `Holds`, `Clean`, `Committing`, `Flipped` — devices that hold a list
* `torn` — what a torn sector can look like

## Main results

* `Holds.crash`, `Committing.crash` — what a power failure leaves
* `Holds.write`, `Holds.flush`, `Committing.flush` — what the operations of a commit do
-/

namespace Cairn

open Block

/-! ### What a list of byte strings determines -/

/-- The first sector behind the log. -/
def logHead (recs : List (List Byte)) : ℕ := 2 + (recs.map fun b => ndata b.length + 1).sum

/-- The superblock after the commits. -/
def sbOf (recs : List (List Byte)) : Superblock := recs.foldl Superblock.commit .formatted

/-- The slot that superblock is in. -/
def slotOf (recs : List (List Byte)) : BitVec 64 :=
  if recs.length % 2 = 0 then lbaSbA else lbaSbB

/-- The mounted store. -/
def storeOf (recs : List (List Byte)) : Store := ⟨sbOf recs, true, slotOf recs⟩

/-- The extent a commit on top of the list gives its bytes. -/
def extentOf (recs : List (List Byte)) (bytes : List Byte) : Extent :=
  ⟨(sbOf recs).logHeadLba, BitVec.ofNat 32 bytes.length, fnv1a bytes⟩

/-- The extents the commits of a list on top of an older one give its byte strings. -/
def extentsOn (pre : List (List Byte)) : List (List Byte) → List (Extent × List Byte)
  | [] => []
  | b :: rest => (extentOf pre b, b) :: extentsOn (pre ++ [b]) rest

/-- The list fits the machine: sequence numbers and sector numbers stay below `2 ^ 64`, lengths
below `2 ^ 32`. -/
structure Fits (recs : List (List Byte)) : Prop where
  /-- The next sequence number. -/
  seq : recs.length + 1 < 2 ^ 64
  /-- The log head. -/
  head : logHead recs < 2 ^ 64
  /-- The lengths. -/
  len : ∀ b ∈ recs, b.length < 2 ^ 32

@[simp] theorem logHead_nil : logHead [] = 2 := rfl

theorem logHead_append (recs : List (List Byte)) (b : List Byte) :
    logHead (recs ++ [b]) = logHead recs + ndata b.length + 1 := by
  simp only [logHead, List.map_append, List.sum_append, List.map_cons, List.map_nil, List.sum_cons,
    List.sum_nil]
  omega

theorem two_le_logHead (recs : List (List Byte)) : 2 ≤ logHead recs := Nat.le_add_right _ _

theorem logHead_split (pre post : List (List Byte)) (b : List Byte) :
    logHead pre + ndata b.length + 1 ≤ logHead (pre ++ b :: post) := by
  simp only [logHead, List.map_append, List.sum_append, List.map_cons, List.sum_cons]
  omega

@[simp] theorem sbOf_append (recs : List (List Byte)) (b : List Byte) :
    sbOf (recs ++ [b]) = (sbOf recs).commit b := by
  simp [sbOf, List.foldl_append]

theorem seq_sbOf (recs : List (List Byte)) :
    (sbOf recs).seq = BitVec.ofNat 64 (recs.length + 1) := by
  induction recs using List.reverseRecOn with
  | nil => rfl
  | append_singleton recs b ih =>
    rw [sbOf_append, Superblock.commit, ih, List.length_append, List.length_singleton]
    simp only [BitVec.ofNat_add]
    rfl

theorem logHeadLba_sbOf (recs : List (List Byte)) :
    (sbOf recs).logHeadLba = BitVec.ofNat 64 (logHead recs) := by
  induction recs using List.reverseRecOn with
  | nil => rfl
  | append_singleton recs b ih =>
    rw [sbOf_append, Superblock.commit, ih, logHead_append, BitVec.ofNat_add, BitVec.ofNat_add]
    rfl

theorem extentsOn_append (pre rest : List (List Byte)) (b : List Byte) :
    extentsOn pre (rest ++ [b]) = extentsOn pre rest ++ [(extentOf (pre ++ rest) b, b)] := by
  induction rest generalizing pre with
  | nil => rw [List.append_nil]; rfl
  | cons c rest ih =>
    rw [List.cons_append, extentsOn, ih, extentsOn, List.append_assoc, List.singleton_append]
    rfl

theorem length_extentsOn (pre rest : List (List Byte)) :
    (extentsOn pre rest).length = rest.length := by
  induction rest generalizing pre with
  | nil => rfl
  | cons b rest ih => rw [extentsOn, List.length_cons, ih, List.length_cons]

/-- Where an extent of a list comes from. -/
theorem exists_split_of_mem_extentsOn {recs : List (List Byte)} {p : Extent × List Byte}
    (hp : p ∈ extentsOn [] recs) :
    ∃ pre post, recs = pre ++ p.2 :: post ∧ p.1 = extentOf pre p.2 := by
  induction recs using List.reverseRecOn with
  | nil => cases hp
  | append_singleton recs b ih =>
    rw [extentsOn_append, List.mem_append, List.mem_singleton] at hp
    rcases hp with hp | rfl
    · obtain ⟨pre, post, rfl, he⟩ := ih hp
      exact ⟨pre, post ++ [b], by simp, he⟩
    · exact ⟨recs, [], rfl, rfl⟩

theorem slotOf_append (recs : List (List Byte)) (b : List Byte) :
    slotOf (recs ++ [b]) = otherSlot (slotOf recs) := by
  rcases Nat.mod_two_eq_zero_or_one recs.length with h | h
  · have h' : (recs.length + 1) % 2 = 1 := by omega
    simp [slotOf, h, h', otherSlot]
  · have h' : (recs.length + 1) % 2 = 0 := by omega
    simp [slotOf, h, h', otherSlot, lbaSbA, lbaSbB]

theorem slotOf_cases (recs : List (List Byte)) :
    (slotOf recs = lbaSbA ∧ otherSlot (slotOf recs) = lbaSbB) ∨
      (slotOf recs = lbaSbB ∧ otherSlot (slotOf recs) = lbaSbA) := by
  rw [slotOf]
  split
  · exact Or.inl ⟨rfl, rfl⟩
  · exact Or.inr ⟨rfl, rfl⟩

theorem otherSlot_otherSlot (recs : List (List Byte)) :
    otherSlot (otherSlot (slotOf recs)) = slotOf recs := by
  rcases slotOf_cases recs with ⟨h, h'⟩ | ⟨h, h'⟩ <;> rw [h', h] <;> rfl

theorem slotOf_lt (recs : List (List Byte)) : (slotOf recs).toNat < 2 := by
  rcases slotOf_cases recs with ⟨h, -⟩ | ⟨h, -⟩ <;> rw [h] <;> decide

theorem slotOf_ne_otherSlot (recs : List (List Byte)) :
    (slotOf recs).toNat ≠ (otherSlot (slotOf recs)).toNat := by
  rcases slotOf_cases recs with ⟨h, h'⟩ | ⟨h, h'⟩ <;> rw [h', h] <;> decide

namespace Fits

variable {recs : List (List Byte)}

theorem toNat_seq (h : Fits recs) : (sbOf recs).seq.toNat = recs.length + 1 := by
  rw [seq_sbOf, BitVec.toNat_ofNat, Nat.mod_eq_of_lt h.seq]

theorem toNat_logHead (h : Fits recs) : (sbOf recs).logHeadLba.toNat = logHead recs := by
  rw [logHeadLba_sbOf, BitVec.toNat_ofNat, Nat.mod_eq_of_lt h.head]

theorem nil : Fits [] := ⟨by decide, by decide, by simp⟩

theorem of_append {pre post : List (List Byte)} (h : Fits (pre ++ post)) : Fits pre where
  seq := by
    have := h.seq
    simp only [List.length_append] at this
    omega
  head := by
    have := h.head
    simp only [logHead, List.map_append, List.sum_append] at this ⊢
    omega
  len b hb := h.len b (List.mem_append_left _ hb)

end Fits

/-! ### Devices that hold a list -/

/-- The medium shows every extent of the list: its data sectors and the record header behind
them, which points back to the root before it. -/
def Stored (recs : List (List Byte)) (medium : ℕ → Sector) : Prop :=
  ∀ pre b post, recs = pre ++ b :: post →
    (∀ i < ndata b.length, medium (logHead pre + i) = chunk b i) ∧
      medium (logHead pre + ndata b.length)
        = recordHeader (BitVec.ofNat 32 b.length) (fnv1a b) (sbOf pre).rootLba

theorem Stored.congr {recs : List (List Byte)} {m m' : ℕ → Sector} (h : Stored recs m)
    (heq : ∀ x, 2 ≤ x → x < logHead recs → m' x = m x) : Stored recs m' := by
  intro pre b post hrecs
  obtain ⟨hdata, hhdr⟩ := h pre b post hrecs
  have hsplit := logHead_split pre post b
  rw [← hrecs] at hsplit
  have htwo := two_le_logHead pre
  exact ⟨fun i hi => by rw [heq _ (by omega) (by omega), hdata i hi],
    by rw [heq _ (by omega) (by omega), hhdr]⟩

theorem Stored.append {recs : List (List Byte)} {m : ℕ → Sector} (h : Stored recs m)
    {b : List Byte} (hdata : ∀ i < ndata b.length, m (logHead recs + i) = chunk b i)
    (hhdr : m (logHead recs + ndata b.length)
      = recordHeader (BitVec.ofNat 32 b.length) (fnv1a b) (sbOf recs).rootLba) :
    Stored (recs ++ [b]) m := by
  intro pre c post hrecs
  rcases List.eq_nil_or_concat post with rfl | ⟨post, e, rfl⟩
  · obtain ⟨rfl, hbc⟩ := List.append_inj' hrecs rfl
    cases hbc
    exact ⟨hdata, hhdr⟩
  · rw [List.concat_eq_append, ← List.cons_append, ← List.append_assoc] at hrecs
    exact h pre c post (List.append_inj' hrecs rfl).1

/-- A device holds the list: the live slot shows its superblock, the other slot nothing valid or
the superblock before, the log its extents, and only sectors behind the log are cached. -/
structure Holds (recs : List (List Byte)) (d : Device Sector) : Prop where
  /-- The list fits the machine. -/
  fits : Fits recs
  /-- The live slot. -/
  live : checkSuperblock (d.durable (slotOf recs).toNat) = .valid (sbOf recs)
  /-- The other slot. -/
  other : checkSuperblock (d.durable (otherSlot (slotOf recs)).toNat) = .invalid ∨
    ∃ init b, recs = init ++ [b] ∧
      checkSuperblock (d.durable (otherSlot (slotOf recs)).toNat) = .valid (sbOf init)
  /-- The extents. -/
  stored : Stored recs d.durable
  /-- The cache is confined to the sectors behind the log. -/
  cached : ∀ w ∈ d.cache, logHead recs ≤ w.1

/-- A device at rest after a commit, nothing cached and the superblock before it still valid. -/
structure Clean (recs : List (List Byte)) (d : Device Sector) : Prop extends Holds recs d where
  /-- Nothing is cached. -/
  flushed : d.cache = []
  /-- The other slot still shows the superblock before. -/
  previous : ∀ init b, recs = init ++ [b] →
    checkSuperblock (d.durable (otherSlot (slotOf recs)).toNat) = .valid (sbOf init)

/-- The data of a commit is durable and its superblock is the one write in the cache. -/
structure Committing (recs : List (List Byte)) (b : List Byte) (d : Device Sector) : Prop where
  /-- Without that write the device holds the old list. -/
  holds : Holds recs ⟨d.durable, []⟩
  /-- The new list fits. -/
  fits : Fits (recs ++ [b])
  /-- The new extent is durable. -/
  stored : Stored (recs ++ [b]) d.durable
  /-- The superblock is cached. -/
  cache : d.cache = [((otherSlot (slotOf recs)).toNat, ((sbOf recs).commit b).encode)]

/-- What a torn sector can look like: anything, but a torn superblock fails the check. -/
def torn (lba : ℕ) (s : Sector) : Prop := lba < 2 → checkSuperblock s = .invalid

namespace Holds

variable {recs : List (List Byte)} {d : Device Sector}

/-- Below the log head the view is the medium. -/
theorem view_eq (h : Holds recs d) {x : ℕ} (hx : x < logHead recs) : d.view x = d.durable x := by
  refine Device.view_of_not_cached fun w hw heq => ?_
  have := h.cached w hw
  omega

/-- `Holds` depends only on the sectors below the log head. -/
theorem congr (h : Holds recs d) {d' : Device Sector}
    (heq : ∀ x < logHead recs, d'.durable x = d.durable x)
    (hc : ∀ w ∈ d'.cache, logHead recs ≤ w.1) : Holds recs d' where
  fits := h.fits
  live := by
    rw [heq _ ((slotOf_lt recs).trans_le (two_le_logHead recs))]
    exact h.live
  other := by
    rw [heq _ ((otherSlot_lt_two (slotOf recs)).trans_le (two_le_logHead recs))]
    exact h.other
  stored := h.stored.congr fun x _ hx => heq x hx
  cached := hc

/-- A write behind the log changes nothing. -/
theorem write (h : Holds recs d) {lba : ℕ} (hlba : logHead recs ≤ lba) (s : Sector) :
    Holds recs (d.write lba s) :=
  h.congr (fun _ _ => rfl) (by simpa [hlba] using h.cached)

/-- Flushing what is behind the log changes nothing. -/
theorem flush (h : Holds recs d) : Holds recs d.flush :=
  h.congr (fun _ hx => h.view_eq hx) (by simp)

/-- **A power failure behind the log** loses nothing that was committed. -/
theorem crash (h : Holds recs d) {medium : ℕ → Sector} (hl : Landed torn d medium) :
    Holds recs ⟨medium, []⟩ := by
  refine h.congr (fun x hx => hl.eq_of_not_cached fun w hw heq => ?_) (by simp)
  have := h.cached w hw
  omega

/-- The new superblock in the other slot makes the new list the one the device holds. -/
theorem commit (h : Holds recs d) {b : List Byte}
    (hfits : Fits (recs ++ [b])) (hstored : Stored (recs ++ [b]) d.durable) {d' : Device Sector}
    (hcache : d'.cache = [])
    (hslot : d'.durable (otherSlot (slotOf recs)).toNat = ((sbOf recs).commit b).encode)
    (hrest : ∀ x, x ≠ (otherSlot (slotOf recs)).toNat → d'.durable x = d.durable x) :
    Clean (recs ++ [b]) d' := by
  have hother : checkSuperblock (d'.durable (otherSlot (slotOf (recs ++ [b]))).toNat)
      = .valid (sbOf recs) := by
    rw [slotOf_append, otherSlot_otherSlot, hrest _ (slotOf_ne_otherSlot recs)]
    exact h.live
  exact
    { fits := hfits
      live := by rw [slotOf_append, hslot, checkSuperblock_encode, sbOf_append]
      other := Or.inr ⟨recs, b, rfl, hother⟩
      stored := hstored.congr fun x hx _ =>
        hrest x (by have := otherSlot_lt_two (slotOf recs); omega)
      cached := by simp [hcache]
      flushed := hcache
      previous := fun init c hic => by
        rw [← (List.append_inj' hic rfl).1]
        exact hother }

end Holds

namespace Committing

variable {recs : List (List Byte)} {b : List Byte} {d : Device Sector}

/-- The final flush commits. -/
theorem flush (h : Committing recs b d) : Clean (recs ++ [b]) d.flush := by
  refine h.holds.commit h.fits h.stored rfl ?_ fun x hx => ?_
  · simp [Device.view, h.cache]
  · refine Device.view_of_not_cached fun w hw heq => hx ?_
    rw [h.cache, List.mem_singleton] at hw
    rw [← heq, hw]

/-- **A power failure during the flip** leaves the old list or the new one. -/
theorem crash (h : Committing recs b d) {medium : ℕ → Sector} (hl : Landed torn d medium) :
    Holds recs ⟨medium, []⟩ ∨ Holds (recs ++ [b]) ⟨medium, []⟩ := by
  have hrest : ∀ x, x ≠ (otherSlot (slotOf recs)).toNat → medium x = d.durable x := fun x hx => by
    refine hl.eq_of_not_cached fun w hw heq => hx ?_
    rw [h.cache, List.mem_singleton] at hw
    rw [← heq, hw]
  have hlive : checkSuperblock (medium (slotOf recs).toNat) = .valid (sbOf recs) := by
    rw [hrest _ (slotOf_ne_otherSlot recs)]
    exact h.holds.live
  have hstored : Stored recs medium := h.holds.stored.congr fun x hx _ =>
    hrest x (by have := otherSlot_lt_two (slotOf recs); omega)
  rcases hl (otherSlot (slotOf recs)).toNat with hold | ⟨s, hs, hnew⟩
  · -- the flip did not reach the medium
    refine Or.inl ⟨h.holds.fits, hlive, ?_, hstored, by simp⟩
    simpa only [hold] using h.holds.other
  · rw [h.cache, List.mem_singleton] at hs
    rcases hnew with hnew | htorn
    · -- it landed whole
      refine Or.inr (h.holds.commit h.fits h.stored rfl ?_ hrest).toHolds
      exact hnew.trans (congrArg Prod.snd hs)
    · -- it landed torn, and the check refuses it
      exact Or.inl
        ⟨h.holds.fits, hlive, Or.inl (htorn (otherSlot_lt_two (slotOf recs))), hstored, by simp⟩

end Committing

/-- The superblock of an unanswered commit is what the next mount adopts, and it is in the view of
the device: durable, or the one write in the cache. -/
structure Flipped (recs : List (List Byte)) (b : List Byte) (d : Device Sector) : Prop where
  /-- The new list fits. -/
  fits : Fits (recs ++ [b])
  /-- The old superblock. -/
  old : checkSuperblock (d.view (slotOf recs).toNat) = .valid (sbOf recs)
  /-- The new superblock. -/
  new : checkSuperblock (d.view (otherSlot (slotOf recs)).toNat) = .valid (sbOf (recs ++ [b]))

theorem Committing.flipped {recs : List (List Byte)} {b : List Byte} {d : Device Sector}
    (h : Committing recs b d) : Flipped recs b d := by
  have hclean := h.flush
  refine ⟨h.fits, ?_, ?_⟩
  · have hprev := hclean.previous recs b rfl
    rwa [slotOf_append, otherSlot_otherSlot] at hprev
  · have hlive := hclean.live
    rwa [slotOf_append] at hlive

theorem Clean.flipped {recs : List (List Byte)} {b : List Byte} {d : Device Sector}
    (h : Clean (recs ++ [b]) d) : Flipped recs b d := by
  have hview := Device.view_of_cache_nil h.flushed
  refine ⟨h.fits, ?_, ?_⟩
  · have hprev := h.previous recs b rfl
    rw [slotOf_append, otherSlot_otherSlot] at hprev
    rw [hview]
    exact hprev
  · have hlive := h.live
    rw [slotOf_append] at hlive
    rw [hview]
    exact hlive

end Cairn
