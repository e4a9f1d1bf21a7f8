import Mathlib.Data.Set.Function
import Cairn.CapCore.Capability

/-!
# The 128-bit capability word

`CapEntry::encode` and `CapEntry::decode` of `crates/cap-core/src/capability.rs`: five fields side
by side in a `u128`, the object id in 48 bits and masked to them, the rights in 16 bits of which
the decoder keeps the eight named ones.

Everything is read off two lemmas, what each bit of an encoded word is (`getLsbD_encode`) and what
each bit of a decoded field is (`getLsbD_field`). The two functions are inverse to each other
between the entries that fit the layout (`CapEntry.Encodable`) and the words whose reserved rights
bits are clear.

## Main definitions

* `CapEntry.encode`, `CapEntry.decode`, `Rights.fromBitsTruncate`
* `CapEntry.Encodable` — a 48-bit object id and named rights only
* `reservedBits` — bits 56 to 63

## Main results

* `encode_decode` — the codec, in both directions
-/

namespace Cairn

/-- `Rights::from_bits_truncate`: the named bits, and no other. -/
def Rights.fromBitsTruncate (bits : BitVec 16) : Rights := ⟨bits &&& Rights.all.bits⟩

/-- Bits 56 to 63 of the word, the reserved half of the rights. -/
def reservedBits : BitVec 128 := 0xff#128 <<< 56

namespace CapEntry

/-- `CapEntry::encode`. -/
def encode (e : CapEntry) : BitVec 128 :=
  let oid := (BitVec.ofNat 64 e.objectId &&& 0x0000ffffffffffff#64).setWidth 128
  let r := e.rights.bits.setWidth 128 <<< 48
  let ep := e.epoch.setWidth 128 <<< 64
  let tt := e.typeTag.raw.setWidth 128 <<< 96
  let bd := e.badge.setWidth 128 <<< 112
  oid ||| r ||| ep ||| tt ||| bd

/-- `CapEntry::decode`. -/
def decode (val : BitVec 128) : CapEntry where
  objectId := ((val &&& 0x0000ffffffffffff#128).setWidth 64).toNat
  rights := .fromBitsTruncate (((val >>> 48) &&& 0xffff#128).setWidth 16)
  epoch := ((val >>> 64) &&& 0xffffffff#128).setWidth 32
  typeTag := ⟨((val >>> 96) &&& 0xffff#128).setWidth 16⟩
  badge := ((val >>> 112) &&& 0xffff#128).setWidth 16

/-- The entry fits the layout: its object id has 48 bits, and it carries named rights only. -/
structure Encodable (e : CapEntry) : Prop where
  objectId : e.objectId < 2 ^ 48
  rights : e.rights ≤ .all

/-! ### Bits -/

/-- What each bit of an encoded word is. -/
theorem getLsbD_encode (e : CapEntry) {i : ℕ} (hi : i < 128) :
    e.encode.getLsbD i =
      if i < 48 then e.objectId.testBit i
      else if i < 64 then e.rights.bits.getLsbD (i - 48)
      else if i < 96 then e.epoch.getLsbD (i - 64)
      else if i < 112 then e.typeTag.raw.getLsbD (i - 96)
      else e.badge.getLsbD (i - 112) := by
  have hmask : 0x0000ffffffffffff#64 = BitVec.ofNat 64 (2 ^ 48 - 1) := rfl
  simp only [encode, hmask, BitVec.getLsbD_or, BitVec.getLsbD_and, BitVec.getLsbD_setWidth,
    BitVec.getLsbD_shiftLeft, BitVec.getLsbD_ofNat, Nat.testBit_two_pow_sub_one, hi]
  -- one field is the bit of the word, the others are shifted past it
  grind

/-- What each bit of a field is that `decode` shifts down, masks and narrows. -/
theorem getLsbD_field (v : BitVec 128) (o : ℕ) {w n : ℕ} (hw : w ≤ n) (hn : n ≤ 128) (i : ℕ) :
    (((v >>> o) &&& BitVec.ofNat 128 (2 ^ w - 1)).setWidth n).getLsbD i
      = (decide (i < w) && v.getLsbD (o + i)) := by
  simp only [BitVec.getLsbD_setWidth, BitVec.getLsbD_and, BitVec.getLsbD_ushiftRight,
    BitVec.getLsbD_ofNat, Nat.testBit_two_pow_sub_one]
  by_cases hi : i < w
  · have hin : i < n := by omega
    have hi128 : i < 128 := by omega
    simp [hi, hin, hi128]
  · simp [hi]

/-- What the fields of a decoded word are, bit by bit. -/
theorem testBit_objectId_decode (v : BitVec 128) (i : ℕ) :
    (decode v).objectId.testBit i = (decide (i < 48) && v.getLsbD i) := by
  have h := getLsbD_field v 0 (w := 48) (n := 64) (by decide) (by decide) i
  rw [BitVec.ushiftRight_zero, Nat.zero_add] at h
  exact h

theorem getLsbD_rights_decode (v : BitVec 128) {i : ℕ} (hi : i < 16) :
    (decode v).rights.bits.getLsbD i = (decide (i < 8) && v.getLsbD (48 + i)) := by
  have h := getLsbD_field v 48 (w := 16) (n := 16) (by decide) (by decide) i
  have hall : Rights.all.bits = BitVec.ofNat 16 (2 ^ 8 - 1) := rfl
  rw [decode, Rights.fromBitsTruncate, BitVec.getLsbD_and, hall, BitVec.getLsbD_ofNat,
    Nat.testBit_two_pow_sub_one, show 0xffff#128 = BitVec.ofNat 128 (2 ^ 16 - 1) from rfl, h]
  by_cases h8 : i < 8
  · simp [hi, h8]
  · simp [h8]

theorem getLsbD_epoch_decode (v : BitVec 128) {i : ℕ} (hi : i < 32) :
    (decode v).epoch.getLsbD i = v.getLsbD (64 + i) := by
  have h := getLsbD_field v 64 (w := 32) (n := 32) (by decide) (by decide) i
  rwa [decide_eq_true hi, Bool.true_and] at h

theorem getLsbD_typeTag_decode (v : BitVec 128) {i : ℕ} (hi : i < 16) :
    (decode v).typeTag.raw.getLsbD i = v.getLsbD (96 + i) := by
  have h := getLsbD_field v 96 (w := 16) (n := 16) (by decide) (by decide) i
  rwa [decide_eq_true hi, Bool.true_and] at h

theorem getLsbD_badge_decode (v : BitVec 128) {i : ℕ} (hi : i < 16) :
    (decode v).badge.getLsbD i = v.getLsbD (112 + i) := by
  have h := getLsbD_field v 112 (w := 16) (n := 16) (by decide) (by decide) i
  rwa [decide_eq_true hi, Bool.true_and] at h

/-! ### The two directions -/

/-- Decoding gives back an entry that fits. -/
theorem Encodable.decode_encode {e : CapEntry} (h : e.Encodable) : decode e.encode = e := by
  have hoid : (decode e.encode).objectId = e.objectId := by
    refine Nat.eq_of_testBit_eq fun i => ?_
    rw [testBit_objectId_decode]
    by_cases hi : i < 48
    · rw [getLsbD_encode e (by omega), if_pos hi, decide_eq_true hi, Bool.true_and]
    · rw [decide_eq_false hi, Bool.false_and]
      have hlt := h.objectId.trans_le (Nat.pow_le_pow_right Nat.zero_lt_two (Nat.not_lt.mp hi))
      exact (Nat.testBit_lt_two_pow hlt).symm
  have hrights : (decode e.encode).rights = e.rights := by
    refine Rights.ext (BitVec.eq_of_getLsbD_eq fun i hi => ?_)
    rw [getLsbD_rights_decode _ hi, getLsbD_encode e (by omega), if_neg (by omega),
      if_pos (by omega), Nat.add_sub_cancel_left]
    by_cases h8 : i < 8
    · rw [decide_eq_true h8, Bool.true_and]
    · -- a right that is not named is not there
      rw [decide_eq_false h8, Bool.false_and]
      by_contra hbit
      have hall := Rights.le_iff.mp h.rights i (Bool.eq_true_of_not_eq_false (Ne.symm hbit))
      rw [show Rights.all.bits = BitVec.ofNat 16 (2 ^ 8 - 1) from rfl, BitVec.getLsbD_ofNat,
        Nat.testBit_two_pow_sub_one, decide_eq_false h8, Bool.and_false] at hall
      cases hall
  have hepoch : (decode e.encode).epoch = e.epoch := by
    refine BitVec.eq_of_getLsbD_eq fun i hi => ?_
    rw [getLsbD_epoch_decode _ hi, getLsbD_encode e (by omega), if_neg (by omega),
      if_neg (by omega), if_pos (by omega), Nat.add_sub_cancel_left]
  have htag : (decode e.encode).typeTag.raw = e.typeTag.raw := by
    refine BitVec.eq_of_getLsbD_eq fun i hi => ?_
    rw [getLsbD_typeTag_decode _ hi, getLsbD_encode e (by omega), if_neg (by omega),
      if_neg (by omega), if_neg (by omega), if_pos (by omega), Nat.add_sub_cancel_left]
  have hbadge : (decode e.encode).badge = e.badge := by
    refine BitVec.eq_of_getLsbD_eq fun i hi => ?_
    rw [getLsbD_badge_decode _ hi, getLsbD_encode e (by omega), if_neg (by omega),
      if_neg (by omega), if_neg (by omega), if_neg (by omega), Nat.add_sub_cancel_left]
  obtain ⟨oid, r, ep, ⟨tt⟩, bd⟩ := e
  rw [mk.injEq, ObjectKind.mk.injEq]
  exact ⟨hoid, hrights, hepoch, htag, hbadge⟩

theorem getLsbD_reservedBits {i : ℕ} (hi : i < 128) :
    reservedBits.getLsbD i = (decide (56 ≤ i) && decide (i < 64)) := by
  rw [reservedBits, show 0xff#128 = BitVec.ofNat 128 (2 ^ 8 - 1) from rfl,
    BitVec.getLsbD_shiftLeft, BitVec.getLsbD_ofNat, Nat.testBit_two_pow_sub_one]
  grind

/-- Encoding gives back a word up to its reserved bits. -/
theorem encode_decode_eq (v : BitVec 128) : (decode v).encode = v &&& ~~~reservedBits := by
  refine BitVec.eq_of_getLsbD_eq fun i hi => ?_
  rw [getLsbD_encode _ hi, BitVec.getLsbD_and, BitVec.getLsbD_not, getLsbD_reservedBits hi,
    testBit_objectId_decode]
  split
  · rename_i h48
    simp [h48, hi, show ¬ 56 ≤ i by omega]
  split
  · rename_i h48 h64
    rw [getLsbD_rights_decode _ (by omega), Nat.add_sub_cancel' (by omega)]
    by_cases h56 : 56 ≤ i
    · simp [h56, h64, show ¬ i - 48 < 8 by omega]
    · simp [h56, hi, show i - 48 < 8 by omega]
  -- past the rights nothing is reserved
  have hreserved : ∀ b : Bool,
      b = (b && (decide (i < 128) && !(decide (56 ≤ i) && decide (i < 64)))) := by
    rename_i h64
    simp [hi, h64]
  split
  · rw [getLsbD_epoch_decode _ (by omega), Nat.add_sub_cancel' (by omega)]
    exact hreserved _
  split
  · rw [getLsbD_typeTag_decode _ (by omega), Nat.add_sub_cancel' (by omega)]
    exact hreserved _
  · rw [getLsbD_badge_decode _ (by omega), Nat.add_sub_cancel' (by omega)]
    exact hreserved _

/-- A decoded entry fits the layout. -/
theorem encodable_decode (v : BitVec 128) : (decode v).Encodable where
  objectId := by
    refine Nat.lt_pow_two_of_testBit _ fun i hi => ?_
    rw [testBit_objectId_decode, decide_eq_false (Nat.not_lt.mpr hi), Bool.false_and]
  rights := by
    refine Rights.le_iff.mpr fun i hi => ?_
    rw [decode, Rights.fromBitsTruncate, BitVec.getLsbD_and, Bool.and_eq_true] at hi
    exact hi.2

/-- The words encoding can give back. -/
theorem and_reservedBits_eq_zero_iff (v : BitVec 128) :
    v &&& reservedBits = 0 ↔ v &&& ~~~reservedBits = v := by
  constructor
  · intro h
    refine BitVec.eq_of_getLsbD_eq fun i hi => ?_
    have hbit := congrArg (BitVec.getLsbD · i) h
    rw [BitVec.getLsbD_and, BitVec.getLsbD_not, decide_eq_true hi, Bool.true_and]
    cases hv : v.getLsbD i with
    | false => rfl
    | true => simpa [hv] using hbit
  · intro h
    rw [← h, BitVec.and_assoc, BitVec.not_and_self]
    exact BitVec.and_zero

end CapEntry

/-- **The capability codec.** Decoding undoes encoding on the entries that fit the layout, and
encoding undoes decoding up to the reserved rights bits; so encoding is one to one on those
entries, and its values are exactly the words whose reserved bits are clear. -/
theorem encode_decode :
    (∀ e : CapEntry, e.Encodable → CapEntry.decode e.encode = e) ∧
      (∀ v : BitVec 128, (CapEntry.decode v).encode = v &&& ~~~reservedBits) ∧
      Set.InjOn CapEntry.encode {e | e.Encodable} ∧
      CapEntry.encode '' {e | e.Encodable} = {v | v &&& reservedBits = 0} := by
  have hleft : ∀ e : CapEntry, e.Encodable → CapEntry.decode e.encode = e :=
    fun e h => h.decode_encode
  refine ⟨hleft, CapEntry.encode_decode_eq, fun e he e' he' heq => ?_, ?_⟩
  · rw [← hleft e he, heq, hleft e' he']
  · ext v
    constructor
    · rintro ⟨e, he, rfl⟩
      refine (CapEntry.and_reservedBits_eq_zero_iff _).mpr ?_
      rw [← CapEntry.encode_decode_eq, hleft e he]
    · intro hv
      refine ⟨CapEntry.decode v, CapEntry.encodable_decode v, ?_⟩
      rw [CapEntry.encode_decode_eq]
      exact (CapEntry.and_reservedBits_eq_zero_iff v).mp hv

end Cairn
