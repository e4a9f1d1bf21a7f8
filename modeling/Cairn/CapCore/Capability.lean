import Mathlib.Data.BitVec
import Mathlib.Logic.Function.Basic

/-!
# Capability entries and rights

`crates/cap-core/src/capability.rs`. A capability is a kernel-side slot value of five fields:
the object it names, the rights it carries, the epoch it was minted at, the kind of the object,
and a badge. `Rights` is a `bitflags` type over `u16`, kept here as its bit pattern, with the
operations the kernel uses (`contains`, `&`, `remove`, `all`) as that crate documents them.

Fixed-width fields are bit vectors of their own width. `object_id` is a `u64` of which small
values only are ever handed out; it is a natural number here.

## Main definitions

* `Rights`, with `Rights.contains`, `Rights.inter`, `Rights.remove`, `Rights.all`
* `ObjectKind` — the 16-bit kind tag and its twelve named values
* `CapEntry` — one table entry
-/

namespace Cairn

/-- A set of rights, as the `u16` bit pattern of the `bitflags` type. -/
@[ext]
structure Rights where
  /-- The bit pattern. -/
  bits : BitVec 16
  deriving DecidableEq, Repr

namespace Rights

/-- No right at all, `Rights::empty()`. -/
def empty : Rights := ⟨0⟩

def read : Rights := ⟨1#16 <<< 0⟩

def write : Rights := ⟨1#16 <<< 1⟩

def invoke : Rights := ⟨1#16 <<< 2⟩

def delegate : Rights := ⟨1#16 <<< 3⟩

def revoke : Rights := ⟨1#16 <<< 4⟩

def map : Rights := ⟨1#16 <<< 5⟩

def grantCap : Rights := ⟨1#16 <<< 6⟩

/-- `a | b`. -/
def union (a b : Rights) : Rights := ⟨a.bits ||| b.bits⟩

/-- `a & b`. -/
def inter (a b : Rights) : Rights := ⟨a.bits &&& b.bits⟩

/-- `a.remove(b)`: the bits of `b` are cleared. -/
def remove (a b : Rights) : Rights := ⟨a.bits &&& ~~~b.bits⟩

/-- `a.contains(b)`: every bit of `b` is set in `a`. -/
def contains (a b : Rights) : Bool := a.bits &&& b.bits == b.bits

/-- `Rights::all()`, the union of the eight named rights. Bits 8 to 15 are reserved and unnamed. -/
def all : Rights := ⟨0x00ff⟩

instance : Max Rights := ⟨union⟩

instance : Min Rights := ⟨inter⟩

/-- `a` grants nothing that `b` does not. -/
instance : LE Rights := ⟨fun a b => b.contains a⟩

instance : DecidableLE Rights := fun a b => inferInstanceAs (Decidable (b.contains a = true))

theorem le_iff_contains {a b : Rights} : a ≤ b ↔ b.contains a = true := Iff.rfl

theorem le_iff {a b : Rights} : a ≤ b ↔ ∀ i, a.bits.getLsbD i = true → b.bits.getLsbD i = true := by
  rw [le_iff_contains, contains, beq_iff_eq]
  constructor
  · intro h i hi
    rw [← h, BitVec.getLsbD_and, Bool.and_eq_true] at hi
    exact hi.1
  · intro h
    refine BitVec.eq_of_getLsbD_eq fun i _ => ?_
    rw [BitVec.getLsbD_and]
    cases ha : a.bits.getLsbD i with
    | false => rw [Bool.and_false]
    | true => rw [h i ha, Bool.true_and]

instance : PartialOrder Rights where
  le_refl a := le_iff.mpr fun _ h => h
  le_trans a b c hab hbc := le_iff.mpr fun i h => le_iff.mp hbc i (le_iff.mp hab i h)
  le_antisymm a b hab hba := by
    refine Rights.ext (BitVec.eq_of_getLsbD_eq fun i _ => ?_)
    rw [Bool.eq_iff_iff]
    exact ⟨le_iff.mp hab i, le_iff.mp hba i⟩

/-- Masking never amplifies. -/
theorem inter_le_left (a b : Rights) : a.inter b ≤ a := by
  refine le_iff.mpr fun i h => ?_
  rw [inter, BitVec.getLsbD_and, Bool.and_eq_true] at h
  exact h.1

theorem remove_le (a b : Rights) : a.remove b ≤ a := by
  refine le_iff.mpr fun i h => ?_
  rw [remove, BitVec.getLsbD_and, Bool.and_eq_true] at h
  exact h.1

/-- Masking with a superset changes nothing. -/
theorem inter_eq_left {a b : Rights} (h : a ≤ b) : a.inter b = a := by
  refine Rights.ext ?_
  rw [le_iff_contains, contains, beq_iff_eq, BitVec.and_comm] at h
  exact h

/-- A cleared right stays cleared in every subset. -/
theorem not_contains_delegate_remove (a : Rights) :
    (a.remove delegate).contains delegate = false := by
  rw [contains, beq_eq_false_iff_ne]
  intro h
  have h3 := congrArg (fun v : BitVec 16 => v.getLsbD 3) h
  simp [remove, delegate] at h3

end Rights

def Rights.seal : Rights := ⟨1#16 <<< 7⟩

/-- An object's kind: a newtype over `u16` in the source, so the space is open and the twelve
named values are constants. -/
structure ObjectKind where
  raw : BitVec 16
  deriving DecidableEq, Repr

namespace ObjectKind

def null : ObjectKind := ⟨0⟩

def untyped : ObjectKind := ⟨1⟩

def memory : ObjectKind := ⟨2⟩

def addressSpace : ObjectKind := ⟨3⟩

def domain : ObjectKind := ⟨4⟩

def endpoint : ObjectKind := ⟨5⟩

def notification : ObjectKind := ⟨6⟩

def timeSlice : ObjectKind := ⟨7⟩

def extent : ObjectKind := ⟨8⟩

def deviceQueue : ObjectKind := ⟨9⟩

def capTable : ObjectKind := ⟨10⟩

def irqHandler : ObjectKind := ⟨11⟩

end ObjectKind

/-- A capability table entry. -/
structure CapEntry where
  objectId : ℕ
  rights : Rights
  epoch : BitVec 32
  typeTag : ObjectKind
  badge : BitVec 16
  deriving DecidableEq, Repr

end Cairn
