import Mathlib.Data.List.Basic
import Mathlib.Tactic.Common

/-!
# Programs on a block device with a write cache

A block device is a durable array of sectors and the sector writes it has accepted but not yet
made durable. A *flush* makes every earlier write durable. When the power fails, each sector keeps
its durable contents or takes the contents of one of the writes still in the cache, whole or torn.

Programs on such a device are trees of block operations. The device may report a failure; a failed
write or flush may still have taken effect, and a program sees only the report. A list of outcomes
says how the operations of a run go, in order; where the list ends, operations succeed.

`Spec` is the specification of a program in the style of crash Hoare logic: one condition for
every device the program passes through, any of which a power failure may leave behind, and one
for its result. There is one rule for each operation and one for sequencing.

Nothing here knows what a sector is or what the programs are for.

## Main definitions

* `Block.Device`, `Block.Device.view`, `Block.Landed` — the device and what a crash leaves
* `Block.Prog`, `Block.run`, `Block.Visits` — programs, their results, the devices they pass
* `Block.writes` — the sectors a program writes
* `Block.Spec` — crash specifications

## Main results

* `Block.view_run_of_not_mem` — a program changes only what it writes
* `Block.Spec.ret`, `Block.Spec.read`, `Block.Spec.write`, `Block.Spec.flush`, `Block.Spec.bind`
-/

namespace Cairn

namespace Block

variable {S α β : Type}

/-- A durable array of sectors, and the accepted writes that are not durable yet, latest first. -/
structure Device (S : Type) where
  /-- The sectors on the medium. -/
  durable : ℕ → S
  /-- The unflushed writes, latest first. -/
  cache : List (ℕ × S)

namespace Device

/-- The contents a read returns: the latest write, or the medium. -/
def view (d : Device S) (lba : ℕ) : S :=
  match d.cache.find? fun w => w.1 = lba with
  | some w => w.2
  | none => d.durable lba

/-- Accept a write. -/
def write (d : Device S) (lba : ℕ) (s : S) : Device S := { d with cache := (lba, s) :: d.cache }

/-- Make every earlier write durable. -/
def flush (d : Device S) : Device S := ⟨d.view, []⟩

@[simp] theorem durable_write (d : Device S) (lba : ℕ) (s : S) :
    (d.write lba s).durable = d.durable := rfl

@[simp] theorem cache_write (d : Device S) (lba : ℕ) (s : S) :
    (d.write lba s).cache = (lba, s) :: d.cache := rfl

@[simp] theorem durable_flush (d : Device S) : d.flush.durable = d.view := rfl

@[simp] theorem cache_flush (d : Device S) : d.flush.cache = [] := rfl

theorem view_write (d : Device S) (lba x : ℕ) (s : S) :
    (d.write lba s).view x = if x = lba then s else d.view x := by
  simp only [view]
  by_cases h : x = lba
  · simp [h]
  · simp [h, Ne.symm h]

@[simp] theorem view_flush (d : Device S) : d.flush.view = d.view := rfl

theorem view_of_cache_nil {d : Device S} (h : d.cache = []) : d.view = d.durable := by
  funext x
  simp [view, h]

/-- A sector no cached write is for is read from the medium. -/
theorem view_of_not_cached {d : Device S} {lba : ℕ} (h : ∀ w ∈ d.cache, w.1 ≠ lba) :
    d.view lba = d.durable lba := by
  have hnone : d.cache.find? (fun w => w.1 = lba) = none :=
    List.find?_eq_none.mpr fun w hw => by simpa using h w hw
  rw [view, hnone]

end Device

/-- What a power failure may leave on the medium: every sector keeps its durable contents, or
takes one of the unflushed writes for it, whole or as something a torn write can look like. -/
def Landed (torn : ℕ → S → Prop) (d : Device S) (medium : ℕ → S) : Prop :=
  ∀ lba, medium lba = d.durable lba ∨
    ∃ s, (lba, s) ∈ d.cache ∧ (medium lba = s ∨ torn lba (medium lba))

theorem landed_durable (torn : ℕ → S → Prop) (d : Device S) : Landed torn d d.durable :=
  fun _ => Or.inl rfl

/-- A sector no cached write is for keeps its contents. -/
theorem Landed.eq_of_not_cached {torn : ℕ → S → Prop} {d : Device S} {medium : ℕ → S}
    (h : Landed torn d medium) {lba : ℕ} (hc : ∀ w ∈ d.cache, w.1 ≠ lba) :
    medium lba = d.durable lba := by
  rcases h lba with h | ⟨s, hs, -⟩
  · exact h
  · exact absurd rfl (hc _ hs)

/-- How a block operation goes. -/
inductive Outcome
  /-- It succeeds. -/
  | ok
  /-- It reports a failure, having taken effect or not. -/
  | failed (effect : Bool)
deriving DecidableEq, Repr

/-- Programs of block operations. A read answers the sector, or nothing if it failed; writes and
flushes answer whether they succeeded. -/
inductive Prog (S α : Type)
  /-- The result. -/
  | ret (a : α)
  /-- Read a sector. -/
  | read (lba : ℕ) (k : Option S → Prog S α)
  /-- Write a sector. -/
  | write (lba : ℕ) (s : S) (k : Bool → Prog S α)
  /-- Flush the cache. -/
  | flush (k : Bool → Prog S α)

/-- Sequencing. -/
def Prog.bind : Prog S α → (α → Prog S β) → Prog S β
  | .ret a, f => f a
  | .read lba k, f => .read lba fun r => (k r).bind f
  | .write lba s k, f => .write lba s fun r => (k r).bind f
  | .flush k, f => .flush fun r => (k r).bind f

instance : Monad (Prog S) where
  pure := .ret
  bind := .bind

/-- The program that reads one sector. -/
def readSector (lba : ℕ) : Prog S (Option S) := .read lba .ret

/-- The program that writes one sector. -/
def writeSector (lba : ℕ) (s : S) : Prog S Bool := .write lba s .ret

/-- The program that flushes. -/
def flush : Prog S Bool := .flush .ret

/-- The answer of a read. -/
def Outcome.onRead (o : Outcome) (d : Device S) (lba : ℕ) : Option S :=
  match o with
  | .ok => some (d.view lba)
  | .failed _ => none

/-- The report of a write or a flush. -/
def Outcome.report : Outcome → Bool
  | .ok => true
  | .failed _ => false

/-- The device after an operation that may fail. -/
def Outcome.effect (o : Outcome) (d d' : Device S) : Device S :=
  match o with
  | .ok => d'
  | .failed true => d'
  | .failed false => d

/-- The result of a program, the device it leaves and the outcomes it has not used. -/
def run (o : List Outcome) : Prog S α → Device S → α × Device S × List Outcome
  | .ret a, d => (a, d, o)
  | .read lba k, d => run o.tail (k ((o.headD .ok).onRead d lba)) d
  | .write lba s k, d =>
    run o.tail (k (o.headD .ok).report) ((o.headD .ok).effect d (d.write lba s))
  | .flush k, d => run o.tail (k (o.headD .ok).report) ((o.headD .ok).effect d d.flush)

/-- The devices a program passes through, one before each operation and one at the end. -/
def Visits (o : List Outcome) : Prog S α → Device S → Device S → Prop
  | .ret _, d, d' => d' = d
  | .read lba k, d, d' => d' = d ∨ Visits o.tail (k ((o.headD .ok).onRead d lba)) d d'
  | .write lba s k, d, d' => d' = d ∨
    Visits o.tail (k (o.headD .ok).report) ((o.headD .ok).effect d (d.write lba s)) d'
  | .flush k, d, d' => d' = d ∨
    Visits o.tail (k (o.headD .ok).report) ((o.headD .ok).effect d d.flush) d'

theorem run_bind (o : List Outcome) (p : Prog S α) (f : α → Prog S β) (d : Device S) :
    run o (p >>= f) d = run (run o p d).2.2 (f (run o p d).1) (run o p d).2.1 := by
  change run o (p.bind f) d = _
  induction p generalizing o d with
  | ret a => rfl
  | read lba k ih => exact ih _ _ _
  | write lba s k ih => exact ih _ _ _
  | flush k ih => exact ih _ _ _

theorem run_readSector_bind (o : List Outcome) (lba : ℕ) (f : Option S → Prog S β)
    (d : Device S) :
    run o (readSector lba >>= f) d = run o.tail (f ((o.headD .ok).onRead d lba)) d := rfl

theorem visits_bind (o : List Outcome) (p : Prog S α) (f : α → Prog S β) (d d' : Device S) :
    Visits o (p >>= f) d d' →
      Visits o p d d' ∨ Visits (run o p d).2.2 (f (run o p d).1) (run o p d).2.1 d' := by
  change Visits o (p.bind f) d d' → _
  induction p generalizing o d with
  | ret a => exact Or.inr
  | read lba k ih =>
    rintro (h | h)
    · exact Or.inl (Or.inl h)
    · exact (ih _ _ _ h).imp Or.inr id
  | write lba s k ih =>
    rintro (h | h)
    · exact Or.inl (Or.inl h)
    · exact (ih _ _ _ h).imp Or.inr id
  | flush k ih =>
    rintro (h | h)
    · exact Or.inl (Or.inl h)
    · exact (ih _ _ _ h).imp Or.inr id

/-- A program passes through the devices its second part passes through. -/
theorem visits_bind_right {o : List Outcome} {p : Prog S α} {f : α → Prog S β} {d d' : Device S}
    (h : Visits (run o p d).2.2 (f (run o p d).1) (run o p d).2.1 d') :
    Visits o (p >>= f) d d' := by
  change Visits o (p.bind f) d d'
  induction p generalizing o d with
  | ret a => exact h
  | read lba k ih => exact Or.inr (ih _ h)
  | write lba s k ih => exact Or.inr (ih _ h)
  | flush k ih => exact Or.inr (ih _ h)

/-- A program passes through the device it starts from. -/
theorem visits_start (o : List Outcome) (p : Prog S α) (d : Device S) : Visits o p d d := by
  cases p with
  | ret a => rfl
  | read lba k => exact Or.inl rfl
  | write lba s k => exact Or.inl rfl
  | flush k => exact Or.inl rfl

/-- A program passes through the device it leaves. -/
theorem visits_run (o : List Outcome) (p : Prog S α) (d : Device S) :
    Visits o p d (run o p d).2.1 := by
  induction p generalizing o d with
  | ret a => rfl
  | read lba k ih => exact Or.inr (ih _ _ _)
  | write lba s k ih => exact Or.inr (ih _ _ _)
  | flush k ih => exact Or.inr (ih _ _ _)

/-! ### The sectors a program writes -/

/-- The sectors a program writes when no operation fails, in order. -/
def writes : Prog S α → Device S → List ℕ
  | .ret _, _ => []
  | .read lba k, d => writes (k (some (d.view lba))) d
  | .write lba s k, d => lba :: writes (k true) (d.write lba s)
  | .flush k, d => writes (k true) d.flush

@[simp] theorem writes_pure (a : α) (d : Device S) : writes (pure a : Prog S α) d = [] := rfl

theorem writes_bind (p : Prog S α) (f : α → Prog S β) (d : Device S) :
    writes (p >>= f) d = writes p d ++ writes (f (run [] p d).1) (run [] p d).2.1 := by
  change writes (p.bind f) d = _
  induction p generalizing d with
  | ret a => rfl
  | read lba k ih => exact ih _ _
  | write lba s k ih => exact congrArg (lba :: ·) (ih _ _)
  | flush k ih => exact ih _ _

/-- A run that no operation fails in needs no outcomes. -/
@[simp] theorem run_nil_outcomes (p : Prog S α) (d : Device S) : (run [] p d).2.2 = [] := by
  induction p generalizing d with
  | ret a => rfl
  | read lba k ih => exact ih _ _
  | write lba s k ih => exact ih _ _
  | flush k ih => exact ih _ _

/-- **The frame rule**: a sector that is not written reads the same afterwards. -/
theorem view_run_of_not_mem {p : Prog S α} {d : Device S} {x : ℕ} (h : x ∉ writes p d) :
    (run [] p d).2.1.view x = d.view x := by
  induction p generalizing d with
  | ret a => rfl
  | read lba k ih => exact ih _ h
  | write lba s k ih =>
    obtain ⟨hne, hrest⟩ := not_or.mp (mt List.mem_cons.mpr h)
    exact (ih true hrest).trans ((d.view_write lba x s).trans (if_neg hne))
  | flush k ih => exact ih _ h

/-! ### Crash specifications -/

/-- Run with the outcomes `o` from `d`, the program passes only through devices in `C`, and its
result, device and remaining outcomes satisfy `Q`. -/
def Spec (o : List Outcome) (p : Prog S α) (d : Device S) (C : Device S → Prop)
    (Q : α → Device S → List Outcome → Prop) : Prop :=
  (∀ d', Visits o p d d' → C d') ∧ Q (run o p d).1 (run o p d).2.1 (run o p d).2.2

namespace Spec

variable {o : List Outcome} {d : Device S} {C C' : Device S → Prop}
  {Q : α → Device S → List Outcome → Prop} {R : β → Device S → List Outcome → Prop}

theorem ret {a : α} (hc : C d) (hq : Q a d o) : Spec o (pure a : Prog S α) d C Q :=
  ⟨fun _ h => h ▸ hc, hq⟩

theorem read {lba : ℕ} {Q : Option S → Device S → List Outcome → Prop} (hc : C d)
    (hq : Q ((o.headD .ok).onRead d lba) d o.tail) : Spec o (readSector lba) d C Q :=
  ⟨fun _ h => h.elim (fun h => h ▸ hc) (fun h => h ▸ hc), hq⟩

theorem write {lba : ℕ} {s : S} {Q : Bool → Device S → List Outcome → Prop} (hc : C d)
    (hc' : C ((o.headD .ok).effect d (d.write lba s)))
    (hq : Q (o.headD .ok).report ((o.headD .ok).effect d (d.write lba s)) o.tail) :
    Spec o (writeSector lba s) d C Q :=
  ⟨fun _ h => h.elim (fun h => h ▸ hc) (fun h => h ▸ hc'), hq⟩

theorem flush {Q : Bool → Device S → List Outcome → Prop} (hc : C d)
    (hc' : C ((o.headD .ok).effect d d.flush))
    (hq : Q (o.headD .ok).report ((o.headD .ok).effect d d.flush) o.tail) :
    Spec o Block.flush d C Q :=
  ⟨fun _ h => h.elim (fun h => h ▸ hc) (fun h => h ▸ hc'), hq⟩

/-- **Sequencing.** -/
theorem bind {p : Prog S α} {f : α → Prog S β}
    (h : Spec o p d C fun a d' o' => Spec o' (f a) d' C R) : Spec o (p >>= f) d C R := by
  refine ⟨fun d' hv => ?_, ?_⟩
  · rcases visits_bind _ _ _ _ _ hv with hv | hv
    · exact h.1 _ hv
    · exact h.2.1 _ hv
  · rw [run_bind]
    exact h.2.2

theorem mono {Q' : α → Device S → List Outcome → Prop} {p : Prog S α} (h : Spec o p d C Q)
    (hc : ∀ d', C d' → C' d') (hq : ∀ a d' o', Q a d' o' → Q' a d' o') : Spec o p d C' Q' :=
  ⟨fun d' hv => hc d' (h.1 d' hv), hq _ _ _ h.2⟩

end Spec

end Block

end Cairn
