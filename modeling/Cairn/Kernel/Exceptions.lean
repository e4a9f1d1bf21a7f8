import Cairn.Kernel.Parking

/-!
# Exceptions

`kernel/src/interrupts.rs`: which gates of the IDT are set, and what their handlers do. The
handlers of #UD, #GP and #PF terminate a ring-3 task. The other exceptions a ring-3 instruction
can raise (a division by zero, a stack fault, an alignment check, a single step) have no gate. The
CPU then raises #NP, which has no gate either, and ends in the handler of #DF, which halts the
machine.

Three rules of the CPU are part of the model. An exception without a gate is delivered as #NP. A
#NP without a gate becomes #DF. A software interrupt through a gate of a lower privilege level
becomes #GP, and a gate that was never set has level 0.

A machine is a kernel, or nothing once it has halted. Its steps are those of the kernel and the
exceptions of ring-3 tasks.

## Main definitions

* `initIdt`, `deliver` — the gates, and where an exception ends up
* `Trap`, `Kernel.answer` — an exception raised in ring 3, and what the kernel does about it
* `Trap.Survivable` — the exceptions a domain can die of alone
* `systemAfter` — runs of a machine

## Main results

* `Kernel.answer_eq_terminates_iff` — one exception
* `ring3_faults_survived_iff` — exceptions in every run
* `divide_error_halts` — a division by zero halts the machine
-/

namespace Cairn

/-! ### Gates -/

/-- The handlers of `interrupts.rs`, and the timer entry of the scheduler. -/
inductive Handler
  | breakpoint
  | doubleFault
  | pageFault
  | generalProtection
  | invalidOpcode
  | timer
  | spurious
  deriving DecidableEq, Repr

/-- A gate that has been set. -/
structure Gate where
  handler : Handler
  dpl : Fin 4
  deriving DecidableEq, Repr

/-- `init_idt`. `set_handler_fn` and `set_handler_addr` leave the privilege level at 0. -/
def initIdt (v : Fin 256) : Option Gate :=
  if v = 3 then some ⟨.breakpoint, 0⟩
  else if v = 8 then some ⟨.doubleFault, 0⟩
  else if v = 14 then some ⟨.pageFault, 0⟩
  else if v = 13 then some ⟨.generalProtection, 0⟩
  else if v = 6 then some ⟨.invalidOpcode, 0⟩
  else if v = 0x20 then some ⟨.timer, 0⟩
  else if v = 0xff then some ⟨.spurious, 0⟩
  else none

/-- The handler an exception ends up in: its own, that of #NP, or that of #DF. -/
def deliver (v : Fin 256) : Option Handler :=
  ((initIdt v).or ((initIdt 11).or (initIdt 8))).map Gate.handler

/-- The privilege level of a gate, set or not. -/
def gateDpl (v : Fin 256) : Fin 4 := (initIdt v).elim 0 Gate.dpl

/-! ### Traps -/

/-- An exception raised by a ring-3 instruction: a vector of the CPU with its error code and the
contents of CR2, or a software interrupt. -/
inductive Trap
  | exception (v : Fin 32) (errorCode cr2 : BitVec 64)
  | software (n : Fin 256)

namespace Trap

/-- The vector that is delivered. -/
def vector : Trap → Fin 256
  | .exception v _ _ => v.castLE (by decide)
  | .software n => if gateDpl n < 3 then 13 else n

/-- The error code of the page fault handler. -/
def errorCode : Trap → BitVec 64
  | .exception _ err _ => err
  | .software _ => 0

/-- CR2. -/
def cr2 : Trap → BitVec 64
  | .exception _ _ a => a
  | .software _ => 0

end Trap

/-- What the CPU pushes for a trap from ring 3, as far as the handlers read it. -/
structure UserFrame where
  cs : BitVec 16
  /-- The saved-context pointer the timer entry would pass on. -/
  contextRsp : BitVec 64
  ring3 : cs &&& 3 = 3

/-- What the handlers take from the rest of the kernel: the guard page below the boot stack, and
`paging::manual_map`. -/
structure TrapEnv (μ : Type) where
  stackGuardBase : BitVec 64
  manualMap : BitVec 64 → μ → Bool × μ

namespace TrapEnv

variable {μ : Type}

/-- `faulted_in_ring3`. -/
def faultedInRing3 (f : UserFrame) : Bool := f.cs &&& 3 == 3

/-- `Cr2::read().map(..).unwrap_or(0)`: an address that is not canonical reads as 0. -/
def faultAddr (cr2 : BitVec 64) : BitVec 64 :=
  if (cr2.setWidth 48).signExtend 64 = cr2 then cr2 else 0

/-- `PageFaultErrorCode::PROTECTION_VIOLATION`. -/
def protectionViolation (err : BitVec 64) : Bool := err.getLsbD 0

/-- `PageFaultErrorCode::USER_MODE`. -/
def userMode (err : BitVec 64) : Bool := err.getLsbD 2

/-- `(guard..guard + 0x1000).contains(&fault_addr)`. -/
def InGuard (env : TrapEnv μ) (addr : BitVec 64) : Prop :=
  env.stackGuardBase ≤ addr ∧ addr < env.stackGuardBase + 0x1000

instance (env : TrapEnv μ) (addr : BitVec 64) : Decidable (env.InGuard addr) := by
  unfold InGuard
  infer_instance

end TrapEnv

/-- What becomes of a trap: the running task is terminated, it goes on, the scheduler switches, or
the machine halts. -/
inductive TrapOutcome (μ : Type)
  | terminates (r : Trace × Kernel μ)
  | resumes (k : Kernel μ)
  | switches (r : Trace × Kernel μ)
  | halts

namespace Kernel

variable {μ : Type}

/-- `general_protection_handler` and `invalid_opcode_handler`. -/
def fatalInRing0 (p : Platform μ) (k : Kernel μ) (f : UserFrame) : TrapOutcome μ :=
  if TrapEnv.faultedInRing3 f then .terminates (k.terminateCurrent p) else .halts

/-- `page_fault_handler`. -/
def pageFaultHandler (p : Platform μ) (env : TrapEnv μ) (k : Kernel μ) (f : UserFrame)
    (err cr2 : BitVec 64) : TrapOutcome μ :=
  let addr := TrapEnv.faultAddr cr2
  if !TrapEnv.userMode err ∧ env.InGuard addr then .halts
  else if TrapEnv.faultedInRing3 f then .terminates (k.terminateCurrent p)
  else if !TrapEnv.protectionViolation err ∧ 0xffffffff80000000 ≤ addr ∧ addr < 0xffffffffc0000000
    then
      match env.manualMap addr k.machine with
      | (true, m) => .resumes { k with machine := m }
      | (false, _) => .halts
  else .halts

/-- The handlers. -/
def handle (p : Platform μ) (env : TrapEnv μ) (k : Kernel μ) (f : UserFrame)
    (err cr2 : BitVec 64) : Handler → TrapOutcome μ
  | .breakpoint => .resumes k
  | .doubleFault => .halts
  | .pageFault => k.pageFaultHandler p env f err cr2
  | .generalProtection => k.fatalInRing0 p f
  | .invalidOpcode => k.fatalInRing0 p f
  | .timer => .switches (k.scheduleTick p f.contextRsp)
  | .spurious => .resumes k

/-- What the kernel does about a trap. Without a handler for #DF the CPU would shut down. -/
def answer (p : Platform μ) (env : TrapEnv μ) (k : Kernel μ) (f : UserFrame) (t : Trap) :
    TrapOutcome μ :=
  match deliver t.vector with
  | some h => k.handle p env f t.errorCode t.cr2 h
  | none => .halts

end Kernel

/-- The traps that terminate the task: #UD, #GP, every software interrupt, and every page fault
that does not look like an overflow of the kernel stack. -/
def Trap.Survivable {μ : Type} (env : TrapEnv μ) : Trap → Prop
  | .exception v err cr2 => v = 6 ∨ v = 13 ∨
      v = 14 ∧ ¬(TrapEnv.userMode err = false ∧ env.InGuard (TrapEnv.faultAddr cr2))
  | .software _ => True

/-! ### One trap -/

theorem gateDpl_eq_zero (n : Fin 256) : gateDpl n = 0 := by
  rw [gateDpl, initIdt]
  split_ifs <;> rfl

theorem Trap.vector_software (n : Fin 256) : (Trap.software n).vector = 13 := by
  rw [Trap.vector, gateDpl_eq_zero, if_pos (by decide)]

/-- Every vector without a gate of its own ends in the handler of #DF. -/
theorem deliver_of_unset {v : Fin 256} (h : initIdt v = none) : deliver v = some .doubleFault := by
  rw [deliver, h]
  decide

theorem initIdt_exception : ∀ v : Fin 32, v ≠ 3 → v ≠ 6 → v ≠ 8 → v ≠ 13 → v ≠ 14 →
    initIdt (v.castLE (by decide)) = none := by decide

namespace Kernel

variable {μ : Type}

theorem fatalInRing0_of_user (p : Platform μ) (k : Kernel μ) (f : UserFrame) :
    k.fatalInRing0 p f = .terminates (k.terminateCurrent p) := by
  rw [fatalInRing0, TrapEnv.faultedInRing3, f.ring3]
  rfl

theorem pageFaultHandler_of_user (p : Platform μ) (env : TrapEnv μ) (k : Kernel μ) (f : UserFrame)
    (err cr2 : BitVec 64) : k.pageFaultHandler p env f err cr2
      = if TrapEnv.userMode err = false ∧ env.InGuard (TrapEnv.faultAddr cr2) then .halts
        else .terminates (k.terminateCurrent p) := by
  simp only [pageFaultHandler, Bool.not_eq_true']
  refine if_congr Iff.rfl rfl ?_
  rw [TrapEnv.faultedInRing3, f.ring3]
  rfl

/-- **One exception**: it terminates the running task, and nothing else, exactly if it is
survivable. -/
theorem answer_eq_terminates_iff (p : Platform μ) (env : TrapEnv μ) (k : Kernel μ) (f : UserFrame)
    (t : Trap) :
    k.answer p env f t = .terminates (k.terminateCurrent p) ↔ t.Survivable env := by
  cases t with
  | software n =>
    rw [answer, Trap.vector_software, show deliver 13 = some .generalProtection by decide]
    exact iff_of_true (k.fatalInRing0_of_user p f) trivial
  | exception v err cr2 =>
    by_cases h6 : v = 6
    · subst h6
      exact iff_of_true (k.fatalInRing0_of_user p f) (Or.inl rfl)
    by_cases h13 : v = 13
    · subst h13
      exact iff_of_true (k.fatalInRing0_of_user p f) (Or.inr (Or.inl rfl))
    by_cases h14 : v = 14
    · subst h14
      rw [show k.answer p env f (.exception 14 err cr2) = k.pageFaultHandler p env f err cr2
        from rfl, pageFaultHandler_of_user, Trap.Survivable]
      by_cases hguard : TrapEnv.userMode err = false ∧ env.InGuard (TrapEnv.faultAddr cr2)
      · rw [if_pos hguard]
        exact iff_of_false nofun (by simp [hguard])
      · rw [if_neg hguard]
        exact iff_of_true rfl (Or.inr (Or.inr ⟨rfl, hguard⟩))
    -- no other exception reaches a handler that terminates
    refine iff_of_false ?_ (by simp [Trap.Survivable, h6, h13, h14])
    by_cases h3 : v = 3
    · subst h3
      exact nofun
    by_cases h8 : v = 8
    · subst h8
      exact nofun
    rw [answer, Trap.vector, deliver_of_unset (initIdt_exception v h3 h6 h8 h13 h14)]
    exact nofun

end Kernel

/-! ### Machines -/

/-- What happens to a machine: a step of its kernel, or a trap raised by the running ring-3
task. -/
inductive SystemOp (μ : Type)
  | op (op : Op μ)
  | trap (f : UserFrame) (t : Trap)

/-- The kernel operation that stands for it. -/
def SystemOp.erase {μ : Type} : SystemOp μ → Op μ
  | .op o => o
  | .trap _ _ => .fault

/-- One step. A machine that has halted does nothing. -/
def systemStep {μ : Type} (p : Platform μ) (env : TrapEnv μ) :
    Option (Kernel μ) → SystemOp μ → Option (Kernel μ)
  | none, _ => none
  | some k, .op op => some (k.step p op).2
  | some k, .trap f t =>
    match k.answer p env f t with
    | .terminates r => some r.2
    | .resumes k => some k
    | .switches r => some r.2
    | .halts => none

/-- The machine after a run, latest step first. -/
def systemAfter {μ : Type} (p : Platform μ) (env : TrapEnv μ) (m₀ : μ)
    (h : List (SystemOp μ)) : Option (Kernel μ) :=
  Runs.after (systemStep p env) (some (Kernel.init p m₀)) h

/-- As long as all traps are survivable, the machine is a kernel in which they are faults. -/
theorem systemAfter_of_survivable {μ : Type} (p : Platform μ) (env : TrapEnv μ) (m₀ : μ)
    {h : List (SystemOp μ)} (hs : ∀ f t, .trap f t ∈ h → t.Survivable env) :
    systemAfter p env m₀ h = some (kernelAfter p m₀ (h.map SystemOp.erase)) := by
  induction h with
  | nil => rfl
  | cons op h ih =>
    have hrest := ih fun f t ht => hs f t (List.mem_cons_of_mem op ht)
    rw [systemAfter, Runs.after_cons]
    rw [systemAfter] at hrest
    rw [hrest]
    cases op with
    | op op => rfl
    | trap f t =>
      rw [systemStep, (Kernel.answer_eq_terminates_iff p env _ f t).mpr (hs f t (by simp))]
      rfl

/-- **Ring-3 faults are survived, if they are survivable.** In every run of a machine, every trap
of a ring-3 task is answered by terminating this task through `terminate_current` if and only if
every trap is survivable, and then the machine does not halt and goes through the states of the
kernel. -/
theorem ring3_faults_survived_iff {μ : Type} (p : Platform μ) (env : TrapEnv μ) (m₀ : μ)
    (h : List (SystemOp μ)) :
    ((∀ f t g, .trap f t :: g <:+ h → ∃ k, systemAfter p env m₀ g = some k ∧
        k.answer p env f t = .terminates (k.terminateCurrent p)) ↔
      ∀ f t, .trap f t ∈ h → t.Survivable env) ∧
    ((∀ f t, .trap f t ∈ h → t.Survivable env) →
      systemAfter p env m₀ h = some (kernelAfter p m₀ (h.map SystemOp.erase))) := by
  refine ⟨⟨fun hall f t ht => ?_, fun hs f t g hg => ?_⟩, systemAfter_of_survivable p env m₀⟩
  · obtain ⟨newer, g, rfl⟩ := List.append_of_mem ht
    obtain ⟨k, -, hk⟩ := hall f t g (List.suffix_append newer _)
    exact (k.answer_eq_terminates_iff p env f t).mp hk
  · have hmem : ∀ f' t', .trap f' t' ∈ g → t'.Survivable env := fun f' t' ht =>
      hs f' t' (hg.subset (List.mem_cons_of_mem _ ht))
    exact ⟨_, systemAfter_of_survivable p env m₀ hmem,
      (Kernel.answer_eq_terminates_iff p env _ f t).mpr (hs f t (hg.subset List.mem_cons_self))⟩

/-- A guard page, and a mapper that maps nothing. -/
def bareEnv : TrapEnv Unit := ⟨0xffffffff80100000, fun _ m => (false, m)⟩

/-- **A division by zero halts the machine.** A ring-3 task is admitted and scheduled, and
divides by zero. -/
theorem divide_error_halts :
    (kernelAfter bareMachine () [.tick 0x100, .admitUser 0 0 0 0 1 1000000 1000000 0,
      .mintTimeslice]).InRing3 ∧
    systemAfter bareMachine bareEnv () [.trap ⟨0x23, 0, by decide⟩ (.exception 0 0 0),
      .op (.tick 0x100), .op (.admitUser 0 0 0 0 1 1000000 1000000 0), .op .mintTimeslice]
        = none := by
  refine ⟨?_, rfl⟩
  show TaskFrame.ring3 _ = true
  decide +kernel

end Cairn
