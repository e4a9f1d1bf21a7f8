import Cairn.Internal.Amd64
import Cairn.Internal.Interference

/-!
# Programs with jumps on shared memory

The instructions of small programs in assembly, with jumps, and with memory that others use at the
same time. An access to memory is an atomic action of its own; between two of them the environment
may do anything it can do. What an access of so many bytes at an address means is up to a `Bus`: it
says how the bytes are read and written, or that there is nothing there, and then the instruction
faults.

The only flag is the zero flag. `div` leaves the flags undefined; here it leaves them alone.

A program runs for a number of instructions at most, until it executes `syscall` or faults. The
equations at the end turn a run into a program of `Shared`: a block of instructions on registers is
a function, a block of stores is `Shared.modifyAll`, and a load is `Shared.read`.

## Main definitions

* `Cpu`, `Operand`, `AluInstr`, `UserInstr` — registers, memory operands and instructions
* `Bus` — what an access means
* `exec`, `runCode` — one instruction, and a program

## Main results

* `runCode_alus`, `runCode_stores` — blocks of instructions
* `runCode_load`, `runCode_goto`, `runCode_syscall` — single ones
-/

namespace Cairn

namespace Amd64

open Shared (Prog)

/-- What a program keeps in the processor. -/
structure Cpu where
  /-- The general registers. -/
  regs : Reg → BitVec 64
  /-- The zero flag. -/
  zf : Bool

namespace Cpu

/-- Write a register. -/
def set (c : Cpu) (r : Reg) (v : BitVec 64) : Cpu := { c with regs := Function.update c.regs r v }

/-- Write the low 16 bits of a register. -/
def set16 (c : Cpu) (r : Reg) (v : BitVec 16) : Cpu :=
  c.set r ((c.regs r &&& ~~~0xffff) ||| v.setWidth 64)

@[simp] theorem regs_set (c : Cpu) (r : Reg) (v : BitVec 64) (r' : Reg) :
    (c.set r v).regs r' = if r' = r then v else c.regs r' := Function.update_apply _ _ _ _

@[simp] theorem regs_set16 (c : Cpu) (r : Reg) (v : BitVec 16) (r' : Reg) :
    (c.set16 r v).regs r'
      = if r' = r then (c.regs r &&& ~~~0xffff) ||| v.setWidth 64 else c.regs r' := regs_set _ _ _ _

end Cpu

/-- A memory operand `[base + index * scale + disp]`. -/
structure Operand where
  base : Reg
  index : Option (Reg × BitVec 64)
  disp : BitVec 64
  deriving DecidableEq, Repr

/-- The address of a memory operand. -/
def Operand.addr (a : Operand) (c : Cpu) : Addr :=
  match a.index with
  | none => c.regs a.base + a.disp
  | some (r, scale) => c.regs a.base + c.regs r * scale + a.disp

/-- A register or a constant. -/
inductive Source
  | reg (r : Reg)
  | imm (v : BitVec 64)
  deriving DecidableEq, Repr

/-- The value of a source. -/
def Source.eval (c : Cpu) : Source → BitVec 64
  | .reg r => c.regs r
  | .imm v => v

/-- Instructions on registers alone. -/
inductive AluInstr
  | mov (dst : Reg) (src : Source)
  /-- `mov r32, r32`. -/
  | mov32 (dst src : Reg)
  /-- `movzx r32, r16`. -/
  | movzx16 (dst src : Reg)
  /-- `xor r32, r32`. -/
  | clear (dst : Reg)
  | lea (dst : Reg) (src : Operand)
  /-- `lea r32, [r32 + disp]`. -/
  | lea32 (dst src : Reg) (disp : BitVec 32)
  /-- `div r16`, of `dx:ax`. -/
  | div16 (src : Reg)
  /-- `cmp r16, r16`. -/
  | cmp16 (a b : Reg)
  | dec (dst : Reg)
  | pause
  deriving DecidableEq, Repr

/-- What an instruction on registers does; a division may fault. -/
def AluInstr.exec (c : Cpu) : AluInstr → Option Cpu
  | .mov dst src => some (c.set dst (src.eval c))
  | .mov32 dst src => some (c.set dst (((c.regs src).setWidth 32).setWidth 64))
  | .movzx16 dst src => some (c.set dst (((c.regs src).setWidth 16).setWidth 64))
  | .clear dst => some { c.set dst 0 with zf := true }
  | .lea dst src => some (c.set dst (src.addr c))
  | .lea32 dst src disp => some (c.set dst (((c.regs src).setWidth 32 + disp).setWidth 64))
  | .div16 src =>
    let dividend := ((c.regs .rdx).setWidth 16 ++ (c.regs .rax).setWidth 16 : BitVec 32).toNat
    let divisor := ((c.regs src).setWidth 16 : BitVec 16).toNat
    if divisor = 0 ∨ 65536 ≤ dividend / divisor then none
    else some ((c.set16 .rax (.ofNat 16 (dividend / divisor))).set16 .rdx
      (.ofNat 16 (dividend % divisor)))
  | .cmp16 a b =>
    some { c with zf := ((c.regs a).setWidth 16 : BitVec 16) == (c.regs b).setWidth 16 }
  | .dec dst => some { c.set dst (c.regs dst - 1) with zf := c.regs dst - 1 == 0 }
  | .pause => some c

/-- Division of 16 bits by 16 bits. -/
theorem exec_div16 {c : Cpu} {src : Reg} {i n : BitVec 16} (hax : (c.regs .rax).setWidth 16 = i)
    (hdx : c.regs .rdx = 0) (hsrc : (c.regs src).setWidth 16 = n) (hn : n ≠ 0) :
    AluInstr.exec c (.div16 src) = some ((c.set16 .rax (i / n)).set16 .rdx (i % n)) := by
  have hdividend : ((c.regs .rdx).setWidth 16 ++ (c.regs .rax).setWidth 16 : BitVec 32).toNat
      = i.toNat := by
    rw [hdx, hax, BitVec.toNat_append]
    simp
  have hquot : i.toNat / n.toNat < 65536 := Nat.lt_of_le_of_lt (Nat.div_le_self ..) i.isLt
  have hzero : n.toNat ≠ 0 := fun h => hn (BitVec.eq_of_toNat_eq h)
  have hdiv : BitVec.ofNat 16 (i.toNat / n.toNat) = i / n := by
    apply BitVec.eq_of_toNat_eq
    rw [BitVec.toNat_ofNat, BitVec.toNat_udiv, Nat.mod_eq_of_lt hquot]
  have hmod : BitVec.ofNat 16 (i.toNat % n.toNat) = i % n := by
    apply BitVec.eq_of_toNat_eq
    rw [BitVec.toNat_ofNat, BitVec.toNat_umod,
      Nat.mod_eq_of_lt (Nat.lt_of_le_of_lt (Nat.mod_le ..) i.isLt)]
  simp only [AluInstr.exec]
  rw [hdividend, hsrc, if_neg (by omega), hdiv, hmod]

/-- Instructions. Accesses to memory say how many bytes they access. -/
inductive UserInstr
  | alu (i : AluInstr)
  /-- `mov r64, [..]` and `movzx r32, word ptr [..]`. -/
  | load (dst : Reg) (bytes : ℕ) (src : Operand)
  | store (bytes : ℕ) (dst : Operand) (src : Source)
  | je (target : ℕ)
  | jnz (target : ℕ)
  | jmp (target : ℕ)
  | syscall
  | ud2
  deriving DecidableEq, Repr

/-- What accesses to memory mean. -/
structure Bus (σ : Type) where
  /-- Read so many bytes. -/
  read : Addr → ℕ → Option (σ → BitVec 64)
  /-- Write so many bytes, the low ones of the value. -/
  write : Addr → ℕ → BitVec 64 → Option (σ → σ)

/-- How it goes on behind an instruction. -/
inductive Flow
  | next (c : Cpu)
  | goto (pc : ℕ) (c : Cpu)
  | syscall
  | fault

variable {σ : Type}

/-- One instruction. -/
def exec (bus : Bus σ) (c : Cpu) : UserInstr → Prog σ Flow
  | .alu i =>
    match i.exec c with
    | some c' => pure (.next c')
    | none => pure .fault
  | .load dst n src =>
    match bus.read (src.addr c) n with
    | some f => do
      let v ← Shared.read f
      return .next (c.set dst v)
    | none => pure .fault
  | .store n dst src =>
    match bus.write (dst.addr c) n (src.eval c) with
    | some f => do
      Shared.modify f
      return .next c
    | none => pure .fault
  | .je target => pure (if c.zf then .goto target c else .next c)
  | .jnz target => pure (if c.zf then .next c else .goto target c)
  | .jmp target => pure (.goto target c)
  | .syscall => pure .syscall
  | .ud2 => pure .fault

/-- Where a run of a program stops. -/
inductive Stop
  /-- At a `syscall`. -/
  | syscall (pc : ℕ) (c : Cpu)
  /-- With a fault. -/
  | fault (pc : ℕ) (c : Cpu)
  /-- Before any other instruction, having run as long as it may. -/
  | running (pc : ℕ) (c : Cpu)

/-- Run a program for so many instructions. -/
def runCode (bus : Bus σ) (code : List UserInstr) : ℕ → ℕ → Cpu → Prog σ Stop
  | 0, pc, c => pure (.running pc c)
  | fuel + 1, pc, c =>
    match code[pc]? with
    | none => pure (.fault pc c)
    | some i => do
      match ← exec bus c i with
      | .next c' => runCode bus code fuel (pc + 1) c'
      | .goto pc' c' => runCode bus code fuel pc' c'
      | .syscall => return .syscall pc c
      | .fault => return .fault pc c

/-! ### Single instructions -/

section Single

variable {bus : Bus σ} {code : List UserInstr} {fuel pc : ℕ} {c c' : Cpu} {i : UserInstr}

theorem runCode_next (hi : code[pc]? = some i) (h : exec bus c i = pure (.next c')) :
    runCode bus code (fuel + 1) pc c = runCode bus code fuel (pc + 1) c' := by
  rw [runCode, hi]
  dsimp only
  rw [h]
  rfl

theorem runCode_alu {i : AluInstr} (hi : code[pc]? = some (.alu i)) (h : i.exec c = some c') :
    runCode bus code (fuel + 1) pc c = runCode bus code fuel (pc + 1) c' :=
  runCode_next hi (by rw [exec, h])

theorem runCode_goto {pc' : ℕ} (hi : code[pc]? = some i) (h : exec bus c i = pure (.goto pc' c')) :
    runCode bus code (fuel + 1) pc c = runCode bus code fuel pc' c' := by
  rw [runCode, hi]
  dsimp only
  rw [h]
  rfl

theorem runCode_load {dst : Reg} {n : ℕ} {src : Operand} {f : σ → BitVec 64}
    (hi : code[pc]? = some (.load dst n src)) (h : bus.read (src.addr c) n = some f) :
    runCode bus code (fuel + 1) pc c
      = Shared.read f >>= fun v => runCode bus code fuel (pc + 1) (c.set dst v) := by
  rw [runCode, hi]
  dsimp only
  rw [exec, h]
  rfl

theorem runCode_store {n : ℕ} {dst : Operand} {src : Source} {f : σ → σ}
    (hi : code[pc]? = some (.store n dst src))
    (h : bus.write (dst.addr c) n (src.eval c) = some f) :
    runCode bus code (fuel + 1) pc c
      = Shared.modify f >>= fun _ => runCode bus code fuel (pc + 1) c := by
  rw [runCode, hi]
  dsimp only
  rw [exec, h]
  rfl

theorem runCode_syscall (hi : code[pc]? = some .syscall) :
    runCode bus code (fuel + 1) pc c = pure (.syscall pc c) := by
  rw [runCode, hi]
  rfl

end Single

/-! ### Blocks -/

section Blocks

variable {bus : Bus σ} {code : List UserInstr} {fuel pc : ℕ} {c c' : Cpu}

/-- The code from a position on begins with the instructions. -/
def Block (code : List UserInstr) (pc : ℕ) (is : List UserInstr) : Prop := is <+: code.drop pc

instance (is : List UserInstr) : Decidable (Block code pc is) :=
  inferInstanceAs (Decidable (is <+: code.drop pc))

theorem Block.head {i : UserInstr} {is : List UserInstr} (h : Block code pc (i :: is)) :
    code[pc]? = some i := by
  obtain ⟨rest, hrest⟩ := h
  have hget := congrArg (·[0]?) hrest
  simpa using hget.symm

theorem Block.tail {i : UserInstr} {is : List UserInstr} (h : Block code pc (i :: is)) :
    Block code (pc + 1) is := by
  obtain ⟨rest, hrest⟩ := h
  refine ⟨rest, ?_⟩
  rw [← List.tail_drop, ← hrest, List.cons_append, List.tail_cons]

/-- **A block of instructions on registers** is a function of the registers. -/
theorem runCode_alus {is : List AluInstr} {n : ℕ} (hblock : Block code pc (is.map .alu))
    (hn : is.length = n) (h : is.foldlM AluInstr.exec c = some c') :
    runCode bus code (fuel + n) pc c = runCode bus code fuel (pc + n) c' := by
  subst hn
  induction is generalizing pc c with
  | nil =>
    cases h
    rfl
  | cons i is ih =>
    obtain ⟨c₁, hi, his⟩ := Option.bind_eq_some_iff.mp h
    rw [List.length_cons, ← Nat.add_assoc, runCode_alu hblock.head hi, ih hblock.tail his,
      Nat.add_assoc, Nat.add_comm 1]

/-- **A block of stores** is a block of updates. -/
theorem runCode_stores {is : List (ℕ × Operand × Source)} {n : ℕ} {fs : List (σ → σ)}
    (hblock : Block code pc (is.map fun i => .store i.1 i.2.1 i.2.2)) (hn : is.length = n)
    (h : is.map (fun i => bus.write (i.2.1.addr c) i.1 (i.2.2.eval c)) = fs.map some) :
    runCode bus code (fuel + n) pc c
      = Shared.modifyAll fs >>= fun _ => runCode bus code fuel (pc + n) c := by
  subst hn
  induction is generalizing pc fs with
  | nil =>
    cases fs with
    | nil => rfl
    | cons f fs => cases h
  | cons i is ih =>
    cases fs with
    | nil => cases h
    | cons f fs =>
      obtain ⟨hi, his⟩ := List.cons.inj h
      rw [List.length_cons, ← Nat.add_assoc, runCode_store hblock.head hi, ih hblock.tail his,
        Nat.add_assoc, Nat.add_comm 1]
      rfl

end Blocks

end Amd64

end Cairn
