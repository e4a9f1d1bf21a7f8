import Mathlib.Data.BitVec
import Mathlib.Data.List.Nodup
import Mathlib.Logic.Function.Basic

/-!
# Straight-line code of a 64-bit machine

Registers, byte-addressed memory, and the instructions that entry and exit code is written in:
pushes and pops, moves, the `swapgs` of the two GS bases, and the returns `ret`, `iretq` and
`sysretq`. The delivery of an interrupt and the `syscall` instruction are here as well.

Addresses wrap around, so no statement about a range of addresses needs room at the end of the
address space. The arithmetic flags are left out: straight-line code does not read them. The
position inside a piece of code is the position in its list of instructions, and `rip` is what
returns and entries load.

The state is the integer state. The x87, MMX and SSE registers, their control words and the
selectors in DS, ES, FS and GS are not part of it, and no instruction here touches them.

## Main definitions

* `Mem`, `load`, `store`, `loadWords`, `storeWords` — memory
* `Reg`, `Context`, `Machine` — the state of a processor and its memory
* `Instr`, `Instr.exec`, `execAll` — instructions and straight-line code
* `Machine.interrupt`, `Machine.syscall` — the two ways in

## Main results

* `load_store_self`, `load_congr`, `loadWords_storeWords` — memory holds what was stored
* `execAll_pushes`, `execAll_pops` — a list of registers pushed or popped
-/

namespace Cairn

namespace Amd64

/-- An address. -/
abbrev Addr := BitVec 64

/-! ### Ranges of addresses -/

/-- The `n` addresses from `p` on. -/
def InRange (p : Addr) (n : ℕ) (x : Addr) : Prop := (x - p).toNat < n

instance (p : Addr) (n : ℕ) (x : Addr) : Decidable (InRange p n x) :=
  inferInstanceAs (Decidable (_ < _))

/-- A range inside a range. -/
theorem InRange.mono {p q x : Addr} {m n : ℕ} (hx : InRange q m x)
    (h : (q - p).toNat + m ≤ n) : InRange p n x := by
  unfold InRange at hx ⊢
  rw [← sub_add_sub_cancel x q p, BitVec.toNat_add]
  exact (Nat.mod_le _ _).trans_lt (by omega)

/-- The address `n` bytes below `top`. -/
def below (top : Addr) (n : ℕ) : Addr := top - BitVec.ofNat 64 n

theorem below_below (top : Addr) (a b : ℕ) : below (below top a) b = below top (a + b) := by
  rw [below, below, below, BitVec.ofNat_add, sub_sub]

/-- A range that begins lower and does not end lower. -/
theorem InRange.below {top x : Addr} {a b m n : ℕ} (hx : InRange (below top a) n x)
    (hb : b < 2 ^ 64) (hab : a ≤ b) (h : b - a + n ≤ m) : InRange (Amd64.below top b) m x := by
  refine hx.mono ?_
  have hdist : Amd64.below top a - Amd64.below top b = BitVec.ofNat 64 (b - a) := by
    obtain ⟨d, rfl⟩ := Nat.exists_eq_add_of_le hab
    rw [← below_below, Nat.add_sub_cancel_left]
    exact sub_sub_cancel _ _
  rw [hdist, BitVec.toNat_ofNat, Nat.mod_eq_of_lt (by omega)]
  exact h

/-- A range below an address, in natural numbers. -/
theorem inRange_below_iff {top x : Addr} {a n : ℕ} (ha : a ≤ top.toNat) (hn : n ≤ a) :
    InRange (below top a) n x ↔ top.toNat - a ≤ x.toNat ∧ x.toNat < top.toNat - a + n := by
  have htop := top.isLt
  have hx := x.isLt
  have hbelow : (below top a).toNat = top.toNat - a := by
    rw [below, BitVec.toNat_sub, BitVec.toNat_ofNat]
    omega
  rw [InRange, BitVec.toNat_sub, hbelow]
  omega

/-! ### Memory -/

/-- Memory, one byte for each address. -/
abbrev Mem := Addr → BitVec 8

/-- The `n` bytes from `a` on, as a little-endian number. -/
def load (m : Mem) : (n : ℕ) → Addr → BitVec (8 * n)
  | 0, _ => 0#0
  | n + 1, a => load m n (a + 1) ++ m a

/-- Write the bytes of a number from `a` on, lowest byte first. -/
def store (m : Mem) (a : Addr) {n : ℕ} (v : BitVec (8 * n)) : Mem := fun x =>
  if (x - a).toNat < n then v.extractLsb' (8 * (x - a).toNat) 8 else m x

theorem store_of_not_inRange {m : Mem} {a x : Addr} {n : ℕ} {v : BitVec (8 * n)}
    (h : ¬InRange a n x) : store m a v x = m x := if_neg h

theorem add_ofNat_succ (a : Addr) (i : ℕ) :
    a + BitVec.ofNat 64 (i + 1) = a + 1 + BitVec.ofNat 64 i := by
  rw [Nat.add_comm i 1, BitVec.ofNat_add, BitVec.add_assoc]
  rfl

theorem toNat_add_ofNat_sub (a : Addr) {i : ℕ} (hi : i < 2 ^ 64) :
    (a + BitVec.ofNat 64 i - a).toNat = i := by
  rw [BitVec.add_comm, BitVec.add_sub_cancel, BitVec.toNat_ofNat, Nat.mod_eq_of_lt hi]

/-- A load sees nothing but its own bytes. -/
theorem load_congr {m m' : Mem} {n : ℕ} {a : Addr}
    (h : ∀ i < n, m (a + BitVec.ofNat 64 i) = m' (a + BitVec.ofNat 64 i)) :
    load m n a = load m' n a := by
  induction n generalizing a with
  | zero => rfl
  | succ n ih =>
    have h0 : m a = m' a := by simpa using h 0 (Nat.succ_pos n)
    have hrest : load m n (a + 1) = load m' n (a + 1) := by
      refine ih fun i hi => ?_
      rw [← add_ofNat_succ]
      exact h (i + 1) (Nat.succ_lt_succ hi)
    rw [load, load, h0, hrest]

theorem load_eq_of_bytes {m : Mem} {n : ℕ} {a : Addr} {v : BitVec (8 * n)}
    (h : ∀ i < n, m (a + BitVec.ofNat 64 i) = v.extractLsb' (8 * i) 8) : load m n a = v := by
  induction n generalizing a with
  | zero => exact (BitVec.eq_nil _).trans (BitVec.eq_nil _).symm
  | succ n ih =>
    have hrest : load m n (a + 1) = v.extractLsb' 8 (8 * n) := by
      refine ih fun i hi => ?_
      rw [← add_ofNat_succ, h (i + 1) (Nat.succ_lt_succ hi)]
      refine BitVec.eq_of_getLsbD_eq fun j hj => ?_
      have hij : 8 * i + j < 8 * n := by omega
      simp only [BitVec.getLsbD_extractLsb', hj, hij, decide_true, Bool.true_and]
      congr 1
      omega
    have h0 : m a = v.extractLsb' 0 8 := by simpa using h 0 (Nat.succ_pos n)
    rw [load, hrest, h0]
    refine BitVec.eq_of_getLsbD_eq fun j hj => ?_
    rw [BitVec.getLsbD_append]
    by_cases h8 : j < 8
    · simp [h8]
    · have hn : j - 8 < 8 * n := by omega
      simp only [h8, if_false, BitVec.getLsbD_extractLsb', hn, decide_true, Bool.true_and]
      exact congrArg v.getLsbD (by omega)

/-- What was stored is read back. -/
theorem load_store_self (m : Mem) (a : Addr) {n : ℕ} (hn : n ≤ 2 ^ 64) (v : BitVec (8 * n)) :
    load (store m a v) n a = v := by
  refine load_eq_of_bytes fun i hi => ?_
  rw [store, toNat_add_ofNat_sub a (Nat.lt_of_lt_of_le hi hn), if_pos hi]

/-- A load from a range that two memories agree on. -/
theorem load_congr_of_inRange {m m' : Mem} {n : ℕ} {a : Addr} (hn : n ≤ 2 ^ 64)
    (h : ∀ x, InRange a n x → m x = m' x) : load m n a = load m' n a := by
  refine load_congr fun i hi => h _ ?_
  rw [InRange, toNat_add_ofNat_sub a (Nat.lt_of_lt_of_le hi hn)]
  exact hi

/-- A store elsewhere does not matter. -/
theorem load_store_of_apart {m : Mem} {a b : Addr} {n k : ℕ} {v : BitVec (8 * k)}
    (hn : n ≤ 2 ^ 64) (h : ∀ x, InRange a n x → ¬InRange b k x) :
    load (store m b v) n a = load m n a :=
  load_congr_of_inRange hn fun x hx => store_of_not_inRange (h x hx)

/-! ### Words -/

/-- Write words one after the other. -/
def storeWords (m : Mem) (p : Addr) : List (BitVec 64) → Mem
  | [] => m
  | v :: vs => store (storeWords m (p + 8) vs) p (n := 8) v

/-- The `n` words from `p` on. -/
def loadWords (m : Mem) (p : Addr) : ℕ → List (BitVec 64)
  | 0 => []
  | n + 1 => load m 8 p :: loadWords m (p + 8) n

theorem toNat_add_eight_sub (p : Addr) : (p + 8 - p).toNat = 8 :=
  toNat_add_ofNat_sub p (i := 8) (by decide)

/-- The range of the first of some words. -/
theorem InRange.of_head {p x : Addr} {n : ℕ} (h : InRange p 8 x) : InRange p (8 * (n + 1)) x := by
  refine h.mono ?_
  rw [BitVec.sub_self, BitVec.toNat_zero]
  omega

/-- The range of the others. -/
theorem InRange.of_tail {p x : Addr} {n : ℕ} (h : InRange (p + 8) (8 * n) x) :
    InRange p (8 * (n + 1)) x := by
  refine h.mono ?_
  rw [toNat_add_eight_sub]
  omega

/-- They are apart. -/
theorem InRange.not_head {p x : Addr} {n : ℕ} (hn : 8 * (n + 1) ≤ 2 ^ 64)
    (hx : InRange (p + 8) (8 * n) x) : ¬InRange p 8 x := by
  unfold InRange at hx ⊢
  intro h8
  rw [sub_add_eq_sub_sub, BitVec.toNat_sub] at hx
  simp only [BitVec.reduceToNat] at hx
  omega

theorem storeWords_of_not_inRange {m : Mem} {p x : Addr} {vs : List (BitVec 64)}
    (h : ¬InRange p (8 * vs.length) x) : storeWords m p vs x = m x := by
  induction vs generalizing p with
  | nil => rfl
  | cons v vs ih =>
    have hhead : ¬InRange p 8 x := fun hx => h hx.of_head
    have htail : ¬InRange (p + 8) (8 * vs.length) x := fun hx => h hx.of_tail
    rw [storeWords, store_of_not_inRange hhead, ih htail]

theorem loadWords_congr {m m' : Mem} {p : Addr} {n : ℕ}
    (h : ∀ x, InRange p (8 * n) x → m x = m' x) : loadWords m p n = loadWords m' p n := by
  induction n generalizing p with
  | zero => rfl
  | succ n ih =>
    have hhead : load m 8 p = load m' 8 p :=
      load_congr_of_inRange (by decide) fun x hx => h x hx.of_head
    have htail : loadWords m (p + 8) n = loadWords m' (p + 8) n := ih fun x hx => h x hx.of_tail
    rw [loadWords, loadWords, hhead, htail]

/-- **Words are read back as they were written.** -/
theorem loadWords_storeWords (m : Mem) (p : Addr) (vs : List (BitVec 64))
    (hn : 8 * vs.length ≤ 2 ^ 64) : loadWords (storeWords m p vs) p vs.length = vs := by
  induction vs generalizing p with
  | nil => rfl
  | cons v vs ih =>
    rw [List.length_cons] at hn
    have hhead : load (store (storeWords m (p + 8) vs) p (n := 8) v) 8 p = v :=
      load_store_self _ p (n := 8) (by decide) v
    have htail : loadWords (store (storeWords m (p + 8) vs) p (n := 8) v) (p + 8) vs.length
        = loadWords (storeWords m (p + 8) vs) (p + 8) vs.length :=
      loadWords_congr fun x hx => store_of_not_inRange (hx.not_head hn)
    rw [List.length_cons, loadWords, storeWords, hhead, htail, ih _ (by omega)]

theorem add_ofNat_eight_mul_succ (p : Addr) (n : ℕ) :
    p + BitVec.ofNat 64 (8 * (n + 1)) = p + 8 + BitVec.ofNat 64 (8 * n) := by
  rw [Nat.mul_add, Nat.add_comm, BitVec.ofNat_add, BitVec.add_assoc]
  rfl

theorem storeWords_append (m : Mem) (p : Addr) (vs ws : List (BitVec 64)) :
    storeWords m p (vs ++ ws)
      = storeWords (storeWords m (p + BitVec.ofNat 64 (8 * vs.length)) ws) p vs := by
  induction vs generalizing p with
  | nil => simp [storeWords]
  | cons v vs ih =>
    rw [List.cons_append, storeWords, storeWords, ih, List.length_cons, add_ofNat_eight_mul_succ]

theorem loadWords_add (m : Mem) (p : Addr) (a b : ℕ) :
    loadWords m p (a + b)
      = loadWords m p a ++ loadWords m (p + BitVec.ofNat 64 (8 * a)) b := by
  induction a generalizing p with
  | zero => simp [loadWords]
  | succ a ih =>
    rw [Nat.add_right_comm, loadWords, loadWords, ih, List.cons_append, add_ofNat_eight_mul_succ]

/-- A store into one of some words replaces it. -/
theorem loadWords_store (m : Mem) (p : Addr) {j n : ℕ} (hj : j < n) (hn : 8 * n ≤ 2 ^ 64)
    (v : BitVec 64) : loadWords (store m (p + BitVec.ofNat 64 (8 * j)) (n := 8) v) p n
      = (loadWords m p n).set j v := by
  induction n generalizing p j with
  | zero => omega
  | succ n ih =>
    cases j with
    | zero =>
      have hp : p + BitVec.ofNat 64 (8 * 0) = p := by simp
      have hrest : loadWords (store m p (n := 8) v) (p + 8) n = loadWords m (p + 8) n :=
        loadWords_congr fun x hx => store_of_not_inRange (hx.not_head hn)
      rw [hp, loadWords, loadWords, hrest, List.set_cons_zero]
      exact congrArg (· :: _) (load_store_self m p (n := 8) (by decide) v)
    | succ j =>
      have hhead : load (store m (p + 8 + BitVec.ofNat 64 (8 * j)) (n := 8) v) 8 p
          = load m 8 p := by
        refine load_store_of_apart (n := 8) (k := 8) (by decide) fun x hx hx' => ?_
        refine InRange.not_head hn (hx'.mono ?_) hx
        rw [toNat_add_ofNat_sub _ (by omega)]
        omega
      rw [add_ofNat_eight_mul_succ, loadWords, loadWords, hhead, List.set_cons_succ,
        ih (p + 8) (Nat.lt_of_succ_lt_succ hj) (by omega)]

/-! ### Registers and instructions -/

/-- The general registers. -/
inductive Reg
  | rax | rbx | rcx | rdx | rsi | rdi | rbp | rsp
  | r8 | r9 | r10 | r11 | r12 | r13 | r14 | r15
  deriving DecidableEq, Repr

/-- The integer registers of a computation: the sixteen general ones, RIP, RFLAGS, CS and SS. -/
@[ext]
structure Context where
  /-- The general registers. -/
  regs : Reg → BitVec 64
  /-- The next instruction. -/
  rip : BitVec 64
  /-- The flags. -/
  rflags : BitVec 64
  /-- The code segment; its two low bits are the privilege level. -/
  cs : BitVec 16
  /-- The stack segment. -/
  ss : BitVec 16

/-- The computation is at privilege level 3. -/
def Context.Ring3 (c : Context) : Prop := c.cs &&& 3 = 3

instance (c : Context) : Decidable c.Ring3 := inferInstanceAs (Decidable (_ = _))

/-- A processor and its memory. -/
structure Machine extends Context where
  /-- The base of the GS segment. -/
  gsBase : BitVec 64
  /-- The base that `swapgs` exchanges it with. -/
  kernelGsBase : BitVec 64
  /-- The memory. -/
  mem : Mem

namespace Machine

/-- Write a register. -/
def set (s : Machine) (r : Reg) (v : BitVec 64) : Machine :=
  { s with regs := Function.update s.regs r v }

/-- Push a word. -/
def push (s : Machine) (v : BitVec 64) : Machine :=
  { s.set .rsp (s.regs .rsp - 8) with mem := store s.mem (s.regs .rsp - 8) (n := 8) v }

/-- The word on top of the stack. -/
def top (s : Machine) : BitVec 64 := load s.mem 8 (s.regs .rsp)

end Machine

/-- The instructions of straight-line entry and exit code. -/
inductive Instr
  | push (src : Reg)
  /-- `push imm`. -/
  | pushImm (v : BitVec 64)
  /-- `push qword ptr gs:[off]`. -/
  | pushGs (off : BitVec 64)
  | pop (dst : Reg)
  | mov (dst src : Reg)
  /-- `mov dst, qword ptr gs:[off]`. -/
  | movFromGs (dst : Reg) (off : BitVec 64)
  /-- `mov qword ptr gs:[off], src`. -/
  | movToGs (off : BitVec 64) (src : Reg)
  /-- `mov [base], src`. -/
  | movToMem (base src : Reg)
  /-- `lea dst, [rip + label]`, for a label at this address. -/
  | lea (dst : Reg) (label : BitVec 64)
  /-- `xor r32, r32`. -/
  | clear (dst : Reg)
  /-- `add dst, imm`. -/
  | addImm (dst : Reg) (v : BitVec 64)
  /-- `and dst, imm`. -/
  | andImm (dst : Reg) (v : BitVec 64)
  | swapgs
  /-- `call`, which is followed by this address. -/
  | call (next : BitVec 64)
  | ret
  | iretq
  /-- `sysretq`, to these segments. -/
  | sysretq (cs ss : BitVec 16)
  deriving DecidableEq, Repr

/-- The flags `sysretq` takes from `r11`. -/
def sysretFlags (r11 : BitVec 64) : BitVec 64 := (r11 &&& 0x3c7fd7) ||| 2

/-- What an instruction does. For a call, that is the push of the return address. -/
def Instr.exec (s : Machine) : Instr → Machine
  | .push src => s.push (s.regs src)
  | .pushImm v => s.push v
  | .pushGs off => s.push (load s.mem 8 (s.gsBase + off))
  | .pop dst => (s.set .rsp (s.regs .rsp + 8)).set dst s.top
  | .mov dst src => s.set dst (s.regs src)
  | .movFromGs dst off => s.set dst (load s.mem 8 (s.gsBase + off))
  | .movToGs off src => { s with mem := store s.mem (s.gsBase + off) (n := 8) (s.regs src) }
  | .movToMem base src => { s with mem := store s.mem (s.regs base) (n := 8) (s.regs src) }
  | .lea dst label => s.set dst label
  | .clear dst => s.set dst 0
  | .addImm dst v => s.set dst (s.regs dst + v)
  | .andImm dst v => s.set dst (s.regs dst &&& v)
  | .swapgs => { s with gsBase := s.kernelGsBase, kernelGsBase := s.gsBase }
  | .call next => s.push next
  | .ret => { s.set .rsp (s.regs .rsp + 8) with rip := s.top }
  | .iretq =>
    { s.set .rsp (load s.mem 8 (s.regs .rsp + 24)) with
      rip := s.top
      cs := (load s.mem 8 (s.regs .rsp + 8)).setWidth 16
      rflags := load s.mem 8 (s.regs .rsp + 16)
      ss := (load s.mem 8 (s.regs .rsp + 32)).setWidth 16 }
  | .sysretq cs ss =>
    { s with rip := s.regs .rcx, rflags := sysretFlags (s.regs .r11), cs := cs, ss := ss }

/-- Straight-line code. -/
def execAll (code : List Instr) (s : Machine) : Machine := code.foldl Instr.exec s

@[simp] theorem execAll_nil (s : Machine) : execAll [] s = s := rfl

@[simp] theorem execAll_cons (i : Instr) (code : List Instr) (s : Machine) :
    execAll (i :: code) s = execAll code (i.exec s) := rfl

theorem execAll_append (code code' : List Instr) (s : Machine) :
    execAll (code ++ code') s = execAll code' (execAll code s) := List.foldl_append

/-- **Pushing registers** writes them below the stack pointer, the last one lowest. -/
theorem execAll_pushes {rs : List Reg} (hrsp : .rsp ∉ rs) (s : Machine) :
    execAll (rs.map .push) s = { s with
      regs := Function.update s.regs .rsp (s.regs .rsp - BitVec.ofNat 64 (8 * rs.length))
      mem := storeWords s.mem (s.regs .rsp - BitVec.ofNat 64 (8 * rs.length))
        (rs.reverse.map s.regs) } := by
  induction rs using List.reverseRecOn with
  | nil => simp [storeWords]
  | append_singleton rs r ih =>
    obtain ⟨hrs, hr⟩ : .rsp ∉ rs ∧ Reg.rsp ≠ r := by simpa using hrsp
    have hsub : ∀ a : BitVec 64, a - BitVec.ofNat 64 (8 * rs.length) - 8
        = a - BitVec.ofNat 64 (8 * (rs.length + 1)) := by
      intro a
      rw [Nat.mul_add, BitVec.ofNat_add, sub_add_eq_sub_sub]
      rfl
    have hadd : ∀ a : BitVec 64, a - BitVec.ofNat 64 (8 * (rs.length + 1)) + 8
        = a - BitVec.ofNat 64 (8 * rs.length) := by
      intro a
      rw [← hsub, sub_add_cancel]
    rw [List.map_append, execAll_append, ih hrs]
    simp only [List.map_cons, List.map_nil, execAll_cons, execAll_nil, Instr.exec, Machine.push,
      Machine.set, Function.update_self, Function.update_idem, Function.update_of_ne hr.symm,
      List.length_append, List.length_singleton, List.reverse_append, List.reverse_singleton,
      List.singleton_append, storeWords, hsub, hadd]

/-- Assign words to registers, one after the other. -/
def assign (f : Reg → BitVec 64) : List Reg → List (BitVec 64) → Reg → BitVec 64
  | r :: rs, v :: vs => assign (Function.update f r v) rs vs
  | _, _ => f

theorem assign_map (f g : Reg → BitVec 64) (rs : List Reg) :
    assign f rs (rs.map g) = fun r => if r ∈ rs then g r else f r := by
  induction rs generalizing f with
  | nil => simp [assign]
  | cons r rs ih =>
    funext u
    rw [List.map_cons, assign, ih]
    by_cases hu : u ∈ rs
    · simp [hu]
    · by_cases hr : u = r
      · subst hr
        simp [hu]
      · simp [hu, hr]

theorem update_assign_update {r : Reg} {rs : List Reg} (hr : r ∉ rs) (f : Reg → BitVec 64)
    (vs : List (BitVec 64)) (a b : BitVec 64) :
    Function.update (assign (Function.update f r a) rs vs) r b
      = Function.update (assign f rs vs) r b := by
  induction rs generalizing f vs with
  | nil => simp [assign]
  | cons u rs ih =>
    obtain ⟨hu, hrs⟩ : r ≠ u ∧ r ∉ rs := by simpa using hr
    cases vs with
    | nil => simp [assign]
    | cons v vs => rw [assign, assign, Function.update_comm hu, ih hrs]

/-- **Popping registers** reads them from the stack pointer upwards. -/
theorem execAll_pops {rs : List Reg} (hrsp : .rsp ∉ rs) (s : Machine) :
    execAll (rs.map .pop) s = { s with
      regs := Function.update (assign s.regs rs (loadWords s.mem (s.regs .rsp) rs.length)) .rsp
        (s.regs .rsp + BitVec.ofNat 64 (8 * rs.length)) } := by
  induction rs generalizing s with
  | nil => simp [assign]
  | cons r rs ih =>
    obtain ⟨hr, hrs⟩ : Reg.rsp ≠ r ∧ .rsp ∉ rs := by simpa using hrsp
    rw [List.map_cons, execAll_cons, ih hrs]
    simp only [Instr.exec, Machine.set, Machine.top, Function.update_of_ne hr,
      Function.update_self, List.length_cons, loadWords, assign, add_ofNat_eight_mul_succ]
    rw [Function.update_comm hr, update_assign_update hrs]

/-! ### Ways in -/

namespace Machine

/-- The privilege level changes when an interrupt that runs at level 0 is delivered here. -/
def stackFor (s : Machine) (rsp0 : BitVec 64) : BitVec 64 :=
  (if s.Ring3 then rsp0 else s.regs .rsp) &&& ~~~15

/-- Deliver an interrupt through a gate to level 0 at segment `cs`: the interrupted context goes to
the stack, which is that of the task-state segment when the privilege level changes, aligned to
16. `IF`, `TF`, `NT`, `RF` and `VM` are cleared. -/
def interrupt (s : Machine) (rsp0 : BitVec 64) (cs : BitVec 16) (handler : BitVec 64) : Machine :=
  { s.set .rsp (s.stackFor rsp0 - 40) with
    rip := handler
    cs := cs
    ss := if s.Ring3 then 0 else s.ss
    rflags := s.rflags &&& ~~~0x34300
    mem := storeWords s.mem (s.stackFor rsp0 - 40)
      [s.rip, s.cs.setWidth 64, s.rflags, s.regs .rsp, s.ss.setWidth 64] }

/-- The `syscall` instruction, which is two bytes long, with this entry point, flag mask and
segments: the address behind it and the flags go to registers, and the stack pointer stays. -/
def syscall (s : Machine) (entry mask : BitVec 64) (cs ss : BitVec 16) : Machine :=
  { (s.set .rcx (s.rip + 2)).set .r11 s.rflags with
    rip := entry
    rflags := s.rflags &&& ~~~mask
    cs := cs
    ss := ss }

end Machine

end Amd64

end Cairn
