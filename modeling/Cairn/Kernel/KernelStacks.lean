import Cairn.Kernel.Processor

/-!
# Kernel stacks hold what is saved

Every task has a kernel stack, and the stacks do not overlap. What the kernel does for a task
happens on the stack of that task, below the part in use: `Linked.Confined` says so of a change of
memory, and everything else follows. The context of a task off the processor stays as it was saved,
because whatever runs meanwhile writes to other stacks; a ring-0 task does not see its own stack
change under it, because an interrupt writes below its stack pointer.

A task is off the processor in one of two ways. It was interrupted, and its registers are in the
twenty words that `Task.rsp` points to. Or it is parked in the middle of a syscall, and those words
are the registers of the kernel in the middle of `block_current`; the way back to the task is then
the rest of the syscall, and relies on the stack between that point and the words that the entry
stub has pushed.

## Main definitions

* `Linked.Confined` — a change of memory in one stack, below a given point
* `Interrupted`, `ParkedCall`, `Saved` — a task off the processor
* `Returning` — a syscall in front of its exit stub

## Main results

* `StackLayout.inStack_unique` — kernel stacks do not overlap
* `Linked.Confined.visible` — a task does not see a change below the stack it uses
* `Saved.congr` — a task stays saved while its stack is left alone
* `ParkedCall.resume`, `Returning.exit` — a parked call comes back to its caller
-/

namespace Cairn

open Amd64 (Addr Mem Reg Context Machine load store loadWords storeWords InRange below execAll
  below_below)

/-! ### Stacks are apart -/

theorem below_zero (top : Addr) : below top 0 = top := sub_zero top

/-- An address is as far below another one as the difference says. -/
theorem below_toNat_sub (top x : Addr) : below top (top - x).toNat = x := by
  rw [below, BitVec.ofNat_toNat, BitVec.setWidth_eq, sub_sub_cancel]

theorem exists_below (top x : Addr) : ∃ n, (top - x).toNat = n ∧ x = below top n :=
  ⟨_, rfl, (below_toNat_sub top x).symm⟩

theorem below_add_ofNat (top : Addr) {a b : ℕ} (h : b ≤ a) :
    below top a + BitVec.ofNat 64 b = below top (a - b) := by
  obtain ⟨d, rfl⟩ := Nat.exists_eq_add_of_le h
  rw [Nat.add_sub_cancel_left, Nat.add_comm, ← below_below, below, sub_add_cancel]

/-- Rounding down to 16 goes down by at most 15. -/
theorem and_not_fifteen (x : Addr) : ∃ d ≤ 15, x &&& ~~~15#64 = below x d := by
  have hlt := x.isLt
  refine ⟨x.toNat % 16, by omega, BitVec.eq_of_toNat_eq ?_⟩
  rw [toNat_and_not_fifteen, below, BitVec.toNat_sub, BitVec.toNat_ofNat]
  omega

/-- A range below another one. -/
theorem not_inRange_below {top x : Addr} {a b n : ℕ} (hroom : a + b ≤ top.toNat) (hn : n ≤ a)
    (hx : InRange (below top a) n x) : ¬InRange (below top (a + b)) b x := by
  rw [Amd64.inRange_below_iff (Nat.le_trans (Nat.le_add_right a b) hroom) hn] at hx
  rw [Amd64.inRange_below_iff hroom (Nat.le_add_left b a)]
  omega

section Stacks

variable {μ : Type} {p : Platform μ}

theorem taskStackSize_le_stackRoom (t : Fin maxTasks) : taskStackSize - 16 ≤ stackRoom t := by
  rw [stackRoom]
  split <;> decide

theorem stackRoom_lt (t : Fin maxTasks) : stackRoom t < 2 ^ 64 := by
  rw [stackRoom]
  split <;> decide

namespace StackLayout

variable (l : StackLayout p)
include l

theorem stackRoom_le (t : Fin maxTasks) : stackRoom t ≤ (Kernel.kstackOf p t).toNat := by
  rw [l.toNat_kstackOf, stackEnd, stackRoom]
  simp only [taskStackSize, kstackUsable]
  split <;> omega

theorem inStack_iff {t : Fin maxTasks} {x : Addr} : InStack p t x ↔
    (Kernel.kstackOf p t).toNat - stackRoom t ≤ x.toNat ∧
      x.toNat < (Kernel.kstackOf p t).toNat := by
  have hroom := l.stackRoom_le t
  rw [InStack, Amd64.inRange_below_iff hroom le_rfl, Nat.sub_add_cancel hroom]

/-- Kernel stacks do not overlap. -/
theorem inStack_unique {t u : Fin maxTasks} {x : Addr} (ht : InStack p t x) (hu : InStack p u x) :
    t = u := by
  rw [l.inStack_iff, l.toNat_kstackOf, stackEnd, stackRoom] at ht hu
  have htn := t.isLt
  have hun := u.isLt
  have hdis := l.disjoint
  unfold maxTasks taskStackSize kstackUsable at *
  refine Fin.ext ?_
  by_cases h0 : t = 0
  · by_cases h0' : u = 0
    · rw [h0, h0']
    · rw [if_pos h0, if_pos h0] at ht
      rw [if_neg h0', if_neg h0'] at hu
      omega
  · by_cases h0' : u = 0
    · rw [if_neg h0, if_neg h0] at ht
      rw [if_pos h0', if_pos h0'] at hu
      omega
    · rw [if_neg h0, if_neg h0] at ht
      rw [if_neg h0', if_neg h0'] at hu
      omega

end StackLayout

/-- A range that lies below the top of a stack, and not too far below, is in the stack. -/
theorem InStack.of_below {t : Fin maxTasks} {x : Addr} {a n : ℕ} (ha : a ≤ stackRoom t)
    (hn : n ≤ a) (hx : InRange (below (Kernel.kstackOf p t) a) n x) : InStack p t x :=
  hx.below (stackRoom_lt t) ha (by omega)

end Stacks

/-! ### Confined changes -/

namespace Linked

variable {μ : Type} {p : Platform μ}

/-- The memory changes only in the stack of a slot, from `a` bytes below its top on downwards, and
in the data of the kernel. -/
def Confined (l : Linked p) (t : Fin maxTasks) (a : ℕ) (m m' : Mem) : Prop :=
  ∀ x, ¬InRange (below (Kernel.kstackOf p t) (stackRoom t)) (stackRoom t - a) x → ¬l.Data x →
    m' x = m x

variable {l : Linked p} {t u : Fin maxTasks} {a : ℕ} {m m' m'' : Mem}

theorem Confined.refl (t : Fin maxTasks) (a : ℕ) (m : Mem) : l.Confined t a m m :=
  fun _ _ _ => rfl

theorem Confined.mono (h : l.Confined t a m m') {b : ℕ} (hab : b ≤ a) : l.Confined t b m m' :=
  fun x hx hd => h x (fun hr => hx (hr.below (stackRoom_lt t) le_rfl (by omega))) hd

theorem Confined.trans (h : l.Confined t a m m') (h' : l.Confined t a m' m'') :
    l.Confined t a m m'' := fun x hx hd => (h' x hx hd).trans (h x hx hd)

theorem confined_of_range {c n : ℕ} (hc : c ≤ stackRoom t) (hn : n + a ≤ c)
    (h : ∀ x, ¬InRange (below (Kernel.kstackOf p t) c) n x → ¬l.Data x → m' x = m x) :
    l.Confined t a m m' := fun x hx hd =>
  h x (fun hr => hx (hr.below (stackRoom_lt t) hc (by omega))) hd

theorem Confined.of_not_inStack (h : l.Confined t a m m') {x : Addr} (hx : ¬InStack p t x)
    (hd : ¬l.Data x) : m' x = m x :=
  h x (fun hr => hx (hr.below (stackRoom_lt t) le_rfl (by omega))) hd

/-- The stacks of the other slots stay. -/
theorem Confined.inStack_of_ne (h : l.Confined t a m m') (hne : u ≠ t) {x : Addr}
    (hx : InStack p u x) : m' x = m x :=
  h.of_not_inStack (fun hx' => hne (l.inStack_unique hx hx')) fun hd => l.data_stack u x hd hx

/-- What is above the change stays. -/
theorem Confined.of_above (h : l.Confined t a m m') (ha : a ≤ stackRoom t) {n : ℕ} (hn : n ≤ a)
    {x : Addr} (hx : InRange (below (Kernel.kstackOf p t) a) n x) : m' x = m x := by
  refine h x ?_ fun hd => l.data_stack t x hd (.of_below ha hn hx)
  have hroom := l.stackRoom_le t
  have hnot := not_inRange_below (b := stackRoom t - a) (by omega) hn hx
  rwa [Nat.add_sub_cancel' ha] at hnot

/-- Memory that is not the kernel's stays. -/
theorem Confined.of_not_private (h : l.Confined t a m m') {x : Addr} (hx : ¬l.Private x) :
    m' x = m x :=
  h.of_not_inStack (fun ht => hx (Or.inl ⟨t, ht⟩)) fun hd => hx (Or.inr hd)

/-- The stack a context uses, in bytes below the top of the kernel stack. -/
def used (p : Platform μ) (t : Fin maxTasks) (c : Context) : ℕ :=
  if c.Ring3 then 0 else (Kernel.kstackOf p t - c.regs .rsp).toNat

theorem Allowed.used_le {c : Context} (h : l.Allowed t c) :
    used p t c + l.reserve + 256 ≤ stackRoom t := by
  have hres := l.reserve_le
  have hroom := taskStackSize_le_stackRoom t
  rw [used]
  split
  · omega
  · rename_i hring
    exact (h.resolve_left hring).2

/-- The stack that a context can read is the one it uses. -/
theorem Visible.cases {c : Context} {x : Addr} (h : l.Visible t c x) : ¬l.Private x ∨
    InRange (below (Kernel.kstackOf p t) (used p t c)) (used p t c - 8) x := by
  refine h.imp_right ?_
  rintro ⟨hring, hx⟩
  obtain ⟨n, hn, hrsp⟩ := exists_below (Kernel.kstackOf p t) (c.regs .rsp)
  rw [used, if_neg hring, hn]
  rwa [hn, hrsp] at hx

theorem Visible.inStack_or {c : Context} {x : Addr} (h : l.Visible t c x) (hc : l.Allowed t c) :
    ¬l.Private x ∨ InStack p t x := by
  have hle := hc.used_le
  exact h.cases.imp_right (.of_below (by omega) (Nat.sub_le _ 8))

/-- **A change below the stack in use is invisible**, and so is a change in another stack. -/
theorem Confined.visible (h : l.Confined t a m m') {c : Context} (hc : l.Allowed u c)
    (hu : u = t → a = used p t c) {x : Addr} (hx : l.Visible u c x) : m' x = m x := by
  rcases hx.cases with hx | hx
  · exact h.of_not_private hx
  · have hle := hc.used_le
    by_cases hut : u = t
    · subst hut
      rw [← hu rfl] at hx hle
      exact h.of_above (by omega) (Nat.sub_le a 8) hx
    · exact h.inStack_of_ne hut (.of_below (by omega) (Nat.sub_le _ 8) hx)

end Linked

/-! ### Saved tasks -/

section Saved

variable {μ : Type} {p : Platform μ}

/-- The context of an interrupted task is where the pointer says, in the stack of the task. -/
structure Interrupted (p : Platform μ) (m : Mem) (t : Fin maxTasks) (rsp : Addr) (c : Context) :
    Prop where
  holds : HoldsContext m rsp c
  place : ∃ a, rsp = below (Kernel.kstackOf p t) a ∧ 160 ≤ a ∧ a ≤ stackRoom t

/-- A task is parked in a syscall that it has made in the context `c`. The call was at the start of
`syscall_dispatch` in the state `s`; it has gone down the path `code`, and `block_and_switch` has
saved `regs`. -/
structure ParkedCall (l : Linked p) (m : Mem) (t : Fin maxTasks) (rsp : Addr) (c : Context)
    (code : BlockingPath l) (s : Machine) (regs : Reg → BitVec 64) : Prop where
  ring3 : c.Ring3
  entered : s.regs .rsp = below (Kernel.kstackOf p t) 40
  callee : ∀ r ∈ calleeSaved, s.regs r = c.regs r
  place : rsp = below (Kernel.kstackOf p t) (200 + code.depth)
  holds : HoldsContext m rsp (blockedContext l.resumePoint regs)
  saved_rsp : regs .rsp = (code.enter s).regs .rsp
  saved_callee : ∀ r ∈ calleeSaved, regs r = (code.enter s).regs r
  stack : ∀ x, InRange (below (s.regs .rsp) code.depth) (code.depth + 16) x →
    m x = (code.enter s).mem x
  user : loadWords m (below (Kernel.kstackOf p t) 24) 3 = [c.rip, c.rflags, c.regs .rsp]

/-- The saved-context pointer of a task leads back to the context `c`: directly, or through the
rest of a syscall. -/
def Saved (l : Linked p) (m : Mem) (t : Fin maxTasks) (rsp : Addr) (parked : Bool)
    (path : Option (BlockingPath l)) (c : Context) : Prop :=
  if parked then ∃ code s regs, path = some code ∧ ParkedCall l m t rsp c code s regs
  else Interrupted p m t rsp c

variable {l : Linked p} {m m' : Mem} {t : Fin maxTasks} {rsp : Addr} {c : Context}

theorem Interrupted.congr (h : Interrupted p m t rsp c) (heq : ∀ x, InStack p t x → m' x = m x) :
    Interrupted p m' t rsp c := by
  obtain ⟨a, rfl, h160, ha⟩ := h.place
  exact ⟨h.holds.congr fun x hx => heq x (.of_below ha h160 hx), a, rfl, h160, ha⟩

theorem ParkedCall.congr {code : BlockingPath l} {s : Machine} {regs : Reg → BitVec 64}
    (h : ParkedCall l m t rsp c code s regs) (heq : ∀ x, InStack p t x → m' x = m x) :
    ParkedCall l m' t rsp c code s regs := by
  have hdepth := code.depth_le
  have hres := l.reserve_le
  have hroom := taskStackSize_le_stackRoom t
  refine { h with holds := ?_, stack := fun x hx => ?_, user := ?_ }
  · refine h.holds.congr fun x hx => heq x (.of_below ?_ ?_ (h.place ▸ hx)) <;> omega
  · refine (heq x ?_).trans (h.stack x hx)
    rw [h.entered, below_below] at hx
    exact .of_below (by omega) (by omega) hx
  · refine (Amd64.loadWords_congr fun x hx => heq x ?_).trans h.user
    exact .of_below (by omega) (by omega) hx

/-- **A task stays saved** while its stack stays as it is. -/
theorem Saved.congr {parked : Bool} {path : Option (BlockingPath l)}
    (h : Saved l m t rsp parked path c) (heq : ∀ x, InStack p t x → m' x = m x) :
    Saved l m' t rsp parked path c := by
  cases parked with
  | false => exact Interrupted.congr h heq
  | true =>
    obtain ⟨code, s, regs, hpath, hcall⟩ := h
    exact ⟨code, s, regs, hpath, hcall.congr heq⟩

end Saved

/-! ### The per-CPU block and the way out -/

section Landing

variable {μ : Type} {p : Platform μ} {l : Linked p}

theorem sync_of_not_data (k : Kernel μ) (m : Mem) {x : Addr} (hx : ¬l.Data x) :
    Hart.sync l k m x = m x := by
  have hword : ∀ off < 17, ¬InRange (l.perCpu + BitVec.ofNat 64 off) 8 x := by
    intro off hoff hr
    refine hx (l.perCpu_data x (hr.mono ?_))
    rw [Amd64.toNat_add_ofNat_sub _ (by omega)]
    omega
  have h0 := hword 0 (by decide)
  have h16 := hword 16 (by decide)
  rw [BitVec.add_zero] at h0
  exact (Amd64.store_of_not_inRange (n := 8) h16).trans (Amd64.store_of_not_inRange (n := 8) h0)

theorem confined_sync (k : Kernel μ) (m : Mem) (t : Fin maxTasks) (a : ℕ) :
    l.Confined t a m (Hart.sync l k m) := fun _ _ hd => sync_of_not_data k m hd

theorem load_sync_kernelRsp0 (k : Kernel μ) (m : Mem) :
    load (Hart.sync l k m) 8 l.perCpu = k.perCpu.kernelRsp0 := by
  refine (Amd64.load_store_of_apart (n := 8) (k := 8) (by decide) fun x hx hx' => ?_).trans
    (Amd64.load_store_self _ _ (n := 8) (by decide) _)
  have htail : InRange (l.perCpu + 8) (8 * 2) x := by
    refine hx'.mono ?_
    rw [show l.perCpu + 16 = l.perCpu + 8 + BitVec.ofNat 64 8 by rw [BitVec.add_assoc]; rfl,
      Amd64.toNat_add_ofNat_sub _ (by decide)]
  exact Amd64.InRange.not_head (by decide) htail hx

theorem load_sync_replyCptr (k : Kernel μ) (m : Mem) :
    load (Hart.sync l k m) 8 (l.perCpu + 16) = k.perCpu.replyCptr :=
  Amd64.load_store_self _ _ (n := 8) (by decide) _

/-- `syscall_dispatch` is about to return to the exit stub of a call that the task in slot `t` has
made in the context `c`. -/
structure Returning (l : Linked p) (s : Machine) (t : Fin maxTasks) (c : Context) : Prop where
  rsp : s.regs .rsp = below (Kernel.kstackOf p t) 32
  callee : ∀ r ∈ calleeSaved, s.regs r = c.regs r
  gsBase : s.gsBase = l.perCpu
  kernelGsBase : s.kernelGsBase = 0
  user : loadWords s.mem (below (Kernel.kstackOf p t) 24) 3 = [c.rip, c.rflags, c.regs .rsp]

/-- **The end of a syscall.** -/
theorem Returning.exit {s : Machine} {t : Fin maxTasks} {c : Context} (h : Returning l s t c)
    {k : Kernel μ} {r : IpcResult} (hreply : k.perCpu.replyCptr = r.replyCptr.setWidth 64) :
    execAll syscallExit (Hart.returned l k r s)
      = ⟨c.sysret r, 0, l.perCpu, Hart.sync l k s.mem⟩ := by
  have hrsp : (Hart.returned l k r s).regs .rsp = Kernel.kstackOf p t - 32 := h.rsp
  have hstack : loadWords (Hart.returned l k r s).mem (Kernel.kstackOf p t - 24) 3
      = [c.rip, c.rflags, c.regs .rsp] := by
    refine (Amd64.loadWords_congr fun x hx => sync_of_not_data k s.mem fun hd => ?_).trans h.user
    have hroom := taskStackSize_le_stackRoom t
    have h24 : 24 ≤ stackRoom t := Nat.le_trans (by decide) hroom
    exact l.data_stack t x hd (.of_below h24 le_rfl hx)
  have hgs : load (Hart.returned l k r s).mem 8 ((Hart.returned l k r s).gsBase + 16)
      = r.replyCptr.setWidth 64 := by
    rw [← hreply, ← load_sync_replyCptr k s.mem, ← h.gsBase]
    rfl
  rw [execAll_syscallExit hrsp hstack, hgs]
  simp only [Hart.returned, Machine.set, h.gsBase, h.kernelGsBase, Context.sysret]
  congr 2
  funext reg
  by_cases hreg : reg ∈ calleeSaved
  · have hcallee := h.callee reg hreg
    cases reg <;> first | exact hcallee | exact absurd hreg (by decide)
  · cases reg <;> first | rfl | exact absurd (by decide) hreg

/-- The stack of a call below `syscall_dispatch` is in the kernel stack, and below the words of the
user. -/
theorem confined_dispatch {m m' : Mem} {t : Fin maxTasks} {a : Addr}
    (ha : a = below (Kernel.kstackOf p t) 40)
    (h : ∀ x, ¬InRange (below a l.reserve) (l.reserve + 16) x → ¬l.Data x → m' x = m x) :
    l.Confined t 24 m m' := by
  have hres := l.reserve_le
  have hroom := taskStackSize_le_stackRoom t
  subst ha
  rw [below_below] at h
  exact Linked.confined_of_range (by omega) (by omega) h

/-- **A parked call goes on** where it was left, and arrives at the exit stub. -/
theorem ParkedCall.resume {m : Mem} {t : Fin maxTasks} {rsp : Addr} {c : Context}
    {code : BlockingPath l} {s : Machine} {regs : Reg → BitVec 64}
    (h : ParkedCall l m t rsp c code s regs) {s' : Machine}
    (hs' : s' = code.leave (execAll resumeBlocked
      ⟨blockedContext l.resumePoint regs, 0, l.perCpu, m⟩)) :
    Returning l s' t c ∧ l.Confined t 24 m s'.mem := by
  have hret : ∀ r ∈ calleeSaved, (execAll resumeBlocked
      ⟨blockedContext l.resumePoint regs, 0, l.perCpu, m⟩).regs r = (code.enter s).regs r := by
    intro r hr
    rw [← h.saved_callee r hr]
    cases r <;> first | rfl | exact absurd hr (by decide)
  have hrsp : (execAll resumeBlocked ⟨blockedContext l.resumePoint regs, 0, l.perCpu, m⟩).regs .rsp
      = (code.enter s).regs .rsp + 8 := by
    rw [← h.saved_rsp]
    rfl
  obtain ⟨hcallee, hexit, hmem⟩ := code.leave_spec s _ hrsp hret h.stack
  have hgs := code.leave_gs (execAll resumeBlocked
    ⟨blockedContext l.resumePoint regs, 0, l.perCpu, m⟩)
  rw [← hs'] at hcallee hexit hmem hgs
  have hconf : l.Confined t 24 m s'.mem := confined_dispatch h.entered hmem
  have hroom := taskStackSize_le_stackRoom t
  refine ⟨⟨?_, fun r hr => (hcallee r hr).trans (h.callee r hr), hgs.1, hgs.2, ?_⟩, hconf⟩
  · rw [hexit, h.entered]
    exact below_add_ofNat (Kernel.kstackOf p t) (a := 40) (b := 8) (by decide)
  · refine (Amd64.loadWords_congr fun x hx => hconf.of_above ?_ le_rfl hx).trans h.user
    exact Nat.le_trans (by decide) hroom

end Landing

end Cairn
