import Cairn.FrameAlloc.Boot
import Cairn.Virtio.Window

/-!
# The block driver in ring 3

`driver_main` of `kernel/src/user.rs`, instruction by instruction, on the queue it sees through the
pages of `DQ_MAP`. It reads one sector without a system call: it writes the descriptor chain and the
header, publishes the request, rings the doorbell and polls for the completion, all in memory it
shares with the device. Then it makes one system call, `DQ_REPORT`, with the first eight bytes of
the data buffer.

The argument is that of `submit`. As long as the queue is idle the device cannot move, so the driver
writes its request undisturbed; it writes the fields in another order than `submit` and leaves the
same memory (`RequestMem.prepared`). From the store to `avail.idx` on, the request is the only one
in flight.

Two things differ from `submit`. The driver does not look at the status byte: it reports what is in
the data buffer. And when its polling loop gives up, it does not take the queue out of use.

## Main definitions

* `driverMain` — the program
* `Loaded`, `Reports` — the registers once the parameters are loaded, and at the system call
* `Seen`, `GaveUp` — how the polling loop can end

## Main results

* `prepare_spec`, `publish_spec`, `pollLoop_spec`, `report_spec` — the parts of the program
* `driver_reads_sector` — the program, under every schedule
-/

namespace Cairn

namespace Virtio

open Amd64 (AluInstr Block Cpu Operand Reg Source Stop UserInstr runCode)
open Shared (Prog Stable Triple)
open Kernel (dqBase)
open Block (Device)

/-- `[base + disp]`. -/
def mem (base : Reg) (disp : BitVec 64) : Operand := ⟨base, none, disp⟩

/-- `driver_main`. The labels `3` and `4` are the positions 36 and 42. -/
def driverMain : List UserInstr :=
  [.alu (.mov .rbx (.reg .rdi)),
    .alu (.mov .rbp (.imm 0x1000000)),
    .load .r12 8 (mem .rbp 0x3800),
    .load .r13 8 (mem .rbp 0x3808),
    .load .r14 8 (mem .rbp 0x3810),
    .load .r15 8 (mem .rbp 0x3818),
    -- 6: the header's descriptor
    .store 8 (mem .rbp 0x00) (.reg .r12),
    .store 4 (mem .rbp 0x08) (.imm 16),
    .store 2 (mem .rbp 0x0c) (.imm 1),
    .store 2 (mem .rbp 0x0e) (.imm 1),
    -- 10: the data's
    .alu (.lea .rax (mem .r12 512)),
    .store 8 (mem .rbp 0x10) (.reg .rax),
    .store 4 (mem .rbp 0x18) (.imm 512),
    .store 2 (mem .rbp 0x1c) (.imm 3),
    .store 2 (mem .rbp 0x1e) (.imm 2),
    -- 15: the status byte's
    .alu (.lea .rax (mem .r12 1024)),
    .store 8 (mem .rbp 0x20) (.reg .rax),
    .store 4 (mem .rbp 0x28) (.imm 1),
    .store 2 (mem .rbp 0x2c) (.imm 2),
    .store 2 (mem .rbp 0x2e) (.imm 0),
    -- 20: the request header and the status byte
    .store 4 (mem .rbp 0x3000) (.imm 0),
    .store 4 (mem .rbp 0x3004) (.imm 0),
    .store 8 (mem .rbp 0x3008) (.reg .r13),
    .store 1 (mem .rbp 0x3400) (.imm 0xff),
    -- 24: the avail ring
    .load .rax 2 (mem .rbp 0x1002),
    .alu (.mov32 .rcx .rax),
    .alu (.clear .rdx),
    .alu (.div16 .r14),
    .alu (.movzx16 .r9 .rdx),
    .store 2 ⟨.rbp, some (.r9, 2), 0x1004⟩ (.imm 0),
    .alu (.lea32 .rax .rcx 1),
    .store 2 (mem .rbp 0x1002) (.reg .rax),
    -- 32: the doorbell
    .alu (.mov32 .rcx .rax),
    .alu (.lea .r10 ⟨.rbp, some (.r15, 1), 0x4000⟩),
    .store 2 (mem .r10 0) (.imm 0),
    .alu (.mov .r11 (.imm 100000000)),
    -- 36: the polling loop
    .load .rax 2 (mem .rbp 0x2002),
    .alu (.cmp16 .rax .rcx),
    .je 42,
    .alu .pause,
    .alu (.dec .r11),
    .jnz 36,
    -- 42: the report
    .load .rdx 8 (mem .rbp 0x3200),
    .alu (.mov .rax (.imm 1)),
    .alu (.mov .rdi (.reg .rbx)),
    .alu (.mov .rsi (.imm 3)),
    .alu (.clear .r10),
    .alu (.clear .r8),
    .alu (.mov .r9 (.imm 0xffff)),
    .syscall,
    .ud2]

/-- The registers once the parameters are loaded. -/
structure Loaded (w : Window) (cptr : BitVec 64) (c : Cpu) : Prop where
  rbx : c.regs .rbx = cptr
  rbp : c.regs .rbp = dqBase
  r12 : c.regs .r12 = w.desc.bufPhys
  r13 : c.regs .r13 = w.lba
  r14 : c.regs .r14 = w.desc.qsize.setWidth 64
  r15 : c.regs .r15 = w.desc.doorbellPhys &&& 0xfff

/-- The registers at the system call. -/
structure Reports (cptr word : BitVec 64) (c : Cpu) : Prop where
  rax : c.regs .rax = 1
  rdi : c.regs .rdi = cptr
  rsi : c.regs .rsi = 3
  rdx : c.regs .rdx = word
  r10 : c.regs .r10 = 0
  r8 : c.regs .r8 = 0
  r9 : c.regs .r9 = 0xffff

/-- The registers the driver does not compute with. -/
def kept : List Reg := [.rbx, .rbp, .r12, .r13, .r14, .r15]

theorem Loaded.congr {w : Window} {cptr : BitVec 64} {c c' : Cpu} (h : Loaded w cptr c)
    (hc : ∀ r ∈ kept, c'.regs r = c.regs r) : Loaded w cptr c' := by
  constructor
  · rw [hc _ (by decide), h.rbx]
  · rw [hc _ (by decide), h.rbp]
  · rw [hc _ (by decide), h.r12]
  · rw [hc _ (by decide), h.r13]
  · rw [hc _ (by decide), h.r14]
  · rw [hc _ (by decide), h.r15]

theorem Loaded.set {w : Window} {cptr : BitVec 64} {c : Cpu} (h : Loaded w cptr c) {r : Reg}
    (hr : r ∉ kept) (v : BitVec 64) : Loaded w cptr (c.set r v) := by
  refine h.congr fun r' hr' => ?_
  rw [Cpu.regs_set, if_neg]
  rintro rfl
  exact hr hr'

/-! ### Accesses -/

section Access

variable {w : Window} (hmap : Mapped w.tables w.desc) (hapart : Apart w.desc) {c : Cpu}

include hmap hapart

theorem read_window (hbp : c.regs .rbp = dqBase) {disp : BitVec 64} {n : ℕ} (cell : Cell)
    (hcell : windowCell disp.toNat n = some cell) (hdisp : disp.toNat < 16384) :
    w.bus.read ((mem .rbp disp).addr c) n = cell.get (params w.desc w.lba) := by
  change (w.cell (c.regs .rbp + disp) n false).bind _ = _
  rw [hbp, w.cell_window hmap hapart n hdisp fun h => absurd h Bool.false_ne_true, hcell]
  rfl

theorem write_window (hbp : c.regs .rbp = dqBase) {disp : BitVec 64} {n : ℕ} (cell : Cell)
    (hcell : windowCell disp.toNat n = some cell) (hdisp : disp.toNat < 16384)
    (hro : disp.toNat / 4096 ≠ 2) (v : BitVec 64) :
    w.bus.write ((mem .rbp disp).addr c) n v = cell.put v := by
  change (w.cell (c.regs .rbp + disp) n true).bind _ = _
  rw [hbp, w.cell_window hmap hapart n hdisp fun _ => hro, hcell]
  rfl

/-- An entry of the avail ring. -/
theorem write_ring (hbp : c.regs .rbp = dqBase) {slot : BitVec 16}
    (hr9 : c.regs .r9 = slot.setWidth 64) (hslot : slot < 128) (v : BitVec 64) :
    w.bus.write (Operand.addr ⟨.rbp, some (.r9, 2), 0x1004⟩ c) 2 v
      = (Cell.availRing slot).put v := by
  have haddr : Operand.addr ⟨.rbp, some (.r9, 2), 0x1004⟩ c
      = dqBase + (slot.setWidth 64 * 2 + 0x1004) := by
    rw [← hr9, ← hbp, ← BitVec.add_assoc]
    rfl
  have hnat : (slot.setWidth 64 * 2 + 0x1004 : BitVec 64).toNat = 4096 + (4 + slot.toNat * 2) := by
    bv_omega
  have hcell : windowCell (4096 + (4 + slot.toNat * 2)) 2 = some (.availRing slot) := by
    have hdiv : (4096 + (4 + slot.toNat * 2)) / 4096 = 1 := by bv_omega
    have hmod : (4096 + (4 + slot.toNat * 2)) % 4096 = 4 + slot.toNat * 2 := by bv_omega
    rw [windowCell, hdiv, hmod]
    change availCell _ 2 = _
    rw [availCell, if_neg (by omega), if_pos (by omega), Nat.add_sub_cancel_left,
      Nat.mul_div_cancel _ (by decide), BitVec.ofNat_toNat, BitVec.setWidth_eq]
  change (w.cell _ 2 true).bind _ = _
  rw [haddr, w.cell_window hmap hapart 2 (by bv_omega) (by bv_omega), hnat, hcell]
  rfl

theorem write_doorbell (hr10 : c.regs .r10 = dqBase + 0x4000 + (w.desc.doorbellPhys &&& 0xfff))
    (v : BitVec 64) : w.bus.write ((mem .r10 0).addr c) 2 v = some id := by
  have haddr : (mem .r10 0).addr c = dqBase + 0x4000 + (w.desc.doorbellPhys &&& 0xfff) := by
    rw [← hr10]
    exact BitVec.add_zero _
  change (w.cell _ 2 true).bind _ = _
  rw [haddr, w.cell_doorbell hmap hapart]
  rfl

end Access

/-- The slot of the avail ring, as `div` computes it. -/
theorem slot_alus {c : Cpu} {i n : BitVec 16} (hrax : c.regs .rax = i.setWidth 64)
    (hr14 : c.regs .r14 = n.setWidth 64) (hn : 0 < n) :
    ∃ c', [.mov32 .rcx .rax, .clear .rdx, .div16 .r14, .movzx16 .r9 .rdx].foldlM AluInstr.exec c
        = some c' ∧
      c'.regs .r9 = (i % n).setWidth 64 ∧ c'.regs .rcx = i.setWidth 64 ∧
      ∀ r ∈ kept, c'.regs r = c.regs r := by
  have hwiden : ∀ x : BitVec 16, (x.setWidth 64).setWidth 16 = x := by simp
  generalize hc₂ : { (c.set .rcx (((c.regs .rax).setWidth 32).setWidth 64)).set .rdx 0 with
    zf := true } = c₂
  have hdiv : AluInstr.exec c₂ (.div16 .r14)
      = some ((c₂.set16 .rax (i / n)).set16 .rdx (i % n)) := by
    subst hc₂
    refine Amd64.exec_div16 ?_ rfl ?_ (by bv_omega)
    · change (c.regs .rax).setWidth 16 = i
      rw [hrax, hwiden]
    · change (c.regs .r14).setWidth 16 = n
      rw [hr14, hwiden]
  have hslot : (((c₂.set16 .rax (i / n)).set16 .rdx (i % n)).regs .rdx).setWidth 16 = i % n := by
    subst hc₂
    simp
  refine ⟨((c₂.set16 .rax (i / n)).set16 .rdx (i % n)).set .r9 ((i % n).setWidth 64),
    ?_, ?_, ?_, ?_⟩
  · have hfold : [.mov32 .rcx .rax, .clear .rdx, .div16 .r14, .movzx16 .r9 .rdx].foldlM
        AluInstr.exec c
          = (AluInstr.exec c₂ (.div16 .r14)).bind fun c => AluInstr.exec c (.movzx16 .r9 .rdx) := by
      subst hc₂
      rfl
    rw [hfold, hdiv, Option.bind_some, AluInstr.exec, hslot]
  · rw [Cpu.regs_set, if_pos rfl]
  · subst hc₂
    simp [hrax]
  · intro r hr
    have hne : r ≠ .rax ∧ r ≠ .rcx ∧ r ≠ .rdx ∧ r ≠ .r9 := by
      revert hr
      cases r <;> decide
    subst hc₂
    simp [hne]

/-! ### The parts of the program -/

/-- Write a descriptor. -/
def RequestMem.setDesc (m : RequestMem) (i : BitVec 16) (d : Descriptor) : RequestMem :=
  { m with desc := Function.update m.desc i d }

section Parts

variable {w : Window} (hmap : Mapped w.tables w.desc) (hapart : Apart w.desc) {c : Cpu}
  {cptr : BitVec 64} {q : Queue} {fuel pc : ℕ} {R : Stop → Queue → Prop}

theorem load_alone (hidle : Idle q) {dst : Reg} {n : ℕ} {src : Operand} {f : Queue → BitVec 64}
    (hi : driverMain[pc]? = some (.load dst n src)) (hread : w.bus.read (src.addr c) n = some f)
    (hk : Triple move (· = q) (runCode w.bus driverMain fuel (pc + 1) (c.set dst (f q))) R) :
    Triple move (· = q) (runCode w.bus driverMain (fuel + 1) pc c) R := by
  rw [Amd64.runCode_load hi hread]
  exact Triple.read_alone hidle.undisturbed hk

theorem alus_spec {P : Queue → Prop} {c' : Cpu} (n : ℕ) (is : List AluInstr)
    (hblock : Block driverMain pc (is.map .alu)) (hn : is.length = n)
    (h : is.foldlM AluInstr.exec c = some c')
    (hk : Triple move P (runCode w.bus driverMain fuel (pc + n) c') R) :
    Triple move P (runCode w.bus driverMain (fuel + n) pc c) R := by
  rw [Amd64.runCode_alus hblock hn h]
  exact hk

/-- Stores into the request of an idle queue. -/
theorem stores_alone (hidle : Idle q) {m : RequestMem} (n : ℕ) (is : List (ℕ × Operand × Source))
    (gs : List (RequestMem → RequestMem))
    (hblock : Block driverMain pc (is.map fun i => .store i.1 i.2.1 i.2.2)) (hn : is.length = n)
    (h : is.map (fun i => w.bus.write (i.2.1.addr c) i.1 (i.2.2.eval c))
      = (gs.map Queue.onMem).map some)
    (hk : Triple move (· = { q with mem := gs.foldl (fun m f => f m) m })
      (runCode w.bus driverMain fuel (pc + n) c) R) :
    Triple move (· = { q with mem := m }) (runCode w.bus driverMain (fuel + n) pc c) R := by
  rw [Amd64.runCode_stores hblock hn h]
  refine Triple.modifyAll_alone (fun _ hq => Idle.undisturbed hq) ?_ (hidle.congr rfl) fun _ => ?_
  · intro f hf q hq
    obtain ⟨g, -, rfl⟩ := List.mem_map.mp hf
    exact hq.congr rfl
  · rw [foldl_onMem]
    exact hk

include hmap hapart

/-- The parameters. -/
theorem load_spec (hidle : Idle q) (hdi : c.regs .rdi = cptr)
    (hk : ∀ c', Loaded w cptr c' → Triple move (· = q) (runCode w.bus driverMain fuel 6 c') R) :
    Triple move (· = q) (runCode w.bus driverMain (fuel + 6) 0 c) R := by
  refine alus_spec 2 [.mov .rbx (.reg .rdi), .mov .rbp (.imm dqBase)] (by decide) rfl rfl ?_
  refine load_alone hidle rfl (read_window hmap hapart rfl (.param 0) (by decide) (by decide)) ?_
  refine load_alone hidle rfl (read_window hmap hapart rfl (.param 1) (by decide) (by decide)) ?_
  refine load_alone hidle rfl (read_window hmap hapart rfl (.param 2) (by decide) (by decide)) ?_
  refine load_alone hidle rfl (read_window hmap hapart rfl (.param 3) (by decide) (by decide)) ?_
  exact hk _ ⟨hdi, rfl, rfl, rfl, rfl, rfl⟩

/-- The four stores of a descriptor. -/
theorem descriptor_spec (hidle : Idle q) {m : RequestMem} (hbp : c.regs .rbp = dqBase)
    (i : BitVec 16) (off : BitVec 64) (src : Reg) {addr : BitVec 64} (len : BitVec 32)
    (flags next : BitVec 16)
    (hsrc : c.regs src = addr)
    (hblock : Block driverMain pc [.store 8 (mem .rbp off) (.reg src),
      .store 4 (mem .rbp (off + 8)) (.imm (len.setWidth 64)),
      .store 2 (mem .rbp (off + 12)) (.imm (flags.setWidth 64)),
      .store 2 (mem .rbp (off + 14)) (.imm (next.setWidth 64))])
    (hcells : windowCell off.toNat 8 = some (.descAddr i) ∧
      windowCell (off + 8).toNat 4 = some (.descLen i) ∧
      windowCell (off + 12).toNat 2 = some (.descFlags i) ∧
      windowCell (off + 14).toNat 2 = some (.descNext i)) (hoff : off.toNat < 4000)
    (hk : Triple move (· = { q with mem := m.setDesc i ⟨addr, len, flags, next⟩ })
      (runCode w.bus driverMain fuel (pc + 4) c) R) :
    Triple move (· = { q with mem := m }) (runCode w.bus driverMain (fuel + 4) pc c) R := by
  obtain ⟨haddr, hlen, hflags, hnext⟩ := hcells
  refine stores_alone hidle 4 [(8, mem .rbp off, .reg src),
    (4, mem .rbp (off + 8), .imm (len.setWidth 64)),
    (2, mem .rbp (off + 12), .imm (flags.setWidth 64)),
    (2, mem .rbp (off + 14), .imm (next.setWidth 64))]
    (writeDescriptor i ⟨addr, len, flags, next⟩) hblock rfl ?_ ?_
  · have hlen' : (len.setWidth 64).setWidth 32 = len := by simp
    have hwiden : ∀ x : BitVec 16, (x.setWidth 64).setWidth 16 = x := by simp
    simp only [List.map_cons, List.map_nil]
    rw [write_window hmap hapart hbp _ haddr (by bv_omega) (by bv_omega),
      write_window hmap hapart hbp _ hlen (by bv_omega) (by bv_omega),
      write_window hmap hapart hbp _ hflags (by bv_omega) (by bv_omega),
      write_window hmap hapart hbp _ hnext (by bv_omega) (by bv_omega)]
    simp only [Source.eval, Cell.put, hsrc, hlen', hwiden]
    rfl
  · rw [foldl_writeDescriptor]
    exact hk

/-- The request header and the status byte. -/
theorem header_spec (hidle : Idle q) {m : RequestMem} (hc : Loaded w cptr c)
    (hk : Triple move
      (· = { q with mem := { m with hdr := ⟨blkTIn, 0, w.lba⟩ }, status := 0xff })
      (runCode w.bus driverMain fuel 24 c) R) :
    Triple move (· = { q with mem := m }) (runCode w.bus driverMain (fuel + 4) 20 c) R := by
  have htype : ∀ v, w.bus.write ((mem .rbp 0x3000).addr c) 4 v = Cell.hdrType.put v :=
    write_window hmap hapart hc.rbp _ (by decide) (by decide) (by decide)
  have hreserved : ∀ v, w.bus.write ((mem .rbp 0x3004).addr c) 4 v = Cell.hdrReserved.put v :=
    write_window hmap hapart hc.rbp _ (by decide) (by decide) (by decide)
  have hsector : ∀ v, w.bus.write ((mem .rbp 0x3008).addr c) 8 v = Cell.hdrSector.put v :=
    write_window hmap hapart hc.rbp _ (by decide) (by decide) (by decide)
  have hstatus : ∀ v, w.bus.write ((mem .rbp 0x3400).addr c) 1 v = Cell.status.put v :=
    write_window hmap hapart hc.rbp _ (by decide) (by decide) (by decide)
  refine stores_alone hidle 3 [(4, mem .rbp 0x3000, .imm 0), (4, mem .rbp 0x3004, .imm 0),
    (8, mem .rbp 0x3008, .reg .r13)] (writeHeader blkTIn w.lba) (by decide) rfl ?_ ?_
  · simp only [List.map_cons, List.map_nil, htype, hreserved, hsector, Source.eval, hc.r13]
    rfl
  · rw [Amd64.runCode_store (by rfl) (hstatus 0xff)]
    exact Triple.modify_alone (Idle.undisturbed (hidle.congr rfl)) hk

/-- **The request is written** as `submit` writes it. -/
theorem prepare_spec (hidle : Idle q) (hlaid : Laid w.desc q) (hc : Loaded w cptr c)
    (hk : ∀ c', Loaded w cptr c' →
      Triple move (· = { q with mem := q.mem.prepared ⟨blkTIn, w.lba, true⟩, status := 0xff })
        (runCode w.bus driverMain fuel 24 c') R) :
    Triple move (· = q) (runCode w.bus driverMain (fuel + 18) 6 c) R := by
  have hhdr : c.regs .r12 = q.mem.hdrPhys := hc.r12.trans hlaid.hdr.symm
  have hdata : c.regs .r12 + 512 = q.mem.dataPhys := by rw [hc.r12, hlaid.data]
  have hstatus : c.regs .r12 + 1024 = q.mem.statusPhys := by rw [hc.r12, hlaid.status]
  refine descriptor_spec hmap hapart hidle hc.rbp 0 0 .r12 16 descFNext 1 hhdr (by decide)
    (by decide) (by decide) ?_
  refine alus_spec 1 [.lea .rax (mem .r12 512)] (by decide) rfl rfl ?_
  have hc₁ : Loaded w cptr (c.set .rax (c.regs .r12 + 512)) := hc.set (by decide) _
  refine descriptor_spec hmap hapart hidle hc₁.rbp 1 16 .rax 512
    (descFNext ||| descFWrite) 2 hdata (by decide) (by decide) (by decide) ?_
  refine alus_spec 1 [.lea .rax (mem .r12 1024)] (by decide) rfl rfl ?_
  have hc₂ := hc₁.set (r := .rax) (by decide) (c.regs .r12 + 1024)
  refine descriptor_spec hmap hapart hidle hc₂.rbp 2 32 .rax 1 descFWrite 0
    hstatus (by decide) (by decide) (by decide) ?_
  refine header_spec hmap hapart hidle hc₂ ?_
  rw [q.mem.prepared_data rfl, if_pos rfl] at hk
  exact hk _ hc₂

/-- The doorbell. Ringing it tells the device nothing it could not find out by itself. -/
theorem doorbell_spec {P : Queue → Prop} (hP : Stable move P) (hc : Loaded w cptr c)
    (hk : ∀ c', Loaded w cptr c' → c'.regs .rcx = ((c.regs .rax).setWidth 32).setWidth 64 →
      c'.regs .r11 = 100000000 → Triple move P (runCode w.bus driverMain fuel 36 c') R) :
    Triple move P (runCode w.bus driverMain (fuel + 4) 32 c) R := by
  generalize hc₁ : c.set .rcx (((c.regs .rax).setWidth 32).setWidth 64) = c₁
  have hloaded₁ : Loaded w cptr c₁ := hc₁ ▸ hc.set (by decide) _
  have haddr : Operand.addr ⟨.rbp, some (.r15, 1), 0x4000⟩ c₁
      = dqBase + 0x4000 + (w.desc.doorbellPhys &&& 0xfff) := by
    change c₁.regs .rbp + c₁.regs .r15 * 1 + 0x4000 = _
    rw [hloaded₁.rbp, hloaded₁.r15]
    bv_omega
  have hfold : [.mov32 .rcx .rax, .lea .r10 ⟨.rbp, some (.r15, 1), 0x4000⟩].foldlM AluInstr.exec c
      = some (c₁.set .r10 (dqBase + 0x4000 + (w.desc.doorbellPhys &&& 0xfff))) := by
    rw [← haddr, ← hc₁]
    rfl
  refine alus_spec 2 _ (by decide) rfl hfold ?_
  have hr10 : (c₁.set .r10 (dqBase + 0x4000 + (w.desc.doorbellPhys &&& 0xfff))).regs .r10
      = dqBase + 0x4000 + (w.desc.doorbellPhys &&& 0xfff) := by
    rw [Cpu.regs_set, if_pos rfl]
  rw [Amd64.runCode_store (by rfl) (write_doorbell hmap hapart hr10 _)]
  refine (Triple.modify (Q := fun _ => P) hP fun _ hq => hq).bind fun _ => ?_
  refine alus_spec 1 [.mov .r11 (.imm 100000000)] (by decide) rfl rfl ?_
  exact hk _ ((hloaded₁.set (by decide) _).set (by decide) _) (hc₁ ▸ rfl) rfl

/-- **The request is published**: from here on it is the only one in flight. -/
theorem publish_spec (hidle : Idle q) (hlaid : Laid w.desc q) (hpos : 0 < w.desc.qsize)
    (hle : w.desc.qsize ≤ 128) {r : Request} (hreq : q.mem.request 0 = some r)
    (hc : Loaded w cptr c)
    (hk : ∀ c', Loaded w cptr c' →
      (c'.regs .rcx).setWidth 16 = BitVec.ofNat 16 (q.published.length + 1) →
      c'.regs .r11 = 100000000 →
      Triple move (Flight q.published r q.disk q.data) (runCode w.bus driverMain fuel 36 c') R) :
    Triple move (· = q) (runCode w.bus driverMain (fuel + 12) 24 c) R := by
  refine load_alone hidle rfl
    (read_window hmap hapart hc.rbp .availIdx (by decide) (by decide)) ?_
  obtain ⟨c₁, hc₁, hr9, hrcx, hsame⟩ := slot_alus (c := c.set .rax (q.availIdx.setWidth 64))
    (i := q.availIdx) (n := w.desc.qsize) rfl hc.r14 hpos
  have hloaded₁ : Loaded w cptr c₁ := (hc.set (r := .rax) (by decide) _).congr hsame
  refine alus_spec 4 _ (by decide) rfl hc₁ ?_
  -- the slot
  have hslot : q.availIdx % w.desc.qsize < 128 := by
    have hmod := Nat.mod_lt q.availIdx.toNat (show 0 < w.desc.qsize.toNat by bv_omega)
    rw [BitVec.lt_def, BitVec.toNat_umod]
    bv_omega
  rw [Amd64.runCode_store (by rfl) (write_ring hmap hapart hloaded₁.rbp hr9 hslot 0)]
  refine Triple.modify_alone hidle.undisturbed ?_
  refine alus_spec 1 [.lea32 .rax .rcx 1] (by decide) rfl rfl ?_
  -- the index
  have hloaded₂ : Loaded w cptr (c₁.set .rax (((c₁.regs .rcx).setWidth 32 + 1).setWidth 64)) :=
    hloaded₁.set (by decide) _
  rw [Amd64.runCode_store (by rfl)
    (write_window hmap hapart hloaded₂.rbp .availIdx (by decide) (by decide) (by decide) _)]
  refine Triple.modify_alone (Idle.undisturbed (hidle.congr rfl)) ?_
  have hidx : ((((c₁.regs .rcx).setWidth 32 + 1).setWidth 64 : BitVec 64).setWidth 16 : BitVec 16)
      = q.availIdx + 1 := by
    rw [hrcx]
    bv_omega
  have hpublish : Queue.publish (q.availIdx + 1) { q with
      availRing := Function.update q.availRing (q.availIdx % w.desc.qsize) 0 } = { q with
      availRing := Function.update q.availRing (q.availIdx % q.qsize) 0
      availIdx := q.availIdx + 1
      published := r :: q.published } := by
    rw [Queue.publish, ← hlaid.qsize]
    dsimp only
    rw [Function.update_self, hreq]
    rfl
  have hflight := hidle.flight hreq
  refine Triple.mono (P := Flight q.published r q.disk q.data) ?_ ?_ fun _ _ h => h
  · refine doorbell_spec hmap hapart flight_stable hloaded₂ fun c' hloaded' hrcx' hr11' =>
      hk c' hloaded' ?_ hr11'
    rw [← hflight.avail, hrcx', Cpu.regs_set, if_pos rfl, hrcx]
    dsimp only
    bv_omega
  · rintro _ rfl
    change Flight _ _ _ _ (Queue.publish (BitVec.setWidth 16
      (((c₁.regs .rcx).setWidth 32 + 1).setWidth 64)) { q with
        availRing := Function.update q.availRing (q.availIdx % w.desc.qsize) 0 })
    rw [hidx, hpublish]
    exact hflight

/-- **The report**: the one system call, with what is in the data buffer. -/
theorem report_spec {P : Queue → Prop} (hP : Stable move P) (hc : Loaded w cptr c) :
    Triple move P (runCode w.bus driverMain (fuel + 8) 42 c) fun stop q =>
      P q ∧ ∃ c', stop = .syscall 49 c' ∧ Reports cptr (q.data.rdU64 0) c' := by
  rw [Amd64.runCode_load (by rfl)
    (read_window hmap hapart hc.rbp (.data 0) (by decide) (by decide))]
  refine (Triple.read (Q := fun v q => P q ∧ q.data.rdU64 0 = v) hP fun q hq => ⟨hq, rfl⟩).bind
    fun v => ?_
  refine alus_spec 6 [.mov .rax (.imm 1), .mov .rdi (.reg .rbx), .mov .rsi (.imm 3), .clear .r10,
    .clear .r8, .mov .r9 (.imm 0xffff)] (by decide) rfl rfl ?_
  rw [Amd64.runCode_syscall (by rfl)]
  refine Triple.ret fun q hq => ⟨hq.1, _, rfl, ?_⟩
  rw [hq.2]
  exact ⟨rfl, hc.rbx, rfl, rfl, rfl, rfl, rfl⟩

end Parts

/-! ### The polling loop -/

section Poll

variable {pub : List Request} {r : Request} {d : Device Sector} {src : Sector}

/-- The driver gives up while the request is in flight; the device may move on. -/
def GaveUp (pub : List Request) (r : Request) (d : Device Sector) (src : Sector) (q : Queue) :
    Prop :=
  ∃ (es : List DeviceMove) (q₁ : Queue), Flight pub r d src q₁ ∧
    q₁.usedIdx ≠ BitVec.ofNat 16 (pub.length + 1) ∧ q = Shared.meddle move es q₁

theorem gaveUp_stable : Stable move (GaveUp pub r d src) := by
  rintro e q ⟨es, q₁, hflight, hpending, rfl⟩
  refine ⟨es ++ [e], q₁, hflight, hpending, ?_⟩
  rw [Shared.meddle, Shared.meddle, List.foldl_append]
  rfl

/-- The completion is there. -/
def Seen (pub : List Request) (r : Request) (d : Device Sector) (src : Sector) (q : Queue) : Prop :=
  Idle q ∧ q.published = r :: pub ∧ Finished r d src q

theorem seen_stable : Stable move (Seen pub r d src) := Idle.stable _

variable {w : Window} (hmap : Mapped w.tables w.desc) (hapart : Apart w.desc) {cptr : BitVec 64}

include hmap hapart

/-- A round, up to the jump back. -/
theorem pollRound_spec {c : Cpu} {fuel : ℕ} {R : Stop → Queue → Prop} (hc : Loaded w cptr c)
    (hrcx : (c.regs .rcx).setWidth 16 = BitVec.ofNat 16 (pub.length + 1))
    (hseen : ∀ c', Loaded w cptr c' →
      Triple move (Seen pub r d src) (runCode w.bus driverMain (fuel + 3) 42 c') R)
    (hnext : ∀ c', Loaded w cptr c' → c'.regs .rcx = c.regs .rcx →
      c'.regs .r11 = c.regs .r11 - 1 → c'.zf = (c.regs .r11 - 1 == 0) →
      Triple move (fun q => Flight pub r d src q ∧ q.usedIdx ≠ BitVec.ofNat 16 (pub.length + 1))
        (runCode w.bus driverMain (fuel + 1) 41 c') R) :
    Triple move (Flight pub r d src) (runCode w.bus driverMain (fuel + 6) 36 c) R := by
  rw [Amd64.runCode_load (by rfl) (read_window hmap hapart hc.rbp .usedIdx (by decide) (by decide))]
  refine (Triple.read (Q := fun v q => Flight pub r d src q ∧ q.usedIdx.setWidth 64 = v)
    flight_stable fun q hq => ⟨hq, rfl⟩).bind fun v => ?_
  refine alus_spec 1 [.cmp16 .rax .rcx] (by decide) rfl rfl ?_
  generalize hc₁ : { c.set .rax v with
    zf := ((c.set .rax v).regs .rax).setWidth 16 == ((c.set .rax v).regs .rcx).setWidth 16 } = c₁
  have hloaded₁ : Loaded w cptr c₁ := by
    subst hc₁
    exact (hc.set (r := .rax) (by decide) v).congr fun _ _ => rfl
  have hzf : c₁.zf = (v.setWidth 16 == BitVec.ofNat 16 (pub.length + 1)) := by
    subst hc₁
    rw [← hrcx]
    rfl
  have hused : ∀ {i : BitVec 16}, i.setWidth 64 = v → v.setWidth 16 = i := by
    rintro i rfl
    simp
  by_cases hv : v.setWidth 16 = BitVec.ofNat 16 (pub.length + 1)
  · rw [Amd64.runCode_goto (i := .je 42) (by rfl) (by rw [Amd64.exec, hzf, beq_iff_eq.mpr hv]; rfl)]
    refine (hseen c₁ hloaded₁).mono (fun q hq => ?_) fun _ _ h => h
    exact hq.1.idle_of_used ((hused hq.2).symm.trans hv)
  · rw [Amd64.runCode_next (i := .je 42) (by rfl)
      (by rw [Amd64.exec, hzf, beq_eq_false_iff_ne.mpr hv]; rfl)]
    refine alus_spec 2 [.pause, .dec .r11] (by decide) rfl rfl ?_
    refine (hnext _ ?_ ?_ ?_ ?_).mono (fun q hq => ⟨hq.1, ?_⟩) fun _ _ h => h
    · exact (hloaded₁.set (r := .r11) (by decide) _).congr fun _ _ => rfl
    · subst hc₁
      rfl
    · subst hc₁
      rfl
    · subst hc₁
      rfl
    · rw [← hused hq.2]
      exact hv

/-- **The polling loop** ends with the completion of the request, or it gives up before the device
has counted it. -/
theorem pollLoop_spec (n : ℕ) (hn : n + 1 < 2 ^ 64) {c : Cpu} {fuel : ℕ}
    (hfuel : 6 * (n + 1) + 8 ≤ fuel) (hc : Loaded w cptr c)
    (hrcx : (c.regs .rcx).setWidth 16 = BitVec.ofNat 16 (pub.length + 1))
    (hr11 : c.regs .r11 = BitVec.ofNat 64 (n + 1)) :
    Triple move (Flight pub r d src) (runCode w.bus driverMain fuel 36 c) fun stop q =>
      (Seen pub r d src q ∨ GaveUp pub r d src q) ∧
        ∃ c', stop = .syscall 49 c' ∧ Reports cptr (q.data.rdU64 0) c' := by
  induction n generalizing c fuel with
  | zero =>
    obtain ⟨f, rfl⟩ : ∃ f, fuel = f + 8 + 6 := ⟨fuel - 14, by omega⟩
    refine pollRound_spec hmap hapart hc hrcx (fun c' hc' => ?_) fun c' hc' _ _ hzf => ?_
    · exact (report_spec hmap hapart seen_stable hc').mono (fun _ h => h)
        fun _ _ h => ⟨.inl h.1, h.2⟩
    · have hzf : c'.zf = true := by
        rw [hzf, hr11]
        rfl
      rw [Amd64.runCode_next (i := .jnz 36) (by rfl) (by rw [Amd64.exec, hzf]; rfl)]
      exact (report_spec hmap hapart gaveUp_stable hc').mono
        (fun q hq => ⟨[], q, hq.1, hq.2, rfl⟩) fun _ _ h => ⟨.inr h.1, h.2⟩
  | succ n ih =>
    obtain ⟨f, rfl⟩ : ∃ f, fuel = f + 8 + 6 := ⟨fuel - 14, by omega⟩
    refine pollRound_spec hmap hapart hc hrcx (fun c' hc' => ?_) fun c' hc' hrcx' hr11' hzf => ?_
    · exact (report_spec hmap hapart seen_stable hc').mono (fun _ h => h)
        fun _ _ h => ⟨.inl h.1, h.2⟩
    · have hdec : c.regs .r11 - 1 = BitVec.ofNat 64 (n + 1) := by
        rw [hr11]
        bv_omega
      have hzf : c'.zf = false := by
        rw [hzf, hdec, beq_eq_false_iff_ne]
        bv_omega
      rw [Amd64.runCode_goto (i := .jnz 36) (by rfl) (by rw [Amd64.exec, hzf]; rfl)]
      exact (ih (by omega) (by omega) hc' (hrcx' ▸ hrcx) (hr11'.trans hdec)).mono
        (fun _ hq => hq.1) fun _ _ h => h

end Poll

/-! ### The program -/

/-- The instructions the driver needs at most. -/
def driverFuel : ℕ := 36 + 6 * 100000000 + 8

/-- **`driver_main`** on an idle queue, under every schedule. -/
theorem driver_spec {w : Window} (hmap : Mapped w.tables w.desc) (hapart : Apart w.desc)
    {q : Queue} (hidle : Idle q) (hlaid : Laid w.desc q) (hpos : 0 < w.desc.qsize)
    (hle : w.desc.qsize ≤ 128) (c : Cpu) {fuel : ℕ} (hfuel : driverFuel ≤ fuel) :
    Triple move (· = q) (runCode w.bus driverMain fuel 0 c) fun stop q' =>
      (Seen q.published ⟨blkTIn, w.lba, true⟩ q.disk q.data q' ∨
          GaveUp q.published ⟨blkTIn, w.lba, true⟩ q.disk q.data q') ∧
        ∃ c', stop = .syscall 49 c' ∧ Reports (c.regs .rdi) (q'.data.rdU64 0) c' := by
  rw [driverFuel] at hfuel
  obtain ⟨f, rfl⟩ : ∃ f, fuel = f + 12 + 18 + 6 := ⟨fuel - 36, by omega⟩
  refine load_spec hmap hapart hidle rfl fun c₁ hc₁ => ?_
  refine prepare_spec hmap hapart hidle hlaid hc₁ fun c₂ hc₂ => ?_
  refine publish_spec hmap hapart (hidle.congr rfl) (hlaid.congr ?_ ?_ ?_ rfl) hpos hle
    (q.mem.request_prepared ⟨blkTIn, w.lba, true⟩) hc₂ fun c₃ hc₃ hrcx hr11 => ?_
  · rw [q.mem.prepared_data rfl]
  · rw [q.mem.prepared_data rfl]
  · rw [q.mem.prepared_data rfl]
  · exact pollLoop_spec hmap hapart 99999999 (by decide) (by omega) hc₃ hrcx hr11

section Read

variable {pub : List Request} {r : Request} {d : Device Sector} {src : Sector} {q : Queue}

theorem Finished.data_cases (h : Finished r d src q) (hr : r.type = blkTIn) :
    q.disk = d ∧ (q.data = src ∨ (q.status = 0 → q.data = d.view r.sector.toNat)) := by
  have happly : r.apply d src = d := by
    rw [Request.apply, if_neg (by rw [hr]; decide), if_neg (by rw [hr]; decide)]
  have hdisk := h.effect
  rw [happly, or_self] at hdisk
  exact ⟨hdisk, .inr fun hok => (h.ok hok).2 hr⟩

/-- What a read in flight has done: nothing to the sectors, and to the data buffer nothing until it
was carried out. -/
theorem Flight.data_cases (h : Flight pub r d src q) (hr : r.type = blkTIn) :
    q.disk = d ∧ (q.data = src ∨ (q.status = 0 → q.data = d.view r.sector.toNat)) := by
  cases h.stage with
  | waiting _ _ _ _ _ _ disk data => exact ⟨disk, .inl data⟩
  | fetched _ _ _ _ _ disk data => exact ⟨disk, .inl data⟩
  | served _ _ _ _ _ finished => exact finished.data_cases hr
  | counted _ _ _ _ _ finished => exact finished.data_cases hr

theorem GaveUp.flight (h : GaveUp pub r d src q) : Flight pub r d src q := by
  obtain ⟨es, q₁, hflight, -, rfl⟩ := h
  exact flight_stable.meddle es hflight

end Read

/-- The kernel clears the word the driver will report, so that it cannot be there already. -/
def Queue.clearWord (q : Queue) : Queue := { q with data := q.data.wrU64 0 0 }

/-- A completed read ends as `read_sector` can. -/
theorem Seen.callEnd {q q' : Queue} {lba : BitVec 64}
    (h : Seen q.published ⟨blkTIn, lba, true⟩ q.disk q.data q') :
    ∃ a, CallEnd q (.read lba) a q' ∧ ∀ s, a.dst = some s → s = q'.data := by
  obtain ⟨hidle, hpub, hfin⟩ := h
  by_cases hok : q'.status = 0
  · obtain ⟨hdisk, hdata⟩ := hfin.ok hok
    refine ⟨_, .ok hidle hpub hdisk, fun s hs => ?_⟩
    rw [hdata rfl]
    exact (Option.some.inj hs).symm
  · exact ⟨_, .failed hidle hpub hfin.effect, fun s hs => by cases hs⟩

/-- **The driver in ring 3 reads the sector.** Set up the queue, let the kernel use it in any way
as long as no request times out, clear the first word of the data buffer and map the queue for the
driver. Then, whatever the device does and when, `driver_main` comes to its system call within the
instructions it is given, a `DQ_REPORT` of the first word of the data buffer. It has not changed the
disk, and the word is the cleared one, or the first word of the sector unless the device has
reported an error. It makes the call when the device has completed the request, and then the queue
is as `read_sector` of the kernel could have left it, or it has given up while the request was in
flight. -/
theorem driver_reads_sector {μ : Type} {mapTo : MapTo μ} (hmapTo : mapTo.Lawful)
    {devLo devHi : BitVec 32} {featuresOk : Bool} {max : BitVec 16} {fa : FrameAllocator}
    {disk : Device Sector} {q₀ : Queue} {g : DeviceQueueDesc} {doorbellPhys : BitVec 64}
    (hgood : fa.Good (2 ^ 52))
    (hmmio : ∀ f ∈ fa.freeSet, pageStart doorbellPhys ≠ frameAddr f)
    (hdoor : (doorbellPhys &&& 0xfff).toNat + 2 ≤ 4096)
    (hinit : (init devLo devHi featuresOk max fa disk).1 = some q₀)
    (hdesc : initDesc max doorbellPhys fa = some g) (h : List Turn)
    (hpresent : (Runs.after Queue.step q₀ h).present = true) (p : Platform μ)
    (k : Kernel (Paged μ)) (d : Fin maxDomains) (oid : Fin objectTableSize)
    (hoid : (k.devqueues oid).toDeviceQueueDesc = g)
    (hmap : (k.devqueueMap (p.paged mapTo) d oid).1.1 = .ok) (lba : BitVec 64) (c : Cpu)
    (o : Schedule) {fuel : ℕ} (hfuel : driverFuel ≤ fuel) :
    let w : Window := ⟨(k.devqueueMap (p.paged mapTo) d oid).2.machine.tables, g, lba⟩
    let q := (Runs.after Queue.step q₀ h).clearWord
    let final := Shared.run move o (runCode w.bus driverMain fuel 0 c) q
    let q' := final.2.1
    let word := q'.data.rdU64 0
    (∃ c', final.1 = .syscall 49 c' ∧ Reports (c.regs .rdi) word c') ∧
      q'.disk = q.disk ∧
      (word = 0 ∨ (q'.status = 0 → word = (q.disk.view lba.toNat).rdU64 0)) ∧
      ((∃ a, CallEnd q (.read lba) a q' ∧ ∀ s, a.dst = some s → s.rdU64 0 = word) ∨
        GaveUp q.published ⟨blkTIn, lba, true⟩ q.disk q.data q') := by
  subst hoid
  intro w q final q' word
  have hidle₀ : Idle (Runs.after Queue.step q₀ h) := by
    refine (idle_or_disabled (idle_of_init hinit) h).resolve_right fun hoff => ?_
    rw [hpresent] at hoff
    cases hoff
  have hidle : Idle q := hidle₀.congr rfl
  obtain ⟨hlaid₀, hpos, hle⟩ := laid_init hinit hdesc
  have hlaid : Laid w.desc q := (laid_after hlaid₀ h).congr rfl rfl rfl rfl
  have hmapped : Mapped w.tables w.desc := mapped_devqueueMap hmapTo p d hmap
  have hapart : Apart w.desc := apart_initDesc hgood hmmio hdoor hdesc
  obtain ⟨hend, hcall⟩ := driver_spec hmapped hapart hidle hlaid hpos hle c hfuel o q rfl
  have hdata : q'.disk = q.disk ∧
      (q'.data = q.data ∨ (q'.status = 0 → q'.data = q.disk.view lba.toNat)) := by
    rcases hend with hseen | hgave
    · exact hseen.2.2.data_cases rfl
    · exact hgave.flight.data_cases rfl
  refine ⟨hcall, hdata.1, ?_, ?_⟩
  · rcases hdata.2 with hclear | hread
    · have hzero : word = (q.data).rdU64 0 := congrArg (Sector.rdU64 · 0) hclear
      exact .inl (hzero.trans (Sector.rd_wr_self _ 0 8 _ rfl (by decide)))
    · exact .inr fun hok => congrArg (Sector.rdU64 · 0) (hread hok)
  · rcases hend with hseen | hgave
    · obtain ⟨a, ha, hdst⟩ := Seen.callEnd hseen
      exact .inl ⟨a, ha, fun s hs => congrArg (Sector.rdU64 · 0) (hdst s hs)⟩
    · exact .inr hgave

/-! ### A seeded sector -/

/-- Memory for the rings and the request buffer. -/
def smallMemory : FrameAllocator := .init [⟨0x100000, 0x4000, memmapUsable⟩]

/-- A disk with a word at the start of every sector. -/
def seededDisk : Device Sector := ⟨fun _ => Sector.zero.wrU64 0 7, []⟩

/-- A queue of eight entries on that disk. -/
def seededQueue : Queue := .ready 8 true 0x103000 seededDisk

/-- Its frames. -/
def smallDesc : DeviceQueueDesc := ⟨0x100000, 0x101000, 0x102000, 0x103000, 0xfe000000, 8⟩

/-- A kernel with a DeviceQueue for it. -/
def driverKernel : Kernel (Paged Unit) :=
  { emptyKernel with devqueues := fun _ => ⟨smallDesc, 7, 5⟩ }

/-- The object of the DeviceQueue. -/
def driverQueue : Fin objectTableSize := ⟨0, by rw [objectTableSize]; decide⟩

/-- What the driver sees of it. -/
def smallWindow : Window :=
  ⟨(driverKernel.devqueueMap queuePlatform 5 driverQueue).2.machine.tables, smallDesc, 5⟩

/-- The device answers right before the first poll. -/
def promptDevice : Schedule := List.replicate 24 [] ++ [[.fetch, .serve 0 true .zero, .complete]]

/-- The driver reports the word that was seeded. -/
theorem driver_reads_sector_seeded :
    ∃ c', (Shared.run move promptDevice
        (runCode smallWindow.bus driverMain driverFuel 0 ⟨fun _ => 0, false⟩)
        seededQueue.clearWord).1 = .syscall 49 c' ∧ c'.regs .rdx = 7 := by
  have hmmio : ∀ f ∈ smallMemory.freeSet, pageStart 0xfe000000 ≠ frameAddr f := by decide +kernel
  have hinit : (init 512 1 true 8 smallMemory seededDisk).1 = some seededQueue := rfl
  have hdesc : initDesc 8 0xfe000000 smallMemory = some smallDesc := by decide +kernel
  have hmap : (driverKernel.devqueueMap queuePlatform 5 driverQueue).1.1 = .ok := by
    decide +kernel
  obtain ⟨⟨c', hstop, hreports⟩, -, hword, -⟩ := driver_reads_sector MapTo.lawful_creating
    (FrameAllocator.good_init_address _) hmmio (by decide) hinit hdesc [] rfl queueMachine
    driverKernel 5 driverQueue rfl hmap 5 ⟨fun _ => 0, false⟩ promptDevice (Nat.le_refl _)
  refine ⟨c', hstop, hreports.rdx.trans ?_⟩
  rcases hword with hcleared | hread
  · exact absurd hcleared (by decide +kernel)
  · exact (hread (by decide +kernel)).trans (by decide +kernel)

end Virtio

end Cairn
