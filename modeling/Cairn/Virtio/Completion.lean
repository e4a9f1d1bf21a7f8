import Cairn.Internal.Runs
import Cairn.Virtio.Queue

/-!
# The polled virtqueue never takes a stale completion

Between calls nothing is outstanding: the three 16-bit counters of the queue agree with the number
of requests ever published, modulo `2 ^ 16`, and the device has nothing in hand (`Idle`). In such a
state the device cannot move at all, so the driver writes its request undisturbed, however often the
device is scheduled. Once the request is published it is the only one in flight, in one of four
stages (`Stage`), and the device moves it from one to the next. The counter the driver polls is one
of two consecutive values, which differ modulo `2 ^ 16`, so the value it waits for is only there in
the last stage, and then the queue is idle again.

A timeout leaves a request in flight, and from then on the driver never touches the queue.

## Main definitions

* `Idle` — nothing is outstanding
* `Stage`, `Flight` — the one request in flight
* `SubmitEnd` — how `submit` can end

## Main results

* `flight_stable` — what the device can do to the request in flight
* `submit_spec` — `submit`, under every schedule
* `exists_outcome` — a call is an operation of the block device
* `no_stale_completion` — every run of calls
-/

namespace Cairn

namespace Virtio

open Shared (Prog Stable Undisturbed Triple)
open Block (Device Outcome)

/-! ### Counters -/

theorem ofNat_succ (n : ℕ) : BitVec.ofNat 16 n + 1 = BitVec.ofNat 16 (n + 1) :=
  (BitVec.ofNat_add n 1).symm

/-- Consecutive values of a 16-bit counter differ. -/
theorem ofNat_ne_succ (n : ℕ) : BitVec.ofNat 16 n ≠ BitVec.ofNat 16 (n + 1) := by
  intro h
  have := congrArg BitVec.toNat h
  simp only [BitVec.toNat_ofNat] at this
  omega

/-- The completions of the requests, each with its number, in the order they were published. -/
def jobs : List Request → List Job
  | [] => []
  | r :: p => ⟨p.length, r⟩ :: jobs p

@[simp] theorem length_jobs (p : List Request) : (jobs p).length = p.length := by
  induction p with
  | nil => rfl
  | cons r p ih => rw [jobs, List.length_cons, ih, List.length_cons]

/-! ### Moves that do nothing -/

namespace Queue

theorem fetch_of_eq {q : Queue} (h : q.lastAvail = q.availIdx) : q.fetch = q := if_pos h

theorem serve_of_nil {q : Queue} (h : q.fetched = []) (status : Byte) (effect : Bool)
    (junk : Sector) : q.serve status effect junk = q := by
  rw [serve, h]

theorem complete_of_nil {q : Queue} (h : q.served = []) : q.complete = q := by
  rw [complete, h]

end Queue

/-! ### Between calls -/

/-- Nothing is outstanding. -/
structure Idle (q : Queue) : Prop where
  /-- The driver uses the device. -/
  present : q.present = true
  /-- `avail.idx` counts the published requests. -/
  avail : q.availIdx = BitVec.ofNat 16 q.published.length
  /-- So does `used.idx`. -/
  used : q.usedIdx = BitVec.ofNat 16 q.published.length
  /-- So does the device. -/
  last : q.lastAvail = BitVec.ofNat 16 q.published.length
  /-- No request is fetched. -/
  fetched : q.fetched = []
  /-- No request is to be counted. -/
  served : q.served = []
  /-- Every request is completed, once and in order. -/
  completed : q.completed = jobs q.published

namespace Idle

variable {q : Queue}

/-- The device cannot move. -/
theorem undisturbed (h : Idle q) : Undisturbed move q := by
  intro e
  cases e with
  | fetch => exact Queue.fetch_of_eq (h.last.trans h.avail.symm)
  | serve status effect junk => exact Queue.serve_of_nil h.fetched status effect junk
  | complete => exact Queue.complete_of_nil h.served

/-- What else is known of an idle queue is stable. -/
theorem stable (P : Queue → Prop) : Stable move fun q => Idle q ∧ P q := by
  rintro e q ⟨hidle, hq⟩
  rw [hidle.undisturbed e]
  exact ⟨hidle, hq⟩

/-- The contents of the buffers, the descriptors and the ring do not matter. -/
theorem congr (h : Idle q) {q' : Queue}
    (heq : q' = { q with
      mem := q'.mem
      data := q'.data
      status := q'.status
      availRing := q'.availRing }) : Idle q' := by
  rw [heq]
  exact ⟨h.present, h.avail, h.used, h.last, h.fetched, h.served, h.completed⟩

end Idle

/-! ### The request in flight -/

/-- A request on sectors `d` with `src` in the data buffer has been carried out. -/
structure Finished (r : Request) (d : Device Sector) (src : Sector) (q : Queue) : Prop where
  /-- With status `0`, it took effect. -/
  ok : q.status = 0 →
    q.disk = r.apply d src ∧ (r.type = blkTIn → q.data = d.view r.sector.toNat)
  /-- With any other, it took effect or not. -/
  effect : q.disk = d ∨ q.disk = r.apply d src

/-- How far the device has got with the request published after the requests `p`. -/
inductive Stage (p : List Request) (r : Request) (d : Device Sector) (src : Sector) (q : Queue) :
    Prop
  /-- It has not fetched it. -/
  | waiting (last : q.lastAvail = BitVec.ofNat 16 p.length)
      (request : q.mem.request (q.availRing (q.lastAvail % q.qsize)) = some r)
      (fetched : q.fetched = []) (served : q.served = [])
      (used : q.usedIdx = BitVec.ofNat 16 p.length) (completed : q.completed = jobs p)
      (disk : q.disk = d) (data : q.data = src)
  /-- It has fetched it. -/
  | fetched (last : q.lastAvail = BitVec.ofNat 16 (p.length + 1))
      (fetched : q.fetched = [⟨p.length, r⟩]) (served : q.served = [])
      (used : q.usedIdx = BitVec.ofNat 16 p.length) (completed : q.completed = jobs p)
      (disk : q.disk = d) (data : q.data = src)
  /-- It has carried it out. -/
  | served (last : q.lastAvail = BitVec.ofNat 16 (p.length + 1))
      (fetched : q.fetched = []) (served : q.served = [⟨p.length, r⟩])
      (used : q.usedIdx = BitVec.ofNat 16 p.length) (completed : q.completed = jobs p)
      (finished : Finished r d src q)
  /-- It has counted it. -/
  | counted (last : q.lastAvail = BitVec.ofNat 16 (p.length + 1))
      (fetched : q.fetched = []) (served : q.served = [])
      (used : q.usedIdx = BitVec.ofNat 16 (p.length + 1)) (completed : q.completed = jobs (r :: p))
      (finished : Finished r d src q)

/-- The request `r`, published after the requests `p`, is the only one in flight. -/
structure Flight (p : List Request) (r : Request) (d : Device Sector) (src : Sector)
    (q : Queue) : Prop where
  /-- The driver uses the device. -/
  present : q.present = true
  /-- The request is the last one published. -/
  published : q.published = r :: p
  /-- `avail.idx` counts it. -/
  avail : q.availIdx = BitVec.ofNat 16 (p.length + 1)
  /-- How far the device has got. -/
  stage : Stage p r d src q

section Flight

variable {p : List Request} {r : Request} {d : Device Sector} {src : Sector} {q : Queue}

theorem Flight.fetch (h : Flight p r d src q) : Flight p r d src q.fetch := by
  have hidle : ∀ {last : BitVec 16}, q.lastAvail = last → last = BitVec.ofNat 16 (p.length + 1) →
      Flight p r d src q.fetch := by
    rintro _ hlast rfl
    rw [Queue.fetch_of_eq (hlast.trans h.avail.symm)]
    exact h
  cases h.stage with
  | waiting last request fetched served used completed disk data =>
    have hne : q.lastAvail ≠ q.availIdx := by
      rw [last, h.avail]
      exact ofNat_ne_succ p.length
    rw [Queue.fetch, if_neg hne, request]
    refine ⟨h.present, h.published, h.avail, .fetched ?_ ?_ served used completed disk data⟩
    · rw [last]
      exact ofNat_succ p.length
    · simp only [fetched, served, completed, length_jobs, List.length_nil, List.nil_append,
        Nat.add_zero]
  | fetched last => exact hidle last rfl
  | served last => exact hidle last rfl
  | counted last => exact hidle last rfl

theorem Flight.serve (h : Flight p r d src q) (status : Byte) (effect : Bool) (junk : Sector) :
    Flight p r d src (q.serve status effect junk) := by
  have hidle : q.fetched = [] → Flight p r d src (q.serve status effect junk) := by
    intro hnil
    rw [Queue.serve_of_nil hnil]
    exact h
  cases h.stage with
  | waiting _ _ fetched => exact hidle fetched
  | served _ fetched => exact hidle fetched
  | counted _ fetched => exact hidle fetched
  | fetched last fetched served used completed disk data =>
    rw [Queue.serve, fetched]
    refine ⟨h.present, h.published, h.avail, .served last rfl ?_ used completed ⟨?_, ?_⟩⟩
    · simp only [served, List.nil_append]
    · intro hok
      have hok : status = 0 := hok
      refine ⟨?_, fun htype => ?_⟩
      · dsimp only
        rw [if_pos (Or.inl hok), disk, data]
      · dsimp only
        rw [if_pos htype, if_pos hok, disk]
    · dsimp only
      rw [disk, data]
      split
      · exact Or.inr rfl
      · exact Or.inl rfl

theorem Flight.complete (h : Flight p r d src q) : Flight p r d src q.complete := by
  have hidle : q.served = [] → Flight p r d src q.complete := by
    intro hnil
    rw [Queue.complete_of_nil hnil]
    exact h
  cases h.stage with
  | waiting _ _ _ served => exact hidle served
  | fetched _ _ served => exact hidle served
  | counted _ _ served => exact hidle served
  | served last fetched served used completed finished =>
    rw [Queue.complete, served]
    refine ⟨h.present, h.published, h.avail, .counted last fetched rfl ?_ ?_
      ⟨finished.ok, finished.effect⟩⟩
    · dsimp only
      rw [used]
      exact ofNat_succ p.length
    · dsimp only
      rw [completed]
      rfl

/-- **The device only moves the request along.** -/
theorem flight_stable : Stable move (Flight p r d src) := by
  intro e q h
  cases e with
  | fetch => exact h.fetch
  | serve status effect junk => exact h.serve status effect junk
  | complete => exact h.complete

/-- **The completion is the request's own.** When `used.idx` has the value the driver waits for, the
request has been carried out and counted, and nothing is outstanding. -/
theorem Flight.idle_of_used (h : Flight p r d src q)
    (hused : q.usedIdx = BitVec.ofNat 16 (p.length + 1)) :
    Idle q ∧ q.published = r :: p ∧ Finished r d src q := by
  have hnot : q.usedIdx ≠ BitVec.ofNat 16 p.length := by
    rw [hused]
    exact (ofNat_ne_succ p.length).symm
  cases h.stage with
  | waiting _ _ _ _ used => exact absurd used hnot
  | fetched _ _ _ used => exact absurd used hnot
  | served _ _ _ used => exact absurd used hnot
  | counted last fetched served used completed finished =>
    have hlen : q.published.length = p.length + 1 := by rw [h.published, List.length_cons]
    refine ⟨⟨h.present, ?_, ?_, ?_, fetched, served, ?_⟩, h.published, finished⟩
    · rw [hlen, h.avail]
    · rw [hlen, used]
    · rw [hlen, last]
    · rw [h.published, completed]

/-- **The polling loop** ends with the completion of the request, or with the request still in
flight. -/
theorem poll_spec (n : ℕ) :
    Triple move (Flight p r d src) (poll (BitVec.ofNat 16 (p.length + 1)) n) fun b q =>
      Flight p r d src q ∧ (b = true → q.usedIdx = BitVec.ofNat 16 (p.length + 1)) := by
  have hread : Triple move (Flight p r d src) (Shared.read Queue.usedIdx)
      fun i q => Flight p r d src q ∧ q.usedIdx = i :=
    Triple.read flight_stable fun q h => ⟨h, rfl⟩
  induction n with
  | zero =>
    refine hread.bind fun i => Triple.ret fun q hq => ⟨hq.1, fun hi => ?_⟩
    rw [hq.2]
    exact of_decide_eq_true hi
  | succ n ih =>
    refine hread.bind fun i => ?_
    split
    · rename_i hi
      exact Triple.ret fun q hq => ⟨hq.1, fun _ => hq.2.trans hi⟩
    · exact ih.mono (fun q hq => hq.1) fun _ _ h => h

end Flight

/-! ### One request -/

/-- The updates `writeDescriptor` makes, together. -/
theorem foldl_writeDescriptor (i : BitVec 16) (x : Descriptor) (m : RequestMem) :
    (writeDescriptor i x).foldl (fun m f => f m) m
      = { m with desc := Function.update m.desc i x } := by
  simp only [writeDescriptor, List.foldl_cons, List.foldl_nil, Function.update_self,
    Function.update_idem]

/-! The flags of the two kinds of descriptor. -/

theorem next_and_next : descFNext &&& descFNext ≠ 0 := by decide

theorem next_and_write : descFNext &&& descFWrite = 0 := by decide

theorem write_and_next : descFWrite &&& descFNext = 0 := by decide

theorem write_and_write : descFWrite &&& descFWrite ≠ 0 := by decide

theorem dataFlags_and_next (type : BitVec 32) :
    (descFNext ||| (if type = blkTIn then descFWrite else 0)) &&& descFNext ≠ 0 := by
  split <;> decide

/-- The device may write the data of a read only. -/
theorem dataFlags_and_write (type : BitVec 32) :
    (descFNext ||| (if type = blkTIn then descFWrite else 0)) &&& descFWrite ≠ 0 ↔
      type = blkTIn := by
  by_cases htype : type = blkTIn
  · rw [if_pos htype]
    exact iff_of_true (by decide) htype
  · rw [if_neg htype]
    exact iff_of_false (by decide) htype

namespace RequestMem

section Chain

variable {m : RequestMem} {n : ℕ} {i : BitVec 16}

theorem chain_next (h : (m.desc i).flags &&& descFNext ≠ 0) :
    m.chain (n + 1) i = m.desc i :: m.chain n (m.desc i).next := if_pos h

theorem chain_last (h : (m.desc i).flags &&& descFNext = 0) :
    m.chain (n + 1) i = [m.desc i] := if_neg (not_not.mpr h)

end Chain

/-- The memory with a request written into it. -/
def prepared (m : RequestMem) (r : Request) : RequestMem :=
  (writeChain m r.type r.hasData).foldl (fun m f => f m)
    ((writeHeader r.type r.sector).foldl (fun m f => f m) m)

variable (m : RequestMem) {r : Request}

theorem prepared_data (hdata : r.hasData = true) :
    m.prepared r = { m with
      hdr := ⟨r.type, 0, r.sector⟩
      desc := Function.update (Function.update (Function.update m.desc 0
        ⟨m.hdrPhys, 16, descFNext, 1⟩) 1 ⟨m.dataPhys, 512,
          descFNext ||| (if r.type = blkTIn then descFWrite else 0), 2⟩) 2
            ⟨m.statusPhys, 1, descFWrite, 0⟩ } := by
  rw [prepared, writeChain, if_pos hdata]
  simp only [List.foldl_append, foldl_writeDescriptor]
  rfl

theorem prepared_nodata (hdata : ¬ r.hasData = true) :
    m.prepared r = { m with
      hdr := ⟨r.type, 0, r.sector⟩
      desc := Function.update (Function.update m.desc 0 ⟨m.hdrPhys, 16, descFNext, 1⟩) 1
        ⟨m.statusPhys, 1, descFWrite, 0⟩ } := by
  rw [prepared, writeChain, if_neg hdata]
  simp only [List.foldl_append, foldl_writeDescriptor]
  rfl

theorem request_prepared_data (hdata : r.hasData = true) :
    (m.prepared r).request 0 = some r := by
  have hprep := m.prepared_data hdata
  generalize m.prepared r = m' at hprep
  have h0 : m'.desc 0 = ⟨m.hdrPhys, 16, descFNext, 1⟩ := by
    rw [hprep]
    dsimp only
    rw [Function.update_of_ne (by decide), Function.update_of_ne (by decide),
      Function.update_self]
  have h1 : m'.desc 1 = ⟨m.dataPhys, 512,
      descFNext ||| (if r.type = blkTIn then descFWrite else 0), 2⟩ := by
    rw [hprep]
    dsimp only
    rw [Function.update_of_ne (by decide), Function.update_self]
  have h2 : m'.desc 2 = ⟨m.statusPhys, 1, descFWrite, 0⟩ := by
    rw [hprep]
    dsimp only
    rw [Function.update_self]
  have hchain : m'.chain 256 0 = [m'.desc 0, m'.desc 1, m'.desc 2] := by
    rw [chain_next (by rw [h0]; exact next_and_next), h0,
      chain_next (by rw [h1]; exact dataFlags_and_next r.type), h1,
      chain_last (by rw [h2]; exact write_and_next), h2]
  have hlayout : m'.IsHeader (m'.desc 0) ∧ m'.IsData (m'.desc 1) ∧ m'.IsStatus (m'.desc 2) := by
    rw [h0, h1, h2, hprep]
    exact ⟨⟨rfl, rfl, next_and_write⟩, ⟨rfl, rfl, dataFlags_and_write r.type⟩, rfl, rfl,
      write_and_write⟩
  rw [request, hchain]
  dsimp only
  rw [if_pos hlayout, hprep, ← hdata]

theorem request_prepared_nodata (hdata : ¬ r.hasData = true) :
    (m.prepared r).request 0 = some r := by
  have hprep := m.prepared_nodata hdata
  generalize m.prepared r = m' at hprep
  have h0 : m'.desc 0 = ⟨m.hdrPhys, 16, descFNext, 1⟩ := by
    rw [hprep]
    dsimp only
    rw [Function.update_of_ne (by decide), Function.update_self]
  have h1 : m'.desc 1 = ⟨m.statusPhys, 1, descFWrite, 0⟩ := by
    rw [hprep]
    dsimp only
    rw [Function.update_self]
  have hchain : m'.chain 256 0 = [m'.desc 0, m'.desc 1] := by
    rw [chain_next (by rw [h0]; exact next_and_next), h0,
      chain_last (by rw [h1]; exact write_and_next), h1]
  have hlayout : m'.IsHeader (m'.desc 0) ∧ m'.IsStatus (m'.desc 1) := by
    rw [h0, h1, hprep]
    exact ⟨⟨rfl, rfl, next_and_write⟩, rfl, rfl, write_and_write⟩
  rw [request, hchain]
  dsimp only
  rw [if_pos hlayout, hprep, ← Bool.eq_false_of_not_eq_true hdata]

/-- **The device makes out of the chain the request that was meant.** -/
theorem request_prepared (r : Request) : (m.prepared r).request 0 = some r := by
  by_cases hdata : r.hasData = true
  · exact m.request_prepared_data hdata
  · exact m.request_prepared_nodata hdata

end RequestMem

/-- How `submit` can end, from an idle queue `q`. -/
inductive SubmitEnd (q : Queue) (r : Request) : Bool → Queue → Prop
  /-- The device has completed the request with status `0`. -/
  | ok {q' : Queue} (idle : Idle q') (published : q'.published = r :: q.published)
      (disk : q'.disk = r.apply q.disk q.data)
      (data : r.type = blkTIn → q'.data = q.disk.view r.sector.toNat) : SubmitEnd q r true q'
  /-- The device has completed the request with another status. -/
  | failed {q' : Queue} (idle : Idle q') (published : q'.published = r :: q.published)
      (disk : q'.disk = q.disk ∨ q'.disk = r.apply q.disk q.data) : SubmitEnd q r false q'
  /-- The request has timed out. -/
  | timedOut {q' : Queue} (present : q'.present = false)
      (published : q'.published = r :: q.published) : SubmitEnd q r false q'

/-- Writes to the request's memory, together. -/
theorem foldl_onMem (fs : List (RequestMem → RequestMem)) (q : Queue) :
    (fs.map Queue.onMem).foldl (fun q f => f q) q
      = { q with mem := fs.foldl (fun m f => f m) q.mem } := by
  induction fs generalizing q with
  | nil => rfl
  | cons f fs ih => exact ih (q.onMem f)

/-- Writing the request's memory, undisturbed. -/
theorem Idle.writeMem {q : Queue} (h : Idle q) (fs : List (RequestMem → RequestMem))
    {k : Unit → Prog Queue Bool} {R : Bool → Queue → Prop}
    (hk : Triple move (· = { q with mem := fs.foldl (fun m f => f m) q.mem }) (k ()) R) :
    Triple move (· = q) (writeMem fs >>= k) R := by
  refine Triple.modifyAll_alone (fun _ hq => Idle.undisturbed hq) ?_ h fun _ => ?_
  · intro g hg q hq
    obtain ⟨f, -, rfl⟩ := List.mem_map.mp hg
    exact hq.congr rfl
  · rw [foldl_onMem]
    exact hk

/-- Publishing the request in the descriptor table puts it in flight. -/
theorem Idle.flight {q : Queue} (h : Idle q) {r : Request} (hreq : q.mem.request 0 = some r) :
    Flight q.published r q.disk q.data
      { q with
        availRing := Function.update q.availRing (q.availIdx % q.qsize) 0
        availIdx := q.availIdx + 1
        published := r :: q.published } := by
  refine ⟨h.present, rfl, ?_, .waiting h.last ?_ h.fetched h.served h.used h.completed rfl rfl⟩
  · dsimp only
    rw [h.avail]
    exact ofNat_succ _
  · dsimp only
    rw [h.last, ← h.avail, Function.update_self]
    exact hreq

/-- **`submit`**, under every schedule. -/
theorem submit_spec {q : Queue} (h : Idle q) (r : Request) :
    Triple move (· = q) (submit r.type r.sector r.hasData) (SubmitEnd q r) := by
  have hpresent : ¬ q.present = false := by
    rw [h.present]
    decide
  refine Triple.read_alone h.undisturbed ?_
  rw [id_eq, if_neg hpresent]
  refine h.writeMem _ ?_
  have h₁ : Idle { q with
      mem := (writeHeader r.type r.sector).foldl (fun m f => f m) q.mem } := h.congr rfl
  refine Triple.modify_alone h₁.undisturbed ?_
  refine (h₁.congr rfl).writeMem _ ?_
  have h₂ : Idle { q with mem := q.mem.prepared r, status := 0xff } := h.congr rfl
  refine Triple.read_alone h₂.undisturbed (Triple.modify_alone h₂.undisturbed ?_)
  refine Triple.modify_alone (h₂.congr rfl).undisturbed ?_
  -- from here on the request is in flight
  have hflight := h₂.flight (q.mem.request_prepared r)
  have htarget : q.availIdx + 1 = BitVec.ofNat 16 (q.published.length + 1) := hflight.avail
  refine Triple.mono (P := Flight q.published r q.disk q.data) ?_ (by rintro _ rfl; exact hflight)
    fun _ _ h => h
  refine (Triple.modify (Q := fun _ => Flight q.published r q.disk q.data) flight_stable
    fun _ hq => hq).bind fun _ => ?_
  dsimp only
  rw [htarget]
  refine (poll_spec pollGuard).bind fun b => ?_
  cases b with
  | true =>
    rw [if_pos rfl]
    refine Triple.mono (P := fun q' => Idle q' ∧ q'.published = r :: q.published ∧
      Finished r q.disk q.data q') ?_ (fun q' hq => hq.1.idle_of_used (hq.2 rfl)) fun _ _ h => h
    have hread := Triple.read (f := Queue.status) (Q := fun st q' => q'.status = st ∧ Idle q' ∧
      q'.published = r :: q.published ∧ Finished r q.disk q.data q') (Idle.stable _)
      fun q' hq => ⟨rfl, hq⟩
    refine hread.bind fun st => Triple.ret ?_
    rintro q' ⟨rfl, hidle, hpub, hfin⟩
    by_cases hok : q'.status = 0
    · rw [decide_eq_true hok]
      exact .ok hidle hpub (hfin.ok hok).1 (hfin.ok hok).2
    · rw [decide_eq_false hok]
      exact .failed hidle hpub hfin.effect
  | false =>
    rw [if_neg Bool.false_ne_true]
    refine Triple.mono (P := Flight q.published r q.disk q.data) ?_ (fun _ hq => hq.1)
      fun _ _ h => h
    refine (Triple.modify (Q := fun _ => SubmitEnd q r false) flight_stable
      fun q' hq => ?_).bind fun _ => Triple.ret fun q' hq => hq
    exact .timedOut rfl hq.published

/-! ### Calls -/

/-- What a successful call does to the sectors. -/
def Call.apply : Call → Device Sector → Device Sector
  | .read _, d => d
  | .write lba src, d => d.write lba.toNat src
  | .flush, d => d.flush

/-- What a successful call copies out. -/
def Call.dst : Call → Device Sector → Option Sector
  | .read lba, d => some (d.view lba.toNat)
  | .write _ _, _ => none
  | .flush, _ => none

/-- Whether a call submits a request: a flush does not when the device has no cache. -/
def Call.Submits (c : Call) (q : Queue) : Prop := c = .flush → q.flushOk = true

/-- How a call can end, from an idle queue `q`. -/
inductive CallEnd (q : Queue) (c : Call) : Answer → Queue → Prop
  /-- The request was completed with status `0`. -/
  | ok {q' : Queue} (idle : Idle q') (published : q'.published = c.request :: q.published)
      (disk : q'.disk = c.apply q.disk) : CallEnd q c ⟨true, c.dst q.disk⟩ q'
  /-- There was nothing to do. -/
  | skipped {q' : Queue} (nothing : ¬ c.Submits q) (same : q' = q) : CallEnd q c ⟨true, none⟩ q'
  /-- The request was completed with another status. -/
  | failed {q' : Queue} (idle : Idle q') (published : q'.published = c.request :: q.published)
      (disk : q'.disk = q.disk ∨ q'.disk = c.apply q.disk) : CallEnd q c ⟨false, none⟩ q'
  /-- The request has timed out. -/
  | timedOut {q' : Queue} (present : q'.present = false)
      (published : q'.published = c.request :: q.published) : CallEnd q c ⟨false, none⟩ q'

theorem stable_submitEnd (q : Queue) (r : Request) : Stable move (SubmitEnd q r true) := by
  intro e q' h
  cases h with
  | ok idle published disk data =>
    rw [idle.undisturbed e]
    exact .ok idle published disk data

theorem not_present_of_idle {q : Queue} (h : Idle q) : ¬ q.present = false := by
  rw [h.present]
  decide

theorem read_spec {q : Queue} (h : Idle q) (lba : BitVec 64) :
    Triple move (· = q) (Call.read lba).prog (CallEnd q (.read lba)) := by
  have hread : Triple move (· = q) (readSector lba) fun dst q' =>
      CallEnd q (.read lba) ⟨dst.isSome, dst⟩ q' := by
    refine (submit_spec h (Call.read lba).request).bind fun b => ?_
    cases b with
    | true =>
      rw [if_pos rfl]
      refine (Triple.read (Q := fun dst q' => CallEnd q (.read lba) ⟨true, some dst⟩ q')
        (stable_submitEnd q _) fun q' hq => ?_).bind fun dst => Triple.ret fun q' hq => hq
      cases hq with
      | ok idle published disk data =>
        rw [data rfl]
        exact .ok idle published disk
    | false =>
      rw [if_neg Bool.false_ne_true]
      refine Triple.ret fun q' hq => ?_
      cases hq with
      | failed idle published disk => exact .failed idle published disk
      | timedOut present published => exact .timedOut present published
  exact hread.bind fun dst => Triple.ret fun q' hq => hq

/-- The end of `submit` for a call that copies nothing out. -/
theorem SubmitEnd.callEnd {q q₁ q' : Queue} {c : Call} {b : Bool}
    (h : SubmitEnd q₁ c.request b q') (hpub : q₁.published = q.published)
    (hdisk : q₁.disk = q.disk) (happly : c.request.apply q₁.disk q₁.data = c.apply q.disk)
    (hdst : c.dst q.disk = none) :
    CallEnd q c ⟨b, none⟩ q' := by
  cases h with
  | ok idle published disk _ =>
    rw [← hdst]
    exact .ok idle (by rw [published, hpub]) (disk.trans happly)
  | failed idle published disk =>
    rw [happly, hdisk] at disk
    exact .failed idle (by rw [published, hpub]) disk
  | timedOut present published => exact .timedOut present (by rw [published, hpub])

theorem write_spec {q : Queue} (h : Idle q) (lba : BitVec 64) (src : Sector) :
    Triple move (· = q) (Call.write lba src).prog (CallEnd q (.write lba src)) := by
  have hwrite : Triple move (· = q) (writeSector lba src) fun b q' =>
      CallEnd q (.write lba src) ⟨b, none⟩ q' := by
    refine Triple.read_alone h.undisturbed ?_
    rw [id_eq, if_neg (not_present_of_idle h)]
    refine Triple.modify_alone h.undisturbed ?_
    have h₁ : Idle { q with data := src } := h.congr rfl
    exact (submit_spec h₁ (Call.write lba src).request).mono (fun _ hq => hq)
      fun b q' hend => hend.callEnd rfl rfl rfl rfl
  exact hwrite.bind fun b => Triple.ret fun q' hq => hq

theorem flush_spec {q : Queue} (h : Idle q) :
    Triple move (· = q) Call.flush.prog (CallEnd q .flush) := by
  have hflush : Triple move (· = q) flush fun b q' => CallEnd q .flush ⟨b, none⟩ q' := by
    refine Triple.read_alone h.undisturbed ?_
    rw [id_eq, if_neg (not_present_of_idle h)]
    by_cases hok : q.flushOk = false
    · rw [if_pos hok]
      refine Triple.ret fun q' hq => .skipped (fun hsub => ?_) hq
      rw [hsub rfl] at hok
      cases hok
    · rw [if_neg hok]
      exact (submit_spec h Call.flush.request).mono (fun _ hq => hq)
        fun b q' hend => hend.callEnd rfl rfl rfl rfl
  exact hflush.bind fun b => Triple.ret fun q' hq => hq

/-- **A call on an idle queue**, under every schedule. -/
theorem call_spec {q : Queue} (h : Idle q) (c : Call) :
    Triple move (· = q) c.prog (CallEnd q c) := by
  cases c with
  | read lba => exact read_spec h lba
  | write lba src => exact write_spec h lba src
  | flush => exact flush_spec h

/-! ### After a timeout -/

/-- The driver has stopped using the device, with the requests `p` published. -/
structure Disabled (p : List Request) (i : BitVec 16) (q : Queue) : Prop where
  /-- The driver does not use the device. -/
  present : q.present = false
  /-- The requests published so far. -/
  published : q.published = p
  /-- The ring says so too. -/
  avail : q.availIdx = i

theorem disabled_stable (p : List Request) (i : BitVec 16) : Stable move (Disabled p i) := by
  rintro e q ⟨hpresent, hpublished, havail⟩
  cases e with
  | fetch =>
    rw [move, Queue.fetch]
    split
    · exact ⟨hpresent, hpublished, havail⟩
    · split
      · exact ⟨hpresent, hpublished, havail⟩
      · exact ⟨hpresent, hpublished, havail⟩
  | serve status effect junk =>
    rw [move, Queue.serve]
    split
    · exact ⟨hpresent, hpublished, havail⟩
    · exact ⟨hpresent, hpublished, havail⟩
  | complete =>
    rw [move, Queue.complete]
    split
    · exact ⟨hpresent, hpublished, havail⟩
    · exact ⟨hpresent, hpublished, havail⟩

/-- A program that looks for the device first gives up. -/
theorem disabled_spec {α : Type} {p : List Request} {i : BitVec 16} (a : α)
    (k : Queue → Prog Queue α) :
    Triple move (Disabled p i)
      (Shared.read id >>= fun v => if v.present = false then pure a else k v)
      fun b q => b = a ∧ Disabled p i q := by
  refine (Triple.read (Q := fun v q => v.present = false ∧ Disabled p i q) (disabled_stable p i)
    fun q hq => ⟨hq.present, hq⟩).bind fun v => ?_
  rintro o q ⟨hv, hq⟩
  rw [if_pos hv]
  exact ⟨rfl, hq⟩

/-- **A call after a timeout** fails and publishes nothing. -/
theorem call_disabled (p : List Request) (i : BitVec 16) (c : Call) :
    Triple move (Disabled p i) c.prog fun a q => a = ⟨false, none⟩ ∧ Disabled p i q := by
  cases c with
  | read lba =>
    have hsubmit : Triple move (Disabled p i) (submit blkTIn lba true) fun b q =>
        b = false ∧ Disabled p i q := disabled_spec false _
    have hread : Triple move (Disabled p i) (readSector lba) fun dst q =>
        dst = none ∧ Disabled p i q := by
      refine hsubmit.bind fun b => ?_
      rintro o q ⟨rfl, hq⟩
      exact ⟨rfl, hq⟩
    refine hread.bind fun dst => ?_
    rintro o q ⟨rfl, hq⟩
    exact ⟨rfl, hq⟩
  | write lba src =>
    refine Triple.bind (Q := fun b q => b = false ∧ Disabled p i q) (disabled_spec false _)
      fun b => ?_
    rintro o q ⟨rfl, hq⟩
    exact ⟨rfl, hq⟩
  | flush =>
    refine Triple.bind (Q := fun b q => b = false ∧ Disabled p i q) (disabled_spec false _)
      fun b => ?_
    rintro o q ⟨rfl, hq⟩
    exact ⟨rfl, hq⟩

theorem Disabled.after {p : List Request} {i : BitVec 16} {q : Queue} (h : Disabled p i q)
    (later : List Turn) : Disabled p i (Runs.after Queue.step q later) := by
  induction later with
  | nil => exact h
  | cons t later ih => exact (call_disabled p i t.1 t.2 _ ih).2

/-! ### Runs -/

/-- A queue that was set up is idle. -/
theorem idle_of_init {devLo devHi : BitVec 32} {featuresOk : Bool} {max : BitVec 16}
    {fa : FrameAllocator} {disk : Device Sector} {q : Queue}
    (hinit : (init devLo devHi featuresOk max fa disk).1 = some q) : Idle q := by
  have hready : ∃ qsize flushOk bufPhys, q = .ready qsize flushOk bufPhys disk := by
    rw [init] at hinit
    repeat' split at hinit
    all_goals cases hinit
    all_goals exact ⟨_, _, _, rfl⟩
  obtain ⟨qsize, flushOk, bufPhys, rfl⟩ := hready
  exact ⟨rfl, rfl, rfl, rfl, rfl, rfl, rfl⟩

/-- A call on an idle queue ends as it can. -/
theorem callEnd_step {q : Queue} (h : Idle q) (t : Turn) :
    CallEnd q t.1 (q.answer t) (q.step t) := call_spec h t.1 t.2 q rfl

/-- After every run of calls nothing is outstanding, or the driver has stopped using the device. -/
theorem idle_or_disabled {q₀ : Queue} (h₀ : Idle q₀) (h : List Turn) :
    Idle (Runs.after Queue.step q₀ h) ∨ (Runs.after Queue.step q₀ h).present = false := by
  induction h with
  | nil => exact Or.inl h₀
  | cons t h ih =>
    rw [Runs.after_cons]
    rcases ih with hidle | hoff
    · have hend := callEnd_step hidle t
      generalize Queue.answer (Runs.after Queue.step q₀ h) t = a at hend
      generalize Queue.step (Runs.after Queue.step q₀ h) t = q' at hend
      cases hend with
      | ok idle _ _ => exact Or.inl idle
      | skipped _ same => exact Or.inl (same ▸ hidle)
      | failed idle _ _ => exact Or.inl idle
      | timedOut present _ => exact Or.inr present
    · exact Or.inr (call_disabled _ _ t.1 t.2 _ ⟨hoff, rfl, rfl⟩).2.present

/-- **A call that does not time out is an operation of the block device.** Its report, its effect on
the sectors and what it copies out are those of a block operation that goes one way or another. -/
theorem exists_outcome {q : Queue} (h : Idle q) (t : Turn) (hsub : t.1.Submits q)
    (hon : (q.step t).present = true) :
    ∃ o : Outcome, (q.answer t).ok = o.report ∧
      (q.step t).disk = o.effect q.disk (t.1.apply q.disk) ∧
      ∀ lba, t.1 = .read lba → (q.answer t).dst = o.onRead q.disk lba.toNat := by
  have hend := callEnd_step h t
  generalize q.answer t = a at hend ⊢
  generalize q.step t = q' at hend hon ⊢
  cases hend with
  | ok _ _ disk =>
    refine ⟨.ok, rfl, disk, fun lba hread => ?_⟩
    rw [hread]
    rfl
  | skipped nothing _ => exact absurd hsub nothing
  | failed _ _ disk =>
    rcases disk with disk | disk
    · exact ⟨.failed false, rfl, disk, fun _ _ => rfl⟩
    · exact ⟨.failed true, rfl, disk, fun _ _ => rfl⟩
  | timedOut present _ =>
    rw [present] at hon
    cases hon

/-- **The polled virtqueue never takes a stale completion.** Take any queue `init` sets up, any run
of calls on it with any moves of the device in between, and one more call. If it succeeds, having
submitted a request, then no earlier request was outstanding, the completion that was counted is
that of its own request, and it has done to the sectors what it is for: a read has returned the
contents of its own sector. If instead its request has timed out, it has failed, and whatever
calls follow and whatever the device does, no request is published any more and every call fails. -/
theorem no_stale_completion {devLo devHi : BitVec 32} {featuresOk : Bool} {max : BitVec 16}
    {fa : FrameAllocator} {disk : Device Sector} {q₀ : Queue}
    (hinit : (init devLo devHi featuresOk max fa disk).1 = some q₀) (h : List Turn) (t : Turn) :
    let q := Runs.after Queue.step q₀ h
    let q' := q.step t
    ((q.answer t).ok = true → t.1.Submits q →
      q.completed = jobs q.published ∧ q'.published = t.1.request :: q.published ∧
        q'.completed = ⟨q.published.length, t.1.request⟩ :: q.completed ∧
        q'.disk = t.1.apply q.disk ∧ (q.answer t).dst = t.1.dst q.disk) ∧
      (q.present = true → q'.present = false →
        q.answer t = ⟨false, none⟩ ∧ q'.published = t.1.request :: q.published ∧
          ∀ later, (Runs.after Queue.step q' later).published = q'.published ∧
            (Runs.after Queue.step q' later).availIdx = q'.availIdx ∧
            ∀ t', (Runs.after Queue.step q' later).answer t' = ⟨false, none⟩) := by
  intro q q'
  have hq : Idle q ∨ q.present = false := idle_or_disabled (idle_of_init hinit) h
  rcases hq with hidle | hoff
  · have hend : CallEnd q t.1 (q.answer t) q' := callEnd_step hidle t
    have hlater : q'.present = false → ∀ later,
        (Runs.after Queue.step q' later).published = q'.published ∧
          (Runs.after Queue.step q' later).availIdx = q'.availIdx ∧
          ∀ t', (Runs.after Queue.step q' later).answer t' = ⟨false, none⟩ := by
      intro hoff later
      have hdis : Disabled q'.published q'.availIdx (Runs.after Queue.step q' later) :=
        Disabled.after ⟨hoff, rfl, rfl⟩ later
      exact ⟨hdis.published, hdis.avail, fun t' => (call_disabled _ _ t'.1 t'.2 _ hdis).1⟩
    generalize q.answer t = a at hend ⊢
    clear_value q'
    cases hend with
    | ok idle published disk =>
      refine ⟨fun _ _ => ⟨hidle.completed, published, ?_, disk, rfl⟩, fun _ hoff => ?_⟩
      · rw [idle.completed, published, hidle.completed]
        rfl
      · exact absurd hoff (not_present_of_idle idle)
    | skipped nothing same =>
      refine ⟨fun _ hsub => absurd hsub nothing, fun hon hoff => ?_⟩
      rw [same, hon] at hoff
      cases hoff
    | failed idle published _ =>
      exact ⟨fun hok => absurd hok Bool.false_ne_true,
        fun _ hoff => absurd hoff (not_present_of_idle idle)⟩
    | timedOut present published =>
      exact ⟨fun hok => absurd hok Bool.false_ne_true,
        fun _ hoff => ⟨rfl, published, hlater hoff⟩⟩
  · have hans : q.answer t = ⟨false, none⟩ := (call_disabled _ _ t.1 t.2 q ⟨hoff, rfl, rfl⟩).1
    refine ⟨fun hok => ?_, fun hon => ?_⟩
    · rw [hans] at hok
      cases hok
    · rw [hoff] at hon
      cases hon

/-- A queue of eight entries on a disk of zeros. -/
def smallQueue : Queue := .ready 8 true (BitVec.ofNat 64 (259 * 4096)) ⟨fun _ => .zero, []⟩

/-- The device answers a read right before the first poll. -/
def promptRead : Turn :=
  (.read 5, List.replicate 21 [] ++ [[.fetch, .serve 0 true .zero, .complete]])

/-- One read of sector `5`, the first request of all. -/
theorem no_stale_completion_promptRead :
    (init 512 1 true 8 (FrameAllocator.empty.addRegion 256 260) ⟨fun _ => .zero, []⟩).1
        = some smallQueue ∧
      (smallQueue.answer promptRead).ok = true ∧
      (smallQueue.step promptRead).completed = [⟨0, ⟨blkTIn, 5, true⟩⟩] ∧
      (smallQueue.answer promptRead).dst = some .zero := by
  have hinit : (init 512 1 true 8 (FrameAllocator.empty.addRegion 256 260)
      ⟨fun _ => .zero, []⟩).1 = some smallQueue := rfl
  have hok : (smallQueue.answer promptRead).ok = true := by decide +kernel
  obtain ⟨-, -, hcompleted, -, hdst⟩ := (no_stale_completion hinit [] promptRead).1 hok
    (fun hflush => by cases hflush)
  exact ⟨hinit, hok, hcompleted, hdst⟩

end Virtio

end Cairn
