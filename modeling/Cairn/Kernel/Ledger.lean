import Mathlib.Data.List.Perm.Subperm
import Cairn.Internal.Runs
import Cairn.Kernel.Ipc
import Cairn.Kernel.Paging

/-!
# The mapping ledger

`DQ_MAP` and `X_MAP` map pages into the one address space all domains share, at fixed addresses,
and record each page in the ledger of the invoking domain. When the domain dies, `reap_domain`
unmaps what its ledger says. The ledger is bounded and drops a record when it is full, and
`devqueue_map` maps its five pages one by one and returns at the first one that fails. Neither of
the two ever shows.

The six pages have at most one owner each, and the five pages of the window have the same one. So a
ledger has at most six entries. The first page of the window is the only one that can run out of
frames, because the other four share its tables, and it is the only one that can find itself mapped,
because the other four are mapped with it.

What the ledgers are for is an assignment of owners to the window and to the extent page:
`Owners`. Every invocation leaves it alone or, answering `Ok`, gives one of the two to the invoking
domain, if nobody had it; reaping a domain takes back what the domain had.

The runs here are those of invocations, reapings and anything else the kernel may do to the rest of
its state in between.

## Main definitions

* `Owners` — who has the window and the extent page
* `Kernel.Records` — ledgers and page tables agree with an assignment of owners
* `Kernel.Grants` — what a call has mapped and recorded
* `Kernel.LedgerExact` — what the ledger guarantees

## Main results

* `Kernel.Records.capInvokeIn` — what an invocation can grant
* `Kernel.Records.invoke`, `Kernel.Records.reap` — the steps refine those of the owners
* `mapping_ledger_exact` — every run
-/

namespace Cairn

/-! ### Owners -/

/-- Who has the DeviceQueue window and the extent page. -/
structure Owners where
  window : Option (Fin maxDomains)
  extent : Option (Fin maxDomains)
  deriving DecidableEq, Repr

namespace Owners

/-- The owner of a page. -/
def of (o : Owners) (va : BitVec 64) : Option (Fin maxDomains) :=
  if va ∈ dqVas then o.window else if va = Kernel.extentMapBase then o.extent else none

/-- What an invocation by `d` that answers a status can do. -/
inductive Invoked (o : Owners) (d : Fin maxDomains) : Status → Owners → Prop
  | same (st : Status) : Invoked o d st o
  | window (h : o.window = none) : Invoked o d .ok { o with window := some d }
  | extent (h : o.extent = none) : Invoked o d .ok { o with extent := some d }

/-- Reaping `d`. -/
def release (o : Owners) (d : Fin maxDomains) : Owners where
  window := if o.window = some d then none else o.window
  extent := if o.extent = some d then none else o.extent

theorem extentMapBase_not_mem_dqVas : Kernel.extentMapBase ∉ dqVas := by decide

theorem of_extentMapBase (o : Owners) : o.of Kernel.extentMapBase = o.extent := by
  rw [of, if_neg extentMapBase_not_mem_dqVas, if_pos rfl]

theorem mem_grantVas {va : BitVec 64} :
    va ∈ grantVas ↔ va ∈ dqVas ∨ va = Kernel.extentMapBase := by
  rw [grantVas, List.mem_append, List.mem_singleton]

theorem of_window (o : Owners) (d : Fin maxDomains) (va : BitVec 64) :
    ({ o with window := some d } : Owners).of va = if va ∈ dqVas then some d else o.of va := by
  rw [of, of]
  split <;> rfl

theorem of_extent (o : Owners) (d : Fin maxDomains) (va : BitVec 64) :
    ({ o with extent := some d } : Owners).of va
      = if va ∈ [Kernel.extentMapBase] then some d else o.of va := by
  rw [of, of]
  by_cases hdq : va ∈ dqVas
  · have hne : va ∉ [Kernel.extentMapBase] := by
      rw [List.mem_singleton]
      rintro rfl
      exact extentMapBase_not_mem_dqVas hdq
    rw [if_pos hdq, if_pos hdq, if_neg hne]
  · simp only [if_neg hdq, List.mem_singleton]
    split <;> rfl

theorem of_release (o : Owners) (d : Fin maxDomains) (va : BitVec 64) :
    (o.release d).of va = if o.of va = some d then none else o.of va := by
  rw [of, of, release]
  split
  · rfl
  · split
    · rfl
    · simp

end Owners

namespace Kernel

variable {μ : Type}

/-! ### What the ledgers record -/

/-- Ledgers and page tables agree with an assignment of owners to pages. -/
structure Records (own : BitVec 64 → Option (Fin maxDomains)) (k : Kernel (Paged μ)) : Prop where
  /-- The ledger of a domain lists its pages. -/
  ledger : ∀ d va, va ∈ (k.domainMaps d).vas ↔ own va = some d
  /-- It lists each page once. -/
  nodup : ∀ d, (k.domainMaps d).vas.Nodup
  /-- Only granted pages have owners. -/
  grants : ∀ d va, own va = some d → va ∈ grantVas
  /-- The granted pages that are mapped are those with an owner. -/
  mapped : ∀ va ∈ grantVas, k.machine.mapped va = true ↔ ∃ d, own va = some d
  /-- The tables of a page with an owner are there. -/
  tables : ∀ d va, own va = some d → k.machine.HasTables va

/-- **No ledger is full.** -/
theorem Records.length_lt {own : BitVec 64 → Option (Fin maxDomains)} {k : Kernel (Paged μ)}
    (h : Records own k) (d : Fin maxDomains) : (k.domainMaps d).vas.length < maxMapsPerDomain := by
  have hsub : (k.domainMaps d).vas ⊆ grantVas := fun va hva =>
    h.grants d va ((h.ledger d va).mp hva)
  exact (List.subperm_of_subset (h.nodup d) hsub).length_le.trans_lt (by decide)

theorem Records.own_eq_none {own : BitVec 64 → Option (Fin maxDomains)} {k : Kernel (Paged μ)}
    (h : Records own k) {va : BitVec 64} (hva : va ∈ grantVas)
    (hfree : k.machine.mapped va = false) : own va = none := by
  cases hown : own va with
  | none => rfl
  | some d =>
    rw [(h.mapped va hva).mpr ⟨d, hown⟩] at hfree
    cases hfree

/-- A call in the name of `d` has mapped the pages `new`, none of which was mapped, and recorded
them, and it has done nothing else to the granted pages. -/
structure Grants (d : Fin maxDomains) (new : List (BitVec 64)) (k k' : Kernel (Paged μ)) :
    Prop where
  ledger : ∀ d', (k'.domainMaps d').vas = (k.domainMaps d').vas ++ if d' = d then new else []
  mapped : ∀ va ∈ grantVas,
    k'.machine.mapped va = true ↔ va ∈ new ∨ k.machine.mapped va = true
  free : ∀ va ∈ new, va ∈ grantVas ∧ k.machine.mapped va = false
  nodup : new.Nodup
  tables : ∀ va, (va ∈ new ∨ k.machine.HasTables va) → k'.machine.HasTables va

namespace Grants

variable {d : Fin maxDomains} {new : List (BitVec 64)} {k k' k'' : Kernel (Paged μ)}

/-- Nothing is granted when ledgers and translations stay as they are. -/
theorem none_of_mapped (hmaps : k'.domainMaps = k.domainMaps)
    (hmapped : ∀ va, k'.machine.mapped va = true ↔ k.machine.mapped va = true)
    (htables : ∀ va, k.machine.HasTables va → k'.machine.HasTables va) : Grants d [] k k' where
  ledger d' := by rw [hmaps, ite_self, List.append_nil]
  mapped va _ := by simpa using hmapped va
  free va hva := absurd hva List.not_mem_nil
  nodup := List.nodup_nil
  tables va h := htables va (h.resolve_left List.not_mem_nil)

theorem none_of_same (hmaps : k'.domainMaps = k.domainMaps)
    (htables : k'.machine.tables = k.machine.tables) : Grants d [] k k' :=
  none_of_mapped hmaps (fun va => by rw [Paged.mapped, htables, Paged.mapped])
    fun va h => by rw [Paged.HasTables, htables]; exact h

/-- One page, and then others. -/
theorem cons {va : BitVec 64} (h₁ : Grants d [va] k k') (h₂ : Grants d new k' k'') :
    Grants d (va :: new) k k'' := by
  have hva := h₁.free va (List.mem_singleton.mpr rfl)
  have hmapped : ∀ w ∈ grantVas, k'.machine.mapped w = true ↔ w = va ∨ k.machine.mapped w = true :=
    fun w hw => by rw [h₁.mapped w hw, List.mem_singleton]
  have hnot : ∀ w ∈ new, w ≠ va ∧ k.machine.mapped w = false := fun w hw => by
    obtain ⟨hg, hfree⟩ := h₂.free w hw
    have hiff := hmapped w hg
    rw [hfree] at hiff
    have hno := mt hiff.mpr nofun
    exact ⟨fun h => hno (Or.inl h), Bool.eq_false_iff.mpr fun h => hno (Or.inr h)⟩
  refine ⟨fun d' => ?_, fun w hw => ?_, fun w hw => ?_, ?_, fun w hw => ?_⟩
  · rw [h₂.ledger, h₁.ledger]
    split <;> simp
  · rw [h₂.mapped w hw, hmapped w hw, List.mem_cons, or_left_comm, or_assoc]
  · rcases List.mem_cons.mp hw with rfl | hw
    · exact hva
    · exact ⟨(h₂.free w hw).1, (hnot w hw).2⟩
  · exact List.nodup_cons.mpr ⟨fun hmem => (hnot va hmem).1 rfl, h₂.nodup⟩
  · refine h₂.tables w ?_
    rcases hw with hw | hw
    · rcases List.mem_cons.mp hw with rfl | hw
      · exact Or.inr (h₁.tables w (Or.inl (List.mem_singleton.mpr rfl)))
      · exact Or.inl hw
    · exact Or.inr (h₁.tables w (Or.inr hw))

/-- A page that is not mapped stays so, unless it is the one that is granted. -/
theorem mapped_of_ne {va w : BitVec 64} (h : Grants d [va] k k') (hw : w ∈ grantVas)
    (hfree : k.machine.mapped w = false) (hne : w ≠ va) : k'.machine.mapped w = false := by
  refine Bool.eq_false_iff.mpr fun hmapped => ?_
  rcases (h.mapped w hw).mp hmapped with hmem | hold
  · exact hne (List.mem_singleton.mp hmem)
  · rw [hold] at hfree
    cases hfree

end Grants

/-- **A grant is a transfer of ownership.** -/
theorem Records.grant {own : BitVec 64 → Option (Fin maxDomains)} {k k' : Kernel (Paged μ)}
    (h : Records own k) {d : Fin maxDomains} {new : List (BitVec 64)} (hg : Grants d new k k') :
    Records (fun va => if va ∈ new then some d else own va) k' := by
  have hfree : ∀ va ∈ new, own va = none := fun va hva =>
    h.own_eq_none (hg.free va hva).1 (hg.free va hva).2
  refine ⟨fun d' va => ?_, fun d' => ?_, fun d' va hown => ?_, fun va hva => ?_,
    fun d' va hown => ?_⟩
  · rw [hg.ledger, List.mem_append, h.ledger]
    by_cases hva : va ∈ new
    · rw [hfree va hva, if_pos hva]
      by_cases hd : d' = d
      · simp [hd, hva]
      · simp [hd, Ne.symm hd]
    · rw [if_neg hva]
      by_cases hd : d' = d
      · simp [hd, hva]
      · simp [hd]
  · rw [hg.ledger]
    split
    · refine (h.nodup d').append hg.nodup fun va hva hnew => ?_
      have hnone := hfree va hnew
      rw [(h.ledger d' va).mp hva] at hnone
      cases hnone
    · rw [List.append_nil]
      exact h.nodup d'
  · by_cases hva : va ∈ new
    · exact (hg.free va hva).1
    · rw [if_neg hva] at hown
      exact h.grants d' va hown
  · rw [hg.mapped va hva, h.mapped va hva]
    by_cases hmem : va ∈ new
    · simp [hmem]
    · simp [hmem]
  · refine hg.tables va ?_
    by_cases hva : va ∈ new
    · exact Or.inl hva
    · rw [if_neg hva] at hown
      exact Or.inr (h.tables d' va hown)

/-! ### Invocations -/

section Calls

variable {own : BitVec 64 → Option (Fin maxDomains)} {k : Kernel (Paged μ)} {mapTo : MapTo μ}

/-- What an invocation can grant: nothing, or with `Ok` the window or the extent page. -/
def Granted (d : Fin maxDomains) (k : Kernel (Paged μ))
    (r : (Status × BitVec 64) × Kernel (Paged μ)) : Prop :=
  ∃ new, Grants d new k r.2 ∧
    (new = [] ∨ (r.1.1 = .ok ∧ (new = dqVas ∨ new = [extentMapBase])))

theorem Granted.ite {d : Fin maxDomains} {c : Prop} [Decidable c]
    {a b : (Status × BitVec 64) × Kernel (Paged μ)} (ha : Granted d k a) (hb : Granted d k b) :
    Granted d k (if c then a else b) :=
  iteInduction (motive := Granted d k) (fun _ => ha) (fun _ => hb)

theorem Granted.of_same {d : Fin maxDomains} {r : (Status × BitVec 64) × Kernel (Paged μ)}
    (hmaps : r.2.domainMaps = k.domainMaps) (htables : r.2.machine.tables = k.machine.tables) :
    Granted d k r :=
  ⟨[], .none_of_same hmaps htables, Or.inl rfl⟩

/-- The five pages of the window are mapped, or none of them is. -/
def WholeWindow (k : Kernel (Paged μ)) : Prop :=
  ∀ a ∈ dqVas, ∀ b ∈ dqVas, k.machine.mapped a = k.machine.mapped b

section Map

variable (hmapTo : mapTo.Lawful)

include hmapTo

/-- Mapping one page and recording it. -/
theorem Records.mapPage (h : Records own k) (p : Platform μ) (d : Fin maxDomains)
    {va : BitVec 64} (hva : va ∈ grantVas) (phys : BitVec 64) (writable exec nc : Bool) :
    (∃ m, Paged.mapUserPhys mapTo p va phys writable exec nc k.machine = (false, m) ∧
        Grants d [] k { k with machine := m }) ∨
      ∃ m, Paged.mapUserPhys mapTo p va phys writable exec nc k.machine = (true, m) ∧
        Grants d [va] k ({ k with machine := m }.recordDomainMap d va) := by
  have hmapped := Paged.mapped_mapUserPhys hmapTo p va phys writable exec nc k.machine
  have htables : ∀ w, k.machine.HasTables w → _ := fun w =>
    Paged.hasTables_mapUserPhys hmapTo p va phys writable exec nc k.machine
  have hok := Paged.mapUserPhys_ok hmapTo p va phys writable exec nc k.machine
  rcases hr : Paged.mapUserPhys mapTo p va phys writable exec nc k.machine with ⟨_ | _, m⟩
  · rw [hr] at hmapped htables
    exact Or.inl ⟨m, rfl, Grants.none_of_mapped rfl (fun w => by simpa using hmapped w) htables⟩
  · rw [hr] at hmapped htables hok
    obtain ⟨hfree, hwalks⟩ := hok rfl
    refine Or.inr ⟨m, rfl, fun d' => ?_, fun w hw => ?_, fun w hw => ?_, List.nodup_singleton va,
      fun w hw => ?_⟩
    · by_cases hd : d' = d
      · subst hd
        rw [recordDomainMap, if_pos rfl]
        simp only [Function.update_self, DomainMaps.record]
        rw [dif_pos (h.length_lt d')]
      · rw [recordDomainMap, if_neg hd, List.append_nil]
        simp only [Function.update_of_ne hd]
    · change m.mapped w = true ↔ _
      rw [List.mem_singleton, eq_comm (a := w), ← samePage_iff hva hw]
      simpa using hmapped w
    · rw [List.mem_singleton.mp hw]
      exact ⟨hva, hfree⟩
    · rcases hw with hw | hw
      · rw [List.mem_singleton.mp hw]
        exact hwalks
      · exact htables w hw

/-- One round of the loop of `devqueue_map`. It ends the loop only where the tables are missing or
the page is mapped. -/
theorem Records.mapPages_cons (h : Records own k) (p : Platform μ) (d : Fin maxDomains)
    {va : BitVec 64} (hva : va ∈ grantVas) (phys : BitVec 64) (writable nc : Bool)
    (pages : List (BitVec 64 × BitVec 64 × Bool × Bool)) :
    ((k.machine.HasTables va → k.machine.mapped va = true) ∧
        ∃ k₁, Kernel.mapPages (p.paged mapTo) d ((va, phys, writable, nc) :: pages) k
            = (false, k₁) ∧
          Grants d [] k k₁) ∨
      ∃ k₁, Kernel.mapPages (p.paged mapTo) d ((va, phys, writable, nc) :: pages) k
          = Kernel.mapPages (p.paged mapTo) d pages k₁ ∧ Grants d [va] k k₁ := by
  rw [Kernel.mapPages]
  rcases h.mapPage hmapTo p d hva phys writable false nc with ⟨m, heq, hg⟩ | ⟨m, heq, hg⟩
  · refine Or.inl ⟨fun htables => Bool.eq_true_of_not_eq_false fun hfree => ?_, _, ?_, hg⟩
    · have hok := Paged.mapUserPhys_of_hasTables hmapTo p va phys writable false nc htables hfree
      rw [heq] at hok
      cases hok
    · simp only [Platform.paged, heq]
  · refine Or.inr ⟨_, ?_, hg⟩
    simp only [Platform.paged, heq]

/-- Where the tables are there, the loop maps all of its pages. -/
theorem Records.mapPages (h : Records own k) (p : Platform μ) (d : Fin maxDomains)
    {pages : List (BitVec 64 × BitVec 64 × Bool × Bool)} (hnodup : (pages.map Prod.fst).Nodup)
    (hpages : ∀ va ∈ pages.map Prod.fst, va ∈ grantVas ∧ k.machine.mapped va = false ∧
      k.machine.HasTables va) :
    (Kernel.mapPages (p.paged mapTo) d pages k).1 = true ∧
      Grants d (pages.map Prod.fst) k (Kernel.mapPages (p.paged mapTo) d pages k).2 := by
  induction pages generalizing own k with
  | nil => exact ⟨rfl, Grants.none_of_same rfl rfl⟩
  | cons page pages ih =>
    obtain ⟨va, phys, writable, nc⟩ := page
    rw [List.map_cons] at hnodup hpages ⊢
    obtain ⟨hva, hfree, htables⟩ := hpages va (List.mem_cons_self ..)
    obtain ⟨hne, hnodup'⟩ := List.nodup_cons.mp hnodup
    rcases h.mapPages_cons hmapTo p d hva phys writable nc pages with ⟨hmapped, -⟩ | ⟨k₁, heq, hg⟩
    · rw [hmapped htables] at hfree
      cases hfree
    · rw [heq]
      obtain ⟨hdone, hgs⟩ := ih (h.grant hg) hnodup' fun w hw => by
        obtain ⟨hwva, hwfree, hwtables⟩ := hpages w (List.mem_cons_of_mem _ hw)
        refine ⟨hwva, ?_, hg.tables w (Or.inr hwtables)⟩
        exact hg.mapped_of_ne hwva hwfree fun heq => hne (heq ▸ hw)
      exact ⟨hdone, hg.cons hgs⟩

theorem Records.extentMap (h : Records own k) (p : Platform μ) (d : Fin maxDomains) (oid : ℕ) :
    Granted d k (k.extentMap (p.paged mapTo) d oid) := by
  rw [Kernel.extentMap]
  split
  · rename_i hoid
    refine .ite (.of_same rfl rfl) ?_
    rcases h.mapPage hmapTo p d (Owners.mem_grantVas.mpr (Or.inr rfl))
        (k.extents ⟨oid, hoid⟩).dataFramePhys false false false with ⟨m, heq, hg⟩ | ⟨m, heq, hg⟩
    · simp only [Platform.paged, heq]
      exact ⟨[], hg, Or.inl rfl⟩
    · simp only [Platform.paged, heq]
      exact ⟨_, hg, Or.inr ⟨rfl, Or.inr rfl⟩⟩
  · exact .of_same rfl rfl

/-- **The loop of `devqueue_map` maps all five pages or none.** -/
theorem Records.mapWindow (h : Records own k) (hwin : k.WholeWindow) (p : Platform μ)
    (d : Fin maxDomains) (m : DqMeta) :
    (∃ k₁, Kernel.mapPages (p.paged mapTo) d (dqPages m) k = (false, k₁) ∧ Grants d [] k k₁) ∨
      ∃ k₁, Kernel.mapPages (p.paged mapTo) d (dqPages m) k = (true, k₁) ∧ Grants d dqVas k k₁ := by
  have hgrant : ∀ va ∈ dqVas, va ∈ grantVas := fun va hva => Owners.mem_grantVas.mpr (Or.inl hva)
  have hbase : dqBase ∈ dqVas := List.mem_cons_self ..
  rcases h.mapPages_cons hmapTo p d (hgrant _ hbase) m.descPhys true false (dqPages m).tail with
    ⟨-, k₁, heq, hg⟩ | ⟨k₁, heq, hg⟩
  · exact Or.inl ⟨k₁, heq, hg⟩
  · -- The first page is mapped now, so the tables of the other four are there.
    have hfirst : dqBase ∈ [dqBase] := List.mem_singleton.mpr rfl
    obtain ⟨hne, hnodup⟩ := List.nodup_cons.mp
      (show (dqBase :: (dqPages m).tail.map Prod.fst).Nodup from nodup_dqVas)
    obtain ⟨hdone, hrest⟩ := (h.grant hg).mapPages hmapTo p d hnodup fun va hva => by
      have hmem : va ∈ dqVas := List.mem_cons_of_mem _ hva
      have hva_ne : va ≠ dqBase := fun hva_eq => hne (by rwa [hva_eq] at hva)
      refine ⟨hgrant va hmem, ?_, ?_⟩
      · refine hg.mapped_of_ne (hgrant va hmem) ?_ hva_ne
        exact (hwin va hmem dqBase hbase).trans (hg.free dqBase hfirst).2
      · exact (hg.tables dqBase (Or.inl hfirst)).grant (hgrant _ hbase) (hgrant va hmem)
    exact Or.inr ⟨_, heq.trans (Prod.ext hdone rfl), hg.cons hrest⟩

theorem Records.devqueueMap (h : Records own k) (hwin : k.WholeWindow) (p : Platform μ)
    (d : Fin maxDomains) (oid : ℕ) : Granted d k (k.devqueueMap (p.paged mapTo) d oid) := by
  rw [Kernel.devqueueMap]
  split
  · rename_i hoid
    refine .ite (.of_same rfl rfl) ?_
    rcases h.mapWindow hmapTo hwin p d (k.devqueues ⟨oid, hoid⟩) with ⟨k₁, heq, hg⟩ | ⟨k₁, heq, hg⟩
    · simp only [heq]
      exact ⟨[], hg, Or.inl rfl⟩
    · simp only [heq]
      exact ⟨dqVas, hg, Or.inr ⟨rfl, Or.inl rfl⟩⟩
  · exact .of_same rfl rfl

/-- A method that grants nothing leaves ledgers and page tables alone. -/
theorem Records.dispatchMethod (h : Records own k) (hwin : k.WholeWindow) (p : Platform μ)
    (d : Fin maxDomains) (e : CapEntry) (method : BitVec 16) (arg : BitVec 64) :
    Granted d k (k.dispatchMethod (p.paged mapTo) d e method arg) := by
  have hsame : ∀ {st : Status × BitVec 64}, Granted d k (st, k) := .of_same rfl rfl
  rw [Kernel.dispatchMethod]
  refine .ite hsame (.ite ?alloc (.ite hsame (.ite ?signal (.ite ?poll (.ite hsame
    (.ite (h.extentMap hmapTo p d _) (.ite hsame (.ite (h.devqueueMap hmapTo hwin p d _) (.ite hsame
      (.ite ?submit hsame))))))))))
  case alloc =>
    simp only [Platform.paged]
    rcases p.allocateFrame k.machine.rest with ⟨_ | frame, m⟩ <;> exact .of_same rfl rfl
  case signal =>
    refine .of_same ?_ ?_
    · rw [notifySignal]
      split <;> rfl
    · rw [notifySignal]
      split <;> rfl
  case poll =>
    refine .of_same ?_ ?_
    · rw [notifyTake]
      split <;> rfl
    · rw [notifyTake]
      split <;> rfl
  case submit =>
    rw [devqueueSubmit]
    split
    · refine .ite hsame ?_
      simp only [Platform.paged]
      rcases p.readSector arg k.machine.rest with ⟨_ | sect, m⟩ <;> exact .of_same rfl rfl
    · exact hsame

/-- **What an invocation can grant.** -/
theorem Records.capInvokeIn (h : Records own k) (hwin : k.WholeWindow) (p : Platform μ)
    (domain : ℕ) (cptr method : BitVec 16) (arg : BitVec 64) :
    Granted (clampDomain domain) k (k.capInvokeIn (p.paged mapTo) domain cptr method arg) := by
  rw [Kernel.capInvokeIn]
  split
  · exact h.dispatchMethod hmapTo hwin p _ _ method arg
  · exact .of_same rfl rfl

end Map

end Calls

/-! ### Reaping -/

/-- Unmapping a list of granted pages whose tables are there. -/
theorem mapped_foldl_unmapPage {l : List (BitVec 64)} {m : Paged μ}
    (hl : ∀ va ∈ l, va ∈ grantVas ∧ m.HasTables va) :
    (∀ w ∈ grantVas, (l.foldl (fun m va => (Paged.unmapPage va m).2) m).mapped w = true ↔
        w ∉ l ∧ m.mapped w = true) ∧
      ∀ w, m.HasTables w → (l.foldl (fun m va => (Paged.unmapPage va m).2) m).HasTables w := by
  induction l generalizing m with
  | nil => exact ⟨fun w _ => by simp, fun w hw => hw⟩
  | cons va l ih =>
    obtain ⟨hva, htables⟩ := hl va (List.mem_cons_self ..)
    obtain ⟨hmapped, hkeep⟩ := ih (m := (Paged.unmapPage va m).2) fun w hw =>
      ⟨(hl w (List.mem_cons_of_mem _ hw)).1,
        Paged.hasTables_unmapPage va m (hl w (List.mem_cons_of_mem _ hw)).2⟩
    refine ⟨fun w hw => ?_, fun w hw => hkeep w (Paged.hasTables_unmapPage va m hw)⟩
    rw [List.foldl_cons, hmapped w hw, Paged.mapped_unmapPage va htables, samePage_iff hva hw,
      List.mem_cons, not_or, and_assoc, and_left_comm, eq_comm (a := va)]

/-- **Reaping a domain** unmaps its pages and no others. -/
theorem Records.mapped_reapDomain {own : BitVec 64 → Option (Fin maxDomains)}
    {k : Kernel (Paged μ)} (h : Records own k) (p : Platform μ) (mapTo : MapTo μ)
    (d : Fin maxDomains) (taskIdx : ℕ) :
    (∀ va ∈ grantVas, (k.reapDomain (p.paged mapTo) d taskIdx).machine.mapped va = true ↔
        va ∉ (k.domainMaps d).vas ∧ k.machine.mapped va = true) ∧
      ∀ va, k.machine.HasTables va →
        (k.reapDomain (p.paged mapTo) d taskIdx).machine.HasTables va := by
  rw [Kernel.reapDomain, dif_pos d.isLt]
  exact mapped_foldl_unmapPage fun va hva =>
    have hown := (h.ledger d va).mp hva
    ⟨h.grants d va hown, h.tables d va hown⟩

theorem domainMaps_reapDomain (p : Platform (Paged μ)) (k : Kernel (Paged μ)) (d : Fin maxDomains)
    (taskIdx : ℕ) :
    (k.reapDomain p d taskIdx).domainMaps = Function.update k.domainMaps d .empty := by
  rw [Kernel.reapDomain, dif_pos d.isLt]

/-- **Reaping a domain takes back what it had.** -/
theorem Records.reap {own : BitVec 64 → Option (Fin maxDomains)} {k : Kernel (Paged μ)}
    (h : Records own k) (p : Platform μ) (mapTo : MapTo μ) (d : Fin maxDomains) (taskIdx : ℕ) :
    Records (fun va => if own va = some d then none else own va)
      (k.reapDomain (p.paged mapTo) d taskIdx) := by
  obtain ⟨hmapped, htables⟩ := h.mapped_reapDomain p mapTo d taskIdx
  have hleft : ∀ d' va, (if own va = some d then none else own va) = some d' ↔
      d' ≠ d ∧ own va = some d' := by
    intro d' va
    split
    · rename_i hown
      rw [hown]
      simp [eq_comm]
    · rename_i hown
      exact ⟨fun h' => ⟨fun hd => hown (hd ▸ h'), h'⟩, fun h' => h'.2⟩
  refine ⟨fun d' va => ?_, fun d' => ?_, fun d' va hown => ?_, fun va hva => ?_,
    fun d' va hown => ?_⟩
  · rw [domainMaps_reapDomain, hleft]
    by_cases hd : d' = d
    · subst hd
      simp [DomainMaps.empty]
    · rw [Function.update_of_ne hd, h.ledger]
      simp [hd]
  · rw [domainMaps_reapDomain]
    by_cases hd : d' = d
    · subst hd
      rw [Function.update_self]
      exact List.nodup_nil
    · rw [Function.update_of_ne hd]
      exact h.nodup d'
  · exact h.grants d' va ((hleft d' va).mp hown).2
  · rw [hmapped va hva, h.ledger, h.mapped va hva]
    simp only [hleft]
    refine ⟨fun ⟨hne, d', hown⟩ => ⟨d', fun hd => hne (hd ▸ hown), hown⟩, fun ⟨d', hne, hown⟩ => ?_⟩
    exact ⟨fun h' => hne (Option.some.inj (hown.symm.trans h')), d', hown⟩
  · exact htables va (h.tables d' va ((hleft d' va).mp hown).2)

/-! ### Runs -/

/-- What happens to the granted pages, and whatever else happens. -/
inductive GrantOp (μ : Type)
  /-- An invocation, of whatever method. -/
  | invoke (domain : ℕ) (cptr method : BitVec 16) (arg : BitVec 64)
  /-- A call of `reap_domain`. -/
  | reap (domain taskIdx : ℕ)
  /-- Everything but the ledgers and the page tables becomes what it is in another state. -/
  | aside (k : Kernel (Paged μ))

/-- One step. -/
def grantStep (p : Platform (Paged μ)) (k : Kernel (Paged μ)) : GrantOp μ → Kernel (Paged μ)
  | .invoke domain cptr method arg => (k.capInvokeIn p domain cptr method arg).2
  | .reap domain taskIdx => k.reapDomain p domain taskIdx
  | .aside k' =>
    { k' with domainMaps := k.domainMaps, machine := ⟨k.machine.tables, k'.machine.rest⟩ }

/-- No domain has a page, and none of the granted pages is mapped. -/
structure NoGrants (k : Kernel (Paged μ)) : Prop where
  ledgers : ∀ d, k.domainMaps d = .empty
  unmapped : ∀ va ∈ grantVas, k.machine.mapped va = false

theorem NoGrants.records {k : Kernel (Paged μ)} (h : NoGrants k) :
    Records (Owners.of ⟨none, none⟩) k := by
  have hnone : ∀ va, Owners.of ⟨none, none⟩ va = none := fun va => by simp [Owners.of]
  refine ⟨fun d va => ?_, fun d => ?_, fun d va hown => ?_, fun va hva => ?_, fun d va hown => ?_⟩
  · rw [h.ledgers, hnone]
    simp [DomainMaps.empty]
  · rw [h.ledgers]
    exact List.nodup_nil
  · rw [hnone] at hown
    cases hown
  · rw [h.unmapped va hva]
    simp [hnone]
  · rw [hnone] at hown
    cases hown

theorem Records.wholeWindow {o : Owners} {k : Kernel (Paged μ)} (h : Records o.of k) :
    k.WholeWindow := by
  have hiff : ∀ a ∈ dqVas, k.machine.mapped a = true ↔ ∃ d, o.window = some d := fun a ha => by
    rw [h.mapped a (Owners.mem_grantVas.mpr (Or.inl ha)), Owners.of, if_pos ha]
  intro a ha b hb
  rw [Bool.eq_iff_iff, hiff a ha, hiff b hb]

/-- **An invocation refines the step of the owners.** -/
theorem Records.invoke {mapTo : MapTo μ} (hmapTo : mapTo.Lawful) {o : Owners}
    {k : Kernel (Paged μ)} (h : Records o.of k) (p : Platform μ) (domain : ℕ)
    (cptr method : BitVec 16) (arg : BitVec 64) :
    ∃ o', o.Invoked (clampDomain domain)
        (k.capInvokeIn (p.paged mapTo) domain cptr method arg).1.1 o' ∧
      Records o'.of (k.capInvokeIn (p.paged mapTo) domain cptr method arg).2 := by
  obtain ⟨new, hg, hnew⟩ := h.capInvokeIn hmapTo h.wholeWindow p domain cptr method arg
  have hrec := h.grant hg
  rcases hnew with rfl | ⟨hok, rfl | rfl⟩
  · refine ⟨o, .same _, ?_⟩
    simpa using hrec
  · have hbase := hg.free dqBase (List.mem_cons_self ..)
    have hnone := h.own_eq_none hbase.1 hbase.2
    rw [Owners.of, if_pos (show dqBase ∈ dqVas from List.mem_cons_self ..)] at hnone
    refine ⟨{ o with window := some (clampDomain domain) }, ?_, ?_⟩
    · rw [hok]
      exact .window hnone
    · rw [show Owners.of _ = _ from funext (o.of_window (clampDomain domain))]
      exact hrec
  · have hext := hg.free extentMapBase (List.mem_singleton.mpr rfl)
    have hnone := h.own_eq_none hext.1 hext.2
    rw [Owners.of_extentMapBase] at hnone
    refine ⟨{ o with extent := some (clampDomain domain) }, ?_, ?_⟩
    · rw [hok]
      exact .extent hnone
    · rw [show Owners.of _ = _ from funext (o.of_extent (clampDomain domain))]
      exact hrec

/-- Every step refines one of the owners. -/
theorem Records.step {mapTo : MapTo μ} (hmapTo : mapTo.Lawful) {o : Owners}
    {k : Kernel (Paged μ)} (h : Records o.of k) (p : Platform μ) (op : GrantOp μ) :
    ∃ o' : Owners, Records o'.of (k.grantStep (p.paged mapTo) op) := by
  cases op with
  | invoke domain cptr method arg =>
    obtain ⟨o', -, h'⟩ := h.invoke hmapTo p domain cptr method arg
    exact ⟨o', h'⟩
  | reap domain taskIdx =>
    by_cases hd : domain < maxDomains
    · refine ⟨o.release ⟨domain, hd⟩, ?_⟩
      rw [show Owners.of _ = _ from funext (o.of_release ⟨domain, hd⟩)]
      exact h.reap p mapTo ⟨domain, hd⟩ taskIdx
    · refine ⟨o, ?_⟩
      rw [grantStep, Kernel.reapDomain, dif_neg hd]
      exact ⟨h.ledger, h.nodup, h.grants, h.mapped, h.tables⟩
  | aside k' => exact ⟨o, h.ledger, h.nodup, h.grants, h.mapped, h.tables⟩

/-- What the ledger guarantees in a state. -/
structure LedgerExact (p : Platform (Paged μ)) (k : Kernel (Paged μ)) : Prop where
  /-- A granted page is mapped if and only if it is in exactly one ledger, exactly once. -/
  mapped_iff : ∀ va ∈ grantVas, k.machine.mapped va = true ↔
    ∃ d, (k.domainMaps d).vas.count va = 1 ∧ ∀ d', d' ≠ d → va ∉ (k.domainMaps d').vas
  /-- The five pages of the window are mapped, or none of them is. -/
  window : k.WholeWindow
  /-- An invocation that does not answer `Ok` maps no granted page and unmaps none. -/
  refused : ∀ domain cptr method arg, (k.capInvokeIn p domain cptr method arg).1.1 ≠ .ok →
    ∀ va ∈ grantVas,
      (k.capInvokeIn p domain cptr method arg).2.machine.mapped va = k.machine.mapped va
  /-- No ledger is full. -/
  room : ∀ d, (k.domainMaps d).vas.length < maxMapsPerDomain
  /-- Exactly the pages an invocation newly maps are appended to the ledger of its domain. -/
  recorded : ∀ domain cptr method arg d,
    ((k.capInvokeIn p domain cptr method arg).2.domainMaps d).vas
      = (k.domainMaps d).vas ++ if d = clampDomain domain then grantVas.filter fun va =>
          !k.machine.mapped va &&
            (k.capInvokeIn p domain cptr method arg).2.machine.mapped va
        else []
  /-- Reaping a domain unmaps the pages in its ledger and no other granted page. -/
  reaped : ∀ (d : Fin maxDomains) (taskIdx : ℕ), ∀ va ∈ grantVas,
    (k.reapDomain p d taskIdx).machine.mapped va = true ↔
      va ∉ (k.domainMaps d).vas ∧ k.machine.mapped va = true

/-- The pages a grant has newly mapped. -/
theorem Grants.filter_eq {d : Fin maxDomains} {new : List (BitVec 64)} {k k' : Kernel (Paged μ)}
    (h : Grants d new k k') (hnew : grantVas.filter (· ∈ new) = new) :
    (grantVas.filter fun va => !k.machine.mapped va && k'.machine.mapped va) = new := by
  refine Eq.trans (List.filter_congr fun va hva => ?_) hnew
  rw [Bool.eq_iff_iff, Bool.and_eq_true, Bool.not_eq_true', decide_eq_true_iff, h.mapped va hva]
  refine ⟨fun ⟨hfree, hor⟩ => hor.resolve_right ?_, fun hmem => ⟨(h.free va hmem).2, Or.inl hmem⟩⟩
  rw [hfree]
  exact nofun

theorem Records.ledgerExact {mapTo : MapTo μ} (hmapTo : mapTo.Lawful) {o : Owners}
    {k : Kernel (Paged μ)} (h : Records o.of k) (p : Platform μ) :
    k.LedgerExact (p.paged mapTo) where
  mapped_iff va hva := by
    rw [h.mapped va hva]
    refine ⟨fun ⟨d, hown⟩ => ⟨d, ?_, fun d' hne hmem => ?_⟩, fun ⟨d, hcount, _⟩ => ⟨d, ?_⟩⟩
    · exact List.count_eq_one_of_mem (h.nodup d) ((h.ledger d va).mpr hown)
    · exact hne (Option.some.inj (((h.ledger d' va).mp hmem).symm.trans hown))
    · refine (h.ledger d va).mp (List.count_pos_iff.mp ?_)
      rw [hcount]
      exact Nat.one_pos
  window := h.wholeWindow
  refused domain cptr method arg hst va hva := by
    obtain ⟨new, hg, rfl | ⟨hok, -⟩⟩ := h.capInvokeIn hmapTo h.wholeWindow p domain cptr method arg
    · rw [Bool.eq_iff_iff, hg.mapped va hva]
      simp
    · exact absurd hok hst
  room := h.length_lt
  recorded domain cptr method arg d := by
    obtain ⟨new, hg, hnew⟩ := h.capInvokeIn hmapTo h.wholeWindow p domain cptr method arg
    have hfilter : grantVas.filter (· ∈ new) = new := by
      rcases hnew with rfl | ⟨-, rfl | rfl⟩ <;> decide
    rw [hg.ledger d, hg.filter_eq hfilter]
  reaped d taskIdx := (h.mapped_reapDomain p mapTo d taskIdx).1

end Kernel

/-- The state after a run. -/
def grantAfter {μ : Type} (p : Platform (Paged μ)) (k₀ : Kernel (Paged μ))
    (h : List (Kernel.GrantOp μ)) : Kernel (Paged μ) :=
  Runs.after (Kernel.grantStep p) k₀ h

/-- **The mapping ledger is exact.** Let the mapper of the `x86_64` crate be any that meets its
assumptions. Start without grants and let any domains invoke anything, let any domains be reaped,
and let anything else happen to the rest of the state: at every point the granted pages that are
mapped are those in exactly one ledger, exactly once, the window is mapped as a whole or not at all,
no ledger is full and no record is dropped, a refused call maps nothing, and reaping a domain unmaps
exactly its pages. -/
theorem mapping_ledger_exact {μ : Type} {mapTo : MapTo μ} (hmapTo : mapTo.Lawful) (p : Platform μ)
    {k₀ : Kernel (Paged μ)} (h₀ : k₀.NoGrants) (h : List (Kernel.GrantOp μ)) :
    (grantAfter (p.paged mapTo) k₀ h).LedgerExact (p.paged mapTo) := by
  have hrec : ∃ o : Owners, Kernel.Records o.of (grantAfter (p.paged mapTo) k₀ h) := by
    induction h with
    | nil => exact ⟨_, h₀.records⟩
    | cons op h ih =>
      obtain ⟨o, ho⟩ := ih
      exact ho.step hmapTo p op
  obtain ⟨o, ho⟩ := hrec
  exact ho.ledgerExact hmapTo p

/-! ### One DeviceQueue -/

/-- What is below the page tables: frames for tables, and a DeviceQueue. -/
def queueMachine : Platform Unit where
  mapUserPhys _ _ _ _ _ m := (true, m)
  unmapPage _ m := (true, m)
  allocateFrame m := (some 1, m)
  readSector _ m := (none, m)
  deviceQueueDesc _ := some ⟨0x2000, 0x3000, 0x4000, 0x5000, 0xfe000000, 8⟩
  tickNs := 1000
  stackTop := 0x10000
  taskKstackTop i := .ofNat 64 (0x20000 + 0x10000 * i)

/-- A machine with page tables, and a mapper that creates the tables it misses. -/
def queuePlatform : Platform (Paged Unit) := queueMachine.paged .creating

/-- A kernel on empty page tables. -/
def emptyKernel : Kernel (Paged Unit) := .init queuePlatform ⟨fun _ => .absent, ()⟩

/-- The kernel makes a DeviceQueue, whose capability the root domain holds at CPtr 0; the root
domain maps the window, domain 3 is refused, and the root domain is reaped. -/
def queueRun : List (Kernel.GrantOp Unit) :=
  [.reap 0 0, .invoke 3 0 Kernel.dqMap 0, .invoke 0 0 Kernel.dqMap 0,
    .aside (emptyKernel.createDeviceQueue queuePlatform 7 32700).2]

/-- The window is mapped until the root domain is reaped. -/
theorem mapping_ledger_exact_one_queue :
    emptyKernel.NoGrants ∧
      grantVas.map (grantAfter queuePlatform emptyKernel queueRun.tail).machine.mapped
        = [true, true, true, true, true, false] ∧
      (grantAfter queuePlatform emptyKernel queueRun).LedgerExact queuePlatform := by
  have h₀ : emptyKernel.NoGrants := ⟨fun _ => rfl, fun va _ => by
    rw [Paged.mapped, emptyKernel, Kernel.init, PageTable.translate_empty]
    rfl⟩
  exact ⟨h₀, by decide +kernel,
    mapping_ledger_exact MapTo.lawful_creating queueMachine h₀ queueRun⟩

end Cairn
