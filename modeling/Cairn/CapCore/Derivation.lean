import Cairn.CapCore.Table
import Cairn.Internal.Runs

/-!
# Runs of the capability core

One object table and any number of capability tables, indexed by an arbitrary type, under every
operation the core offers: creating, revoking and destroying objects, minting, delegating and
sealing capabilities, and clearing a slot. `Runs` supplies the notion of a run; this file adds
the one piece of history the revocation properties speak about, the mint an entry descends from.

## Descent

`Descends h t i g` says that the entry now in slot `i` of table `t` comes, through some chain of
delegations, from a mint executed directly after the run `g`, an earlier part of `h`. It is an
inductive predicate on runs and not a field of the state, so nothing has to be maintained
alongside the tables, and the entry itself is never consulted.

## Main results

* `Space.slot_after_of_target` — tables no operation is aimed at stay as they are
* `Space.stored_step`, `Space.metas_step` — the two inversion lemmas: where a stored entry can
  come from in a step, and what a step does to an object
* `Descends.suffix`, `exists_descends` — every stored entry descends from an earlier mint
-/

namespace Cairn

/-- An object table together with a family of capability tables. -/
structure Space (τ : Type) where
  objects : ObjectTable
  tables : τ → CapTable

/-- The operations of the core. -/
inductive CapOp (τ : Type)
  | createObject (kind : ObjectKind)
  | destroyObject (oid : ℕ)
  | revoke (oid : ℕ)
  | mint (t : τ) (oid : ℕ) (rights : Rights) (badge : BitVec 16)
  | delegate (src : τ) (cptr : ℕ) (mask : Rights) (badge : BitVec 16) (dst : τ)
  | sealCap (t : τ) (cptr : ℕ)
  | clear (t : τ) (i : Fin capTableSlots)

variable {τ : Type} [DecidableEq τ]

namespace Space

/-- Nothing created, nothing held. -/
def new : Space τ := ⟨.new, fun _ => .new⟩

/-- Replace one table. -/
def setTable (s : Space τ) (t : τ) (ct : CapTable) : Space τ :=
  { s with tables := Function.update s.tables t ct }

/-- One operation. A failed operation changes nothing. -/
def step (s : Space τ) : CapOp τ → Space τ
  | .createObject kind =>
    match s.objects.createObject kind with
    | some (_, ot) => { s with objects := ot }
    | none => s
  | .destroyObject oid => { s with objects := s.objects.destroyObject oid }
  | .revoke oid => { s with objects := (s.objects.revoke oid).2 }
  | .mint t oid rights badge =>
    match (s.tables t).mint s.objects oid rights badge with
    | .ok (_, ct) => s.setTable t ct
    | .error _ => s
  | .delegate src cptr mask badge dst =>
    match (s.tables src).delegate s.objects cptr mask badge (s.tables dst) with
    | .ok (_, ct) => s.setTable dst ct
    | .error _ => s
  | .sealCap t cptr => s.setTable t ((s.tables t).seal cptr).2
  | .clear t i => s.setTable t ((s.tables t).set i none)

/-- The entry in a slot. -/
def slot (s : Space τ) (t : τ) (i : Fin capTableSlots) : Option CapEntry := (s.tables t).slots i

/-- The slot an operation gives a new content: the one a mint or a delegation fills, or the one
a clearing empties. Sealing edits an entry in place and is not counted. -/
def written (s : Space τ) : CapOp τ → Option (τ × Fin capTableSlots)
  | .mint t oid rights badge =>
    match (s.tables t).mint s.objects oid rights badge with
    | .ok (i, _) => some (t, i)
    | .error _ => none
  | .delegate src cptr mask badge dst =>
    match (s.tables src).delegate s.objects cptr mask badge (s.tables dst) with
    | .ok (i, _) => some (dst, i)
    | .error _ => none
  | .clear t i => some (t, i)
  | _ => none

theorem slot_setTable (s : Space τ) (t t' : τ) (ct : CapTable) (i : Fin capTableSlots) :
    (s.setTable t ct).slot t' i = if t' = t then ct.slots i else s.slot t' i := by
  by_cases h : t' = t
  · subst h; simp [slot, setTable]
  · simp [slot, setTable, h]

theorem slots_set (ct : CapTable) (i j : Fin capTableSlots) (e : Option CapEntry) :
    (ct.set i e).slots j = if j = i then e else ct.slots j := by
  by_cases h : j = i
  · subst h; simp [CapTable.set]
  · simp [CapTable.set, h]

/-- After one slot has been written, an entry found is the one written there, or stands in
another slot and was there before. -/
theorem slot_of_slot_write {s : Space τ} {t₀ t : τ} {j i : Fin capTableSlots}
    {v : Option CapEntry} {e : CapEntry}
    (h : (s.setTable t₀ ((s.tables t₀).set j v)).slot t i = some e) :
    (t = t₀ ∧ i = j ∧ v = some e) ∨ (t₀, j) ≠ (t, i) ∧ s.slot t i = some e := by
  rw [slot_setTable] at h
  by_cases ht : t = t₀
  · subst ht
    rw [if_pos rfl, slots_set] at h
    by_cases hi : i = j
    · rw [if_pos hi] at h
      exact Or.inl ⟨rfl, hi, h⟩
    · rw [if_neg hi] at h
      exact Or.inr ⟨fun heq => hi (congrArg Prod.snd heq).symm, h⟩
  · rw [if_neg ht] at h
    exact Or.inr ⟨fun heq => ht (congrArg Prod.fst heq).symm, h⟩

/-- The table an operation can write to. -/
def target : CapOp τ → Option τ
  | .mint t .. | .sealCap t _ | .clear t _ => some t
  | .delegate _ _ _ _ dst => some dst
  | .createObject _ | .destroyObject _ | .revoke _ => none

/-- Every other table stays as it is. -/
theorem slot_step_of_target {s : Space τ} {op : CapOp τ} {t : τ} (ht : target op ≠ some t)
    (i : Fin capTableSlots) : (s.step op).slot t i = s.slot t i := by
  cases op with
  | createObject kind =>
    rw [step]
    split <;> rfl
  | destroyObject oid => rfl
  | revoke oid => rfl
  | mint t₀ oid r b =>
    rw [step]
    split
    · rw [slot_setTable, if_neg fun h => ht (congrArg some h.symm)]
    · rfl
  | delegate src c mask b dst =>
    rw [step]
    split
    · rw [slot_setTable, if_neg fun h => ht (congrArg some h.symm)]
    · rfl
  | sealCap t₀ c => rw [step, slot_setTable, if_neg fun h => ht (congrArg some h.symm)]
  | clear t₀ j => rw [step, slot_setTable, if_neg fun h => ht (congrArg some h.symm)]

theorem slot_after_of_target {s : Space τ} {t : τ} {l : List (CapOp τ)}
    (hl : ∀ op ∈ l, target op ≠ some t) (i : Fin capTableSlots) :
    (Runs.after step s l).slot t i = s.slot t i := by
  induction l with
  | nil => rfl
  | cons op l ih =>
    rw [Runs.after_cons, slot_step_of_target (hl op List.mem_cons_self)]
    exact ih fun op' hop' => hl op' (List.mem_cons_of_mem _ hop')

/-- **Where a stored entry comes from.** After one step, an entry was minted, delegated, sealed
in place, or already there. Every fact about stored entries is derived from this lemma. -/
theorem stored_step {s : Space τ} {op : CapOp τ} {t : τ} {i : Fin capTableSlots} {e : CapEntry}
    (h : (s.step op).slot t i = some e) :
    (∃ oid r b m ct, op = .mint t oid r b ∧
        (s.tables t).mint s.objects oid r b = .ok (i, ct) ∧ s.objects.metaAt oid = some m ∧
        m.present = true ∧ e = ⟨oid, r, m.currentEpoch, m.kind, b⟩) ∨
      (∃ src c mask b ct e₀, op = .delegate src c mask b t ∧
        (s.tables src).delegate s.objects c mask b (s.tables t) = .ok (i, ct) ∧
        (s.tables src).entryAt c = some e₀ ∧ e₀.rights.contains .delegate = true ∧
        e₀.check s.objects = .ok ∧ e = e₀.child mask b) ∨
      (∃ e₀, op = .sealCap t i ∧ s.slot t i = some e₀ ∧
        e = { e₀ with rights := e₀.rights.remove .delegate }) ∨
      s.written op ≠ some (t, i) ∧ s.slot t i = some e := by
  cases op with
  | createObject kind =>
    refine Or.inr (Or.inr (Or.inr ⟨by simp [written], ?_⟩))
    simp only [step] at h
    split at h <;> exact h
  | destroyObject oid => exact Or.inr (Or.inr (Or.inr ⟨by simp [written], h⟩))
  | revoke oid => exact Or.inr (Or.inr (Or.inr ⟨by simp [written], h⟩))
  | mint t₀ oid r b =>
    cases hm : (s.tables t₀).mint s.objects oid r b with
    | error st =>
      simp only [step, hm] at h
      exact Or.inr (Or.inr (Or.inr ⟨by simp [written, hm], h⟩))
    | ok p =>
      obtain ⟨j, ct⟩ := p
      obtain ⟨-, m, hoid, hp, rfl⟩ := CapTable.mint_eq_ok_iff.mp hm
      simp only [step, hm] at h
      rcases slot_of_slot_write h with ⟨rfl, rfl, hv⟩ | ⟨hne, hold⟩
      · exact Or.inl ⟨oid, r, b, m, _, rfl, hm, hoid, hp, (Option.some.inj hv).symm⟩
      · refine Or.inr (Or.inr (Or.inr ⟨?_, hold⟩))
        simpa only [written, hm, ne_eq, Option.some.injEq] using hne
  | delegate src c mask b dst =>
    cases hd : (s.tables src).delegate s.objects c mask b (s.tables dst) with
    | error st =>
      simp only [step, hd] at h
      exact Or.inr (Or.inr (Or.inr ⟨by simp [written, hd], h⟩))
    | ok p =>
      obtain ⟨j, ct⟩ := p
      obtain ⟨e₀, he₀, hdel, hlive, -, rfl⟩ := CapTable.delegate_eq_ok_iff.mp hd
      simp only [step, hd] at h
      rcases slot_of_slot_write h with ⟨rfl, rfl, hv⟩ | ⟨hne, hold⟩
      · have he := (Option.some.inj hv).symm
        exact Or.inr (Or.inl ⟨src, c, mask, b, _, e₀, rfl, hd, he₀, hdel, hlive, he⟩)
      · refine Or.inr (Or.inr (Or.inr ⟨?_, hold⟩))
        simpa only [written, hd, ne_eq, Option.some.injEq] using hne
  | sealCap t₀ c =>
    rw [step] at h
    rcases CapTable.seal_cases (s.tables t₀) c with ⟨hc, e₀, he₀, hs⟩ | ⟨-, hs⟩
    · rw [hs] at h
      rcases slot_of_slot_write h with ⟨rfl, rfl, hv⟩ | ⟨-, hold⟩
      · exact Or.inr (Or.inr (Or.inl ⟨e₀, rfl, he₀, (Option.some.inj hv).symm⟩))
      · exact Or.inr (Or.inr (Or.inr ⟨by simp [written], hold⟩))
    · -- a pointer to nothing: the table is put back as it was
      rw [hs, slot_setTable] at h
      refine Or.inr (Or.inr (Or.inr ⟨by simp [written], ?_⟩))
      by_cases ht : t = t₀
      · subst ht; simpa [slot] using h
      · simpa [ht] using h
  | clear t₀ j =>
    rw [step] at h
    rcases slot_of_slot_write h with ⟨-, -, hv⟩ | ⟨hne, hold⟩
    · cases hv
    · refine Or.inr (Or.inr (Or.inr ⟨?_, hold⟩))
      simpa only [written, ne_eq, Option.some.injEq] using hne

end Space

/-! ### One object across one step -/

/-- The step is a successful revoke of `oid`. -/
def isRevoke (oid : ℕ) (s : Space τ) : CapOp τ → Bool
  | .revoke o => o == oid && (s.objects.revoke o).1 == .ok
  | _ => false

/-- The step destroys the present object `oid`. -/
def isDestroy (oid : ℕ) (s : Space τ) : CapOp τ → Bool
  | .destroyObject o => o == oid && (s.objects.metaAt o).any (·.present)
  | _ => false

/-- **What a step does to one object.** It is left alone, destroyed, created in an absent id, or
revoked; the two events a history counts are recorded in each case. -/
theorem Space.metas_step (s : Space τ) (op : CapOp τ) (i : Fin objectTableSize) :
    ((s.step op).objects.metas i = s.objects.metas i ∧ isRevoke i s op = false ∧
        isDestroy i s op = false) ∨
      (op = .destroyObject i ∧ ((s.step op).objects.metas i).present = false ∧
        isRevoke i s op = false ∧ isDestroy i s op = (s.objects.metas i).present) ∨
      (∃ kind, op = .createObject kind ∧ (∃ ot, s.objects.createObject kind = some (i, ot)) ∧
        (s.objects.metas i).present = false ∧ (s.step op).objects.metas i = ⟨kind, 0, true⟩ ∧
        isRevoke i s op = false ∧ isDestroy i s op = false) ∨
      (op = .revoke i ∧ (s.objects.metas i).present = true ∧
        (s.step op).objects.metas i = { s.objects.metas i with
          currentEpoch := (s.objects.metas i).currentEpoch + 1 } ∧
        isRevoke i s op = true ∧ isDestroy i s op = false) := by
  cases op with
  | createObject kind =>
    simp only [Space.step]
    cases hc : s.objects.createObject kind with
    | none => exact Or.inl ⟨rfl, rfl, rfl⟩
    | some p =>
      obtain ⟨j, ot⟩ := p
      obtain ⟨habs, -, rfl⟩ := ObjectTable.createObject_eq_some_iff.mp hc
      by_cases hij : i = j
      · subst hij
        exact Or.inr (Or.inr (Or.inl ⟨kind, rfl, ⟨_, hc⟩, habs, by simp, rfl, rfl⟩))
      · exact Or.inl ⟨by simp [hij], rfl, rfl⟩
  | destroyObject oid =>
    by_cases hij : oid = i
    · subst hij
      refine Or.inr (Or.inl ⟨rfl, ?_, rfl, ?_⟩)
      · simp [Space.step, ObjectTable.destroyObject]
      · simp [isDestroy, ObjectTable.metaAt]
    · refine Or.inl ⟨?_, rfl, by simp [isDestroy, hij]⟩
      simp only [Space.step, ObjectTable.destroyObject]
      split
      · rename_i hlt
        have hne : i ≠ ⟨oid, hlt⟩ := fun hh => hij (by rw [hh])
        simp [hne]
      · rfl
  | revoke oid =>
    rcases s.objects.revoke_cases oid with ⟨ho, hp, hr⟩ | ⟨-, hr⟩
    · by_cases hij : i = ⟨oid, ho⟩
      · subst hij
        exact Or.inr (Or.inr (Or.inr
          ⟨rfl, hp, by simp [Space.step, hr], by simp [isRevoke, hr], rfl⟩))
      · have hne : oid ≠ i := fun hh => hij (Fin.ext hh.symm)
        exact Or.inl ⟨by simp [Space.step, hr, hij], by simp [isRevoke, hne], rfl⟩
    · exact Or.inl ⟨by simp [Space.step, hr], by simp [isRevoke, hr], rfl⟩
  | mint t oid r b =>
    refine Or.inl ⟨?_, rfl, rfl⟩
    simp only [Space.step]
    split <;> rfl
  | delegate src c mask b dst =>
    refine Or.inl ⟨?_, rfl, rfl⟩
    simp only [Space.step]
    split <;> rfl
  | sealCap t c => exact Or.inl ⟨rfl, rfl, rfl⟩
  | clear t j => exact Or.inl ⟨rfl, rfl, rfl⟩

/-- The state of the core after a run, from empty tables. -/
def spaceAfter (h : List (CapOp τ)) : Space τ := Runs.after Space.step Space.new h

@[simp] theorem spaceAfter_nil : spaceAfter ([] : List (CapOp τ)) = Space.new := rfl

@[simp] theorem spaceAfter_cons (op : CapOp τ) (h : List (CapOp τ)) :
    spaceAfter (op :: h) = (spaceAfter h).step op :=
  Runs.after_cons _ _ _ _

/-- The entry now in slot `i` of table `t` descends from the mint executed directly after the
run `g`, through any chain of delegations. -/
inductive Descends : List (CapOp τ) → τ → Fin capTableSlots → List (CapOp τ) → Prop
  /-- A minted entry descends from its own mint. -/
  | mint {h : List (CapOp τ)} {t : τ} {oid : ℕ} {r : Rights} {b : BitVec 16}
      {i : Fin capTableSlots} {ct : CapTable}
      (ok : ((spaceAfter h).tables t).mint (spaceAfter h).objects oid r b = .ok (i, ct)) :
      Descends (.mint t oid r b :: h) t i h
  /-- A delegated entry descends from what its source descends from. -/
  | delegate {h g : List (CapOp τ)} {src dst : τ} {c : Fin capTableSlots} {mask : Rights}
      {b : BitVec 16} {i : Fin capTableSlots} {ct : CapTable}
      (ok : ((spaceAfter h).tables src).delegate (spaceAfter h).objects c mask b
        ((spaceAfter h).tables dst) = .ok (i, ct))
      (src_descends : Descends h src c g) : Descends (.delegate src c mask b dst :: h) dst i g
  /-- An entry whose slot is not written keeps its descent. -/
  | stay {h g : List (CapOp τ)} {op : CapOp τ} {t : τ} {i : Fin capTableSlots}
      (kept : (spaceAfter h).written op ≠ some (t, i)) (before : Descends h t i g) :
      Descends (op :: h) t i g

/-- The mint lies strictly inside the run. -/
theorem Descends.suffix {h g : List (CapOp τ)} {t : τ} {i : Fin capTableSlots}
    (hd : Descends h t i g) : g <:+ h := by
  induction hd with
  | mint ok => exact List.suffix_cons _ _
  | delegate ok _ ih => exact ih.trans (List.suffix_cons _ _)
  | stay kept _ ih => exact ih.trans (List.suffix_cons _ _)

/-- A slot that is not written keeps its descent, and only that. -/
theorem Descends.of_kept {h g : List (CapOp τ)} {op : CapOp τ} {t : τ} {i : Fin capTableSlots}
    (hk : (spaceAfter h).written op ≠ some (t, i)) (hd : Descends (op :: h) t i g) :
    Descends h t i g := by
  cases hd with
  | mint ok => simp [Space.written, ok] at hk
  | delegate ok _ => simp [Space.written, ok] at hk
  | stay _ before => exact before

/-- A mint that answers slot `i` puts an entry there that descends from it. -/
theorem Descends.mint_of_answer {h : List (CapOp τ)} {t : τ} {oid : ℕ} {r : Rights}
    {b : BitVec 16} {i : Fin capTableSlots}
    (ok : (((spaceAfter h).tables t).mint (spaceAfter h).objects oid r b).toOption.map Prod.fst
      = some i) : Descends (.mint t oid r b :: h) t i h := by
  cases hm : ((spaceAfter h).tables t).mint (spaceAfter h).objects oid r b with
  | error st => rw [hm] at ok; cases ok
  | ok p =>
    obtain ⟨j, ct⟩ := p
    rw [hm] at ok
    cases ok
    exact .mint hm

theorem Descends.of_mint {h g : List (CapOp τ)} {t : τ} {oid : ℕ} {r : Rights} {b : BitVec 16}
    {i : Fin capTableSlots} {ct : CapTable}
    (ok : ((spaceAfter h).tables t).mint (spaceAfter h).objects oid r b = .ok (i, ct))
    (hd : Descends (.mint t oid r b :: h) t i g) : g = h := by
  cases hd with
  | mint _ => rfl
  | stay kept _ => simp [Space.written, ok] at kept

theorem Descends.of_delegate {h g : List (CapOp τ)} {src dst : τ} {c : Fin capTableSlots}
    {mask : Rights} {b : BitVec 16} {i : Fin capTableSlots} {ct : CapTable}
    (ok : ((spaceAfter h).tables src).delegate (spaceAfter h).objects c mask b
      ((spaceAfter h).tables dst) = .ok (i, ct))
    (hd : Descends (.delegate src c mask b dst :: h) dst i g) : Descends h src c g := by
  generalize hop : CapOp.delegate src (c : ℕ) mask b dst :: h = h' at hd
  cases hd with
  | mint _ => simp at hop
  | delegate _ src_descends =>
    simp only [List.cons.injEq, CapOp.delegate.injEq, Fin.val_inj] at hop
    obtain ⟨⟨rfl, rfl, -⟩, rfl⟩ := hop
    exact src_descends
  | stay kept _ =>
    simp only [List.cons.injEq] at hop
    obtain ⟨rfl, rfl⟩ := hop
    simp [Space.written, ok] at kept

/-- Every stored entry descends from a mint. -/
theorem exists_descends {h : List (CapOp τ)} {t : τ} {i : Fin capTableSlots} {e : CapEntry}
    (he : (spaceAfter h).slot t i = some e) : ∃ g, Descends h t i g := by
  induction h generalizing t i e with
  | nil => simp [Space.new, Space.slot, CapTable.new] at he
  | cons op h ih =>
    rw [spaceAfter_cons] at he
    rcases Space.stored_step he with ⟨oid, r, b, m, ct, rfl, hok, -⟩ |
      ⟨src, c, mask, b, ct, e₀, rfl, hok, he₀, -⟩ | ⟨e₀, rfl, he₀, -⟩ | ⟨hk, he₀⟩
    · exact ⟨h, .mint hok⟩
    · obtain ⟨hc, hslot⟩ := CapTable.entryAt_eq_some_iff.mp he₀
      obtain ⟨g, hg⟩ := ih hslot
      exact ⟨g, .delegate (c := ⟨c, hc⟩) hok hg⟩
    · obtain ⟨g, hg⟩ := ih he₀
      exact ⟨g, .stay (by simp [Space.written]) hg⟩
    · obtain ⟨g, hg⟩ := ih he₀
      exact ⟨g, .stay hk hg⟩

end Cairn
