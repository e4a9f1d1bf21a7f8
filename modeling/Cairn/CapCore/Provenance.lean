import Cairn.CapCore.Derivation

/-!
# Provenance of authority

`Descends` forgets everything about an entry but the mint it goes back to. This file keeps the
rest: the object, kind and rights of that mint, how often the capability was delegated on the way,
and whether it was sealed.

A chain is a predicate on the run and carries its own evidence: a hop can only be added when its
source is at that moment live, holds `DELEGATE` and has not been sealed. That every stored entry
has a chain is then a statement about the operations, `exists_chain`, and that authority only
shrinks along a chain is an induction over it, `Chain.rights_le`.

## Main definitions

* `Chain` — the way a capability took from its mint to its slot
* `Space.Named` — every stored entry names a present object of its kind

## Main results

* `exists_chain` — every stored entry has a chain
* `Chain.rights_le`, `Chain.minted` — along a chain rights never grow, and it starts with a mint
* `Space.Named.step` — only the destruction of an object can leave an entry without one
* `fresh_of_created` — without destructions no id is used twice
-/

namespace Cairn

variable {τ : Type} [DecidableEq τ]

/-- What a mint gives out. -/
structure Origin where
  oid : ℕ
  kind : ObjectKind
  rights : Rights

/-- `Chain h t i e o n s`: the entry `e` came into slot `i` of table `t` in the run `h` from a
mint of `o` by `n` delegations, and was sealed since its last one if `s`. -/
inductive Chain :
    List (CapOp τ) → τ → Fin capTableSlots → CapEntry → Origin → ℕ → Bool → Prop
  /-- A mint gives the object's kind, the current epoch and the rights asked for. -/
  | mint {h : List (CapOp τ)} {t : τ} {oid : ℕ} {r : Rights} {b : BitVec 16} {m : ObjectMeta}
      {i : Fin capTableSlots} {ct : CapTable}
      (ok : ((spaceAfter h).tables t).mint (spaceAfter h).objects oid r b = .ok (i, ct))
      (names : (spaceAfter h).objects.metaAt oid = some m) (present : m.present = true) :
      Chain (.mint t oid r b :: h) t i ⟨oid, r, m.currentEpoch, m.kind, b⟩ ⟨oid, m.kind, r⟩ 0 false
  /-- A hop starts at a live entry that holds `DELEGATE` and is not sealed, and gives no right the
  entry does not have. -/
  | hop {h : List (CapOp τ)} {src dst : τ} {c i : Fin capTableSlots} {mask : Rights}
      {b : BitVec 16} {ct : CapTable} {e e' : CapEntry} {o : Origin} {n : ℕ}
      (source : Chain h src c e o n false)
      (held : (spaceAfter h).slot src c = some e)
      (live : e.check (spaceAfter h).objects = .ok)
      (delegable : e.rights.contains .delegate = true)
      (ok : ((spaceAfter h).tables src).delegate (spaceAfter h).objects c mask b
        ((spaceAfter h).tables dst) = .ok (i, ct))
      (child : e' = e.child mask b) (rights_le : e'.rights ≤ e.rights) :
      Chain (.delegate src c mask b dst :: h) dst i e' o (n + 1) false
  /-- Sealing takes `DELEGATE` away. -/
  | sealed {h : List (CapOp τ)} {t : τ} {i : Fin capTableSlots} {e : CapEntry} {o : Origin} {n : ℕ}
      {s : Bool} (before : Chain h t i e o n s) :
      Chain (.sealCap t i :: h) t i { e with rights := e.rights.remove .delegate } o n true
  /-- An operation that neither writes nor seals the slot changes nothing. -/
  | stay {h : List (CapOp τ)} {op : CapOp τ} {t : τ} {i : Fin capTableSlots} {e : CapEntry}
      {o : Origin} {n : ℕ} {s : Bool} (kept : (spaceAfter h).written op ≠ some (t, i))
      (unsealed : op ≠ .sealCap t i) (before : Chain h t i e o n s) : Chain (op :: h) t i e o n s

namespace Chain

variable {h : List (CapOp τ)} {t : τ} {i : Fin capTableSlots} {e : CapEntry} {o : Origin} {n : ℕ}
  {s : Bool}

/-- Along a chain the object and its kind stay, and rights never grow. -/
theorem rights_le (hc : Chain h t i e o n s) :
    e.objectId = o.oid ∧ e.typeTag = o.kind ∧ e.rights ≤ o.rights := by
  induction hc with
  | mint ok names present => exact ⟨rfl, rfl, le_refl _⟩
  | hop _ _ _ _ _ child rights_le ih =>
    subst child
    exact ⟨ih.1, ih.2.1, rights_le.trans ih.2.2⟩
  | sealed _ ih => exact ⟨ih.1, ih.2.1, (Rights.remove_le _ _).trans ih.2.2⟩
  | stay _ _ _ ih => exact ih

/-- A sealed entry no longer holds `DELEGATE`. -/
theorem not_delegable (hc : Chain h t i e o n s) (hs : s = true) :
    e.rights.contains .delegate = false := by
  induction hc with
  | mint | hop => cases hs
  | sealed => exact Rights.not_contains_delegate_remove _
  | stay _ _ _ ih => exact ih hs

/-- A chain starts with a mint of its origin; without a hop, it is still in the table of the
mint. -/
theorem minted (hc : Chain h t i e o n s) :
    ∃ g t₀ b m, .mint t₀ o.oid o.rights b :: g <:+ h ∧
      (spaceAfter g).objects.metaAt o.oid = some m ∧ m.kind = o.kind ∧ (n = 0 → t = t₀) := by
  induction hc with
  | mint ok names present => exact ⟨_, _, _, _, List.suffix_refl _, names, rfl, fun _ => rfl⟩
  | hop _ _ _ _ _ _ _ ih =>
    obtain ⟨g, t₀, b, m, hg, hm, hk, -⟩ := ih
    exact ⟨g, t₀, b, m, hg.trans (List.suffix_cons _ _), hm, hk, nofun⟩
  | sealed _ ih =>
    obtain ⟨g, t₀, b, m, hg, hm, hk, hn⟩ := ih
    exact ⟨g, t₀, b, m, hg.trans (List.suffix_cons _ _), hm, hk, hn⟩
  | stay _ _ _ ih =>
    obtain ⟨g, t₀, b, m, hg, hm, hk, hn⟩ := ih
    exact ⟨g, t₀, b, m, hg.trans (List.suffix_cons _ _), hm, hk, hn⟩

end Chain

/-- Sealing a slot takes `DELEGATE` from its entry. -/
theorem Space.slot_sealCap {s : Space τ} {t : τ} {i : Fin capTableSlots} {e : CapEntry}
    (he : s.slot t i = some e) : (s.step (.sealCap t i)).slot t i
      = some { e with rights := e.rights.remove .delegate } := by
  rw [step, slot_setTable, if_pos rfl]
  rcases CapTable.seal_cases (s.tables t) i with ⟨hi, e₀, he₀, hs⟩ | ⟨hnone, -⟩
  · rw [hs, slots_set, if_pos rfl]
    rw [slot, he₀, Option.some.injEq] at he
    rw [he]
  · rw [CapTable.entryAt_val] at hnone
    rw [slot, hnone] at he
    cases he

/-- **Every stored entry has a chain.** -/
theorem exists_chain {h : List (CapOp τ)} {t : τ} {i : Fin capTableSlots} {e : CapEntry}
    (he : (spaceAfter h).slot t i = some e) : ∃ o n s, Chain h t i e o n s := by
  induction h generalizing t i e with
  | nil => simp [Space.new, Space.slot, CapTable.new] at he
  | cons op h ih =>
    rw [spaceAfter_cons] at he
    rcases Space.stored_step he with ⟨oid, r, b, m, ct, rfl, hok, hm, hp, rfl⟩ |
      ⟨src, c, mask, b, ct, e₀, rfl, hok, he₀, hdel, hlive, rfl⟩ | ⟨e₀, rfl, he₀, rfl⟩ | ⟨hk, he₀⟩
    · exact ⟨_, 0, false, .mint hok hm hp⟩
    · obtain ⟨hc, hslot⟩ := CapTable.entryAt_eq_some_iff.mp he₀
      obtain ⟨o, n, s, hchain⟩ := ih hslot
      -- the source still holds `DELEGATE`, so it cannot have been sealed
      obtain rfl : s = false := by
        by_contra hs
        rw [hchain.not_delegable (Bool.not_eq_false s ▸ hs)] at hdel
        cases hdel
      exact ⟨o, n + 1, false, .hop (c := ⟨c, hc⟩) hchain hslot hlive hdel hok rfl
        (Rights.inter_le_left _ _)⟩
    · obtain ⟨o, n, s, hchain⟩ := ih he₀
      exact ⟨o, n, true, .sealed hchain⟩
    · obtain ⟨o, n, s, hchain⟩ := ih he₀
      by_cases hseal : op = .sealCap t i
      · subst hseal
        -- sealing an entry that comes out unchanged: it held no `DELEGATE` before
        rw [Space.slot_sealCap he₀, Option.some.injEq] at he
        rw [← he]
        exact ⟨o, n, true, .sealed hchain⟩
      · exact ⟨o, n, s, .stay hk hseal hchain⟩

/-! ### Entries and their objects -/

namespace Space

/-- Every stored entry names a present object of its kind. -/
def Named (s : Space τ) : Prop :=
  ∀ t i e, s.slot t i = some e →
    ∃ j : Fin objectTableSize, e.objectId = j ∧ (s.objects.metas j).present = true ∧
      (s.objects.metas j).kind = e.typeTag

omit [DecidableEq τ] in
theorem named_new : (new : Space τ).Named := by
  intro t i e he
  cases he

/-- An object that is not destroyed stays present and keeps its kind. -/
theorem metas_kept (s : Space τ) {op : CapOp τ} (hop : ∀ oid, op ≠ .destroyObject oid)
    {j : Fin objectTableSize} (hp : (s.objects.metas j).present = true) :
    ((s.step op).objects.metas j).present = true ∧
      ((s.step op).objects.metas j).kind = (s.objects.metas j).kind := by
  rcases s.metas_step op j with ⟨h, -⟩ | ⟨h, -⟩ | ⟨_, _, _, habs, -⟩ | ⟨_, _, h, -⟩
  · rw [h]
    exact ⟨hp, rfl⟩
  · exact absurd h (hop _)
  · rw [hp] at habs
    cases habs
  · rw [h]
    exact ⟨hp, rfl⟩

/-- Only the destruction of an object can leave an entry without one. -/
theorem Named.step {s : Space τ} (hs : s.Named) {op : CapOp τ}
    (hop : ∀ oid, op ≠ .destroyObject oid) : (s.step op).Named := by
  intro t i e he
  -- the object as it was before the step
  obtain ⟨j, hj, hp, hk⟩ : ∃ j : Fin objectTableSize, e.objectId = j ∧
      (s.objects.metas j).present = true ∧ (s.objects.metas j).kind = e.typeTag := by
    rcases stored_step he with ⟨oid, r, b, m, ct, -, -, hm, hp, rfl⟩ |
      ⟨src, c, mask, b, ct, e₀, -, -, he₀, -, -, rfl⟩ | ⟨e₀, -, he₀, rfl⟩ | ⟨-, he₀⟩
    · obtain ⟨hlt, hmeta⟩ := ObjectTable.metaAt_eq_some_iff.mp hm
      exact ⟨⟨oid, hlt⟩, rfl, by rw [hmeta, hp], by rw [hmeta]⟩
    · obtain ⟨hc, hslot⟩ := CapTable.entryAt_eq_some_iff.mp he₀
      exact hs _ _ e₀ hslot
    · exact hs _ _ e₀ he₀
    · exact hs _ _ e he₀
  obtain ⟨hp', hk'⟩ := s.metas_kept hop hp
  exact ⟨j, hj, hp', hk'.trans hk⟩

omit [DecidableEq τ] in
/-- A named entry never fails its check for its type. -/
theorem Named.check_ne_errType {s : Space τ} (hs : s.Named) {t : τ} {i : Fin capTableSlots}
    {e : CapEntry} (he : s.slot t i = some e) : e.check s.objects ≠ .errType := by
  obtain ⟨j, hj, hp, hk⟩ := hs t i e he
  have hnames : e.Names s.objects (s.objects.metas j) :=
    ⟨ObjectTable.metaAt_eq_some_iff.mpr ⟨hj ▸ j.isLt, congrArg _ (Fin.ext hj)⟩, hp, hk.symm⟩
  rw [CapEntry.check_of_names hnames]
  split <;> exact nofun

/-! ### Identifiers are never used twice

Without a destruction an id that has been given out stays taken, and `create_object` gives out
only ids that are not. -/

section NeverDestroyed

variable {s : Space τ} {l : List (CapOp τ)} (hl : ∀ op ∈ l, ∀ oid, op ≠ .destroyObject oid)
include hl

theorem metas_kept_after {j : Fin objectTableSize} (hp : (s.objects.metas j).present = true) :
    ((Runs.after step s l).objects.metas j).present = true ∧
      ((Runs.after step s l).objects.metas j).kind = (s.objects.metas j).kind := by
  induction l with
  | nil => exact ⟨hp, rfl⟩
  | cons op l ih =>
    obtain ⟨hpres, hkind⟩ := ih fun o ho => hl o (List.mem_cons_of_mem _ ho)
    obtain ⟨hpres', hkind'⟩ := metas_kept (Runs.after step s l) (hl op List.mem_cons_self) hpres
    exact ⟨hpres', hkind'.trans hkind⟩

/-- An object that appears in a run was created in it, under its id and with its kind. -/
theorem exists_created {j : Fin objectTableSize} (habs : (s.objects.metas j).present = false)
    (hp : ((Runs.after step s l).objects.metas j).present = true) :
    ∃ g ot, .createObject ((Runs.after step s l).objects.metas j).kind :: g <:+ l ∧
      (Runs.after step s g).objects.createObject ((Runs.after step s l).objects.metas j).kind
        = some (j, ot) := by
  induction l with
  | nil =>
    rw [Runs.after_nil, habs] at hp
    cases hp
  | cons op l ih =>
    have hl' : ∀ o ∈ l, ∀ oid, o ≠ .destroyObject oid :=
      fun o ho => hl o (List.mem_cons_of_mem _ ho)
    rw [Runs.after_cons] at hp ⊢
    by_cases hbefore : ((Runs.after step s l).objects.metas j).present = true
    · obtain ⟨g, ot, hg, hnew⟩ := ih hl' hbefore
      rw [(metas_kept _ (hl op List.mem_cons_self) hbefore).2]
      exact ⟨g, ot, hg.trans (List.suffix_cons _ _), hnew⟩
    · rcases (Runs.after step s l).metas_step op j with ⟨h, -⟩ | ⟨h, -⟩ |
        ⟨kind, rfl, ⟨ot, hnew⟩, -, h, -⟩ | ⟨-, h, -⟩
      · rw [h] at hp
        exact absurd hp hbefore
      · exact absurd h (hl op List.mem_cons_self _)
      · rw [h]
        exact ⟨l, ot, List.suffix_refl _, hnew⟩
      · exact absurd h hbefore

theorem named_after_of_named (hs : s.Named) : (Runs.after step s l).Named := by
  induction l with
  | nil => exact hs
  | cons op l ih =>
    exact (ih fun o ho => hl o (List.mem_cons_of_mem _ ho)).step (hl op List.mem_cons_self)

end NeverDestroyed

end Space

/-- **A new object has a new id.** In a run without destructions, when an object is created under
an id, the object table has never held an object there, no earlier call has answered the id, and
no table has ever held an entry that names it. -/
theorem fresh_of_created {l g : List (CapOp τ)} (hl : ∀ op ∈ l, ∀ oid, op ≠ .destroyObject oid)
    (hg : g <:+ l) {kind : ObjectKind} {j : Fin objectTableSize} {ot : ObjectTable}
    (hnew : (spaceAfter g).objects.createObject kind = some (j, ot)) :
    (∀ g', g' <:+ g → ((spaceAfter g').objects.metas j).present = false) ∧
      (∀ g' kind' ot', .createObject kind' :: g' <:+ g →
        (spaceAfter g').objects.createObject kind' ≠ some (j, ot')) ∧
      ∀ g', g' <:+ g → ∀ t i e, (spaceAfter g').slot t i = some e → e.objectId ≠ j := by
  have hlg : ∀ op ∈ g, ∀ oid, op ≠ .destroyObject oid := fun op hop => hl op (hg.mem hop)
  have habsent : ∀ g', g' <:+ g → ((spaceAfter g').objects.metas j).present = false := by
    rintro g' ⟨f, rfl⟩
    by_contra hp
    have hkept := (Space.metas_kept_after (l := f)
      (fun op hop => hlg op (List.mem_append_left _ hop)) (Bool.not_eq_false _ ▸ hp)).1
    rw [spaceAfter, ← Runs.after_append] at hkept
    rw [spaceAfter] at hnew
    rw [(ObjectTable.createObject_eq_some_iff.mp hnew).1] at hkept
    cases hkept
  refine ⟨habsent, fun g' kind' ot' hg' hnew' => ?_, fun g' hg' t i e he hid => ?_⟩
  · have hafter := habsent _ hg'
    obtain ⟨-, -, rfl⟩ := ObjectTable.createObject_eq_some_iff.mp hnew'
    rw [spaceAfter_cons, Space.step, hnew'] at hafter
    simp at hafter
  · have hnamed : (spaceAfter g').Named :=
      Space.named_after_of_named (fun op hop => hlg op (hg'.mem hop)) Space.named_new
    obtain ⟨j', hj', hp, -⟩ := hnamed t i e he
    obtain rfl : j = j' := Fin.ext (hid.symm.trans hj')
    rw [habsent g' hg'] at hp
    cases hp

end Cairn
