import Cairn.CapCore.Revocation

/-!
# Reusing an object id

`destroy_object` keeps the epoch of the id it frees and `create_object` starts the next object
at epoch `0`, so an entry of the destroyed object can agree with the new one in kind and epoch.
This file says exactly when that happens, over whole runs.

An entry is *outdated* when its object was destroyed after the mint it descends from. The two
steps that can make an outdated entry pass the check again are a creation that hands its id to an
object of its kind while it still carries epoch `0`, and a revoke that brings the new object's
epoch up to the entry's. `SafeStep` excludes exactly these two, and `reuse_safe_iff` proves that
no outdated entry is ever accepted in a run if and only if every step of the run is safe.

## Main definitions

* `Outdated` — destroyed since the mint
* `Accepted` — some operation of the core accepts the entry
* `SafeStep`, `SafeRun` — the condition on the state before each step

## Main results

* `names_of_not_outdated` — an entry that is not outdated still names its object
* `reuse_safe_iff` — the exact condition
* `accepted_after_reuse` — the shortest run that breaks it
-/

namespace Cairn

variable {τ : Type} [DecidableEq τ]

/-- How many objects of id `oid` a run has destroyed. -/
def destroys (oid : ℕ) (h : List (CapOp τ)) : ℕ :=
  Runs.count Space.step Space.new (isDestroy oid) h

theorem destroys_cons (oid : ℕ) (op : CapOp τ) (h : List (CapOp τ)) :
    destroys oid (op :: h)
      = destroys oid h + if isDestroy oid (spaceAfter h) op then 1 else 0 := rfl

/-- The entry `e` in slot `i` of table `t` was minted, or derived from a mint, for an object that
has been destroyed since. -/
def Outdated (h : List (CapOp τ)) (t : τ) (i : Fin capTableSlots) (e : CapEntry) : Prop :=
  ∃ g, Descends h t i g ∧ destroys e.objectId g < destroys e.objectId h

/-- `lookup`, `invoke` or `delegate` accepts the entry in slot `i` of table `t`. -/
def Accepted (s : Space τ) (t : τ) (i : Fin capTableSlots) : Prop :=
  (∃ e, (s.tables t).lookup i s.objects = .ok e) ∨
    (∃ method r, (s.tables t).invoke s.objects i method r = .ok) ∨
    ∃ mask b dst p, (s.tables t).delegate s.objects i mask b dst = .ok p

omit [DecidableEq τ] in
/-- All three decide the same check. -/
theorem accepted_iff {s : Space τ} {t : τ} {i : Fin capTableSlots} {e : CapEntry}
    (he : s.slot t i = some e) : Accepted s t i ↔ e.check s.objects = .ok := by
  have hat : (s.tables t).entryAt i = some e := by rw [CapTable.entryAt_val]; exact he
  constructor
  · rintro (⟨e', hl⟩ | ⟨method, r, hi⟩ | ⟨mask, b, dst, ⟨j, ct⟩, hd⟩)
    · obtain ⟨he', hc⟩ := CapTable.lookup_eq_ok_iff.mp hl
      rw [hat, Option.some.injEq] at he'
      rwa [he']
    · rw [CapTable.invoke_of_entryAt hat] at hi
      by_contra hc
      rw [if_neg hc] at hi
      exact hc hi
    · obtain ⟨e', he', -, hc, -⟩ := CapTable.delegate_eq_ok_iff.mp hd
      rw [hat, Option.some.injEq] at he'
      rwa [he']
  · intro hc
    exact Or.inl ⟨e, CapTable.lookup_eq_ok_iff.mpr ⟨hat, hc⟩⟩

/-- The id of a stored entry is in range. -/
theorem objectId_lt {h : List (CapOp τ)} {t : τ} {i : Fin capTableSlots} {e : CapEntry}
    (he : (spaceAfter h).slot t i = some e) : e.objectId < objectTableSize := by
  induction h generalizing t i e with
  | nil => simp [Space.new, Space.slot, CapTable.new] at he
  | cons op h ih =>
    rw [spaceAfter_cons] at he
    rcases Space.stored_step he with ⟨oid, r, b, m, ct, -, -, hm, -, rfl⟩ |
      ⟨src, c, mask, b, ct, e₀, -, -, he₀, -, -, rfl⟩ | ⟨e₀, -, he₀, rfl⟩ | ⟨-, he₀⟩
    · exact (ObjectTable.metaAt_eq_some_iff.mp hm).1
    · obtain ⟨hc, hslot⟩ := CapTable.entryAt_eq_some_iff.mp he₀
      have hsrc := ih hslot
      exact hsrc
    · have hsealed := ih he₀
      exact hsealed
    · exact ih he₀

theorem destroys_le_of_suffix (oid : ℕ) {g h : List (CapOp τ)} (hg : g <:+ h) :
    destroys oid g ≤ destroys oid h :=
  Runs.count_le_of_suffix _ hg

/-- **An entry that is not outdated names its object.** No assumption on the run: as long as its
object has not been destroyed since the mint, the object is present and of the entry's kind. -/
theorem names_of_not_outdated {h g : List (CapOp τ)} {t : τ} {i : Fin capTableSlots}
    {e : CapEntry} (he : (spaceAfter h).slot t i = some e) (hd : Descends h t i g)
    (hlt : e.objectId < objectTableSize)
    (hnot : destroys e.objectId h ≤ destroys e.objectId g) :
    ((spaceAfter h).objects.metas ⟨e.objectId, hlt⟩).present = true ∧
      e.typeTag = ((spaceAfter h).objects.metas ⟨e.objectId, hlt⟩).kind := by
  induction h generalizing t i e with
  | nil => simp [Space.new, Space.slot, CapTable.new] at he
  | cons op h ih =>
    -- an entry that named its object before the step names it after, unless the step destroys it
    have keep : ∀ oid (hlt : oid < objectTableSize) (k : ObjectKind),
        destroys oid (op :: h) ≤ destroys oid h →
        ((spaceAfter h).objects.metas ⟨oid, hlt⟩).present = true ∧
          k = ((spaceAfter h).objects.metas ⟨oid, hlt⟩).kind →
        ((spaceAfter (op :: h)).objects.metas ⟨oid, hlt⟩).present = true ∧
          k = ((spaceAfter (op :: h)).objects.metas ⟨oid, hlt⟩).kind := by
      rintro oid hlt k hle ⟨hp, hk⟩
      rw [spaceAfter_cons]
      rw [destroys_cons] at hle
      rcases (spaceAfter h).metas_step op ⟨oid, hlt⟩ with
        ⟨hm, -⟩ | ⟨-, -, -, hdes⟩ | ⟨kind, -, -, habs, -⟩ | ⟨-, -, hm, -⟩
      · rw [hm]; exact ⟨hp, hk⟩
      · rw [hdes, hp, if_pos rfl] at hle
        omega
      · rw [hp] at habs; cases habs
      · rw [hm]; exact ⟨hp, hk⟩
    rw [spaceAfter_cons] at he
    rcases Space.stored_step he with ⟨oid, r, b, m, ct, rfl, hok, hm, hp, rfl⟩ |
      ⟨src, c, mask, b, ct, e₀, rfl, hok, he₀, -, hlive, rfl⟩ | ⟨e₀, rfl, he₀, rfl⟩ | ⟨hk, he₀⟩
    · obtain ⟨_, rfl⟩ := ObjectTable.metaAt_eq_some_iff.mp hm
      exact keep oid hlt _ (by rw [destroys_cons]; simp [isDestroy]) ⟨hp, rfl⟩
    · obtain ⟨hp, hk, -⟩ := (CapEntry.check_eq_ok_iff_metas hlt).mp hlive
      exact keep e₀.objectId hlt _ (by rw [destroys_cons]; simp [isDestroy]) ⟨hp, hk⟩
    · have hd' := hd.of_kept (by simp [Space.written])
      have hstep :
          destroys e₀.objectId (CapOp.sealCap t (i : ℕ) :: h) = destroys e₀.objectId h := by
        rw [destroys_cons]; simp [isDestroy]
      exact keep e₀.objectId hlt _ hstep.le (ih he₀ hd' hlt (hstep.symm.le.trans hnot))
    · have hd' := hd.of_kept hk
      have hle := destroys_le_of_suffix e.objectId (List.suffix_cons op h)
      have hgh := destroys_le_of_suffix e.objectId hd'.suffix
      exact keep e.objectId hlt _ (hnot.trans hgh) (ih he₀ hd' hlt (hle.trans hnot))

/-! ### The condition -/

/-- The state before a step keeps outdated entries out: an object is not created while a stored
entry of its kind names the lowest absent id with epoch `0`, and a revoke does not bring an epoch to
that of an outdated entry of the object's kind. All other operations are free. -/
def SafeStep (h : List (CapOp τ)) : CapOp τ → Prop
  | .createObject kind => ∀ j, (spaceAfter h).objects.LowestAbsent j →
      ∀ t i e, (spaceAfter h).slot t i = some e → e.objectId = j → e.typeTag = kind → e.epoch ≠ 0
  | .revoke oid => ∀ m, (spaceAfter h).objects.metaAt oid = some m → m.present = true →
      ∀ t i e, (spaceAfter h).slot t i = some e → e.objectId = oid → Outdated h t i e →
        e.typeTag = m.kind → e.epoch ≠ m.currentEpoch + 1
  | _ => True

/-- Every step of the run was safe in the state it was taken in. -/
def SafeRun : List (CapOp τ) → Prop
  | [] => True
  | op :: h => SafeStep h op ∧ SafeRun h

/-- No outdated entry is accepted after the run. -/
def NeverRevived (h : List (CapOp τ)) : Prop :=
  ∀ t i e, (spaceAfter h).slot t i = some e → Outdated h t i e → ¬ Accepted (spaceAfter h) t i

/-! ### One step -/

/-- A stored entry whose object is absent is outdated. -/
theorem outdated_of_absent {h : List (CapOp τ)} {t : τ} {i : Fin capTableSlots} {e : CapEntry}
    (he : (spaceAfter h).slot t i = some e) (hlt : e.objectId < objectTableSize)
    (habs : ((spaceAfter h).objects.metas ⟨e.objectId, hlt⟩).present = false) :
    Outdated h t i e := by
  obtain ⟨g, hg⟩ := exists_descends he
  refine ⟨g, hg, ?_⟩
  by_contra hnot
  have hp := (names_of_not_outdated he hg hlt (not_lt.mp hnot)).1
  rw [habs] at hp
  cases hp

/-- An outdated entry that stays in its slot stays outdated. -/
theorem Outdated.stay {h : List (CapOp τ)} {op : CapOp τ} {t : τ} {i : Fin capTableSlots}
    {e : CapEntry} (ho : Outdated h t i e) (hk : (spaceAfter h).written op ≠ some (t, i)) :
    Outdated (op :: h) t i e := by
  obtain ⟨g, hg, hlt⟩ := ho
  exact ⟨g, .stay hk hg, hlt.trans_le (destroys_le_of_suffix _ (List.suffix_cons op h))⟩

/-- An operation other than a destruction makes no entry outdated. -/
theorem Outdated.of_stay {h : List (CapOp τ)} {op : CapOp τ} {t : τ} {i : Fin capTableSlots}
    {e : CapEntry} (ho : Outdated (op :: h) t i e)
    (hk : (spaceAfter h).written op ≠ some (t, i))
    (hd : isDestroy e.objectId (spaceAfter h) op = false) : Outdated h t i e := by
  obtain ⟨g, hg, hlt⟩ := ho
  rw [destroys_cons, hd] at hlt
  exact ⟨g, hg.of_kept hk, hlt⟩

/-- A freshly minted entry is not outdated. -/
theorem not_outdated_mint {h : List (CapOp τ)} {t : τ} {oid : ℕ} {r : Rights} {b : BitVec 16}
    {i : Fin capTableSlots} {ct : CapTable} {e : CapEntry}
    (ok : ((spaceAfter h).tables t).mint (spaceAfter h).objects oid r b = .ok (i, ct)) :
    ¬ Outdated (.mint t oid r b :: h) t i e := by
  rintro ⟨g, hg, hlt⟩
  rw [hg.of_mint ok, destroys_cons] at hlt
  simp [isDestroy] at hlt

/-- A child is outdated only if its source was. -/
theorem Outdated.of_delegate {h : List (CapOp τ)} {src dst : τ} {c i : Fin capTableSlots}
    {mask : Rights} {b : BitVec 16} {ct : CapTable} {e₀ : CapEntry}
    (ok : ((spaceAfter h).tables src).delegate (spaceAfter h).objects c mask b
      ((spaceAfter h).tables dst) = .ok (i, ct))
    (ho : Outdated (.delegate src c mask b dst :: h) dst i (e₀.child mask b)) :
    Outdated h src c e₀ := by
  obtain ⟨g, hg, hlt⟩ := ho
  rw [destroys_cons] at hlt
  simp only [isDestroy, Bool.false_eq_true, if_false, Nat.add_zero] at hlt
  exact ⟨g, hg.of_delegate ok, hlt⟩

/-- A safe step does not revive an outdated entry. -/
theorem NeverRevived.cons {h : List (CapOp τ)} {op : CapOp τ} (hprev : NeverRevived h)
    (hsafe : SafeStep h op) : NeverRevived (op :: h) := by
  intro t i e he ho hacc
  have hlt := objectId_lt he
  rw [accepted_iff he, CapEntry.check_eq_ok_iff_metas hlt, spaceAfter_cons] at hacc
  have hprev' : ∀ {t i e}, (spaceAfter h).slot t i = some e → Outdated h t i e →
      e.check (spaceAfter h).objects ≠ .ok :=
    fun hs ho hc => hprev _ _ _ hs ho ((accepted_iff hs).mpr hc)
  obtain ⟨hp, hk, hep⟩ := hacc
  rw [spaceAfter_cons] at he
  rcases Space.stored_step he with ⟨oid, r, b, m, ct, rfl, hok, -⟩ |
    ⟨src, c, mask, b, ct, e₀, rfl, hok, he₀, -, hlive, rfl⟩ | ⟨e₀, rfl, he₀, rfl⟩ | ⟨hw, he₀⟩
  · exact not_outdated_mint hok ho
  · obtain ⟨hc, hslot⟩ := CapTable.entryAt_eq_some_iff.mp he₀
    exact hprev' hslot (Outdated.of_delegate (c := ⟨c, hc⟩) hok ho) hlive
  · have ho₀ : Outdated h t i e₀ := ho.of_stay (by simp [Space.written]) rfl
    exact hprev' he₀ ho₀ ((CapEntry.check_eq_ok_iff_metas hlt).mpr ⟨hp, hk, hep⟩)
  · rcases (spaceAfter h).metas_step op ⟨e.objectId, hlt⟩ with
      ⟨hm, -, hd⟩ | ⟨-, habs, -⟩ | ⟨kind, rfl, hcr, -, hm, -⟩ | ⟨rfl, hp₀, hm, -, hd⟩
    · rw [hm] at hp hk hep
      exact hprev' he₀ (ho.of_stay hw hd) ((CapEntry.check_eq_ok_iff_metas hlt).mpr ⟨hp, hk, hep⟩)
    · rw [habs] at hp
      cases hp
    · rw [hm] at hk hep
      exact hsafe _ (ObjectTable.exists_createObject_iff.mp hcr) t i e he₀ rfl hk hep
    · rw [hm] at hk hep
      exact hsafe _ (ObjectTable.metaAt_eq_some_iff.mpr ⟨hlt, rfl⟩) hp₀ t i e he₀ rfl
        (ho.of_stay hw hd) hk hep

/-- A step that revives no outdated entry is safe. -/
theorem SafeStep.of_neverRevived {h : List (CapOp τ)} {op : CapOp τ}
    (hnext : NeverRevived (op :: h)) : SafeStep h op := by
  cases op with
  | createObject kind =>
    rintro ⟨j, hj⟩ hlow t i e he rfl rfl hep
    obtain ⟨ot, hcr⟩ : ∃ ot, (spaceAfter h).objects.createObject e.typeTag = some (_, ot) :=
      ObjectTable.exists_createObject_iff.mpr hlow
    obtain ⟨-, -, rfl⟩ := ObjectTable.createObject_eq_some_iff.mp hcr
    have ho := outdated_of_absent he hj hlow.1
    have he' : (spaceAfter (.createObject e.typeTag :: h)).slot t i = some e := by
      rw [spaceAfter_cons]
      simp only [Space.step, hcr]
      exact he
    refine hnext t i e he' (ho.stay (by simp [Space.written])) ?_
    rw [accepted_iff he', CapEntry.check_eq_ok_iff_metas hj, spaceAfter_cons]
    simp [Space.step, hcr, hep]
  | revoke oid =>
    rintro m hm hp t i e he rfl ho hk hep
    obtain ⟨hlt, rfl⟩ := ObjectTable.metaAt_eq_some_iff.mp hm
    have he' : (spaceAfter (.revoke e.objectId :: h)).slot t i = some e := by
      rw [spaceAfter_cons]
      exact he
    refine hnext t i e he' (ho.stay (by simp [Space.written])) ?_
    rw [accepted_iff he', CapEntry.check_eq_ok_iff_metas hlt, spaceAfter_cons]
    rcases (spaceAfter h).objects.revoke_cases e.objectId with ⟨_, -, hr⟩ | ⟨habs, -⟩
    · simp [Space.step, hr, hp, hk, hep]
    · rw [habs hlt] at hp
      cases hp
  | _ => trivial

/-! ### Whole runs -/

/-- **Exactly the safe runs keep outdated entries out.** At no point of a run is an entry accepted
whose object was destroyed since its mint, if and only if every step of the run was safe. -/
theorem reuse_safe_iff (h : List (CapOp τ)) : (∀ h', h' <:+ h → NeverRevived h') ↔ SafeRun h := by
  induction h with
  | nil =>
    refine ⟨fun _ => trivial, fun _ h' hsuf t i e he => ?_⟩
    rw [List.suffix_nil.mp hsuf] at he
    simp [Space.new, Space.slot, CapTable.new] at he
  | cons op h ih =>
    constructor
    · intro hall
      exact ⟨.of_neverRevived (hall _ (List.suffix_refl _)),
        ih.mp fun h' hsuf => hall h' (hsuf.trans (List.suffix_cons op h))⟩
    · rintro ⟨hsafe, hrun⟩ h' hsuf
      rcases List.suffix_cons_iff.mp hsuf with rfl | hsuf
      · exact (ih.mpr hrun h (List.suffix_refl h)).cons hsafe
      · exact ih.mpr hrun h' hsuf

/-- The run that revives an entry: a memory object is created, minted and destroyed, and its id
is handed to a second memory object. -/
def reuseRun : List (CapOp Unit) :=
  [.createObject .memory, .destroyObject 0, .mint () 0 .invoke 0, .createObject .memory]

/-- **A reused id revives an entry.** The only entry of the table was minted before its object was
destroyed, and both `lookup` and `invoke` accept it for the object created since. -/
theorem accepted_after_reuse :
    Outdated reuseRun () 0 ⟨0, .invoke, 0, .memory, 0⟩ ∧
      ((spaceAfter reuseRun).tables ()).lookup 0 (spaceAfter reuseRun).objects
        = .ok ⟨0, .invoke, 0, .memory, 0⟩ ∧
      ((spaceAfter reuseRun).tables ()).invoke (spaceAfter reuseRun).objects 0 0 .invoke = .ok := by
  refine ⟨⟨[.createObject .memory], ?_, by decide +kernel⟩, by decide +kernel, by decide +kernel⟩
  refine .stay (by simp [Space.written]) (.stay (by simp [Space.written]) ?_)
  exact .mint_of_answer (by decide +kernel)

end Cairn
