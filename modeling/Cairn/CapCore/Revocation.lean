import Cairn.CapCore.Derivation

/-!
# Revocation is complete up to the epoch's wrap

An entry is accepted exactly when its epoch equals the object's current epoch, and `revoke`
increments the latter modulo `2 ^ 32`. So as long as objects are not destroyed, an entry is live
exactly when the number of successful revokes of its object since the mint it descends from is a
multiple of `2 ^ 32`, for every table, every chain of delegations and every run.

The invariant is `Synced`: the epoch of a present object counts its successful revokes. An entry
carries the count its mint saw, because `delegate` copies the epoch and `seal` keeps it.

## Main definitions

* `revokes` — the successful revokes of an object in a run
* `NoDestroy` — the run destroys no object

## Main results

* `epoch_of_descends` — the epoch of a stored entry is the revoke count at its mint
* `check_iff_dvd` — liveness as divisibility
* `revocation_exact` — the same for `lookup`, `invoke` and `delegate`, and what a revoke of a
  live entry then guarantees
-/

namespace Cairn

variable {τ : Type} [DecidableEq τ]

/-- The number of successful revokes of `oid` in a run. -/
def revokes (oid : ℕ) (h : List (CapOp τ)) : ℕ := Runs.count Space.step Space.new (isRevoke oid) h

/-- The run destroys no object. -/
def NoDestroy (h : List (CapOp τ)) : Prop := ∀ op ∈ h, ∀ oid, op ≠ .destroyObject oid

omit [DecidableEq τ] in
theorem NoDestroy.of_suffix {g h : List (CapOp τ)} (hg : g <:+ h) (hh : NoDestroy h) :
    NoDestroy g :=
  fun op hop => hh op (hg.subset hop)

theorem revokes_cons (oid : ℕ) (op : CapOp τ) (h : List (CapOp τ)) :
    revokes oid (op :: h) = revokes oid h + if isRevoke oid (spaceAfter h) op then 1 else 0 := rfl

/-- A revoke of a present object succeeds. -/
theorem revokes_revoke {oid : ℕ} {h : List (CapOp τ)} (hlt : oid < objectTableSize)
    (hp : ((spaceAfter h).objects.metas ⟨oid, hlt⟩).present = true) :
    revokes oid (.revoke oid :: h) = revokes oid h + 1 := by
  rw [revokes_cons]
  rcases (spaceAfter h).objects.revoke_cases oid with ⟨_, -, hr⟩ | ⟨habs, -⟩
  · simp [isRevoke, hr]
  · rw [habs hlt] at hp
    cases hp

/-- The epoch of a present object counts its successful revokes, and an absent object has
none. -/
structure Synced (h : List (CapOp τ)) : Prop where
  absent : ∀ i : Fin objectTableSize,
    ((spaceAfter h).objects.metas i).present = false → revokes i h = 0
  present : ∀ i : Fin objectTableSize, ((spaceAfter h).objects.metas i).present = true →
    ((spaceAfter h).objects.metas i).currentEpoch = BitVec.ofNat 32 (revokes i h)

theorem synced {h : List (CapOp τ)} (hh : NoDestroy h) : Synced h := by
  induction h with
  | nil => exact ⟨fun i _ => rfl, fun i hi => by simp [Space.new, ObjectTable.new] at hi⟩
  | cons op h ih =>
    have hs := ih (hh.of_suffix (List.suffix_cons op h))
    have hop := hh op List.mem_cons_self
    refine ⟨fun i hi => ?_, fun i hi => ?_⟩
    · rw [spaceAfter_cons] at hi
      rcases (spaceAfter h).metas_step op i with ⟨hm, hr, -⟩ | ⟨rfl, -⟩ | ⟨k, -, -, -, hm, -⟩ |
        ⟨-, hp, hm, -⟩
      · rw [revokes_cons, hr, hs.absent i (by rw [hm] at hi; exact hi)]
        rfl
      · exact absurd rfl (hop _)
      · simp [hm] at hi
      · simp [hm, hp] at hi
    · rw [spaceAfter_cons] at hi ⊢
      rcases (spaceAfter h).metas_step op i with ⟨hm, hr, -⟩ | ⟨rfl, -⟩ |
        ⟨k, -, -, habs, hm, hr, -⟩ | ⟨-, hp, hm, hr, -⟩
      · rw [revokes_cons, hr, hm, hs.present i (by rw [hm] at hi; exact hi)]
        rfl
      · exact absurd rfl (hop _)
      · rw [revokes_cons, hr, hm, hs.absent i habs]
        rfl
      · rw [revokes_cons, hr, hm, hs.present i hp]
        simp [BitVec.ofNat_add]

/-- A step that destroys nothing keeps what an entry names. -/
theorem CapEntry.Names.step {s : Space τ} {op : CapOp τ} (hop : ∀ oid, op ≠ .destroyObject oid)
    {e : CapEntry} {m : ObjectMeta} (h : e.Names s.objects m) :
    ∃ m', e.Names (s.step op).objects m' := by
  obtain ⟨hlt, hid⟩ := ObjectTable.metaAt_eq_some_iff.mp h.at_id
  have hat := ObjectTable.metaAt_eq_some_iff.mpr
    ⟨hlt, (rfl : (s.step op).objects.metas ⟨e.objectId, hlt⟩ = _)⟩
  rcases s.metas_step op ⟨e.objectId, hlt⟩ with
    ⟨hm, -⟩ | ⟨rfl, -⟩ | ⟨k, -, -, habs, -⟩ | ⟨-, hp, hm, -⟩
  · rw [hm, hid] at hat
    exact ⟨m, hat, h.present, h.kind⟩
  · exact absurd rfl (hop _)
  · rw [hid, h.present] at habs
    cases habs
  · rw [hm, hid] at hat
    exact ⟨_, hat, h.present, h.kind⟩

/-- Without destruction, a stored entry always names a present object of its kind. -/
theorem names_of_stored {h : List (CapOp τ)} (hh : NoDestroy h) {t : τ} {i : Fin capTableSlots}
    {e : CapEntry} (he : (spaceAfter h).slot t i = some e) :
    ∃ m, e.Names (spaceAfter h).objects m := by
  induction h generalizing t i e with
  | nil => simp [Space.new, Space.slot, CapTable.new] at he
  | cons op h ih =>
    have hop := hh op List.mem_cons_self
    have ih := @ih (hh.of_suffix (List.suffix_cons op h))
    rw [spaceAfter_cons] at he ⊢
    rcases Space.stored_step he with ⟨oid, r, b, m, ct, -, -, hm, hp, rfl⟩ |
      ⟨src, c, mask, b, ct, e₀, -, -, -, -, hlive, rfl⟩ | ⟨e₀, -, he₀, rfl⟩ | ⟨-, he₀⟩
    · exact CapEntry.Names.step hop ⟨hm, hp, rfl⟩
    · obtain ⟨m, hm, -⟩ := CapEntry.check_eq_ok_iff.mp hlive
      exact CapEntry.Names.step hop ⟨hm.at_id, hm.present, hm.kind⟩
    · obtain ⟨m, hm⟩ := ih he₀
      exact CapEntry.Names.step hop ⟨hm.at_id, hm.present, hm.kind⟩
    · obtain ⟨m, hm⟩ := ih he₀
      exact CapEntry.Names.step hop hm

theorem Synced.of_names {h : List (CapOp τ)} (hs : Synced h) {e : CapEntry} {m : ObjectMeta}
    (hm : e.Names (spaceAfter h).objects m) :
    m.currentEpoch = BitVec.ofNat 32 (revokes e.objectId h) := by
  obtain ⟨hlt, rfl⟩ := ObjectTable.metaAt_eq_some_iff.mp hm.at_id
  exact hs.present ⟨e.objectId, hlt⟩ hm.present

/-- **An entry's epoch is the revoke count its mint saw.** -/
theorem epoch_of_descends {h g : List (CapOp τ)} (hh : NoDestroy h) {t : τ}
    {i : Fin capTableSlots} {e : CapEntry} (he : (spaceAfter h).slot t i = some e)
    (hd : Descends h t i g) : e.epoch = BitVec.ofNat 32 (revokes e.objectId g) := by
  induction h generalizing t i e with
  | nil => simp [Space.new, Space.slot, CapTable.new] at he
  | cons op h ih =>
    have hh' := hh.of_suffix (List.suffix_cons op h)
    rw [spaceAfter_cons] at he
    rcases Space.stored_step he with ⟨oid, r, b, m, ct, rfl, hok, hm, hp, rfl⟩ |
      ⟨src, c, mask, b, ct, e₀, rfl, hok, he₀, -, -, rfl⟩ | ⟨e₀, rfl, he₀, rfl⟩ | ⟨hk, he₀⟩
    · rw [hd.of_mint hok]
      exact (synced hh').of_names (e := ⟨oid, r, m.currentEpoch, m.kind, b⟩) ⟨hm, hp, rfl⟩
    · obtain ⟨hc, hslot⟩ := CapTable.entryAt_eq_some_iff.mp he₀
      have hsrc := ih hh' hslot (Descends.of_delegate (c := ⟨c, hc⟩) hok hd)
      exact hsrc
    · have hsealed := ih hh' he₀ (hd.of_kept (by simp [Space.written]))
      exact hsealed
    · exact ih hh' he₀ (hd.of_kept hk)

/-- **Liveness as divisibility.** Without destruction, a stored entry passes the check exactly
when the revokes since its mint are a multiple of `2 ^ 32`, and otherwise it is revoked. -/
theorem check_iff_dvd {h g : List (CapOp τ)} (hh : NoDestroy h) {t : τ} {i : Fin capTableSlots}
    {e : CapEntry} (he : (spaceAfter h).slot t i = some e) (hd : Descends h t i g) :
    e.check (spaceAfter h).objects =
      if 2 ^ 32 ∣ revokes e.objectId h - revokes e.objectId g then .ok else .errRevoked := by
  obtain ⟨m, hm⟩ := names_of_stored hh he
  have hle : revokes e.objectId g ≤ revokes e.objectId h := Runs.count_le_of_suffix _ hd.suffix
  have hiff : e.epoch = m.currentEpoch ↔
      2 ^ 32 ∣ revokes e.objectId h - revokes e.objectId g := by
    rw [epoch_of_descends hh he hd, (synced hh).of_names hm, ← Nat.modEq_iff_dvd' hle,
      ← BitVec.toNat_inj, BitVec.toNat_ofNat, BitVec.toNat_ofNat]
    rfl
  rw [CapEntry.check_of_names hm]
  simp only [hiff]

/-- The answers the core gives for the entry in slot `i` of table `t`: `accepted` says which, and
they agree between `lookup`, `invoke` and, for an entry that may be delegated, `delegate`. -/
structure Answers (s : Space τ) (t : τ) (i : Fin capTableSlots) (e : CapEntry) (accepted : Prop) :
    Prop where
  lookup : (s.tables t).lookup i s.objects = .ok e ↔ accepted
  invoke : ∀ method r, (s.tables t).invoke s.objects i method r ≠ .errRevoked ↔ accepted
  delegate : e.rights.contains .delegate = true → ∀ mask b dst,
    (s.tables t).delegate s.objects i mask b dst ≠ .error .errRevoked ↔ accepted

/-- The entry is refused with `ErrRevoked`, whatever is asked of it, and no copy of it can be
made. -/
structure Refused (s : Space τ) (t : τ) (i : Fin capTableSlots) (e : CapEntry) : Prop where
  lookup : (s.tables t).lookup i s.objects = .error .errRevoked
  invoke : ∀ method r, (s.tables t).invoke s.objects i method r = .errRevoked
  delegate : ∀ mask b dst, (s.tables t).delegate s.objects i mask b dst
    = .error (if e.rights.contains .delegate then .errRevoked else .errRights)

omit [DecidableEq τ] in
theorem answers_of_check {s : Space τ} {t : τ} {i : Fin capTableSlots} {e : CapEntry}
    (he : s.slot t i = some e) {p : Prop} [Decidable p]
    (hc : e.check s.objects = if p then .ok else .errRevoked) : Answers s t i e p := by
  have hat : (s.tables t).entryAt i = some e := by rw [CapTable.entryAt_val]; exact he
  refine ⟨?_, fun method r => ?_, fun hdel mask b dst => ?_⟩
  · rw [CapTable.lookup_of_entryAt hat, hc]
    by_cases hp : p <;> simp [hp]
  · rw [CapTable.invoke_of_entryAt hat, hc]
    by_cases hp : p
    · simp only [hp, if_true, iff_true]
      split <;> simp
    · simp [hp]
  · rw [CapTable.delegate_of_entryAt hat, hc, hdel]
    by_cases hp : p
    · simp only [hp, if_true, iff_true]
      split <;> simp
    · simp [hp]

omit [DecidableEq τ] in
theorem refused_of_check {s : Space τ} {t : τ} {i : Fin capTableSlots} {e : CapEntry}
    (he : s.slot t i = some e) (hc : e.check s.objects = .errRevoked) : Refused s t i e := by
  have hat : (s.tables t).entryAt i = some e := by rw [CapTable.entryAt_val]; exact he
  refine ⟨?_, fun method r => ?_, fun mask b dst => ?_⟩
  · rw [CapTable.lookup_of_entryAt hat, hc]; rfl
  · rw [CapTable.invoke_of_entryAt hat, hc]; rfl
  · rw [CapTable.delegate_of_entryAt hat, hc]
    cases e.rights.contains .delegate <;> rfl

/-- **Revocation is complete up to the wrap.** In every run that destroys no object, a stored
entry is answered for according to the revokes of its object since the mint it descends from,
and once a revoke hits an entry that was live, that entry and everything descending from its
mint is refused through the next `2 ^ 32 - 2` revokes. -/
theorem revocation_exact {h : List (CapOp τ)} (hh : NoDestroy h) {t : τ} {i : Fin capTableSlots}
    {e : CapEntry} (he : (spaceAfter h).slot t i = some e) :
    (∃ g, Descends h t i g) ∧ ∀ g, Descends h t i g →
      Answers (spaceAfter h) t i e (2 ^ 32 ∣ revokes e.objectId h - revokes e.objectId g) ∧
      ∀ f, CapOp.revoke e.objectId :: f <:+ h →
        (∃ t' i' e', (spaceAfter f).slot t' i' = some e' ∧ Descends f t' i' g ∧
          e'.objectId = e.objectId ∧
          ((spaceAfter f).tables t').lookup i' (spaceAfter f).objects = .ok e') →
        revokes e.objectId h - revokes e.objectId (CapOp.revoke e.objectId :: f) ≤ 2 ^ 32 - 2 →
        Refused (spaceAfter h) t i e := by
  refine ⟨exists_descends he, fun g hd => ⟨answers_of_check he (check_iff_dvd hh he hd), ?_⟩⟩
  rintro f hf ⟨t', i', e', he', hd', hoid, hlook⟩ hfew
  have hf' : f <:+ h := (List.suffix_cons _ _).trans hf
  have hlive : e'.check (spaceAfter f).objects = .ok := (CapTable.lookup_eq_ok_iff.mp hlook).2
  have hdvd : 2 ^ 32 ∣ revokes e.objectId f - revokes e.objectId g := by
    have hc := check_iff_dvd (hh.of_suffix hf') he' hd'
    rw [hlive, hoid] at hc
    by_contra hnot
    rw [if_neg hnot] at hc
    cases hc
  -- the entry was live, so its object was present and the revoke went through
  have hsucc : revokes e.objectId (CapOp.revoke e.objectId :: f) = revokes e.objectId f + 1 := by
    obtain ⟨m, hm, -⟩ := CapEntry.check_eq_ok_iff.mp hlive
    have hid := hm.at_id
    rw [hoid] at hid
    obtain ⟨hlt, rfl⟩ := ObjectTable.metaAt_eq_some_iff.mp hid
    exact revokes_revoke hlt hm.present
  have hgf : revokes e.objectId g ≤ revokes e.objectId f := Runs.count_le_of_suffix _ hd'.suffix
  have hfh : revokes e.objectId (CapOp.revoke e.objectId :: f) ≤ revokes e.objectId h :=
    Runs.count_le_of_suffix _ hf
  refine refused_of_check he ?_
  rw [check_iff_dvd hh he hd, if_neg]
  omega

/-! ### The wrap

Revoking one object `2 ^ 32` times brings its epoch back to where it was. -/

/-- An object with one capability to it, and then `n` revokes. -/
def wrapRun (n : ℕ) : List (CapOp Unit) :=
  List.replicate n (.revoke 0) ++ [.mint () 0 .invoke 7, .createObject .memory]

theorem wrapRun_succ (n : ℕ) : wrapRun (n + 1) = .revoke 0 :: wrapRun n := by
  rw [wrapRun, wrapRun, List.replicate_succ, List.cons_append]

theorem noDestroy_wrapRun (n : ℕ) : NoDestroy (wrapRun n) := by
  intro op hop oid
  simp only [wrapRun, List.mem_append, List.mem_replicate, List.mem_cons, List.not_mem_nil,
    or_false] at hop
  rcases hop with ⟨-, rfl⟩ | rfl | rfl <;> simp

theorem slot_wrapRun (n : ℕ) :
    (spaceAfter (wrapRun n)).slot () 0 = some ⟨0, .invoke, 0, .memory, 7⟩ := by
  induction n with
  | zero => decide +kernel
  | succ n ih => rw [wrapRun_succ, spaceAfter_cons]; exact ih

theorem descends_wrapRun (n : ℕ) : Descends (wrapRun n) () 0 [CapOp.createObject .memory] := by
  induction n with
  | zero => exact .mint_of_answer (by decide +kernel)
  | succ n ih => rw [wrapRun_succ]; exact .stay (by simp [Space.written]) ih

theorem revokes_wrapRun (n : ℕ) : revokes 0 (wrapRun n) = n := by
  induction n with
  | zero => rfl
  | succ n ih =>
    obtain ⟨m, hm⟩ := names_of_stored (noDestroy_wrapRun n) (slot_wrapRun n)
    obtain ⟨hlt, rfl⟩ := ObjectTable.metaAt_eq_some_iff.mp hm.at_id
    rw [wrapRun_succ, revokes_revoke hlt hm.present, ih]

theorem answers_wrapRun (n : ℕ) :
    Answers (spaceAfter (wrapRun n)) () 0 ⟨0, .invoke, 0, .memory, 7⟩ (2 ^ 32 ∣ n) := by
  have hcheck := check_iff_dvd (noDestroy_wrapRun n) (slot_wrapRun n) (descends_wrapRun n)
  rw [revokes_wrapRun, show revokes 0 [CapOp.createObject (τ := Unit) .memory] = 0 from rfl,
    Nat.sub_zero] at hcheck
  exact answers_of_check (slot_wrapRun n) hcheck

/-- The first revoke of a live entry, and no further one. -/
theorem revocation_exact_first_revoke :
    NoDestroy (wrapRun 1) ∧ Refused (spaceAfter (wrapRun 1)) () 0 ⟨0, .invoke, 0, .memory, 7⟩ := by
  refine ⟨noDestroy_wrapRun 1, ?_⟩
  have hlive : ((spaceAfter (wrapRun 0)).tables ()).lookup 0 (spaceAfter (wrapRun 0)).objects
      = .ok ⟨0, .invoke, 0, .memory, 7⟩ := (answers_wrapRun 0).lookup.mpr (dvd_zero _)
  refine ((revocation_exact (noDestroy_wrapRun 1) (slot_wrapRun 1)).2 _
    (descends_wrapRun 1)).2 (wrapRun 0) List.suffix_rfl
    ⟨(), 0, _, slot_wrapRun 0, descends_wrapRun 0, rfl, hlive⟩ ?_
  rw [← wrapRun_succ, Nat.sub_self]
  exact Nat.zero_le _

theorem wrapRun_eq_append (n : ℕ) :
    wrapRun (n + 1) = List.replicate n (.revoke 0) ++ .revoke 0 :: wrapRun 0 := by
  rw [wrapRun, wrapRun, List.replicate_succ', List.append_assoc]
  rfl

/-- **The wrap revives.** The entry is live, a revoke comes, and after the `2 ^ 32 - 1` revokes
that follow it `lookup` accepts the entry again and `invoke` answers `Ok`. Seen from the last of
these revokes, a stale entry that was already present becomes live by being revoked. -/
theorem revived_at_wrap :
    let e : CapEntry := ⟨0, .invoke, 0, .memory, 7⟩
    let s (n : ℕ) := spaceAfter (wrapRun n)
    wrapRun (2 ^ 32) = List.replicate (2 ^ 32 - 1) (.revoke 0) ++ .revoke 0 :: wrapRun 0 ∧
      NoDestroy (wrapRun (2 ^ 32)) ∧
      ((s 0).tables ()).lookup 0 (s 0).objects = .ok e ∧
      revokes 0 (wrapRun (2 ^ 32)) - revokes 0 (.revoke 0 :: wrapRun 0) = 2 ^ 32 - 1 ∧
      ((s (2 ^ 32)).tables ()).lookup 0 (s (2 ^ 32)).objects = .ok e ∧
      ((s (2 ^ 32)).tables ()).invoke (s (2 ^ 32)).objects 0 0 .invoke ≠ .errRevoked ∧
      ((s (2 ^ 32 - 1)).tables ()).lookup 0 (s (2 ^ 32 - 1)).objects ≠ .ok e := by
  -- the wrap is kept a variable, so that no list of that length is ever built
  generalize hN : 2 ^ 32 = N
  have hdvd (n : ℕ) := answers_wrapRun n
  rw [hN] at hdvd
  have hone : revokes 0 (.revoke 0 :: wrapRun 0) = 1 := by rw [← wrapRun_succ, revokes_wrapRun]
  refine ⟨?_, noDestroy_wrapRun N, (hdvd 0).lookup.mpr (dvd_zero _), ?_,
    (hdvd N).lookup.mpr (dvd_refl _), ((hdvd N).invoke 0 .invoke).mpr (dvd_refl _),
    fun hok => ?_⟩
  · have hsucc := wrapRun_eq_append (N - 1)
    rwa [show N - 1 + 1 = N by omega] at hsucc
  · rw [revokes_wrapRun, hone]
  · have hlast := (hdvd (N - 1)).lookup.mp hok
    rw [← hN] at hlast
    omega

end Cairn
