import Cairn.Kernel.Payloads

/-!
# Notifications

A notification is a word of pending bits. `N_SIGNAL` ors its argument into the word, `N_POLL`
returns the word and clears it. The words of all notifications are one array, signallers and
pollers are any domains that hold capabilities for them, and both may die, be restarted or lose a
capability between two calls.

What a notification is for is said by the history of its object alone: `signalsSince` lists the
arguments of the successful signals since the last successful poll, or since the object was created.
The word is always the or of that list (`notify_after`), because a step changes the word of an
object only by a successful call through a capability for that object (`Kernel.notify_step`), and
because no such capability exists before the object does.

## Main definitions

* `Kernel.signalled`, `Kernel.polled` — the successful calls of a step on one object
* `signalsSince` — what has been signalled and not been polled

## Main results

* `Kernel.notify_step` — what a step does to the word of one object
* `notify_after`, `notifications_exact`
-/

namespace Cairn

namespace Kernel

variable {μ : Type}

/-- The call of the step succeeded, and was `method` through a Notification capability for
object `i`. -/
def notified (p : Platform μ) (k : Kernel μ) (op : Op μ) (method : BitVec 16)
    (i : Fin objectTableSize) : Option Invocation :=
  (k.invocation p op).filter fun inv =>
    inv.status = Status.ok.code ∧ inv.method = method ∧
      (k.entryAt inv.domain inv.cptr).any fun e => e.typeTag = .notification ∧ e.objectId = (i : ℕ)

/-- The argument of the successful `N_SIGNAL` on object `i`, if the step is one. -/
def signalled (p : Platform μ) (k : Kernel μ) (op : Op μ) (i : Fin objectTableSize) :
    Option (BitVec 64) := (k.notified p op nSignal i).map Invocation.arg

/-- The reply of the successful `N_POLL` on object `i`, if the step is one. -/
def polled (p : Platform μ) (k : Kernel μ) (op : Op μ) (i : Fin objectTableSize) :
    Option (BitVec 64) := (k.notified p op nPoll i).map Invocation.reply

/-- The step creates object `i`. -/
def creates (p : Platform μ) (k : Kernel μ) (op : Op μ) (i : Fin objectTableSize) : Bool :=
  !(k.space.objects.metas i).present && ((k.step p op).2.space.objects.metas i).present

theorem notified_eq_some_iff {p : Platform μ} {k : Kernel μ} {op : Op μ} {method : BitVec 16}
    {i : Fin objectTableSize} {inv : Invocation} :
    k.notified p op method i = some inv ↔ k.invocation p op = some inv ∧
      inv.status = Status.ok.code ∧ inv.method = method ∧
      ∃ e, k.entryAt inv.domain inv.cptr = some e ∧ e.typeTag = .notification ∧
        e.objectId = i := by
  simp [notified, Option.filter_eq_some_iff, Option.any_eq_true]

/-! ### The two methods -/

theorem notify_notifySignal (k : Kernel μ) (i j : Fin objectTableSize) (bits : BitVec 64) :
    (k.notifySignal j bits).notify i = if i = j then k.notify i ||| bits else k.notify i := by
  rw [notifySignal, dif_pos j.isLt]
  by_cases hij : i = j
  · subst hij
    simp
  · simp [hij]

theorem notifyTake_eq (k : Kernel μ) (j : Fin objectTableSize) :
    k.notifyTake j = (k.notify j, { k with notify := Function.update k.notify j 0 }) :=
  dif_pos j.isLt

theorem notify_mapPages (p : Platform μ) (d : Fin maxDomains)
    (pages : List (BitVec 64 × BitVec 64 × Bool × Bool)) (k : Kernel μ) :
    (mapPages p d pages k).2.notify = k.notify := by
  induction pages generalizing k with
  | nil => rfl
  | cons page pages ih =>
    obtain ⟨va, phys, writable, nc⟩ := page
    rw [mapPages]
    split
    · exact ih _
    · rfl

/-- A method that is neither of the two leaves all words alone. -/
theorem notify_dispatchMethod (p : Platform μ) (k : Kernel μ) (d : Fin maxDomains) {e : CapEntry}
    {method : BitVec 16} (arg : BitVec 64)
    (hother : ¬(e.typeTag = .notification ∧ (method = nSignal ∨ method = nPoll))) :
    (k.dispatchMethod p d e method arg).2.notify = k.notify := by
  have ite : ∀ {c : Prop} [Decidable c] {a b : (Status × BitVec 64) × Kernel μ},
      (c → a.2.notify = k.notify) → b.2.notify = k.notify →
        (if c then a else b).2.notify = k.notify := fun ha hb =>
    iteInduction (motive := fun r : (Status × BitVec 64) × Kernel μ => r.2.notify = k.notify) ha
      fun _ => hb
  rw [dispatchMethod]
  refine ite (fun _ => rfl) (ite (fun _ => ?alloc) (ite (fun _ => rfl) (ite ?signal (ite ?poll
    (ite (fun _ => rfl) (ite (fun _ => ?xmap) (ite (fun _ => rfl) (ite (fun _ => ?dqmap)
      (ite (fun _ => rfl) (ite (fun _ => ?submit) rfl))))))))))
  case alloc => split <;> rfl
  case signal => exact fun h => absurd ⟨h.1, Or.inl h.2⟩ hother
  case poll => exact fun h => absurd ⟨h.1, Or.inr h.2⟩ hother
  case xmap =>
    simp only [extentMap]
    split
    · refine ite (fun _ => rfl) ?_
      split <;> rfl
    · rfl
  case dqmap =>
    simp only [devqueueMap]
    split
    · refine ite (fun _ => rfl) ?_
      split
      · rename_i hmap
        exact congrArg (fun r => r.2.notify) hmap ▸ notify_mapPages p d _ k
      · rename_i hmap
        exact congrArg (fun r => r.2.notify) hmap ▸ notify_mapPages p d _ k
    · rfl
  case submit =>
    rw [devqueueSubmit]
    split
    · refine ite (fun _ => rfl) ?_
      split <;> rfl
    · rfl

/-! ### One step -/

/-- A capability that passes the check of a method names an object. -/
theorem Dispatches.exists_object {p : Platform μ} {k : Kernel μ} {op : Op μ} {inv : Invocation}
    {e : CapEntry} (call : Dispatches p k op inv e) :
    ∃ j : Fin objectTableSize, e.objectId = j := by
  obtain ⟨m, hnames, -⟩ := CapEntry.check_eq_ok_iff.mp (resolve_eq_ok call.resolved).2.1
  obtain ⟨hlt, -⟩ := ObjectTable.metaAt_eq_some_iff.mp hnames.at_id
  exact ⟨⟨e.objectId, hlt⟩, rfl⟩

/-- A successful `N_SIGNAL` ors its argument into the word. -/
theorem notify_of_signalled {p : Platform μ} {k : Kernel μ} {op : Op μ} {i : Fin objectTableSize}
    {bits : BitVec 64} (h : k.signalled p op i = some bits) :
    (k.step p op).2.notify i = k.notify i ||| bits := by
  obtain ⟨inv, hinv, rfl⟩ := Option.map_eq_some_iff.mp h
  obtain ⟨hmade, hok, hmethod, e, he, hkind, hid⟩ := notified_eq_some_iff.mp hinv
  have call := dispatches_of_ok hmade hok he (by rw [hkind]; decide)
  have hgate := k.dispatchMethod_of_row p inv.domain e inv.arg 1 (by rw [hkind]; rfl)
  rw [← hmethod] at hgate
  rw [(call.of_gate hok hgate).2.notify, hid, notify_notifySignal, if_pos rfl]

/-- A successful `N_POLL` returns the word and clears it. -/
theorem notify_of_polled {p : Platform μ} {k : Kernel μ} {op : Op μ} {i : Fin objectTableSize}
    {bits : BitVec 64} (h : k.polled p op i = some bits) :
    bits = k.notify i ∧ (k.step p op).2.notify i = 0 := by
  obtain ⟨inv, hinv, rfl⟩ := Option.map_eq_some_iff.mp h
  obtain ⟨hmade, hok, hmethod, e, he, hkind, hid⟩ := notified_eq_some_iff.mp hinv
  have call := dispatches_of_ok hmade hok he (by rw [hkind]; decide)
  have hgate := k.dispatchMethod_of_row p inv.domain e inv.arg 2 (by rw [hkind]; rfl)
  rw [← hmethod] at hgate
  obtain ⟨hreply, hsides⟩ := call.of_gate hok hgate
  rw [hid, notifyTake_eq] at hreply hsides
  exact ⟨hreply, (congrFun hsides.notify i).trans (Function.update_self ..)⟩

/-- **Every other step leaves the word alone**: a refused call, a call on another object, and
everything that is not a call. -/
theorem notify_of_quiet {p : Platform μ} {k : Kernel μ} {op : Op μ} {i : Fin objectTableSize}
    (hsignal : k.signalled p op i = none) (hpoll : k.polled p op i = none) :
    (k.step p op).2.notify i = k.notify i := by
  cases k.sideStep p op with
  | extent info oid ot created sides => exact congrFun sides.notify i
  | queue magic lba dqd oid ot ready created sides => exact congrFun sides.notify i
  | nothing sides quiet => exact congrFun sides.notify i
  | method inv e call =>
    rw [call.sides.notify]
    by_cases hnot : e.typeTag = .notification ∧ (inv.method = nSignal ∨ inv.method = nPoll)
    · obtain ⟨hkind, hmethod⟩ := hnot
      obtain ⟨j, hj⟩ := call.exists_object
      have he := (resolve_eq_ok call.resolved).1
      -- had it succeeded on `i`, the step would have been a signal or a poll of `i`
      have hne : inv.status = Status.ok.code → i ≠ j := by
        rintro hok rfl
        rcases hmethod with hm | hm
        · have hev := notified_eq_some_iff.mpr ⟨call.made, hok, hm, e, he, hkind, hj⟩
          rw [signalled, hev] at hsignal
          cases hsignal
        · have hev := notified_eq_some_iff.mpr ⟨call.made, hok, hm, e, he, hkind, hj⟩
          rw [polled, hev] at hpoll
          cases hpoll
      have hstatus := call.status
      rcases hmethod with hm | hm
      · rw [hm, k.dispatchMethod_of_row p _ e _ 1 (by rw [hkind]; rfl)] at hstatus ⊢
        split
        · rename_i hr
          rw [hr, if_pos rfl] at hstatus
          rw [hj, notify_notifySignal, if_neg (hne hstatus)]
        · rfl
      · rw [hm, k.dispatchMethod_of_row p _ e _ 2 (by rw [hkind]; rfl)] at hstatus ⊢
        split
        · rename_i hr
          rw [hr, if_pos rfl] at hstatus
          rw [hj, notifyTake_eq]
          exact Function.update_of_ne (hne hstatus) _ _
        · rfl
    · rw [notify_dispatchMethod p k _ _ hnot]

/-- Only a capability for the object reaches it, and an absent object has none. -/
theorem signalled_of_absent {p : Platform μ} {k : Kernel μ} {op : Op μ} {i : Fin objectTableSize}
    (hn : k.space.Named) (habs : (k.space.objects.metas i).present = false) :
    k.signalled p op i = none := by
  rw [signalled, Option.map_eq_none_iff, Option.eq_none_iff_forall_ne_some]
  intro inv hinv
  obtain ⟨-, -, -, e, he, -, hid⟩ := notified_eq_some_iff.mp hinv
  obtain ⟨hc, hslot⟩ := CapTable.entryAt_eq_some_iff.mp he
  obtain ⟨j, hj, hp, -⟩ := hn _ _ e hslot
  obtain rfl : i = j := Fin.ext (hid.symm.trans hj)
  rw [habs] at hp
  cases hp

end Kernel

/-! ### Runs -/

section Runs

variable {μ : Type} (p : Platform μ) (m₀ : μ)

/-- The arguments of the successful signals on object `i` since its last successful poll, or since
it was created; the latest first. -/
def signalsSince (i : Fin objectTableSize) : List (Op μ) → List (BitVec 64)
  | [] => []
  | op :: h =>
    let k := kernelAfter p m₀ h
    if (k.polled p op i).isSome ∨ k.creates p op i then []
    else (k.signalled p op i).toList ++ signalsSince i h

/-- The bitwise or of a list of words. -/
def orAll (words : List (BitVec 64)) : BitVec 64 := words.foldr (· ||| ·) 0

/-- An object that has not been created has no pending bits. -/
theorem notify_of_absent (h : List (Op μ)) {i : Fin objectTableSize}
    (habs : ((kernelAfter p m₀ h).space.objects.metas i).present = false) :
    (kernelAfter p m₀ h).notify i = 0 := by
  induction h with
  | nil => rfl
  | cons op h ih =>
    have hbefore : ((kernelAfter p m₀ h).space.objects.metas i).present = false := by
      by_contra hp
      rw [Bool.not_eq_false] at hp
      have hafter := ((kernelAfter p m₀ h).metas_step_kept p op hp).1
      rw [show (kernelAfter p m₀ (op :: h)) = ((kernelAfter p m₀ h).step p op).2 from rfl,
        hafter] at habs
      cases habs
    have hsignal : (kernelAfter p m₀ h).signalled p op i = none :=
      Kernel.signalled_of_absent (named_after p m₀ h) hbefore
    cases hpoll : (kernelAfter p m₀ h).polled p op i with
    | some bits => exact (Kernel.notify_of_polled hpoll).2
    | none => exact (Kernel.notify_of_quiet hsignal hpoll).trans (ih hbefore)

/-- **The word of a notification** is the or of what was signalled and not yet polled. -/
theorem notify_after (h : List (Op μ)) (i : Fin objectTableSize) :
    (kernelAfter p m₀ h).notify i = orAll (signalsSince p m₀ i h) := by
  induction h with
  | nil => rfl
  | cons op h ih =>
    set k := kernelAfter p m₀ h with hk
    rw [signalsSince, ← hk, show (kernelAfter p m₀ (op :: h)) = (k.step p op).2 from rfl]
    cases hpoll : k.polled p op i with
    | some bits =>
      rw [if_pos (Or.inl Option.isSome_some), (Kernel.notify_of_polled hpoll).2]
      rfl
    | none =>
      cases hcreates : k.creates p op i with
      | true =>
        -- a new object starts with the word nobody could have touched
        obtain ⟨habs, -⟩ := (Bool.and_eq_true _ _).mp hcreates
        rw [Bool.not_eq_true'] at habs
        rw [if_pos (Or.inr rfl),
          Kernel.notify_of_quiet (Kernel.signalled_of_absent (named_after p m₀ h) habs) hpoll,
          notify_of_absent p m₀ h habs]
        rfl
      | false =>
        rw [if_neg (by simp)]
        cases hsignal : k.signalled p op i with
        | some bits =>
          rw [Kernel.notify_of_signalled hsignal, ih, BitVec.or_comm]
          rfl
        | none =>
          rw [Kernel.notify_of_quiet hsignal hpoll, ih]
          rfl

end Runs

/-- **No bit is lost or duplicated.** After any run, whoever signals, polls, dies or is restarted in
it:

* a successful `N_POLL` on an object returns the bitwise or of the arguments of the successful
  `N_SIGNAL`s on it since its last successful `N_POLL`, or since it was created;
* a step that is neither of the two on this object, with success, leaves its pending bits alone. -/
theorem notifications_exact {μ : Type} (p : Platform μ) (m₀ : μ) (h : List (Op μ)) (op : Op μ)
    (i : Fin objectTableSize) :
    let k := kernelAfter p m₀ h
    (∀ bits, k.polled p op i = some bits → bits = orAll (signalsSince p m₀ i h)) ∧
      (k.signalled p op i = none → k.polled p op i = none →
        (k.step p op).2.notify i = k.notify i) := by
  intro k
  refine ⟨fun bits hpoll => ?_, Kernel.notify_of_quiet⟩
  rw [(Kernel.notify_of_polled hpoll).1]
  exact notify_after p m₀ h i

/-- Two signals in the root domain, and a poll. -/
example :
    (kernelAfter bareMachine () [.capInvokeIn 0 0 Kernel.nSignal 6,
      .capInvokeIn 0 0 Kernel.nSignal 3, .createNotification]).polled bareMachine
        (.capInvokeIn 0 0 Kernel.nPoll 0) 0 = some 7 := by
  decide +kernel

end Cairn
