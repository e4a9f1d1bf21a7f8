import Cairn.Kernel.Apart
import Cairn.Kernel.Conservation
import Cairn.Kernel.Notifications
import Cairn.Kernel.Termination

/-!
# Compartments

Once the boot thread has given out its capabilities and halts, authority moves over endpoints only.
A set of domains is a compartment if no endpoint joins a task inside it to a task outside. Nothing
has to enforce this: a compartment stays one whatever its tasks and the others do, because a task
can call only on endpoints its domain reaches, and what a call moves stays with the two domains
that met there.

A domain *reaches* an endpoint if it holds a capability for it, live or not, or if one of its tasks
is inside a call on it; the task may have given the capability away since. The root domain holds
capabilities for everything, but no task lives there, so it joins nothing.

## Main definitions

* `Kernel.Reaches`, `Kernel.Neighbours` — who can call whom
* `Kernel.Sealed` — no endpoint joins a set of domains to the rest
* `Kernel.Flows` — what one step of the running system does to reach and authority

## Main results

* `Kernel.Sound.flows_step` — every step
* `compartments_confined` — authority and messages stay inside, in every run
-/

namespace Cairn

/-- The operations of the running system: the boot thread has halted. -/
def Op.afterBoot {μ : Type} : Op μ → Bool
  | .syscall .. | .tick _ | .fault | .outside _ => true
  | _ => false

/-- The capability is one of those a restart mints, for an object that does not exist yet. -/
structure Space.Unborn (s : Space (Fin maxDomains)) (e : CapEntry) : Prop where
  absent : ∃ o : Fin objectTableSize, e.objectId = o ∧ (s.objects.metas o).present = false
  kind : e.typeTag = .memory ∨ e.typeTag = .timeSlice

namespace Kernel

variable {μ : Type}

/-! ### Reach -/

/-- A task other than the idle one lives in the domain. -/
def Populated (k : Kernel μ) (d : Fin maxDomains) : Prop :=
  ∃ t : Fin maxTasks, t ≠ 0 ∧ (k.seat t).present = true ∧ (k.seat t).domain = d

/-- The domain holds a capability for the endpoint, or one of its tasks is parked there. -/
def Reaches (k : Kernel μ) (d : Fin maxDomains) (i : Fin objectTableSize) : Prop :=
  (∃ s e, k.slot d s = some e ∧ e.typeTag = .endpoint ∧ e.objectId = i) ∨
    (k.endpoints i).state ≠ .idle ∧ (k.endpoints i).peerDomain = d

/-- Tasks of the two domains can meet. -/
structure Neighbours (k : Kernel μ) (d d' : Fin maxDomains) : Prop where
  left : k.Populated d
  right : k.Populated d'
  meet : ∃ i, k.Reaches d i ∧ k.Reaches d' i

/-- No endpoint joins a domain of `S` to one outside. -/
def Sealed (k : Kernel μ) (S : Set ℕ) : Prop :=
  ∀ d d', k.Neighbours d d' → ((d : ℕ) ∈ S ↔ (d' : ℕ) ∈ S)

/-- What a step does to reach and authority: nobody moves in; a capability was there before, or a
neighbour had it, or it is minted; and whoever is parked at an endpoint reached it before. -/
structure Flows (k k' : Kernel μ) : Prop where
  populated : ∀ d, k'.Populated d → k.Populated d
  held : ∀ d s e, k'.slot d s = some e → k.slot d s = some e ∨
    (∃ d' s' e', k.Neighbours d' d ∧ k.slot d' s' = some e' ∧ e'.worth = e.worth) ∨
      k.space.Unborn e
  parked : ∀ i (d : Fin maxDomains), (k'.endpoints i).state ≠ .idle →
    (k'.endpoints i).peerDomain = d → k.Reaches d i

namespace Flows

variable {k k' : Kernel μ}

/-- Nothing but deadlines, payloads and who runs has changed. -/
theorem of_same (hseat : ∀ t, (k'.seat t).present = (k.seat t).present ∧
      (k'.seat t).domain = (k.seat t).domain) (hspace : k'.space = k.space)
    (hep : k'.endpoints = k.endpoints) : Flows k k' where
  populated := by
    rintro d ⟨t, ht, hp, hd⟩
    rw [(hseat t).1] at hp
    rw [(hseat t).2] at hd
    exact ⟨t, ht, hp, hd⟩
  held := by
    intro d s e he
    rw [slot, hspace] at he
    exact Or.inl he
  parked := by
    intro i d hi hd
    rw [hep] at hi hd
    exact Or.inr ⟨hi, hd⟩

/-- What a domain reaches, it or a neighbour reached before. -/
theorem reaches (h : Flows k k') {d : Fin maxDomains} {i : Fin objectTableSize}
    (hr : k'.Reaches d i) : ∃ d', (d' = d ∨ k.Neighbours d' d) ∧ k.Reaches d' i := by
  rcases hr with ⟨s, e, he, hkind, hid⟩ | ⟨hi, hd⟩
  · rcases h.held d s e he with hold | ⟨d', s', e', hnb, he', hworth⟩ | hnew
    · exact ⟨d, Or.inl rfl, Or.inl ⟨s, e, hold, hkind, hid⟩⟩
    · obtain ⟨hoid, -, -, htag⟩ : e'.objectId = e.objectId ∧ e'.rights = e.rights ∧
          e'.epoch = e.epoch ∧ e'.typeTag = e.typeTag := by
        simpa only [CapEntry.worth, Prod.mk.injEq] using hworth
      exact ⟨d', Or.inr hnb, Or.inl ⟨s', e', he', htag.trans hkind, hoid.trans hid⟩⟩
    · rcases hnew.kind with hk | hk <;> cases hk.symm.trans hkind
  · exact ⟨d, Or.inl rfl, h.parked i d hi hd⟩

/-- **A compartment stays one.** -/
theorem keeps_sealed (h : Flows k k') {S : Set ℕ} (hS : k.Sealed S) : k'.Sealed S := by
  have side : ∀ {d d' : Fin maxDomains}, d' = d ∨ k.Neighbours d' d →
      k'.Populated d → k.Populated d' ∧ ((d' : ℕ) ∈ S ↔ (d : ℕ) ∈ S) := by
    rintro d d' (rfl | hnb) hp
    · exact ⟨h.populated _ hp, Iff.rfl⟩
    · exact ⟨hnb.left, hS _ _ hnb⟩
  intro d₁ d₂ hnb
  obtain ⟨i, hr₁, hr₂⟩ := hnb.meet
  obtain ⟨a₁, ha₁, hold₁⟩ := h.reaches hr₁
  obtain ⟨a₂, ha₂, hold₂⟩ := h.reaches hr₂
  obtain ⟨hpop₁, hside₁⟩ := side ha₁ hnb.left
  obtain ⟨hpop₂, hside₂⟩ := side ha₂ hnb.right
  have hacross := hS a₁ a₂ ⟨hpop₁, hpop₂, i, hold₁, hold₂⟩
  exact hside₁.symm.trans (hacross.trans hside₂)

end Flows

/-! ### The parties of a call -/

theorem Sound.populated_current {k : Kernel μ} (h : Sound k) (h3 : k.InRing3) :
    k.Populated k.domainOf :=
  ⟨k.current, h.current_ne_zero h3, h.current_present, h.domainOf_eq.symm⟩

theorem Sound.populated_waiting {k : Kernel μ} (h : Sound k) {i : Fin objectTableSize}
    {t : Fin maxTasks} (hw : k.WaitsAt i t) {d : Fin maxDomains}
    (hd : (d : ℕ) = (k.endpoints i).peerDomain) : k.Populated d := by
  refine ⟨t, ?_, hw.present, hw.domain.trans hd.symm⟩
  rintro rfl
  exact absurd (h.idle_free.symm.trans hw.blocked) Bool.false_ne_true

/-- A call is made on an endpoint for which the caller's domain holds a capability. -/
theorem reaches_of_callOf {k : Kernel μ} {op : Op μ} {c : Call} (h : k.callOf op = some c) :
    k.Reaches c.domain c.ep := by
  -- an entry that resolves stands in the table of the running domain
  have held : ∀ {a m : BitVec 16} {e : CapEntry} (hlt : e.objectId < objectTableSize),
      k.resolve k.domainOf a m = .ok e → e.typeTag = .endpoint →
        k.Reaches k.domainOf ⟨e.objectId, hlt⟩ := by
    intro a m e hlt hres hkind
    obtain ⟨hc, he⟩ := CapTable.entryAt_eq_some_iff.mp (resolve_eq_ok hres).1
    exact Or.inl ⟨_, e, he, hkind, rfl⟩
  cases op with
  | syscall nr cptr method arg0 xfer rsp =>
    rw [callOf] at h
    split at h
    · cases h
    split at h
    · cases h
    rename_i e hres
    split at h
    · rename_i hsend
      split at h
      · rename_i hlt
        cases h
        exact held hlt hres hsend.1
      · cases h
    split at h
    · rename_i hrecv
      split at h
      · rename_i hlt
        cases h
        exact held hlt hres hrecv.1
      · cases h
    · cases h
  | _ => cases h

/-- Both parties of a rendezvous are populated and reach its endpoint. -/
theorem Sound.party {k : Kernel μ} (h : Sound k) (h3 : k.InRing3) {op : Op μ} {c : Call}
    (hcall : k.callOf op = some c) (hw : (k.endpoints c.ep).state ≠ .idle) {d : Fin maxDomains}
    (hd : (d : ℕ) = c.sendDomain (k.endpoints c.ep) ∨ (d : ℕ) = c.recvDomain (k.endpoints c.ep)) :
    k.Populated d ∧ k.Reaches d c.ep := by
  obtain ⟨-, hdom⟩ := callOf_eq_some hcall
  rcases c.domain_cases _ hd with hd' | hd'
  · obtain rfl : d = c.domain := Fin.ext hd'
    exact ⟨hdom ▸ h.populated_current h3, reaches_of_callOf hcall⟩
  · obtain ⟨t, hwait⟩ := h.waits c.ep hw
    exact ⟨h.populated_waiting hwait hd', Or.inr ⟨hw, hd'.symm⟩⟩

/-- A syscall neither admits nor removes a task, and moves none to another domain. -/
theorem seat_syscall (p : Platform μ) (k : Kernel μ) (nr cptr method arg0 xfer rsp : BitVec 64)
    (t : Fin maxTasks) :
    ((k.syscall p nr cptr method arg0 xfer rsp).2.seat t).present = (k.seat t).present ∧
      ((k.syscall p nr cptr method arg0 xfer rsp).2.seat t).domain = (k.seat t).domain := by
  refine k.syscall_induction (motive := fun k' => (k'.seat t).present = (k.seat t).present ∧
    (k'.seat t).domain = (k.seat t).domain) p nr cptr method arg0 xfer rsp (fun k' hk => ?_)
    (fun c s u res r => ?_) fun c => ?_
  · rw [hk.aside.seat]
    exact ⟨rfl, rfl⟩
  · rw [(payload_setReplyCptr _ r).aside.seat]
    by_cases hu : u < maxTasks
    · rw [show u = ((⟨u, hu⟩ : Fin maxTasks) : ℕ) from rfl, seat_unblock, Function.update_apply]
      split
      · rename_i htu
        rw [htu]
        exact ⟨rfl, rfl⟩
      · exact ⟨rfl, rfl⟩
    · rw [unblock, dif_neg hu]
      exact ⟨rfl, rfl⟩
  · have hseat : ((k.entered.setEndpoint c.ep (c.offer (k.endpoints c.ep))).blockCurrent p
        c.side.reason c.ep rsp).2.seat
        = Function.update k.seat k.current ((k.seat k.current).park c.side.reason c.ep) :=
      (switched_blockCurrent p _ _ _ _).board.seat.trans (seat_parkCurrent _ _ _)
    rw [hseat, Function.update_apply]
    split
    · rename_i htu
      rw [htu]
      exact ⟨rfl, rfl⟩
    · exact ⟨rfl, rfl⟩

/-- A syscall changes an endpoint by meeting the partner parked there, or by parking there. -/
theorem endpoint_syscall (p : Platform μ) (k : Kernel μ)
    (nr cptr method arg0 xfer rsp : BitVec 64) (i : Fin objectTableSize) :
    (k.step p (.syscall nr cptr method arg0 xfer rsp)).2.endpoints i = k.endpoints i ∨
      ∃ c, k.callOf (.syscall nr cptr method arg0 xfer rsp) = some c ∧ i = c.ep ∧
        ((k.endpoints c.ep).state = c.side.awaits ∧
            ((k.step p (.syscall nr cptr method arg0 xfer rsp)).2.endpoints c.ep).state = .idle ∨
          (k.endpoints c.ep).state = .idle ∧
            (k.step p (.syscall nr cptr method arg0 xfer rsp)).2.endpoints c.ep
              = c.offer (k.endpoints c.ep)) := by
  have hcases := k.step_syscall_cases p nr cptr method arg0 xfer rsp
  generalize k.callOf (.syscall nr cptr method arg0 xfer rsp) = call at hcases
  generalize k.step p (.syscall nr cptr method arg0 xfer rsp) = r at hcases
  cases hcases with
  | other st reply k' hk htype => exact Or.inl (congrFun hk.aside.endpoints i)
  | refused c st k' hst htype hk => exact Or.inl (congrFun hk.aside.endpoints i)
  | met c hw r =>
    have hep : ((k.entered.meet c).setReplyCptr r).endpoints
        = Function.update k.endpoints c.ep { k.endpoints c.ep with state := .idle } := by
      obtain ⟨s, -, -, heq⟩ := k.entered.meet_eq c
      rw [(payload_setReplyCptr _ r).aside.endpoints, heq, unblock]
      split <;> rfl
    rw [hep]
    by_cases hic : i = c.ep
    · refine Or.inr ⟨c, rfl, hic, Or.inl ⟨hw, ?_⟩⟩
      rw [Function.update_self]
    · exact Or.inl (Function.update_of_ne hic _ _)
  | parks c hw =>
    have hep : ((k.entered.setEndpoint c.ep (c.offer (k.endpoints c.ep))).blockCurrent p
        c.side.reason c.ep rsp).2.endpoints
        = Function.update k.endpoints c.ep (c.offer (k.endpoints c.ep)) :=
      (switched_blockCurrent p _ _ _ _).board.endpoints
    rw [hep]
    by_cases hic : i = c.ep
    · exact Or.inr ⟨c, rfl, hic, Or.inr ⟨hw, Function.update_self _ _ _⟩⟩
    · exact Or.inl (Function.update_of_ne hic _ _)

/-- A set of domains is sealed if no task outside holds a capability for an endpoint or is parked
at one. -/
theorem Sound.sealed_of_silent {k : Kernel μ} (h : Sound k) {S : Set ℕ}
    (hsilent : ∀ t, t ≠ 0 → (k.seat t).present = true → (k.seat t).domain ∉ S →
      (k.seat t).blocked = false ∧ ∀ (d : Fin maxDomains) s e, (k.seat t).domain = d →
        k.slot d s = some e → e.typeTag ≠ .endpoint) : k.Sealed S := by
  have unreached : ∀ {d : Fin maxDomains} {i : Fin objectTableSize}, (d : ℕ) ∉ S →
      k.Populated d → ¬k.Reaches d i := by
    rintro d i hd ⟨t, ht, hp, hdom⟩ (⟨s, e, he, hkind, -⟩ | ⟨hi, hpeer⟩)
    · exact (hsilent t ht hp (hdom ▸ hd)).2 d s e hdom he hkind
    · obtain ⟨u, hw⟩ := h.waits i hi
      have hu : (k.seat u).domain = d := hw.domain.trans hpeer
      have hu0 : u ≠ 0 := by
        rintro rfl
        exact Bool.false_ne_true (h.idle_free.symm.trans hw.blocked)
      exact Bool.false_ne_true ((hsilent u hu0 hw.present (hu ▸ hd)).1.symm.trans hw.blocked)
  intro d d' hnb
  obtain ⟨i, hr, hr'⟩ := hnb.meet
  by_cases hd : (d : ℕ) ∈ S
  · by_cases hd' : (d' : ℕ) ∈ S
    · exact ⟨fun _ => hd', fun _ => hd⟩
    · exact absurd hr' (unreached hd' hnb.right)
  · exact absurd hr (unreached hd hnb.left)

/-! ### One step -/

/-- A syscall. -/
theorem Sound.flows_syscall {k : Kernel μ} (h : Sound k) (h3 : k.InRing3)
    (hall : ∀ d i e, k.slot d i = some e → e.rights ≤ .all) (p : Platform μ)
    (nr cptr method arg0 xfer rsp : BitVec 64) :
    Flows k (k.step p (.syscall nr cptr method arg0 xfer rsp)).2 where
  populated := by
    rintro d ⟨t, ht, hp, hd⟩
    obtain ⟨hpres, hdom⟩ := k.seat_syscall p nr cptr method arg0 xfer rsp t
    exact ⟨t, ht, hpres.symm.trans hp, hdom.symm.trans hd⟩
  held := by
    intro d s e he
    rcases (conserving_syscall p hall nr cptr method arg0 xfer rsp).change with hsame |
      ⟨c, src, dst, i, j, e₀, hcall, hw, hsrc, hdst, -, -, hheld, hgone, -, hnew, hrest⟩
    · exact Or.inl ((hsame d s).symm.trans he)
    · have hidle : (k.endpoints c.ep).state ≠ .idle := hw ▸ c.side.awaits_ne_idle
      obtain ⟨hpops, hrs⟩ := h.party h3 hcall hidle (Or.inl hsrc)
      obtain ⟨hpopd, hrd⟩ := h.party h3 hcall hidle (Or.inr hdst)
      by_cases hleft : d = src ∧ s = i
      · obtain ⟨rfl, rfl⟩ := hleft
        cases hgone.symm.trans he
      by_cases hcame : d = dst ∧ s = j
      · obtain ⟨rfl, rfl⟩ := hcame
        cases hnew.symm.trans he
        exact Or.inr (Or.inl ⟨src, i, e₀, ⟨hpops, hpopd, c.ep, hrs, hrd⟩, hheld, rfl⟩)
      · exact Or.inl ((hrest d s hleft hcame).symm.trans he)
  parked := by
    intro i d hi hd
    rcases k.endpoint_syscall p nr cptr method arg0 xfer rsp i with hsame | ⟨c, hcall, rfl, hend⟩
    · rw [hsame] at hi hd
      exact Or.inr ⟨hi, hd⟩
    · rcases hend with ⟨-, hidle⟩ | ⟨-, hoffer⟩
      · exact absurd hidle hi
      · rw [hoffer, c.offer_peerDomain] at hd
        obtain rfl : c.domain = d := Fin.ext hd
        exact reaches_of_callOf hcall

/-! ### Terminations -/

end Kernel

/-- Capabilities may have gone, and those that came are the ones of a restart. -/
structure Space.Minted (s s' : Space (Fin maxDomains)) : Prop where
  held : ∀ d i e, s'.slot d i = some e → s.slot d i = some e ∨ s.Unborn e
  objects : ∀ o, (s.objects.metas o).present = true → (s'.objects.metas o).present = true

/-- What does not exist yet did not exist before. -/
theorem Space.Unborn.of_kept {s s' : Space (Fin maxDomains)} {e : CapEntry} (h : s'.Unborn e)
    (hkept : ∀ o, (s.objects.metas o).present = true → (s'.objects.metas o).present = true) :
    s.Unborn e := by
  obtain ⟨⟨o, ho, habs⟩, hkind⟩ := h
  refine ⟨⟨o, ho, Bool.eq_false_iff.mpr fun hp => ?_⟩, hkind⟩
  exact Bool.false_ne_true (habs.symm.trans (hkept o hp))

theorem Space.Minted.trans {s₁ s₂ s₃ : Space (Fin maxDomains)} (h₁ : s₁.Minted s₂)
    (h₂ : s₂.Minted s₃) : s₁.Minted s₃ where
  held := by
    intro d i e he
    rcases h₂.held d i e he with hold | hnew
    · exact h₁.held d i e hold
    · exact Or.inr (hnew.of_kept h₁.objects)
  objects := fun o ho => h₂.objects o (h₁.objects o ho)

namespace Kernel

variable {μ : Type}

theorem minted_construct (k : Kernel μ) {kind : ObjectKind} (rights : Rights)
    (hkind : kind = .memory ∨ kind = .timeSlice) :
    k.space.Minted (k.construct kind rights fun _ k => k).2.space := by
  rcases k.construct_cases kind rights with ⟨ot, hkeep, heq⟩ | ⟨oid, slot, habs, -, heq⟩
  · rw [heq]
    refine ⟨fun d i e he => Or.inl he, fun o ho => ?_⟩
    show (ot.metas o).present = true
    rw [hkeep o ho]
    exact ho
  · rw [heq]
    refine ⟨fun d i e he => ?_, fun o ho => ?_⟩
    · by_cases hd : d = 0
      · subst hd
        by_cases hi : i = slot
        · subst hi
          simp only [Space.slot, constructed, Function.update_self, CapTable.set,
            Option.some.injEq] at he
          subst he
          exact Or.inr ⟨⟨oid, rfl, habs⟩, hkind⟩
        · simp only [Space.slot, constructed, Function.update_self, CapTable.set,
            Function.update_of_ne hi] at he
          exact Or.inl he
      · rw [Space.slot, tables_constructed hd] at he
        exact Or.inl he
    · show (Function.update k.space.objects.metas oid _ o).present = true
      rw [Function.update_apply]
      split
      · rfl
      · exact ho

theorem minted_regrant (k : Kernel μ) : k.space.Minted k.regrant.2.space := by
  have hinit := k.minted_construct mappableRights (Or.inl rfl)
  rcases k.construct_cases .memory mappableRights with
    ⟨ot, -, heq⟩ | ⟨oid, slot, habs, -, heq⟩
  · rw [regrant, initRoot]
    rw [heq] at hinit ⊢
    exact hinit
  · rw [heq] at hinit
    have hstep : k.regrant = (k.constructed .memory mappableRights oid slot).delegateFromRoot
        faultTable slot .invoke 0 := by
      rw [regrant, initRoot, heq]
      rfl
    rw [hstep]
    rcases (k.constructed .memory mappableRights oid slot).delegateFromRoot_cases faultTable slot
      .invoke 0 with hsame | ⟨j, e₀, he₀, hdel⟩
    · rw [hsame]
      exact hinit
    · -- the capability delegated is the one just minted
      have hroot : ((k.constructed .memory mappableRights oid slot).space.tables 0).entryAt slot
          = some ⟨oid, mappableRights, 0, .memory, 0⟩ := by
        rw [CapTable.entryAt_val]
        simp [constructed, CapTable.set]
      cases hroot.symm.trans he₀
      rw [hdel]
      refine ⟨fun d i e he => ?_, hinit.objects⟩
      rw [Space.slot_setTable] at he
      split at he
      · rename_i hd
        subst hd
        by_cases hi : i = j
        · subst hi
          simp only [CapTable.set, Function.update_self, Option.some.injEq] at he
          subst he
          exact Or.inr ⟨⟨oid, rfl, habs⟩, Or.inl rfl⟩
        · simp only [CapTable.set, Function.update_of_ne hi] at he
          exact hinit.held _ i e he
      · exact hinit.held d i e he

theorem minted_reaped (p : Platform μ) (k : Kernel μ) : k.space.Minted (k.reaped p).space := by
  by_cases hlt : (k.task k.current).domain < maxDomains
  · rw [k.reaped_of_lt p (d := ⟨_, hlt⟩) rfl]
    refine ⟨fun d i e he => Or.inl ?_, fun _ => id⟩
    rw [Space.slot_setTable] at he
    split at he
    · cases he
    · exact he
  · rw [k.reaped_of_le p (Nat.not_lt.mp hlt)]
    exact ⟨fun d i e he => Or.inl he, fun _ => id⟩

theorem minted_afterDeath (p : Platform μ) (k : Kernel μ) :
    k.space.Minted (k.afterDeath p).2.space := by
  have hgranted : (k.reaped p).space.Minted (k.reaped p).spend.granted.space :=
    (k.reaped p).spend.minted_regrant.trans (minted_construct _ .invoke (Or.inr rfl))
  rw [afterDeath]
  split
  · exact k.minted_reaped p
  · rcases (k.reaped p).spend.restart_cases p with heq | ⟨fm, ft, i, -, -, -, -, heq⟩
    · rw [heq]
      exact (k.minted_reaped p).trans hgranted
    · rw [heq]
      exact (k.minted_reaped p).trans hgranted

/-- A termination touches no endpoint: the task that dies was running and so parked at none. -/
theorem Sound.endpoints_fault {k : Kernel μ} (h : Sound k) (p : Platform μ) :
    (k.step p .fault).2.endpoints = k.endpoints := by
  obtain ⟨k₁, k₂, hdrop, hsw, hrest⟩ := h.fault_cases p
  rw [step, hsw.board.endpoints, ← hdrop.endpoints]
  rcases hrest with rfl | ⟨-, frame, cptr, -, rfl⟩
  · rfl
  · rcases k₁.admitWith_cases p frame cptr faultDomain 5000000 5000000 1000000 with heq |
      ⟨i, k', heq, -, -, -, -, -, -, hep, -⟩
    · rw [heq]
    · rw [heq, hep]

/-- A termination takes capabilities away and mints those of a restart. Nobody moves in but a task
of the domain that lost one. -/
theorem Sound.flows_fault {k : Kernel μ} (h : Sound k) (h3 : k.InRing3) (p : Platform μ) :
    Flows k (k.step p .fault).2 := by
  obtain ⟨k₁, k₂, hdrop, hsw, hrest⟩ := h.fault_cases p
  have hgone : ∀ t, (k₁.seat t).present = true → t ≠ k.current := by
    rintro t ht rfl
    rw [hdrop.seat, Function.update_self] at ht
    cases ht
  have hleft : ∀ t d, (k₁.seat t).present = true → (k₁.seat t).domain = d →
      (k.seat t).present = true ∧ (k.seat t).domain = d := by
    intro t d hp hd
    have htc := hgone t hp
    rw [hdrop.seat, Function.update_of_ne htc] at hp hd
    exact ⟨hp, hd⟩
  refine ⟨?_, fun d s e he => ?_, fun i d hi hd => ?_⟩
  · rintro d ⟨t, ht, hp, hd⟩
    rw [step, hsw.board.seat] at hp hd
    rcases hrest with rfl | ⟨hfault, frame, cptr, -, rfl⟩
    · obtain ⟨hp', hd'⟩ := hleft t d hp hd
      exact ⟨t, ht, hp', hd'⟩
    · rcases k₁.admitWith_cases p frame cptr faultDomain 5000000 5000000 1000000 with heq |
        ⟨i, k', heq, -, -, -, hseat, -⟩
      · rw [heq] at hp hd
        obtain ⟨hp', hd'⟩ := hleft t d hp hd
        exact ⟨t, ht, hp', hd'⟩
      · rw [heq, hseat, Function.update_apply] at hp hd
        split at hd
        · exact ⟨k.current, h.current_ne_zero h3, h.current_present, hfault.trans hd⟩
        · rename_i hti
          rw [if_neg hti] at hp
          obtain ⟨hp', hd'⟩ := hleft t d hp hd
          exact ⟨t, ht, hp', hd'⟩
  · rw [step, slot, terminateCurrent_eq, (switched_restore p _).board.space] at he
    exact ((k.minted_afterDeath p).held d s e he).imp id Or.inr
  · rw [h.endpoints_fault p] at hi hd
    exact Or.inr ⟨hi, hd⟩

/-- **What a step of the running system does to reach and authority.** -/
theorem Sound.flows_step {k : Kernel μ} (h : Sound k)
    (hall : ∀ d i e, k.slot d i = some e → e.rights ≤ .all) (p : Platform μ) {op : Op μ}
    (hop : k.Permitted op) (hafter : op.afterBoot = true) : Flows k (k.step p op).2 := by
  cases op with
  | syscall nr cptr method arg0 xfer rsp =>
    exact h.flows_syscall hop hall p nr cptr method arg0 xfer rsp
  | tick rsp =>
    have hboard := (k.scheduleTick_keeps p rsp).1
    refine .of_same (fun t => ?_) hboard.space hboard.endpoints
    rw [step, hboard.seat]
    exact ⟨rfl, rfl⟩
  | fault => exact h.flows_fault hop p
  | outside m => exact .of_same (fun t => ⟨rfl, rfl⟩) rfl rfl
  | _ => cases hafter

/-! ### Runs -/

/-- What a compartment keeps along a run: nobody moves in, it stays sealed, no object disappears,
and every capability was held by the same domain, or by a populated one on the same side, or is
minted by a restart. -/
structure Within (S : Set ℕ) (k₀ k : Kernel μ) : Prop where
  populated : ∀ d, k.Populated d → k₀.Populated d
  closed : k.Sealed S
  objects : ∀ o, (k₀.space.objects.metas o).present = true →
    (k.space.objects.metas o).present = true
  inherited : ∀ d s e, k.slot d s = some e →
    (∃ d' s' e', (d' = d ∨ k₀.Populated d' ∧ k₀.Populated d ∧ ((d' : ℕ) ∈ S ↔ (d : ℕ) ∈ S)) ∧
      k₀.slot d' s' = some e' ∧ e'.worth = e.worth) ∨ k₀.space.Unborn e

theorem Within.refl {S : Set ℕ} {k : Kernel μ} (hS : k.Sealed S) : Within S k k :=
  ⟨fun _ => id, hS, fun _ => id, fun d s e he => Or.inl ⟨d, s, e, Or.inl rfl, he, rfl⟩⟩

/-- One more step. -/
theorem Within.flows {S : Set ℕ} {k₀ k k' : Kernel μ} (h : Within S k₀ k) (hf : Flows k k')
    (hobj : ∀ o, (k.space.objects.metas o).present = true →
      (k'.space.objects.metas o).present = true) : Within S k₀ k' where
  populated := fun d hd => h.populated d (hf.populated d hd)
  closed := hf.keeps_sealed h.closed
  objects := fun o ho => hobj o (h.objects o ho)
  inherited := by
    intro d s e he
    rcases hf.held d s e he with hold | ⟨d₁, s₁, e₁, hnb, he₁, hworth⟩ | hnew
    · exact h.inherited d s e hold
    · have hpop := h.populated d hnb.right
      have hpop₁ := h.populated d₁ hnb.left
      have hside := h.closed d₁ d hnb
      rcases h.inherited d₁ s₁ e₁ he₁ with ⟨d₂, s₂, e₂, hfrom, he₂, hworth₂⟩ | hnew
      · refine Or.inl ⟨d₂, s₂, e₂, Or.inr ?_, he₂, hworth₂.trans hworth⟩
        rcases hfrom with rfl | ⟨hpop₂, -, hside₂⟩
        · exact ⟨hpop₁, hpop, hside⟩
        · exact ⟨hpop₂, hpop, hside₂.trans hside⟩
      · obtain ⟨hoid, -, -, htag⟩ : e₁.objectId = e.objectId ∧ e₁.rights = e.rights ∧
            e₁.epoch = e.epoch ∧ e₁.typeTag = e.typeTag := by
          simpa only [CapEntry.worth, Prod.mk.injEq] using hworth
        obtain ⟨⟨o, ho, habs⟩, hkind⟩ := hnew
        exact Or.inr ⟨⟨o, hoid.symm.trans ho, habs⟩, htag ▸ hkind⟩
    · exact Or.inr (hnew.of_kept h.objects)

/-- A rendezvous is one of neighbours. -/
theorem Sound.neighbours_of_woke {k : Kernel μ} (h : Sound k) {p : Platform μ} {op : Op μ}
    (hop : k.Permitted op) {t : ℕ} {r : IpcResult} (hwoke : (k.step p op).1.woke = some (t, r)) :
    ∃ (u : Fin maxTasks) (d d' : Fin maxDomains), t = u ∧ (k.seat k.current).domain = d ∧
      (k.seat u).domain = d' ∧ k.Neighbours d d' := by
  obtain ⟨c, u, hcall, rfl, hwait⟩ := h.woke hwoke
  cases op with
  | syscall nr cptr method arg0 xfer rsp =>
    obtain ⟨c', r', hcall', hw, -⟩ := (k.step_syscall_cases p nr cptr method arg0 xfer rsp).eq_met
      (by rw [hwoke]; exact Option.some_ne_none _)
    cases hcall.symm.trans hcall'
    have hidle : (k.endpoints c.ep).state ≠ .idle := hw ▸ c.side.awaits_ne_idle
    have hlt : (k.endpoints c.ep).peerDomain < maxDomains :=
      hwait.domain ▸ h.domain_lt u hwait.present
    refine ⟨u, k.domainOf, ⟨_, hlt⟩, rfl, h.domainOf_eq.symm, hwait.domain,
      h.populated_current hop, h.populated_waiting hwait rfl, c.ep, ?_, Or.inr ⟨hidle, rfl⟩⟩
    rw [← (callOf_eq_some hcall).2]
    exact reaches_of_callOf hcall
  | _ => cases hcall

end Kernel

/-- The state of a compartment along a run. -/
theorem within_after {μ : Type} (p : Platform μ) (m₀ : μ) {boot run : List (Op μ)}
    (hperm : Runs.Every (fun k op => (k.step p op).2) (Kernel.init p m₀) Kernel.Permitted
      (run ++ boot)) (hafter : ∀ op ∈ run, op.afterBoot = true) {S : Set ℕ}
    (hS : (kernelAfter p m₀ boot).Sealed S) :
    Kernel.Within S (kernelAfter p m₀ boot) (kernelAfter p m₀ (run ++ boot)) := by
  induction run with
  | nil => exact .refl hS
  | cons op run ih =>
    have hprev := ih hperm.2 fun o ho => hafter o (List.mem_cons_of_mem op ho)
    have hsound := sound_after p m₀ hperm.2
    have hflow := hsound.flows_step (fun d i e => rights_le_all p m₀ (run ++ boot)) p hperm.1
      (hafter op List.mem_cons_self)
    exact hprev.flows hflow fun o ho => (Kernel.metas_step_kept p _ op ho).1

/-- **Compartments are confined.** If no endpoint joins a set of domains to the rest when the boot
thread halts, then after every run of syscalls, preemptions, faults and restarts: none does; every
capability is one that the same domain, or a domain with tasks on the same side, held before with
the same rights, or names an object that a restart has made since; and whoever is woken by the next
call is on the side of its caller. -/
theorem compartments_confined {μ : Type} (p : Platform μ) (m₀ : μ) {boot run : List (Op μ)}
    (hperm : Runs.Every (fun k op => (k.step p op).2) (Kernel.init p m₀) Kernel.Permitted
      (run ++ boot)) (hafter : ∀ op ∈ run, op.afterBoot = true) {S : Set ℕ}
    (hS : (kernelAfter p m₀ boot).Sealed S) :
    (kernelAfter p m₀ (run ++ boot)).Sealed S ∧
    (∀ d s e, (kernelAfter p m₀ (run ++ boot)).slot d s = some e →
      (∃ d' s' e', (d' = d ∨ (kernelAfter p m₀ boot).Populated d' ∧
          (kernelAfter p m₀ boot).Populated d ∧ ((d' : ℕ) ∈ S ↔ (d : ℕ) ∈ S)) ∧
        (kernelAfter p m₀ boot).slot d' s' = some e' ∧ e'.worth = e.worth) ∨
      (kernelAfter p m₀ boot).space.Unborn e) ∧
    ∀ op t r, (kernelAfter p m₀ (run ++ boot)).Permitted op →
      ((kernelAfter p m₀ (run ++ boot)).step p op).1.woke = some (t, r) →
        ∃ u : Fin maxTasks, t = u ∧
          (((kernelAfter p m₀ (run ++ boot)).task
              (kernelAfter p m₀ (run ++ boot)).current).domain ∈ S ↔
            ((kernelAfter p m₀ (run ++ boot)).task u).domain ∈ S) := by
  have hwithin := within_after p m₀ hperm hafter hS
  refine ⟨hwithin.closed, hwithin.inherited, fun op t r hop hwoke => ?_⟩
  obtain ⟨u, d, d', rfl, hd, hd', hnb⟩ := (sound_after p m₀ hperm).neighbours_of_woke hop hwoke
  refine ⟨u, rfl, ?_⟩
  have hside := hwithin.closed d d' hnb
  rw [← hd, ← hd'] at hside
  exact hside

/-- Two ring-3 tasks, one in domain 1 with an endpoint and one in domain 2 with nothing. -/
def twoCompartments : List (Op Unit) :=
  [.admitUser 0 0 0 2 2 1000000 1000000 0, .mintTimeslice, .admitUser 0 0 0 1 1 1000000 1000000 0,
    .mintTimeslice, .delegateFromRoot 1 0 .invoke 0, .createEndpoint]

/-- The first of them is scheduled and parks on its endpoint. -/
def firstParks : List (Op Unit) := [.syscall 1 0 2 0 0xffff 0x300, .tick 0x100]

theorem permitted_firstParks : Runs.Every (fun k op => (k.step bareMachine op).2)
    (Kernel.init bareMachine ()) Kernel.Permitted (firstParks ++ twoCompartments) := by
  refine ⟨?_, trivial, ?_, trivial, ?_, trivial, trivial, trivial, trivial⟩
  · show TaskFrame.ring3 _ = true
    decide +kernel
  · show 2 < maxDomains
    decide
  · show 1 < maxDomains
    decide

theorem sealed_twoCompartments : (kernelAfter bareMachine () twoCompartments).Sealed {1} := by
  have hsound : (kernelAfter bareMachine () twoCompartments).Sound :=
    sound_after bareMachine () permitted_firstParks.2.2
  have htasks : ∀ t, t ≠ 0 →
      ((kernelAfter bareMachine () twoCompartments).seat t).present = true →
      ((kernelAfter bareMachine () twoCompartments).seat t).domain ≠ 1 →
        ((kernelAfter bareMachine () twoCompartments).seat t).blocked = false ∧
          ((kernelAfter bareMachine () twoCompartments).seat t).domain = 2 := by
    decide +kernel
  have hempty : ∀ s, (kernelAfter bareMachine () twoCompartments).slot 2 s = none := by
    decide +kernel
  refine hsound.sealed_of_silent fun t ht hp hout => ?_
  obtain ⟨hfree, hdom⟩ := htasks t ht hp hout
  refine ⟨hfree, fun d s e hd he => ?_⟩
  obtain rfl : d = 2 := Fin.ext (hd.symm.trans hdom)
  cases (hempty s).symm.trans he

theorem compartments_confined_two :
    ((kernelAfter bareMachine () (firstParks ++ twoCompartments)).endpoints 0).state = .recvWait ∧
      (kernelAfter bareMachine () (firstParks ++ twoCompartments)).Sealed {1} :=
  ⟨by decide +kernel, (compartments_confined bareMachine () permitted_firstParks (by decide)
    sealed_twoCompartments).1⟩

end Cairn
