import Cairn.Kernel.Authority
import Mathlib.Data.Fintype.BigOperators

/-!
# Syscalls conserve capabilities

A syscall can change the capability tables in one way only: the rendezvous it completes moves one
entry from the sender's table to a free slot of the receiver's. What a domain holds is counted
without badges, since a move resets the badge, and the count over all tables is a sum over slots;
a move permutes its summands.

## Main definitions

* `Space.holdings` — the multiset of capabilities in all tables
* `Space.Unmovable` — the reasons for which a transfer fails
* `Kernel.Conserving` — what a syscall may do to the tables

## Main results

* `Space.Moved.holdings_eq` — a move keeps the holdings
* `syscalls_conserve` — every syscall conserves, and so does every sequence of them
-/

namespace Cairn

/-- What a capability is worth: everything but its badge. -/
def CapEntry.worth (e : CapEntry) : ℕ × Rights × BitVec 32 × ObjectKind :=
  (e.objectId, e.rights, e.epoch, e.typeTag)

namespace Space

/-- The capabilities in all tables, with multiplicity. -/
def holdings (s : Space (Fin maxDomains)) : Multiset (ℕ × Rights × BitVec 32 × ObjectKind) :=
  ∑ q : Fin maxDomains × Fin capTableSlots, (s.slot q.1 q.2).elim 0 fun e => {e.worth}

/-- The reasons for which the transfer of the capability at `cptr` of domain `src` to domain `dst`
fails. -/
inductive Unmovable (s : Space (Fin maxDomains)) (src : ℕ) (cptr : BitVec 16) (dst : ℕ) : Prop
  | sameDomain (h : src = dst)
  | outOfRange (h : capTableSlots ≤ cptr.toNat)
  | emptySlot (d : Fin maxDomains) (i : Fin capTableSlots) (hd : (d : ℕ) = src)
      (hi : cptr.toNat = i) (h : s.slot d i = none)
  | notDelegable (d : Fin maxDomains) (i : Fin capTableSlots) (e : CapEntry) (hd : (d : ℕ) = src)
      (hi : cptr.toNat = i) (he : s.slot d i = some e) (h : e.rights.contains .delegate = false)
  | notLive (d : Fin maxDomains) (i : Fin capTableSlots) (e : CapEntry) (hd : (d : ℕ) = src)
      (hi : cptr.toNat = i) (he : s.slot d i = some e) (h : e.check s.objects ≠ .ok)
  | full (d : Fin maxDomains) (hd : (d : ℕ) = dst) (h : ∀ j, s.slot d j ≠ none)

namespace Moved

variable {s s' : Space (Fin maxDomains)} {src dst : Fin maxDomains} {i j : Fin capTableSlots}
  {e : CapEntry}

/-- The capability that moved could be moved. -/
theorem not_unmovable (h : s.Moved s' src i dst j e) {cptr : BitVec 16} (hi : cptr.toNat = i) :
    ¬s.Unmovable src cptr dst := by
  -- the slot a reason speaks about is the slot the entry left
  have hslot : ∀ (d : Fin maxDomains) (i' : Fin capTableSlots), (d : ℕ) = src →
      cptr.toNat = i' → s.slot d i' = some e := by
    intro d i' hd hi'
    rw [Fin.ext hd, ← Fin.ext (hi.symm.trans hi')]
    exact h.held
  intro hun
  cases hun with
  | sameDomain heq => exact h.ne (Fin.ext heq)
  | outOfRange hout => omega
  | emptySlot d i' hd hi' hnone => cases (hslot d i' hd hi').symm.trans hnone
  | notDelegable d i' e' hd hi' he' hdel =>
    cases (hslot d i' hd hi').symm.trans he'
    cases h.delegable.symm.trans hdel
  | notLive d i' e' hd hi' he' hlive =>
    cases (hslot d i' hd hi').symm.trans he'
    exact hlive h.live
  | full d hd hfull =>
    rw [Fin.ext hd] at hfull
    exact hfull j h.free

/-- A move keeps the holdings: the two slots exchange what they are worth. -/
theorem holdings_eq (h : s.Moved s' src i dst j e) (hall : e.rights ≤ .all) :
    s'.holdings = s.holdings := by
  have hworth : (e.child .all 0).worth = e.worth := by
    rw [CapEntry.child_all hall]
    rfl
  rw [holdings, holdings, ← Equiv.sum_comp (Equiv.swap (src, i) (dst, j))]
  refine Finset.sum_congr rfl fun q _ => ?_
  by_cases hsrc : q = (src, i)
  · subst hsrc
    rw [Equiv.swap_apply_left, h.slots, if_neg fun hc => h.ne hc.1.symm, if_pos ⟨rfl, rfl⟩, h.held]
    show ({(e.child .all 0).worth} : Multiset _) = {e.worth}
    rw [hworth]
  by_cases hdst : q = (dst, j)
  · subst hdst
    rw [Equiv.swap_apply_right, h.slots, if_pos ⟨rfl, rfl⟩, h.free]
  · rw [Equiv.swap_apply_of_ne_of_ne hsrc hdst, h.slots,
      if_neg fun hc => hsrc (Prod.ext hc.1 hc.2), if_neg fun hc => hdst (Prod.ext hc.1 hc.2)]

end Moved

end Space

namespace Kernel

variable {μ : Type}

/-- What an operation may do to the capability tables, if it creates and destroys nothing. -/
structure Conserving (p : Platform μ) (k : Kernel μ) (op : Op μ) : Prop where
  /-- The capabilities of all tables together stay the same. -/
  holdings : (k.step p op).2.space.holdings = k.space.holdings
  /-- No slot changes, or the operation completes a rendezvous and moves one entry from the slot
  the sender named to a free slot of the receiver, with its badge reset to `0`. -/
  change : (∀ d i, (k.step p op).2.slot d i = k.slot d i) ∨
    ∃ (c : Call) (src dst : Fin maxDomains) (i j : Fin capTableSlots) (e : CapEntry),
      k.callOf op = some c ∧ (k.endpoints c.ep).state = c.side.awaits ∧
      (src : ℕ) = c.sendDomain (k.endpoints c.ep) ∧
      (dst : ℕ) = c.recvDomain (k.endpoints c.ep) ∧
      (c.xfer (k.endpoints c.ep)).toNat = i ∧ src ≠ dst ∧
      k.slot src i = some e ∧ (k.step p op).2.slot src i = none ∧
      k.slot dst j = none ∧ (k.step p op).2.slot dst j = some { e with badge := 0 } ∧
      ∀ d c, ¬(d = src ∧ c = i) → ¬(d = dst ∧ c = j) → (k.step p op).2.slot d c = k.slot d c
  /-- A transfer that fails changes no slot, and both parties of its rendezvous obtain the same
  error. -/
  failure : ∀ c, k.callOf op = some c → c.xfer (k.endpoints c.ep) ≠ cptrNone →
    k.space.Unmovable (c.sendDomain (k.endpoints c.ep)) (c.xfer (k.endpoints c.ep))
      (c.recvDomain (k.endpoints c.ep)) →
    (∀ d i, (k.step p op).2.slot d i = k.slot d i) ∧
      ∀ t r, (k.step p op).1.woke = some (t, r) →
        ∃ st ≠ Status.ok, r = .refused st ∧
          (k.step p op).1.sysret = some (k.current, .refused st)

/-- An operation that leaves the tables alone and wakes nobody conserves. -/
theorem Conserving.of_space {p : Platform μ} {k : Kernel μ} {op : Op μ}
    (hspace : (k.step p op).2.space = k.space) (hwoke : (k.step p op).1.woke = none) :
    Conserving p k op := by
  have hslot : ∀ d i, (k.step p op).2.slot d i = k.slot d i := fun d i => by
    rw [slot, hspace]
    rfl
  refine ⟨by rw [hspace], Or.inl hslot, fun c _ _ _ => ⟨hslot, fun t r h => ?_⟩⟩
  rw [hwoke] at h
  cases h

/-- A rendezvous conserves. -/
theorem Conserving.of_meet {p : Platform μ} {k : Kernel μ} {op : Op μ} {c : Call}
    (hall : ∀ d i e, k.slot d i = some e → e.rights ≤ .all) (hcall : k.callOf op = some c)
    (hw : (k.endpoints c.ep).state = c.side.awaits)
    (hspace : (k.step p op).2.space = (k.entered.meetTransfer c).2.space)
    (hwoke : (k.step p op).1.woke
      = some ((k.endpoints c.ep).peerTask, k.entered.partnerResult c))
    (hret : (k.step p op).1.sysret = some (k.current, k.entered.meetResult c)) :
    Conserving p k op := by
  rcases k.entered.meetTransfer_cases c with ⟨hx, -, heq⟩ | ⟨st, -, hst, -, herr, heq⟩ |
    ⟨src, dst, i, j, e, hsrc, hdst, -, hi, -, hmoved⟩
  · -- no slot was named
    have hslot : ∀ d i, (k.step p op).2.slot d i = k.slot d i := fun d i =>
      congrArg (fun s => Space.slot s d i) (hspace.trans heq)
    refine ⟨by rw [hspace, heq]; rfl, Or.inl hslot, fun c' hcall' hx' => ?_⟩
    cases hcall.symm.trans hcall'
    exact absurd hx hx'
  · -- the transfer failed
    have hslot : ∀ d i, (k.step p op).2.slot d i = k.slot d i := fun d i =>
      congrArg (fun s => Space.slot s d i) (hspace.trans heq)
    obtain ⟨hmeet, hpartner⟩ := meet_of_error herr
    refine ⟨by rw [hspace, heq]; rfl, Or.inl hslot, fun _ _ _ _ => ⟨hslot, fun t r h => ?_⟩⟩
    cases hwoke.symm.trans h
    exact ⟨st, hst, hpartner, hmeet ▸ hret⟩
  · -- one entry moved
    have hm : k.space.Moved (k.step p op).2.space src i dst j e := by
      rw [hspace]
      exact hmoved
    have hchild := CapEntry.child_all (hall _ _ _ hm.held)
    refine ⟨hm.holdings_eq (hall _ _ _ hm.held), Or.inr ⟨c, src, dst, i, j, e, hcall, hw, hsrc,
      hdst, hi, hm.ne, hm.held, hm.slot_src, hm.free, ?_, fun d c' hs hd => ?_⟩,
      fun c' hcall' _ hun => ?_⟩
    · rw [← hchild]
      exact hm.slot_dst
    · exact (hm.slots _ _).trans ((if_neg hs).trans (if_neg hd))
    · cases hcall.symm.trans hcall'
      have hun' : k.space.Unmovable src (c.xfer (k.endpoints c.ep)) dst := by
        rw [hsrc, hdst]
        exact hun
      exact absurd hun' (hm.not_unmovable hi)

/-- **A syscall conserves.** -/
theorem conserving_syscall (p : Platform μ) {k : Kernel μ}
    (hall : ∀ d i e, k.slot d i = some e → e.rights ≤ .all)
    (nr cptr method arg0 xfer rsp : BitVec 64) :
    Conserving p k (.syscall nr cptr method arg0 xfer rsp) := by
  have hcases := k.step_syscall_cases p nr cptr method arg0 xfer rsp
  generalize hcall : k.callOf (.syscall nr cptr method arg0 xfer rsp) = call at hcases
  generalize hr : k.step p (.syscall nr cptr method arg0 xfer rsp) = r at hcases
  cases hcases with
  | other st reply k' hk _ =>
    obtain ⟨_, _, _, _, rfl⟩ := hk
    exact .of_space (by rw [hr]) (by rw [hr])
  | refused c st k' _ _ hk =>
    obtain ⟨_, _, _, _, rfl⟩ := hk
    exact .of_space (by rw [hr]) (by rw [hr])
  | met c hw r =>
    refine .of_meet hall hcall hw ?_ (by rw [hr]) (by rw [hr])
    rw [hr]
    exact space_meet k.entered c
  | parks c hw =>
    have hsw := switched_blockCurrent p
      (k.entered.setEndpoint c.ep (c.offer (k.endpoints c.ep))) c.side.reason c.ep rsp
    exact .of_space (by rw [hr, hsw.board.space]; rfl) (by rw [hr, hsw.woke])

end Kernel

/-- The operations of a running system in which ring-3 code makes syscalls and is preempted. -/
def Op.isSyscallOrTick {μ : Type} : Op μ → Bool
  | .syscall .. | .tick _ => true
  | _ => false

/-- **Syscalls conserve capabilities.** In every reachable state, every syscall leaves the
capabilities of all tables together as they were, and changes at most the two slots of the move
its rendezvous makes; a transfer that fails changes none. Therefore no sequence of syscalls
duplicates, destroys or invents a capability. -/
theorem syscalls_conserve {μ : Type} (p : Platform μ) (m₀ : μ) (h : List (Op μ)) :
    (∀ nr cptr method arg0 xfer rsp,
        (kernelAfter p m₀ h).Conserving p (.syscall nr cptr method arg0 xfer rsp)) ∧
      ∀ g : List (Op μ), (∀ op ∈ g, op.isSyscallOrTick = true) →
        (kernelAfter p m₀ (g ++ h)).space.holdings = (kernelAfter p m₀ h).space.holdings := by
  have hsys : ∀ h : List (Op μ), ∀ nr cptr method arg0 xfer rsp,
      (kernelAfter p m₀ h).Conserving p (.syscall nr cptr method arg0 xfer rsp) :=
    fun h => Kernel.conserving_syscall p fun d i e => rights_le_all p m₀ h
  refine ⟨hsys h, fun g hg => ?_⟩
  induction g with
  | nil => rfl
  | cons op g ih =>
    rw [← ih fun op' hop' => hg op' (List.mem_cons_of_mem _ hop')]
    have hop := hg op List.mem_cons_self
    cases op with
    | syscall nr cptr method arg0 xfer rsp =>
      exact (hsys (g ++ h) nr cptr method arg0 xfer rsp).holdings
    | tick rsp =>
      exact congrArg Space.holdings ((kernelAfter p m₀ (g ++ h)).scheduleTick_keeps p rsp).1.space
    | _ => cases hop

end Cairn
