import Cairn.Kernel.Parking
import Cairn.CapCore.Provenance

/-!
# The kernel as a client of the capability core

Every change the kernel makes to its capability tables is a short list of operations of the core:
a constructor creates an object and mints one capability for it, a rendezvous delegates and then
clears, reaping clears a table slot by slot. `Kernel.coreOps` says which operations a step
performs and `Emits` is the discipline they follow. From there on, questions about authority are
questions about the run of the core, `coreRun`, and are answered by its chains.

## Main definitions

* `Emits` — a list of core operations as the kernel issues them
* `Kernel.coreOps`, `coreRun` — the core operations of a step and of a run

## Main results

* `Kernel.emits_step`, `emits_run` — the kernel refines the core
* `authority_granted` — every capability goes back to a constructor, through live delegations
-/

namespace Cairn

/-- The kinds and rights the constructors mint. -/
def Kernel.constructors : List (ObjectKind × Rights) :=
  [(.memory, mappableRights), (.notification, notificationRights), (.endpoint, endpointRights),
    (.timeSlice, .invoke), (.extent, mappableRights), (.deviceQueue, mappableRights)]

/-- The operations the kernel issues outside constructors. -/
def CapOp.derives {τ : Type} : CapOp τ → Bool
  | .delegate .. | .sealCap .. | .revoke _ | .clear .. => true
  | .createObject _ | .destroyObject _ | .mint .. => false

/-- `Emits s l s'`: the kernel takes the tables from `s` to `s'` by the operations `l`, latest
first. It mints only in a constructor, directly after creating the object and in the root domain,
and never destroys an object. -/
inductive Emits : Space (Fin maxDomains) → List (CapOp (Fin maxDomains)) →
    Space (Fin maxDomains) → Prop
  | refl (s : Space (Fin maxDomains)) : Emits s [] s
  | derive {s s' : Space (Fin maxDomains)} {l : List (CapOp (Fin maxDomains))}
      (op : CapOp (Fin maxDomains)) (before : Emits s l s') (derives : op.derives = true) :
      Emits s (op :: l) (s'.step op)
  | construct {s s' : Space (Fin maxDomains)} {l : List (CapOp (Fin maxDomains))}
      {kind : ObjectKind} {rights : Rights} {oid : Fin objectTableSize} {ot : ObjectTable}
      (before : Emits s l s') (listed : (kind, rights) ∈ Kernel.constructors)
      (created : s'.objects.createObject kind = some (oid, ot)) :
      Emits s (.mint 0 oid rights 0 :: .createObject kind :: l)
        ((s'.step (.createObject kind)).step (.mint 0 oid rights 0))

namespace Emits

variable {s s' s'' : Space (Fin maxDomains)} {l l' : List (CapOp (Fin maxDomains))}

theorem trans (h' : Emits s' l' s'') (h : Emits s l s') : Emits s (l' ++ l) s'' := by
  induction h' with
  | refl => exact h
  | derive op _ derives ih => exact .derive op ih derives
  | construct _ listed created ih => exact .construct ih listed created

/-- The tables are those the core arrives at. -/
theorem after_eq (h : Emits s l s') : s' = Runs.after Space.step s l := by
  induction h with
  | refl => rfl
  | derive _ _ _ ih => rw [Runs.after_cons, ih]
  | construct _ _ _ ih => rw [Runs.after_cons, Runs.after_cons, ih]

/-- Every entry keeps naming a present object of its kind. -/
theorem named (h : Emits s l s') (hs : s.Named) : s'.Named := by
  induction h with
  | refl => exact hs
  | derive _ _ derives ih =>
    refine ih.step ?_
    rintro oid rfl
    cases derives
  | construct _ _ _ ih => exact (ih.step (by simp)).step (by simp)

/-- The kernel never destroys an object. -/
theorem not_destroyObject (h : Emits s l s') : ∀ op ∈ l, ∀ oid, op ≠ .destroyObject oid := by
  induction h with
  | refl =>
    intro op hop
    cases hop
  | derive op _ derives ih =>
    refine List.forall_mem_cons.mpr ⟨?_, ih⟩
    rintro oid rfl
    cases derives
  | construct _ _ _ ih =>
    rw [List.forall_mem_cons, List.forall_mem_cons]
    refine ⟨fun oid h => ?_, fun oid h => ?_, ih⟩
    · cases h
    · cases h

end Emits

/-- The run contains the constructor call that gave out `o`: an object of its kind was created
under its id, and a capability for it was minted in the root domain. -/
def Constructed (l : List (CapOp (Fin maxDomains))) (o : Origin) : Prop :=
  ∃ g ot, ∃ j : Fin objectTableSize, o.oid = j ∧
    .mint 0 o.oid o.rights 0 :: .createObject o.kind :: g <:+ l ∧
    (spaceAfter g).objects.createObject o.kind = some (j, ot) ∧
    (o.kind, o.rights) ∈ Kernel.constructors

theorem Constructed.mono {l l' : List (CapOp (Fin maxDomains))} {o : Origin}
    (h : Constructed l o) (hl : l <:+ l') : Constructed l' o := by
  obtain ⟨g, ot, j, hj, hg, hnew, hmem⟩ := h
  exact ⟨g, ot, j, hj, hg.trans hl, hnew, hmem⟩

/-- A mint in a run of the kernel belongs to a constructor call. -/
theorem Emits.constructed {l : List (CapOp (Fin maxDomains))} {s' : Space (Fin maxDomains)}
    (h : Emits .new l s') {g : List (CapOp (Fin maxDomains))} {t : Fin maxDomains} {oid : ℕ}
    {rights : Rights} {b : BitVec 16} {m : ObjectMeta} (hg : .mint t oid rights b :: g <:+ l)
    (hm : (spaceAfter g).objects.metaAt oid = some m) :
    t = 0 ∧ Constructed l ⟨oid, m.kind, rights⟩ := by
  induction h with
  | refl => exact absurd (List.suffix_nil.mp hg) (List.cons_ne_nil _ _)
  | derive _ _ derives ih =>
    rcases List.suffix_cons_iff.mp hg with heq | hg'
    · cases heq
      cases derives
    · obtain ⟨ht, hc⟩ := ih hg'
      exact ⟨ht, hc.mono (List.suffix_cons _ _)⟩
  | @construct _ l kind rights' j ot before listed created ih =>
    rcases List.suffix_cons_iff.mp hg with heq | hg'
    · cases heq
      rw [before.after_eq] at created
      obtain ⟨-, -, rfl⟩ := ObjectTable.createObject_eq_some_iff.mp created
      have hobj : (spaceAfter (.createObject kind :: l)).objects.metas j = ⟨kind, 0, true⟩ := by
        rw [spaceAfter_cons, Space.step, spaceAfter, created]
        exact Function.update_self ..
      obtain ⟨hlt, hmeta⟩ := ObjectTable.metaAt_eq_some_iff.mp hm
      obtain rfl : m = ⟨kind, 0, true⟩ := hmeta.symm.trans hobj
      exact ⟨rfl, l, _, j, rfl, List.suffix_refl _, created, listed⟩
    · rcases List.suffix_cons_iff.mp hg' with heq | hg''
      · cases heq
      · obtain ⟨ht, hc⟩ := ih hg''
        exact ⟨ht, hc.mono ((List.suffix_cons _ _).trans (List.suffix_cons _ _))⟩

namespace Kernel

variable {μ : Type}

/-! ### The core operations of a step -/

/-- The operations of a constructor. -/
def constructOps (s : Space (Fin maxDomains)) (kind : ObjectKind) (rights : Rights) :
    List (CapOp (Fin maxDomains)) :=
  match s.objects.createObject kind with
  | none => []
  | some (oid, _) => [.mint 0 oid rights 0, .createObject kind]

/-- A domain that `delegate_from_root` grants to has a table. -/
theorem lt_of_grantee {dst : ℕ} (h : dst ≠ 0 ∧ dst < maxDomains) : dst < maxDomains := h.2

/-- The operation of `delegate_from_root`. -/
def delegateOps (dst src : ℕ) (mask : Rights) (badge : BitVec 16) :
    List (CapOp (Fin maxDomains)) :=
  if h : dst ≠ 0 ∧ dst < maxDomains then [.delegate 0 src mask badge ⟨dst, lt_of_grantee h⟩] else []

/-- The operations of a transfer. -/
def transferOps (s : Space (Fin maxDomains)) (src : ℕ) (xfer : BitVec 16) (dst : ℕ) :
    List (CapOp (Fin maxDomains)) :=
  if h : xfer ≠ cptrNone ∧ src ≠ dst ∧ src < maxDomains ∧ dst < maxDomains then
    match (s.tables ⟨src, h.2.2.1⟩).delegate s.objects xfer.toNat .all 0
        (s.tables ⟨dst, h.2.2.2⟩) with
    | .ok _ =>
      [.clear ⟨src, h.2.2.1⟩ (Fin.ofNat capTableSlots xfer.toNat),
        .delegate ⟨src, h.2.2.1⟩ xfer.toNat .all 0 ⟨dst, h.2.2.2⟩]
    | .error _ => []
  else []

/-- The operations of reaping a domain. -/
def reapOps (domain : ℕ) : List (CapOp (Fin maxDomains)) :=
  if h : domain < maxDomains then (List.finRange capTableSlots).map (.clear ⟨domain, h⟩) else []

/-- The operations of re-granting the capabilities of a restarted domain. -/
def regrantOps (k : Kernel μ) : List (CapOp (Fin maxDomains)) :=
  constructOps k.regrant.2.space .timeSlice .invoke ++
    ((k.initRoot.1.elim [] fun m => delegateOps faultDomain m .invoke 0) ++
      constructOps k.space .memory mappableRights)

/-- The operations of the restart hook. -/
def restartOps (k : Kernel μ) (domain : ℕ) : List (CapOp (Fin maxDomains)) :=
  if domain ≠ faultDomain ∨ k.faulter.restarts = 0 then []
  else k.spend.regrantOps

/-- The core operations of one step, latest first. -/
def coreOps (p : Platform μ) (k : Kernel μ) (op : Op μ) : List (CapOp (Fin maxDomains)) :=
  match op with
  | .initRoot => constructOps k.space .memory mappableRights
  | .createNotification => constructOps k.space .notification notificationRights
  | .createEndpoint => constructOps k.space .endpoint endpointRights
  | .mintTimeslice => constructOps k.space .timeSlice .invoke
  | .mintExtent _ => constructOps k.space .extent mappableRights
  | .createDeviceQueue _ _ =>
    if (p.deviceQueueDesc k.machine).isSome then constructOps k.space .deviceQueue mappableRights
    else []
  | .delegateFromRoot dst src mask badge => delegateOps dst src mask badge
  | .sealCap d c => [.sealCap d c]
  | .revoke oid => [.revoke oid]
  | .syscall .. =>
    -- a syscall moves a capability only when it meets a partner
    match k.callOf op, (k.step p op).1.woke with
    | some c, some _ =>
      transferOps k.space (c.sendDomain (k.endpoints c.ep)) (c.xfer (k.endpoints c.ep))
        (c.recvDomain (k.endpoints c.ep))
    | _, _ => []
  | .fault =>
    (k.dropCurrent.reapDomain p (k.task k.current).domain k.current).restartOps
      (k.task k.current).domain ++ reapOps (k.task k.current).domain
  | _ => []

theorem emits_construct (k : Kernel μ) {kind : ObjectKind} {rights : Rights}
    (hmem : (kind, rights) ∈ constructors) (payload : Fin objectTableSize → Kernel μ → Kernel μ)
    (hpay : ∀ oid k, (payload oid k).space = k.space) :
    Emits k.space (constructOps k.space kind rights) (k.construct kind rights payload).2.space := by
  rw [construct, constructOps]
  cases hnew : k.space.objects.createObject kind with
  | none => exact .refl _
  | some r =>
    obtain ⟨oid, ot⟩ := r
    have hemit := Emits.construct (.refl k.space) hmem hnew
    have hstep : k.space.step (.createObject kind) = { k.space with objects := ot } := by
      rw [Space.step, hnew]
    rw [hstep, Space.step] at hemit
    dsimp only at hemit ⊢
    rw [hpay]
    dsimp only
    cases hmint : CapTable.mint (k.space.tables 0) ot oid rights 0 with
    | error st =>
      rw [hmint] at hemit
      dsimp only at hemit ⊢
      rw [hpay]
      exact hemit
    | ok r =>
      rw [hmint] at hemit
      dsimp only at hemit ⊢
      exact hemit

theorem emits_delegateFromRoot (k : Kernel μ) (dst src : ℕ) (mask : Rights) (badge : BitVec 16) :
    Emits k.space (delegateOps dst src mask badge)
      (k.delegateFromRoot dst src mask badge).2.space := by
  rw [delegateFromRoot, delegateOps]
  by_cases h : dst ≠ 0 ∧ dst < maxDomains
  · rw [dif_pos h, dif_pos h]
    have hemit := Emits.derive (.delegate 0 src mask badge ⟨dst, h.2⟩) (.refl k.space) rfl
    rw [Space.step] at hemit
    cases hdel : (k.space.tables 0).delegate k.space.objects src mask badge
        (k.space.tables ⟨dst, h.2⟩) with
    | error st =>
      rw [hdel] at hemit
      exact hemit
    | ok r =>
      rw [hdel] at hemit
      exact hemit
  · rw [dif_neg h, dif_neg h]
    exact .refl _

theorem emits_transfer (k : Kernel μ) (src : ℕ) (xfer : BitVec 16) (dst : ℕ) :
    Emits k.space (transferOps k.space src xfer dst) (k.transfer src xfer dst).2.space := by
  rw [transfer, transferOps]
  by_cases hx : xfer = cptrNone
  · rw [if_neg (not_not.mpr hx), dif_neg (fun h => h.1 hx)]
    exact .refl _
  rw [if_pos hx, doCapTransfer]
  by_cases h : src ≠ dst ∧ src < maxDomains ∧ dst < maxDomains
  · rw [dif_pos h, dif_pos ⟨hx, h⟩]
    cases hdel : (k.space.tables ⟨src, h.2.1⟩).delegate k.space.objects xfer.toNat .all 0
        (k.space.tables ⟨dst, h.2.2⟩) with
    | error st => exact .refl _
    | ok r =>
      have hemit := Emits.derive (.delegate ⟨src, h.2.1⟩ xfer.toNat .all 0 ⟨dst, h.2.2⟩)
        (.refl k.space) rfl
      have hclear := Emits.derive (.clear ⟨src, h.2.1⟩ (Fin.ofNat capTableSlots xfer.toNat))
        hemit rfl
      simp only [Space.step, hdel] at hclear
      exact hclear
  · rw [dif_neg h, dif_neg (fun h' => h h'.2)]
    exact .refl _

/-- Clearing slots one by one. -/
theorem emits_clear (s : Space (Fin maxDomains)) (d : Fin maxDomains)
    (l : List (Fin capTableSlots)) : Emits s (l.map (.clear d))
      (s.setTable d ⟨fun i => if i ∈ l then none else s.slot d i⟩) := by
  induction l with
  | nil =>
    have hsame : s.setTable d ⟨fun i => if i ∈ [] then none else s.slot d i⟩ = s := by
      simp [Space.setTable, Space.slot]
    rw [hsame]
    exact .refl s
  | cons j l ih =>
    have hemit := Emits.derive (.clear d j) ih rfl
    have hstep : (s.setTable d ⟨fun i => if i ∈ l then none else s.slot d i⟩).step (.clear d j)
        = s.setTable d ⟨fun i => if i ∈ j :: l then none else s.slot d i⟩ := by
      have hset : (⟨fun i => if i ∈ l then none else s.slot d i⟩ : CapTable).set j none
          = ⟨fun i => if i ∈ j :: l then none else s.slot d i⟩ := by
        refine congrArg CapTable.mk (funext fun i => ?_)
        by_cases hi : i = j <;> simp [hi, List.mem_cons]
      simp only [Space.step, Space.setTable, Function.update_self, Function.update_idem, hset]
    rw [hstep] at hemit
    exact hemit

theorem emits_reapDomain (p : Platform μ) (k : Kernel μ) (domain taskIdx : ℕ) :
    Emits k.space (reapOps domain) (k.reapDomain p domain taskIdx).space := by
  simp only [reapDomain, reapOps]
  split
  · rename_i h
    have hemit := emits_clear k.space ⟨domain, h⟩ (List.finRange capTableSlots)
    simp only [List.mem_finRange, if_true] at hemit
    exact hemit
  · exact .refl _

theorem space_admitWith (p : Platform μ) (k : Kernel μ) (frame : Fin maxTasks → TaskFrame)
    (cptr domain period rel budget : ℕ) :
    (k.admitWith p frame cptr domain period rel budget).2.space = k.space := by
  rcases k.admitWith_cases p frame cptr domain period rel budget with heq |
    ⟨i, k', heq, -, -, -, -, -, -, -, hspace, -⟩
  · rw [heq]
  · rw [heq]
    exact hspace

theorem emits_initRoot (k : Kernel μ) :
    Emits k.space (constructOps k.space .memory mappableRights) k.initRoot.2.space :=
  k.emits_construct (by decide) _ fun _ _ => rfl

theorem emits_mintTimeslice (k : Kernel μ) :
    Emits k.space (constructOps k.space .timeSlice .invoke) k.mintTimeslice.2.space :=
  k.emits_construct (by decide) _ fun _ _ => rfl

theorem emits_granted (k : Kernel μ) :
    Emits k.space k.regrantOps k.granted.space := by
  have hmem : Emits k.initRoot.2.space
      (k.initRoot.1.elim [] fun m => delegateOps faultDomain m .invoke 0) k.regrant.2.space := by
    rw [regrant]
    rcases k.initRoot with ⟨_ | m, k'⟩
    · exact .refl _
    · exact k'.emits_delegateFromRoot _ _ _ _
  exact (emits_mintTimeslice _).trans (hmem.trans k.emits_initRoot)

theorem emits_onDomainDeath (p : Platform μ) (k : Kernel μ) (domain : ℕ) :
    Emits k.space (k.restartOps domain) (k.onDomainDeath p domain).space := by
  rw [restartOps]
  rcases k.onDomainDeath_cases p domain with ⟨hdom, heq⟩ |
    ⟨k₁, hdom, -, rfl, heq | ⟨frame, cptr, -, heq⟩⟩
  · rw [if_pos hdom, heq]
    exact .refl _
  · rw [if_neg hdom, heq]
    exact k.spend.emits_granted
  · rw [if_neg hdom, heq, space_admitWith]
    exact k.spend.emits_granted

theorem emits_syscall (p : Platform μ) (k : Kernel μ) (nr cptr method arg0 xfer rsp : BitVec 64) :
    Emits k.space (k.coreOps p (.syscall nr cptr method arg0 xfer rsp))
      (k.syscall p nr cptr method arg0 xfer rsp).2.space := by
  have hcases := k.syscall_cases p nr cptr method arg0 xfer rsp
  rw [coreOps, step]
  generalize k.callOf (.syscall nr cptr method arg0 xfer rsp) = call at hcases
  generalize k.syscall p nr cptr method arg0 xfer rsp = r at hcases
  cases hcases with
  | other st reply k' hk _ =>
    obtain ⟨_, _, _, _, rfl⟩ := hk
    exact .refl _
  | refused c st k' _ _ hk =>
    obtain ⟨_, _, _, _, rfl⟩ := hk
    exact .refl _
  | met c hw r =>
    show Emits k.space _ (k.entered.meet c).space
    rw [space_meet]
    exact emits_transfer (k.entered.setEndpoint c.ep { k.endpoints c.ep with state := .idle }) _ _ _
  | parks c hw =>
    have hsw := switched_blockCurrent p
      (k.entered.setEndpoint c.ep (c.offer (k.endpoints c.ep))) c.side.reason c.ep rsp
    rw [hsw.woke, hsw.board.space]
    exact .refl _

/-- **The kernel refines the core**: a step changes the capability tables by the core operations
listed for it. -/
theorem emits_step (p : Platform μ) (k : Kernel μ) (op : Op μ) :
    Emits k.space (k.coreOps p op) (k.step p op).2.space := by
  cases op with
  | initRoot => exact k.emits_initRoot
  | createNotification => exact k.emits_construct (by decide) _ fun _ _ => rfl
  | createEndpoint => exact k.emits_construct (by decide) _ fun _ _ => rfl
  | mintTimeslice => exact k.emits_mintTimeslice
  | mintExtent info => exact k.emits_construct (by decide) _ fun _ _ => rfl
  | createDeviceQueue magic lba =>
    rw [step, createDeviceQueue, coreOps]
    cases p.deviceQueueDesc k.machine with
    | none => exact .refl _
    | some dqd => exact k.emits_construct (by decide) _ fun _ _ => rfl
  | delegateFromRoot dst src mask badge => exact k.emits_delegateFromRoot dst src mask badge
  | sealCap d c => exact .derive _ (.refl _) rfl
  | revoke oid => exact .derive _ (.refl _) rfl
  | capInvokeIn d c method arg =>
    obtain ⟨_, _, _, _, heq⟩ := k.payload_capInvokeIn p d c method arg
    rw [step, heq]
    exact .refl _
  | setCurrentDomain d => exact .refl _
  | registerFaulter entry stackTop budget => exact .refl _
  | admitTask entry c period rel budget =>
    rw [step, admitTask, space_admitWith]
    exact .refl _
  | admitUser entry stackTop mem c d period rel budget =>
    rw [step, admitUser, space_admitWith]
    exact .refl _
  | syscall nr c method arg0 xfer rsp => exact k.emits_syscall p nr c method arg0 xfer rsp
  | tick rsp =>
    rw [step, (k.scheduleTick_keeps p rsp).1.space]
    exact .refl _
  | fault =>
    rw [step, terminateCurrent, (switched_restore p _).board.space]
    exact (emits_onDomainDeath p _ _).trans (emits_reapDomain p k.dropCurrent _ _)
  | outside m => exact .refl _

end Kernel

/-- The core operations of a run. -/
def coreRun {μ : Type} (p : Platform μ) (m₀ : μ) : List (Op μ) → List (CapOp (Fin maxDomains))
  | [] => []
  | op :: h => (kernelAfter p m₀ h).coreOps p op ++ coreRun p m₀ h

theorem emits_run {μ : Type} (p : Platform μ) (m₀ : μ) (h : List (Op μ)) :
    Emits .new (coreRun p m₀ h) (kernelAfter p m₀ h).space := by
  induction h with
  | nil => exact .refl _
  | cons op h ih => exact (Kernel.emits_step p _ op).trans ih

/-- The capability tables of the kernel are those of the core after the run of its operations. -/
theorem space_kernelAfter {μ : Type} (p : Platform μ) (m₀ : μ) (h : List (Op μ)) :
    (kernelAfter p m₀ h).space = spaceAfter (coreRun p m₀ h) :=
  (emits_run p m₀ h).after_eq

theorem named_after {μ : Type} (p : Platform μ) (m₀ : μ) (h : List (Op μ)) :
    (kernelAfter p m₀ h).space.Named :=
  (emits_run p m₀ h).named Space.named_new

/-! ### No result is `ErrType` -/

namespace Kernel

variable {μ : Type}

/-- No result staged for a task is `ErrType`. -/
def Staged (k : Kernel μ) : Prop := ∀ t, (k.seat t).ipc.status ≠ Status.errType.code

theorem Staged.of_seat {k k' : Kernel μ} (h : k.Staged) (hseat : k'.seat = k.seat) : k'.Staged :=
  fun t => hseat ▸ h t

theorem Staged.update {k k' : Kernel μ} (h : k.Staged) {t : Fin maxTasks} {s : Seat}
    (hseat : k'.seat = Function.update k.seat t s) (hs : s.ipc.status ≠ Status.errType.code) :
    k'.Staged := by
  intro u
  rw [hseat, Function.update_apply]
  split
  · exact hs
  · exact h u

theorem Staged.unblock {k : Kernel μ} (h : k.Staged) {r : IpcResult}
    (hr : r.status ≠ Status.errType.code) (t : ℕ) : (k.unblock t r).Staged := by
  by_cases ht : t < maxTasks
  · exact h.update (k.seat_unblock ⟨t, ht⟩ r) hr
  · rw [Kernel.unblock, dif_neg ht]
    exact h

theorem resolve_ne_errType {k : Kernel μ} (hn : k.space.Named) (d : Fin maxDomains)
    (c m : BitVec 16) : k.resolve d c m ≠ .error .errType := by
  intro h
  rw [resolve] at h
  cases he : (k.space.tables d).entryAt c.toNat with
  | none =>
    rw [CapTable.invoke_of_entryAt_none he] at h
    cases h
  | some e =>
    obtain ⟨hc, hslot⟩ := CapTable.entryAt_eq_some_iff.mp he
    have hcheck := hn.check_ne_errType hslot
    rw [CapTable.invoke_of_entryAt he, CapTable.lookup_of_entryAt he] at h
    cases hst : e.check k.space.objects with
    | errType => exact hcheck hst
    | ok =>
      rw [hst, if_pos rfl, if_pos rfl] at h
      by_cases hr : e.rights.contains .invoke = true
      · rw [if_pos hr] at h
        cases h
      · rw [if_neg hr] at h
        cases h
    | _ =>
      rw [hst] at h
      cases h

theorem meetTransfer_ne_errType {k : Kernel μ} (hn : k.space.Named) (c : Call) :
    (k.meetTransfer c).1 ≠ .error .errType := by
  intro h
  rcases k.meetTransfer_cases c with ⟨-, heq, -⟩ | ⟨st, -, -, htype, heq, -⟩ |
    ⟨_, _, _, _, _, _, _, _, _, heq, -⟩
  · cases heq.symm.trans h
  · cases heq.symm.trans h
    obtain ⟨d, i, e, he, hcheck⟩ := htype rfl
    exact hn.check_ne_errType he hcheck
  · cases heq.symm.trans h

theorem status_senderResult_ne {res : Except Status (BitVec 16)} (h : res ≠ .error .errType) :
    (senderResult res).status ≠ Status.errType.code := by
  rcases res with st | c
  · exact fun hc => h (congrArg _ (Status.code_injective hc))
  · show Status.ok.code ≠ Status.errType.code
    decide

theorem status_receiverResult_ne {res : Except Status (BitVec 16)} (h : res ≠ .error .errType)
    (msg : BitVec 64) : (receiverResult msg res).status ≠ Status.errType.code := by
  rcases res with st | c
  · exact fun hc => h (congrArg _ (Status.code_injective hc))
  · show Status.ok.code ≠ Status.errType.code
    decide

/-- Neither party of a rendezvous obtains `ErrType`. -/
theorem status_meet_ne {k : Kernel μ} (hn : k.space.Named) (c : Call) :
    (k.meetResult c).status ≠ Status.errType.code ∧
      (k.partnerResult c).status ≠ Status.errType.code := by
  have h := meetTransfer_ne_errType hn c
  rw [meetResult, partnerResult]
  cases c.side with
  | send => exact ⟨status_senderResult_ne h, status_receiverResult_ne h _⟩
  | recv => exact ⟨status_receiverResult_ne h _, status_senderResult_ne h⟩

/-- The state keeps `ErrType` out of the staged results and the step does not return it. -/
def TypedStep (r : Trace × Kernel μ) : Prop :=
  r.2.Staged ∧ ∀ t res, r.1.sysret = some (t, res) → res.status ≠ Status.errType.code

theorem Staged.switched {k : Kernel μ} (h : k.Staged) {r : Trace × Kernel μ} (hs : Switched k r) :
    TypedStep r :=
  ⟨h.of_seat hs.board.seat, fun t _ hret => hs.returned hret ▸ h t⟩

theorem Staged.syscall {k : Kernel μ} (h : k.Staged) (hn : k.space.Named) (p : Platform μ)
    (nr cptr method arg0 xfer rsp : BitVec 64) :
    TypedStep (k.syscall p nr cptr method arg0 xfer rsp) := by
  have hcases := k.syscall_cases p nr cptr method arg0 xfer rsp
  generalize k.callOf (.syscall nr cptr method arg0 xfer rsp) = call at hcases
  generalize k.syscall p nr cptr method arg0 xfer rsp = r at hcases
  cases hcases with
  | other st reply k' hk htype =>
    refine ⟨h.of_seat hk.aside.seat, ?_⟩
    rintro t res ⟨⟩ hst
    obtain ⟨c, m, hres⟩ := htype (Status.code_injective hst)
    exact resolve_ne_errType hn _ c m hres
  | refused c st k' _ htype hk =>
    refine ⟨h.of_seat hk.aside.seat, ?_⟩
    rintro t res ⟨⟩ hst
    exact htype (Status.code_injective hst)
  | met c hw r =>
    have hstatus := status_meet_ne (k := k.entered) hn c
    obtain ⟨s, -, -, heq⟩ := k.entered.meet_eq c
    refine ⟨?_, ?_⟩
    · show (k.entered.meet c).Staged
      rw [heq]
      refine Staged.unblock ?_ hstatus.2 _
      exact h
    · rintro t res ⟨⟩
      exact hstatus.1
  | parks c hw =>
    refine Staged.switched ?_ (switched_blockCurrent p _ _ _ _)
    exact h.update (seat_parkCurrent _ _ _) (h _)

theorem Staged.admitWith {k : Kernel μ} (h : k.Staged) (p : Platform μ)
    (frame : Fin maxTasks → TaskFrame) (cptr domain period rel budget : ℕ) :
    (k.admitWith p frame cptr domain period rel budget).2.Staged := by
  rcases k.admitWith_cases p frame cptr domain period rel budget with heq |
    ⟨i, k', heq, -, -, -, hseat, -⟩
  · rw [heq]
    exact h
  · rw [heq]
    exact h.update hseat nofun

theorem Staged.reapDomain {k : Kernel μ} (h : k.Staged) (p : Platform μ) (domain taskIdx : ℕ) :
    (k.reapDomain p domain taskIdx).Staged := by
  simp only [Kernel.reapDomain]
  split <;> exact h

theorem Staged.background {k : Kernel μ} (h : k.Staged) (p : Platform μ) {op : Op μ}
    (hop : op.background = true) : TypedStep (k.step p op) := by
  obtain ⟨haside, htrace⟩ := k.aside_step p hop
  refine ⟨h.of_seat haside.seat, ?_⟩
  rw [htrace]
  exact nofun

/-- **One step returns no `ErrType` and stages none.** -/
theorem typed_step (p : Platform μ) {k : Kernel μ} (hn : k.space.Named) (h : k.Staged)
    (op : Op μ) : TypedStep (k.step p op) := by
  cases op with
  | setCurrentDomain d => exact ⟨h, nofun⟩
  | admitTask entry c period rel budget => exact ⟨h.admitWith p _ _ _ _ _ _, nofun⟩
  | admitUser entry stackTop mem c d period rel budget => exact ⟨h.admitWith p _ _ _ _ _ _, nofun⟩
  | syscall nr c method arg0 xfer rsp => exact h.syscall hn p nr c method arg0 xfer rsp
  | tick rsp =>
    obtain ⟨hboard, hret⟩ := k.scheduleTick_keeps p rsp
    exact ⟨h.of_seat hboard.seat, fun t r hr => hret t r hr ▸ h t⟩
  | fault =>
    refine Staged.switched ?_ (switched_restore p _)
    have hdrop : k.dropCurrent.Staged := h.update (k.seat_setTask k.current _) (h _)
    have hreap := hdrop.reapDomain p (k.task k.current).domain k.current
    rcases onDomainDeath_cases p (k.dropCurrent.reapDomain p (k.task k.current).domain k.current)
      (k.task k.current).domain with ⟨-, heq⟩ | ⟨k₁, -, haside, -, heq | ⟨frame, cptr, -, heq⟩⟩
    · rw [heq]
      exact hreap
    · rw [heq]
      exact hreap.of_seat haside.seat
    · rw [heq]
      exact (hreap.of_seat haside.seat).admitWith p _ _ _ _ _ _
  | _ => exact h.background p rfl

end Kernel

theorem staged_after {μ : Type} (p : Platform μ) (m₀ : μ) (h : List (Op μ)) :
    (kernelAfter p m₀ h).Staged := by
  induction h with
  | nil =>
    intro t
    show ((Kernel.init p m₀).seat t).ipc.status ≠ _
    rw [Kernel.seat_init]
    split <;> exact nofun
  | cons op h ih => exact (Kernel.typed_step p (named_after p m₀ h) ih op).1

/-- Every stored entry has a chain that starts at a constructor call, and outside the root domain
the chain has a hop. -/
theorem exists_chain_after {μ : Type} (p : Platform μ) (m₀ : μ) (h : List (Op μ))
    {d : Fin maxDomains} {i : Fin capTableSlots} {e : CapEntry}
    (he : (kernelAfter p m₀ h).slot d i = some e) :
    ∃ o n s, Chain (coreRun p m₀ h) d i e o n s ∧ Constructed (coreRun p m₀ h) o ∧
      (d ≠ 0 → 0 < n) := by
  rw [Kernel.slot, space_kernelAfter] at he
  obtain ⟨o, n, s, hchain⟩ := exists_chain he
  obtain ⟨g, t₀, b, m, hg, hm, hkind, hn⟩ := hchain.minted
  obtain ⟨rfl, hcons⟩ := (emits_run p m₀ h).constructed hg hm
  rw [hkind] at hcons
  exact ⟨o, n, s, hchain, hcons, fun hd => Nat.pos_of_ne_zero fun h0 => hd (hn h0)⟩

/-- No entry carries a bit outside `Rights::ALL`. -/
theorem rights_le_all {μ : Type} (p : Platform μ) (m₀ : μ) (h : List (Op μ)) {d : Fin maxDomains}
    {i : Fin capTableSlots} {e : CapEntry} (he : (kernelAfter p m₀ h).slot d i = some e) :
    e.rights ≤ .all := by
  have hall : ∀ a ∈ Kernel.constructors, a.2 ≤ .all := by decide
  obtain ⟨o, n, s, hchain, ⟨_, _, _, _, _, _, hmem⟩, -⟩ := exists_chain_after p m₀ h he
  exact hchain.rights_le.2.2.trans (hall _ hmem)

/-- **Authority is granted, never forged or amplified.** After any run of constructors,
delegations, seals, revocations, syscalls of any domain, ticks, faults and restarts, every stored
entry goes back to a constructor call for its object: the call minted the kind the entry carries
and the object still has, with at least the rights of the entry, and outside the root domain the
entry arrived by at least one hop from a live, unsealed entry with `DELEGATE`. No syscall ever
returns `ErrType`. -/
theorem authority_granted {μ : Type} (p : Platform μ) (m₀ : μ) (h : List (Op μ)) :
    (kernelAfter p m₀ h).space = spaceAfter (coreRun p m₀ h) ∧
      (∀ d i e, (kernelAfter p m₀ h).slot d i = some e →
        ∃ o n s, Chain (coreRun p m₀ h) d i e o n s ∧ Constructed (coreRun p m₀ h) o ∧
          e.objectId = o.oid ∧ e.typeTag = o.kind ∧ e.rights ≤ o.rights ∧
          (∃ j : Fin objectTableSize, e.objectId = j ∧
            ((kernelAfter p m₀ h).space.objects.metas j).present = true ∧
            ((kernelAfter p m₀ h).space.objects.metas j).kind = e.typeTag) ∧
          (d ≠ 0 → 0 < n)) ∧
      ∀ op t r, ((kernelAfter p m₀ h).step p op).1.sysret = some (t, r) →
        r.status ≠ Status.errType.code := by
  refine ⟨space_kernelAfter p m₀ h, fun d i e he => ?_, fun op t r => ?_⟩
  · obtain ⟨o, n, s, hchain, hcons, hn⟩ := exists_chain_after p m₀ h he
    obtain ⟨hoid, hkind, hrights⟩ := hchain.rights_le
    exact ⟨o, n, s, hchain, hcons, hoid, hkind, hrights, named_after p m₀ h d i e he, hn⟩
  · exact (Kernel.typed_step p (named_after p m₀ h) (staged_after p m₀ h) op).2 t r

end Cairn
