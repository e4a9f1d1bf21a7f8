import Mathlib.Data.List.Infix

/-!
# Runs of a step function

A system is an initial state and a total step function on states and operations. A *run* is the
list of operations executed so far, **latest first**, so that extending a run is `List.cons`,
the runs that came before a given one are its suffixes, and every fact about whole runs is a
structural induction with one case for the step.

Nothing here knows what the states or the operations are.

## Main definitions

* `Runs.after` — the state a run ends in
* `Runs.Every` — every step of a run satisfies a condition on the state it was taken in
* `Runs.count` — how many steps of a run satisfy such a condition

## Main results

* `Runs.invariant` — a predicate of the initial state preserved by allowed steps holds after
  every run of allowed steps
* `Runs.exists_latest` — the last step that brought a property about
* `Runs.count_add_le` — counted steps that pay from a potential
* `Runs.every_iff_suffix`, `Runs.every_of_suffix`, `Runs.count_le_of_suffix` — restricting to an
  earlier run
-/

namespace Cairn

namespace Runs

variable {σ ι : Type*} (step : σ → ι → σ) (s₀ : σ)

/-- The state after a run. -/
def after : List ι → σ
  | [] => s₀
  | i :: h => step (after h) i

@[simp] theorem after_nil : after step s₀ [] = s₀ := rfl

@[simp] theorem after_cons (i : ι) (h : List ι) :
    after step s₀ (i :: h) = step (after step s₀ h) i := rfl

theorem after_append (f h : List ι) :
    after step s₀ (f ++ h) = after step (after step s₀ h) f := by
  induction f with
  | nil => rfl
  | cons i f ih => exact congrArg (step · i) ih

/-- Every step of the run was taken in a state that allowed it. -/
def Every (ok : σ → ι → Prop) : List ι → Prop
  | [] => True
  | i :: h => ok (after step s₀ h) i ∧ Every ok h

variable {step s₀}

@[simp] theorem every_cons {ok : σ → ι → Prop} {i : ι} {h : List ι} :
    Every step s₀ ok (i :: h) ↔ ok (after step s₀ h) i ∧ Every step s₀ ok h := Iff.rfl

theorem every_of_suffix {ok : σ → ι → Prop} {g h : List ι} (hg : g <:+ h)
    (hh : Every step s₀ ok h) : Every step s₀ ok g := by
  obtain ⟨f, rfl⟩ := hg
  induction f with
  | nil => exact hh
  | cons i f ih => exact ih hh.2

theorem every_iff_suffix {ok : σ → ι → Prop} {h : List ι} :
    Every step s₀ ok h ↔ ∀ g i, i :: g <:+ h → ok (after step s₀ g) i := by
  constructor
  · exact fun hh g i hg => (every_of_suffix hg hh).1
  · intro hall
    induction h with
    | nil => trivial
    | cons i h ih =>
      exact ⟨hall h i List.suffix_rfl, ih fun g j hg => hall g j (hg.trans (List.suffix_cons i h))⟩

theorem every_mono {ok ok' : σ → ι → Prop} (himp : ∀ s i, ok s i → ok' s i) {h : List ι}
    (hh : Every step s₀ ok h) : Every step s₀ ok' h := by
  induction h with
  | nil => trivial
  | cons i h ih => exact ⟨himp _ _ hh.1, ih hh.2⟩

/-- **The invariant rule.** What holds initially and survives every allowed step holds after
every run of allowed steps. -/
theorem invariant {ok : σ → ι → Prop} {Inv : σ → Prop} (hinit : Inv s₀)
    (hstep : ∀ s i, ok s i → Inv s → Inv (step s i)) :
    ∀ {h : List ι}, Every step s₀ ok h → Inv (after step s₀ h)
  | [], _ => hinit
  | i :: h, hh => hstep _ i hh.1 (invariant hinit hstep (h := h) hh.2)

variable (step s₀)

/-- **The last cause.** If a property does not hold initially and only steps of a certain kind
bring it about, then where it holds there is a last step of that kind, and the property has held
ever since. -/
theorem exists_latest (P : σ → Prop) (cause : σ → ι → Prop) (hinit : ¬P s₀)
    (hstep : ∀ s i, P (step s i) → P s ∨ cause s i) {h : List ι} (hP : P (after step s₀ h)) :
    ∃ g i, i :: g <:+ h ∧ cause (after step s₀ g) i ∧
      (∀ g' j, j :: g' <:+ h → i :: g <:+ g' → ¬cause (after step s₀ g') j) ∧
      ∀ g', i :: g <:+ g' → g' <:+ h → P (after step s₀ g') := by
  induction h with
  | nil => exact absurd hP hinit
  | cons i h ih =>
    by_cases hc : cause (after step s₀ h) i
    · refine ⟨h, i, List.suffix_rfl, hc, fun g' j hj hg' => ?_, fun g' hg hg' => ?_⟩
      · have hlen := hj.length_le.trans hg'.length_le
        rw [List.length_cons] at hlen
        omega
      · rw [hg'.eq_of_length_le hg.length_le]
        exact hP
    · obtain ⟨g, j, hg, hj, hlast, hsince⟩ := ih ((hstep _ _ hP).resolve_right hc)
      refine ⟨g, j, hg.trans (List.suffix_cons i h), hj, fun g' j' hj' hg' => ?_,
        fun g' hg hg' => ?_⟩
      · rcases List.suffix_cons_iff.mp hj' with heq | hsuf
        · cases heq
          exact hc
        · exact hlast g' j' hsuf hg'
      · rcases List.suffix_cons_iff.mp hg' with rfl | hsuf
        · exact hP
        · exact hsince g' hg hsuf

/-- The number of steps of a run that satisfy `p` in the state they were taken in. -/
def count (p : σ → ι → Bool) : List ι → ℕ
  | [] => 0
  | i :: h => count p h + if p (after step s₀ h) i then 1 else 0

variable {step s₀}

@[simp] theorem count_nil (p : σ → ι → Bool) : count step s₀ p [] = 0 := rfl

theorem count_cons (p : σ → ι → Bool) (i : ι) (h : List ι) :
    count step s₀ p (i :: h)
      = count step s₀ p h + if p (after step s₀ h) i then 1 else 0 := rfl

theorem count_le_of_suffix (p : σ → ι → Bool) {g h : List ι} (hg : g <:+ h) :
    count step s₀ p g ≤ count step s₀ p h := by
  obtain ⟨f, rfl⟩ := hg
  induction f with
  | nil => exact Nat.le_refl _
  | cons i f ih => rw [List.cons_append, count_cons]; omega

variable (step s₀)

/-- **The potential rule.** If the counted steps pay from a potential that no step of a stretch
refills, the stretch has at most as many of them as the potential it starts with. -/
theorem count_add_le (p : σ → ι → Bool) (pot : σ → ℕ) {ok : ι → Prop}
    (hstep : ∀ s i, ok i → (pot (step s i) + if p s i then 1 else 0) ≤ pot s) (g : List ι)
    {f : List ι} (hf : ∀ i ∈ f, ok i) :
    count step s₀ p (f ++ g) + pot (after step s₀ (f ++ g))
      ≤ count step s₀ p g + pot (after step s₀ g) := by
  induction f with
  | nil => exact Nat.le_refl _
  | cons i f ih =>
    have hpay := hstep (after step s₀ (f ++ g)) i (hf i List.mem_cons_self)
    have hrest := ih fun j hj => hf j (List.mem_cons_of_mem i hj)
    rw [List.cons_append, count_cons, after_cons]
    omega

end Runs

end Cairn
