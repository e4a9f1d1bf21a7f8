import Mathlib.Data.List.Infix

/-!
# Pairing the steps of a run

A party opens a session by one step of a run, another step answers it, and a third one closes it.
Which step of a run answers which is a question about the whole run; this file reduces it to a
recursion along the run and one uniqueness lemma.

A step is identified with the run that ends in it, latest operation first, so that "the step `a`
came before the step `b`" is the suffix relation and no clock is needed. Nothing here knows what
the operations are: `Signals` says for each step which party it opens, answers or closes a session
of.

## Main definitions

* `Signals`, `Stage`, `Signals.stage` — where the session of a party stands after a run
* `Signals.partner` — the opening step a step answers

## Main results

* `Signals.stage_waiting`, `Signals.stage_served` — what a stage says about the run
* `Signals.partner_unique` — no session is answered twice
-/

namespace Cairn

/-- What the last step of a run does to the sessions of the parties `τ`. -/
structure Signals (ι τ : Type*) where
  opens : List ι → Option τ
  answers : List ι → Option τ
  closes : List ι → Option τ

/-- Where a session stands: there is none, the step `a` has opened it, or the step `b` has
answered it. -/
inductive Stage (ι : Type*)
  | out
  | waiting (a : List ι)
  | served (a b : List ι)

/-- The stage after an answer by the step `b`. -/
def Stage.answer {ι : Type*} (b : List ι) : Stage ι → Stage ι
  | .waiting a => .served a b
  | s => s

namespace Signals

variable {ι τ : Type*} [DecidableEq τ] (S : Signals ι τ)

/-- The stage of the session of `t` after a run. -/
def stage : List ι → τ → Stage ι
  | [], _ => .out
  | i :: h, t =>
    if S.opens (i :: h) = some t then .waiting (i :: h)
    else if S.closes (i :: h) = some t then .out
    else if S.answers (i :: h) = some t then (stage h t).answer (i :: h)
    else stage h t

/-- The opening step of the session that the last step of `b` answers. -/
def partner (b : List ι) : Option (List ι) :=
  match S.answers b with
  | none => none
  | some t =>
    match S.stage b.tail t with
    | .waiting a => some a
    | _ => none

theorem stage_of_opens {i : ι} {h : List ι} {t : τ} (ho : S.opens (i :: h) = some t) :
    S.stage (i :: h) t = .waiting (i :: h) := by
  rw [stage, if_pos ho]

theorem stage_of_closes {i : ι} {h : List ι} {t : τ} (ho : S.opens (i :: h) ≠ some t)
    (hc : S.closes (i :: h) = some t) : S.stage (i :: h) t = .out := by
  rw [stage, if_neg ho, if_pos hc]

theorem stage_of_answers {i : ι} {h : List ι} {t : τ} (ho : S.opens (i :: h) ≠ some t)
    (hc : S.closes (i :: h) ≠ some t) (ha : S.answers (i :: h) = some t) :
    S.stage (i :: h) t = (S.stage h t).answer (i :: h) := by
  rw [stage, if_neg ho, if_neg hc, if_pos ha]

theorem stage_of_none {i : ι} {h : List ι} {t : τ} (ho : S.opens (i :: h) ≠ some t)
    (hc : S.closes (i :: h) ≠ some t) (ha : S.answers (i :: h) ≠ some t) :
    S.stage (i :: h) t = S.stage h t := by
  rw [stage, if_neg ho, if_neg hc, if_neg ha]

variable {S}

theorem partner_eq_some {b a : List ι} :
    S.partner b = some a ↔ ∃ t, S.answers b = some t ∧ S.stage b.tail t = .waiting a := by
  rw [partner]
  cases S.answers b with
  | none => simp
  | some t =>
    cases hs : S.stage b.tail t <;> simp [hs]

/-- The ways in which a stage comes about in one step. A waiting session does not survive an
answer. -/
theorem stage_cons (i : ι) (h : List ι) (t : τ) :
    (S.opens (i :: h) = some t ∧ S.stage (i :: h) t = .waiting (i :: h)) ∨
      S.stage (i :: h) t = .out ∨
      (S.answers (i :: h) = some t ∧ ∃ a, S.stage h t = .waiting a ∧
        S.stage (i :: h) t = .served a (i :: h)) ∨
      ((S.answers (i :: h) = some t → ∀ a, S.stage h t ≠ .waiting a) ∧
        S.stage (i :: h) t = S.stage h t) := by
  by_cases ho : S.opens (i :: h) = some t
  · exact Or.inl ⟨ho, S.stage_of_opens ho⟩
  by_cases hc : S.closes (i :: h) = some t
  · exact Or.inr (Or.inl (S.stage_of_closes ho hc))
  by_cases ha : S.answers (i :: h) = some t
  · have hstage := S.stage_of_answers ho hc ha
    cases hs : S.stage h t with
    | waiting a =>
      rw [hs] at hstage
      exact Or.inr (Or.inr (Or.inl ⟨ha, a, rfl, hstage⟩))
    | out | served =>
      rw [hs] at hstage
      exact Or.inr (Or.inr (Or.inr ⟨fun _ _ => nofun, hstage⟩))
  · exact Or.inr (Or.inr (Or.inr ⟨fun h => absurd h ha, S.stage_of_none ho hc ha⟩))

/-- A session that waits was opened by the step it names. -/
theorem stage_waiting {h : List ι} {t : τ} {a : List ι} (hs : S.stage h t = .waiting a) :
    a <:+ h ∧ S.opens a = some t ∧ a ≠ [] := by
  induction h with
  | nil => cases hs
  | cons i h ih =>
    rcases S.stage_cons i h t with ⟨ho, heq⟩ | heq | ⟨-, a', -, heq⟩ | ⟨-, heq⟩
    · cases heq.symm.trans hs
      exact ⟨List.suffix_refl _, ho, List.cons_ne_nil _ _⟩
    · cases heq.symm.trans hs
    · cases heq.symm.trans hs
    · obtain ⟨hsuf, hrest⟩ := ih (heq.symm.trans hs)
      exact ⟨hsuf.trans (List.suffix_cons _ _), hrest⟩

/-- A session that was served was answered by the step it names. -/
theorem stage_served {h : List ι} {t : τ} {a b : List ι} (hs : S.stage h t = .served a b) :
    b <:+ h ∧ S.answers b = some t ∧ S.partner b = some a := by
  induction h with
  | nil => cases hs
  | cons i h ih =>
    rcases S.stage_cons i h t with ⟨-, heq⟩ | heq | ⟨ha, a', hwait, heq⟩ | ⟨-, heq⟩
    · cases heq.symm.trans hs
    · cases heq.symm.trans hs
    · cases heq.symm.trans hs
      exact ⟨List.suffix_refl _, ha, partner_eq_some.mpr ⟨t, ha, hwait⟩⟩
    · obtain ⟨hsuf, hrest⟩ := ih (heq.symm.trans hs)
      exact ⟨hsuf.trans (List.suffix_cons _ _), hrest⟩

/-- A step answers a session that an earlier step opened. -/
theorem partner_opens {b a : List ι} (hp : S.partner b = some a) :
    ∃ t, S.answers b = some t ∧ S.opens a = some t ∧ a <:+ b.tail ∧ a ≠ [] := by
  obtain ⟨t, ht, hs⟩ := partner_eq_some.mp hp
  obtain ⟨hsuf, ho, hne⟩ := stage_waiting hs
  exact ⟨t, ht, ho, hsuf, hne⟩

/-- After a session was answered, only a session opened since then can be waiting. -/
theorem suffix_of_waiting {b g : List ι} {t : τ} {a : List ι} (hb : S.answers b = some t)
    (hne : b ≠ []) (hbg : b <:+ g) (hs : S.stage g t = .waiting a) : b <:+ a := by
  obtain ⟨f, rfl⟩ := hbg
  induction f with
  | nil =>
    rw [List.nil_append] at hs
    obtain ⟨i, h, rfl⟩ := List.exists_cons_of_ne_nil hne
    rcases S.stage_cons i h t with ⟨-, heq⟩ | heq | ⟨-, a', -, heq⟩ | ⟨hans, heq⟩
    · cases heq.symm.trans hs
      exact List.suffix_refl _
    · cases heq.symm.trans hs
    · cases heq.symm.trans hs
    · exact absurd (heq.symm.trans hs) (hans hb a)
  | cons i f ih =>
    rw [List.cons_append] at hs
    rcases S.stage_cons i (f ++ b) t with ⟨-, heq⟩ | heq | ⟨-, a', -, heq⟩ | ⟨-, heq⟩
    · cases heq.symm.trans hs
      exact List.suffix_append (i :: f) b
    · cases heq.symm.trans hs
    · cases heq.symm.trans hs
    · exact ih (heq.symm.trans hs)

/-- A session that was answered is not answered again later. -/
theorem partner_ne_of_suffix {b b' a : List ι} (hb : b <:+ b'.tail) (hp : S.partner b = some a) :
    S.partner b' ≠ some a := by
  intro hp'
  obtain ⟨t, hans, hopen, hsuf, -⟩ := partner_opens hp
  obtain ⟨t', -, hs⟩ := partner_eq_some.mp hp'
  obtain ⟨-, hopen', -⟩ := stage_waiting hs
  cases hopen.symm.trans hopen'
  have hne : b ≠ [] := by
    rintro rfl
    exact (partner_opens hp).choose_spec.2.2.2 (List.suffix_nil.mp hsuf)
  -- the session waits for `b'`, so it was opened after `b`, and before `b`
  have hlen := (suffix_of_waiting hans hne hb hs).length_le
  have hlen' := hsuf.length_le
  have hpos := List.length_pos_of_ne_nil hne
  rw [List.length_tail] at hlen'
  omega

/-- **No session is answered twice.** -/
theorem partner_unique {h b b' a : List ι} (hb : b <:+ h) (hb' : b' <:+ h)
    (hp : S.partner b = some a) (hp' : S.partner b' = some a) : b = b' := by
  -- of two different steps of a run, one comes before the other
  have hlater : ∀ {c c' : List ι}, c <:+ c' → c ≠ c' → c <:+ c'.tail := by
    intro c c' hc hne
    obtain ⟨f, rfl⟩ := hc
    cases f with
    | nil => exact absurd rfl hne
    | cons i f => exact List.suffix_append f c
  by_contra hne
  rcases List.suffix_or_suffix_of_suffix hb hb' with hlt | hlt
  · exact partner_ne_of_suffix (hlater hlt hne) hp hp'
  · exact partner_ne_of_suffix (hlater hlt (Ne.symm hne)) hp' hp

end Signals

end Cairn
