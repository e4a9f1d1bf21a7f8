import Mathlib.Logic.Basic

/-!
# Saved contexts that are used once

A switch between parties saves the context of the one it leaves and resumes the context of the one
it enters. A context is good for one resumption: afterwards it describes a computation that has
moved on, and when its party is gone it describes nothing. This file says so for a log of the
saves, the resumptions and the ends of parties, **latest first**, and reduces it to a recursion:
at every resumption, the resumed context is the one that is *pending* for the party.

Nothing here knows what the parties or the contexts are.

## Main definitions

* `Contexts.Event` — a context is stored, a context is resumed, a party ends
* `Contexts.pending` — the context of a party that has been stored and not been used up
* `Contexts.Exact` — every resumption of the log is of the pending context

## Main results

* `Contexts.Exact.resume_split` — behind a resumption there is the store of that very context, and
  nothing has happened to the party in between
-/

namespace Cairn

namespace Contexts

variable {τ ν : Type*}

/-- What happens to the contexts of the parties. -/
inductive Event (τ ν : Type*)
  /-- The context `v` is stored for `t`. -/
  | store (t : τ) (v : ν)
  /-- The context `v` is resumed, and `t` runs. -/
  | resume (t : τ) (v : ν)
  /-- The party `t` ends. -/
  | drop (t : τ)
  deriving DecidableEq, Repr

/-- The party an event is about. -/
def Event.party : Event τ ν → τ
  | .store t _ | .resume t _ | .drop t => t

/-- What an event leaves pending for its party. -/
def Event.leaves : Event τ ν → Option ν
  | .store _ v => some v
  | .resume _ _ | .drop _ => none

variable [DecidableEq τ]

/-- The context that has been stored for a party and neither been resumed nor lost since. -/
def pending : List (Event τ ν) → τ → Option ν
  | [], _ => none
  | e :: log, t => if e.party = t then e.leaves else pending log t

/-- Every resumption in the log is of the context pending for the party. -/
def Exact : List (Event τ ν) → Prop
  | [] => True
  | .resume t v :: log => pending log t = some v ∧ Exact log
  | .store _ _ :: log | .drop _ :: log => Exact log

theorem pending_cons_self {e : Event τ ν} (log : List (Event τ ν)) {t : τ} (h : e.party = t) :
    pending (e :: log) t = e.leaves := if_pos h

theorem pending_cons_of_ne {e : Event τ ν} (log : List (Event τ ν)) {t : τ} (h : e.party ≠ t) :
    pending (e :: log) t = pending log t := if_neg h

/-- A pending context was stored, and its party has been left alone since. -/
theorem exists_of_pending {log : List (Event τ ν)} {t : τ} {v : ν} (h : pending log t = some v) :
    ∃ between older, log = between ++ .store t v :: older ∧ ∀ e ∈ between, e.party ≠ t := by
  induction log with
  | nil => cases h
  | cons e log ih =>
    by_cases he : e.party = t
    · rw [pending_cons_self log he] at h
      cases e with
      | store u w =>
        cases h
        cases he
        exact ⟨[], log, rfl, nofun⟩
      | resume | drop => cases h
    · rw [pending_cons_of_ne log he] at h
      obtain ⟨between, older, rfl, hb⟩ := ih h
      refine ⟨e :: between, older, rfl, fun e' he' => ?_⟩
      rcases List.mem_cons.mp he' with rfl | hmem
      · exact he
      · exact hb e' hmem

theorem Exact.of_append {newer older : List (Event τ ν)} (h : Exact (newer ++ older)) :
    Exact older := by
  induction newer with
  | nil => exact h
  | cons e newer ih =>
    cases e with
    | resume => exact ih h.2
    | store | drop => exact ih h

/-- **A resumed context was stored last, is still whole, and is resumed for the first time**:
between its store and its resumption there is no event of its party at all. -/
theorem Exact.resume_split {log newer before : List (Event τ ν)} {t : τ} {v : ν} (h : Exact log)
    (hlog : log = newer ++ .resume t v :: before) :
    ∃ between older, before = between ++ .store t v :: older ∧ ∀ e ∈ between, e.party ≠ t := by
  subst hlog
  exact exists_of_pending h.of_append.1

end Contexts

end Cairn
