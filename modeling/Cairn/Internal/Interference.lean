import Mathlib.Data.List.Basic
import Mathlib.Tactic.Common

/-!
# Programs under interference

A program works on a state it shares with an environment. It is a tree of atomic actions, each of
which looks at the state and updates it, and before each action the environment makes any number of
moves of its own. A schedule lists these moves, action by action; where the schedule ends, the
environment rests.

`Triple` is partial correctness under every schedule, in the style of rely-guarantee reasoning:
what is claimed before an action has to be *stable*, true after every move of the environment if it
was true before. A state the environment cannot change at all (`Undisturbed`) makes even its
description as that very state stable, so as long as a program passes only through such states it
behaves as if it were alone (`Triple.read_alone` and its companions).

Nothing here knows what the state is or who the environment is.

## Main definitions

* `Shared.Prog`, `Shared.read`, `Shared.modify`, `Shared.modifyAll` — programs
* `Shared.run` — the result of a program under a schedule
* `Shared.Stable`, `Shared.Undisturbed`, `Shared.Triple` — specifications
* `Shared.Prog.Keeps` — every update keeps an assertion

## Main results

* `Shared.Triple.ret`, `Shared.Triple.bind`, `Shared.Triple.read`, `Shared.Triple.modify`
* `Shared.Triple.read_alone`, `Shared.Triple.modify_alone`, `Shared.Triple.modifyAll_alone` — the
  rules for a program that cannot be disturbed
-/

namespace Cairn

namespace Shared

/-- Programs of atomic actions. An action continues by what it sees and leaves an updated state. -/
inductive Prog (σ α : Type)
  /-- The result. -/
  | ret (a : α)
  /-- An atomic action. -/
  | act (update : σ → σ) (k : σ → Prog σ α)

variable {σ ε α β : Type}

/-- Sequencing. -/
def Prog.bind : Prog σ α → (α → Prog σ β) → Prog σ β
  | .ret a, f => f a
  | .act update k, f => .act update fun s => (k s).bind f

instance : Monad (Prog σ) where
  pure := .ret
  bind := .bind

/-- Read a part of the state. -/
def read (f : σ → α) : Prog σ α := .act id fun s => .ret (f s)

/-- Update the state. -/
def modify (f : σ → σ) : Prog σ Unit := .act f fun _ => .ret ()

/-- Updates in a row, each an action of its own. -/
def modifyAll : List (σ → σ) → Prog σ Unit
  | [] => return ()
  | f :: fs => do
    modify f
    modifyAll fs

/-! ### Programs that keep an assertion -/

/-- Every update of the program keeps the assertion. -/
def Prog.Keeps (P : σ → Prop) : Prog σ α → Prop
  | .ret _ => True
  | .act update k => (∀ s, P s → P (update s)) ∧ ∀ s, (k s).Keeps P

namespace Prog.Keeps

variable {P : σ → Prop}

theorem bind {p : Prog σ α} {f : α → Prog σ β} (hp : p.Keeps P) (hf : ∀ a, (f a).Keeps P) :
    (p >>= f).Keeps P := by
  change (p.bind f).Keeps P
  induction p with
  | ret a => exact hf a
  | act update k ih => exact ⟨hp.1, fun s => ih s (hp.2 s)⟩

theorem read {f : σ → α} : (Shared.read f).Keeps P := ⟨fun _ hs => hs, fun _ => trivial⟩

theorem modify {f : σ → σ} (h : ∀ s, P s → P (f s)) : (Shared.modify f).Keeps P :=
  ⟨h, fun _ => trivial⟩

theorem modifyAll {fs : List (σ → σ)} (h : ∀ f ∈ fs, ∀ s, P s → P (f s)) :
    (Shared.modifyAll fs).Keeps P := by
  induction fs with
  | nil => trivial
  | cons f fs ih =>
    exact bind (modify (h f (List.mem_cons_self ..))) fun _ =>
      ih fun g hg => h g (List.mem_cons_of_mem _ hg)

theorem ite {c : Prop} [Decidable c] {p q : Prog σ α} (hp : c → p.Keeps P) (hq : ¬ c → q.Keeps P) :
    (if c then p else q).Keeps P := by
  split
  · exact hp ‹_›
  · exact hq ‹_›

end Prog.Keeps

section Run

variable (move : ε → σ → σ)

/-- Moves of the environment in a row. -/
def meddle (es : List ε) (s : σ) : σ := es.foldl (fun s e => move e s) s

/-- The result of a program under a schedule, the state it leaves and the rest of the schedule. -/
def run (o : List (List ε)) : Prog σ α → σ → α × σ × List (List ε)
  | .ret a, s => (a, s, o)
  | .act update k, s =>
    run o.tail (k (meddle move (o.headD []) s)) (update (meddle move (o.headD []) s))

theorem run_bind (o : List (List ε)) (p : Prog σ α) (f : α → Prog σ β) (s : σ) :
    run move o (p >>= f) s
      = run move (run move o p s).2.2 (f (run move o p s).1) (run move o p s).2.1 := by
  change run move o (p.bind f) s = _
  induction p generalizing o s with
  | ret a => rfl
  | act update k ih => exact ih _ _ _

/-- True after every move of the environment if it was true before. -/
def Stable (P : σ → Prop) : Prop := ∀ e s, P s → P (move e s)

/-- A state no move of the environment changes. -/
def Undisturbed (s : σ) : Prop := ∀ e, move e s = s

variable {move}

theorem Stable.meddle {P : σ → Prop} (h : Stable move P) (es : List ε) {s : σ} (hs : P s) :
    P (meddle move es s) := by
  induction es generalizing s with
  | nil => exact hs
  | cons e es ih => exact ih (h e s hs)

theorem Undisturbed.stable {s : σ} (h : Undisturbed move s) : Stable move (· = s) := by
  rintro e _ rfl
  exact h e

variable (move)

/-- Under every schedule, from a state with `P` the program ends with a result and a state in
`Q`. -/
def Triple (P : σ → Prop) (p : Prog σ α) (Q : α → σ → Prop) : Prop :=
  ∀ o s, P s → Q (run move o p s).1 (run move o p s).2.1

variable {move}

namespace Triple

variable {P : σ → Prop} {Q : α → σ → Prop} {R : β → σ → Prop}

theorem ret {a : α} (h : ∀ s, P s → Q a s) : Triple move P (pure a : Prog σ α) Q :=
  fun _ s hs => h s hs

/-- **Sequencing.** -/
theorem bind {p : Prog σ α} {f : α → Prog σ β} (hp : Triple move P p Q)
    (hf : ∀ a, Triple move (Q a) (f a) R) : Triple move P (p >>= f) R := by
  intro o s hs
  rw [run_bind]
  exact hf _ _ _ (hp o s hs)

theorem read {f : σ → α} (hP : Stable move P) (h : ∀ s, P s → Q (f s) s) :
    Triple move P (read f) Q :=
  fun o _ hs => h _ (hP.meddle (o.headD []) hs)

theorem modify {f : σ → σ} {Q : Unit → σ → Prop} (hP : Stable move P) (h : ∀ s, P s → Q () (f s)) :
    Triple move P (modify f) Q :=
  fun o _ hs => h _ (hP.meddle (o.headD []) hs)

theorem mono {P' : σ → Prop} {Q' : α → σ → Prop} {p : Prog σ α} (h : Triple move P p Q)
    (hP : ∀ s, P' s → P s) (hQ : ∀ a s, Q a s → Q' a s) : Triple move P' p Q' :=
  fun o s hs => hQ _ _ (h o s (hP s hs))

/-- **An assertion that is stable and kept by every update** is kept by the program. -/
theorem of_keeps {p : Prog σ α} (hP : Stable move P) (hp : p.Keeps P) :
    Triple move P p fun _ => P := by
  induction p with
  | ret a => exact fun _ _ hs => hs
  | act update k ih =>
    intro o s hs
    exact ih _ (hp.2 _) _ _ (hp.1 _ (hP.meddle _ hs))

/-! #### Alone with the state -/

section Alone

variable {s : σ}

theorem read_alone {f : σ → α} {k : α → Prog σ β} (hs : Undisturbed move s)
    (hk : Triple move (· = s) (k (f s)) R) : Triple move (· = s) (Shared.read f >>= k) R := by
  have hread : Triple move (· = s) (Shared.read f) fun a s' => a = f s ∧ s' = s := by
    refine read hs.stable ?_
    rintro _ rfl
    exact ⟨rfl, rfl⟩
  refine hread.bind fun a => ?_
  rintro o _ ⟨rfl, rfl⟩
  exact hk o _ rfl

theorem modify_alone {f : σ → σ} {k : Unit → Prog σ β} (hs : Undisturbed move s)
    (hk : Triple move (· = f s) (k ()) R) : Triple move (· = s) (Shared.modify f >>= k) R := by
  have hmodify : Triple move (· = s) (Shared.modify f) fun _ s' => s' = f s := by
    refine modify hs.stable ?_
    rintro _ rfl
    rfl
  exact hmodify.bind fun _ => hk

/-- **A block of updates the environment cannot disturb** has the effect of its updates, when each
leaves a state in `I` and no state in `I` can be disturbed. -/
theorem modifyAll_alone {I : σ → Prop} (hI : ∀ s, I s → Undisturbed move s) {fs : List (σ → σ)}
    (hfs : ∀ f ∈ fs, ∀ s, I s → I (f s)) (hs : I s) {k : Unit → Prog σ β}
    (hk : I (fs.foldl (fun s f => f s) s) →
      Triple move (· = fs.foldl (fun s f => f s) s) (k ()) R) :
    Triple move (· = s) (Shared.modifyAll fs >>= k) R := by
  induction fs generalizing s with
  | nil => exact hk hs
  | cons f fs ih =>
    exact modify_alone (f := f) (k := fun _ => Shared.modifyAll fs >>= k) (hI s hs)
      (ih (fun g hg => hfs g (List.mem_cons_of_mem _ hg)) (hfs f (by simp) s hs) hk)

end Alone

end Triple

end Run

end Shared

end Cairn
