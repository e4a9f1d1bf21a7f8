import Mathlib.Data.List.MinMax
import Cairn.Kernel.Seats

/-!
# Rolling deadlines and picking the earliest

`roll_deadlines` moves the deadline of every due task forward by whole periods, in a loop without
a bound and with an addition that saturates. Where it lands is said here without the loop: after
the least number of periods that takes the deadline past the clock (`Catches`). The loop reaches
that point in exactly so many rounds, as long as the clock itself has not saturated; once it has,
no deadline is ever past it and the loop does not end.

Landing points do not depend on when they were looked for, so a burst of ticks seen at once rolls
a task as far as the same ticks seen one by one (`Scheduler.rollTask_rollTask`).

`pick_next` scans the table for the earliest deadline. The scan is `List.argmin` over the tasks
that may run, and everything about minima and ties comes from there.

## Main definitions

* `Catches`, `Task.caughtUp` — how far a deadline is rolled, and the task rolled so far
* `Scheduler.Due`, `Scheduler.CountersFit`
* `Scheduler.candidates` — the slots `pick_next` does not skip

## Main results

* `Scheduler.rollLoop_eq` — the catch-up loop ends, and where
* `Scheduler.pickNext_eq` — the scan is an `argmin`
* `rollDeadlines_closed_form`, `edf_decision`
-/

namespace Cairn

/-! ### How far a deadline is rolled -/

/-- `k` periods take the deadline `d` past `now`, and fewer do not. -/
def Catches (now d period k : ℕ) : Prop :=
  now < min u64Max (d + k * period) ∧ ∀ j < k, min u64Max (d + j * period) ≤ now

/-- A task after `k` rounds of the catch-up loop, the first of which releases it. -/
def Task.caughtUp (t : Task) (k : ℕ) : Task :=
  { t with
    activations := (t.activations + k) % 2 ^ 64
    absDeadlineNs := min u64Max (t.absDeadlineNs + k * t.periodNs)
    runnable := t.runnable || !t.blocked }

theorem Catches.unique {now d period k k' : ℕ} (h : Catches now d period k)
    (h' : Catches now d period k') : k = k' := by
  rcases Nat.lt_trichotomy k k' with hlt | heq | hgt
  · exact absurd h.1 (Nat.not_lt.mpr (h'.2 k hlt))
  · exact heq
  · exact absurd h'.1 (Nat.not_lt.mpr (h.2 k' hgt))

/-- Below a saturated clock some number of periods is enough. -/
theorem exists_catches {now period : ℕ} (hnow : now < u64Max) (hp : 0 < period) (d : ℕ) :
    ∃ k, Catches now d period k := by
  have hsome : ∃ k, now < min u64Max (d + k * period) := by
    refine ⟨now + 1, lt_min hnow ?_⟩
    have := Nat.le_mul_of_pos_right (now + 1) hp
    omega
  classical
  exact ⟨Nat.find hsome, Nat.find_spec hsome, fun j hj => Nat.not_lt.mp (Nat.find_min hsome hj)⟩

/-- The number of rounds is at most the distance to the clock. -/
theorem Catches.le {now d period k : ℕ} (h : Catches now d period k) (hp : 0 < period)
    (hnow : now < u64Max) : k ≤ now + 1 - d := by
  cases k with
  | zero => exact Nat.zero_le _
  | succ k =>
    have hlast := h.2 k (Nat.lt_succ_self k)
    have hmul := Nat.le_mul_of_pos_right k hp
    rw [min_le_iff] at hlast
    omega

/-- Adding up saturated steps. -/
theorem min_satAdd (d period k : ℕ) :
    min u64Max (satAdd d period + k * period) = min u64Max (d + (k + 1) * period) := by
  rw [satAdd, Nat.add_mul, Nat.one_mul]
  omega

theorem Catches.of_succ {now d period k : ℕ} (h : Catches now d period (k + 1)) :
    Catches now (satAdd d period) period k := by
  refine ⟨?_, fun j hj => ?_⟩
  · rw [min_satAdd]
    exact h.1
  · rw [min_satAdd]
    exact h.2 (j + 1) (Nat.succ_lt_succ hj)

/-- A deadline that is rolled is due. -/
theorem Catches.due {now d period k : ℕ} (h : Catches now d period (k + 1))
    (hnow : now < u64Max) : d ≤ now := by
  have hfirst := h.2 0 (Nat.succ_pos k)
  rw [Nat.zero_mul, Nat.add_zero, min_le_iff] at hfirst
  omega

/-- Looking at an earlier time first does not change where a deadline lands. -/
theorem Catches.trans {now now' d period k k' : ℕ} (h : Catches now d period k)
    (hle : now ≤ now') (h' : Catches now' (min u64Max (d + k * period)) period k') :
    Catches now' d period (k + k') := by
  have hshift : ∀ j, min u64Max (min u64Max (d + k * period) + j * period)
      = min u64Max (d + (k + j) * period) := by
    intro j
    rw [Nat.add_mul]
    omega
  refine ⟨hshift k' ▸ h'.1, fun j hj => ?_⟩
  rcases Nat.lt_or_ge j k with hjk | hjk
  · exact (h.2 j hjk).trans hle
  · obtain ⟨i, rfl⟩ := Nat.exists_eq_add_of_le hjk
    rw [← hshift]
    exact h'.2 i (by omega)

namespace Scheduler

/-- The task is one `roll_deadlines` rolls at `now`. -/
def Due (now : ℕ) (t : Task) : Prop :=
  t.present = true ∧ 0 < t.periodNs ∧ t.absDeadlineNs ≤ now

instance (now : ℕ) (t : Task) : Decidable (Due now t) := inferInstanceAs (Decidable (_ ∧ _ ∧ _))

/-- One round of the loop and `k` more. -/
theorem caughtUp_round (t : Task) (k : ℕ) :
    Task.caughtUp { t with
      activations := (t.activations + 1) % 2 ^ 64
      absDeadlineNs := satAdd t.absDeadlineNs t.periodNs
      runnable := t.runnable || !t.blocked } k = t.caughtUp (k + 1) := by
  have hact : ((t.activations + 1) % 2 ^ 64 + k) % 2 ^ 64
      = (t.activations + (k + 1)) % 2 ^ 64 := by omega
  simp only [Task.caughtUp, hact, min_satAdd, Bool.or_assoc, Bool.or_self]

/-- **The catch-up loop ends**, in as many rounds as the deadline takes periods to pass the
clock. -/
theorem rollLoop_eq {now k fuel : ℕ} {t : Task} (hnow : now < u64Max)
    (hk : Catches now t.absDeadlineNs t.periodNs (k + 1)) (hfuel : k + 1 < fuel) :
    rollLoop now fuel t = some (t.caughtUp (k + 1)) := by
  induction k generalizing fuel t with
  | zero =>
    obtain ⟨fuel, rfl⟩ : ∃ n, fuel = n + 2 := ⟨fuel - 2, by omega⟩
    have hpast := hk.of_succ.1
    rw [Nat.zero_mul, Nat.add_zero, lt_min_iff] at hpast
    rw [rollLoop, if_pos (hk.due hnow), rollLoop, if_neg (Nat.not_le.mpr hpast.2)]
    simp only [Task.caughtUp, Nat.zero_add, Nat.one_mul, satAdd]
  | succ k ih =>
    obtain ⟨fuel, rfl⟩ : ∃ n, fuel = n + 1 := ⟨fuel - 1, by omega⟩
    rw [rollLoop, if_pos (hk.due hnow), ih hk.of_succ (by omega), caughtUp_round]

/-- Without a due deadline there is nothing to catch up with. -/
theorem rollLoop_of_lt {now fuel : ℕ} {t : Task} (hd : now < t.absDeadlineNs) :
    rollLoop now (fuel + 1) t = some t := by
  rw [rollLoop, if_neg (Nat.not_le.mpr hd)]

/-- **The saturated clock.** No deadline passes it, and the loop does not end on any fuel. -/
theorem rollLoop_saturated (fuel : ℕ) {t : Task} (hd : t.absDeadlineNs ≤ u64Max) :
    rollLoop u64Max fuel t = none := by
  induction fuel generalizing t with
  | zero => rfl
  | succ fuel ih =>
    rw [rollLoop, if_pos hd]
    exact ih (min_le_left _ _)

/-- A task that is due is rolled to its landing point. -/
theorem rollTask_of_due {now : ℕ} {t : Task} (hnow : now < u64Max) (h : Due now t) :
    ∃ k, Catches now t.absDeadlineNs t.periodNs k ∧ rollTask now t = t.caughtUp k ∧
      ∀ fuel, k < fuel → rollLoop now fuel t = some (rollTask now t) := by
  obtain ⟨hpres, hper, hdue⟩ := h
  obtain ⟨k, hk⟩ := exists_catches hnow hper t.absDeadlineNs
  cases k with
  | zero =>
    have hpast := hk.1
    rw [Nat.zero_mul, Nat.add_zero, lt_min_iff] at hpast
    omega
  | succ k =>
    have hle := hk.le hper hnow
    have hroll : rollTask now t = t.caughtUp (k + 1) := by
      rw [rollTask, if_neg (by simp [hpres, Nat.ne_of_gt hper]), rollLoop_eq hnow hk (by omega)]
      rfl
    exact ⟨k + 1, hk, hroll, fun fuel hfuel => hroll ▸ rollLoop_eq hnow hk hfuel⟩

/-- Every other task is left alone. -/
theorem rollTask_of_not_due {now : ℕ} {t : Task} (h : ¬ Due now t) : rollTask now t = t := by
  rw [rollTask]
  split
  · rfl
  · rename_i hrun
    simp only [Bool.or_eq_true, Bool.not_eq_true', beq_iff_eq, not_or, Bool.not_eq_false] at hrun
    have hd : now < t.absDeadlineNs := by
      by_contra hle
      exact h ⟨hrun.1, Nat.pos_of_ne_zero hrun.2, Nat.not_lt.mp hle⟩
    cases hf : now + 2 - t.absDeadlineNs with
    | zero => rfl
    | succ fuel =>
      rw [rollLoop_of_lt hd]
      rfl

theorem caughtUp_caughtUp (t : Task) (k k' : ℕ) :
    (t.caughtUp k).caughtUp k' = t.caughtUp (k + k') := by
  have hact : ((t.activations + k) % 2 ^ 64 + k') % 2 ^ 64
      = (t.activations + (k + k')) % 2 ^ 64 := by omega
  have hdl : min u64Max (min u64Max (t.absDeadlineNs + k * t.periodNs) + k' * t.periodNs)
      = min u64Max (t.absDeadlineNs + (k + k') * t.periodNs) := by
    rw [Nat.add_mul]
    omega
  simp only [Task.caughtUp, hact, hdl, Bool.or_assoc, Bool.or_self]

theorem rollTask_rollTask {now later : ℕ} (hle : now ≤ later) (hlater : later < u64Max)
    (t : Task) : rollTask later (rollTask now t) = rollTask later t := by
  by_cases hdue : Due now t
  swap
  · rw [rollTask_of_not_due hdue]
  obtain ⟨k, hk, hroll, -⟩ := rollTask_of_due (hle.trans_lt hlater) hdue
  obtain ⟨n, hn, hend, -⟩ := rollTask_of_due hlater ⟨hdue.1, hdue.2.1, hdue.2.2.trans hle⟩
  rw [hroll, hend]
  by_cases hagain : Due later (t.caughtUp k)
  · obtain ⟨k', hk', hroll', -⟩ := rollTask_of_due hlater hagain
    rw [hroll', caughtUp_caughtUp, hn.unique (hk.trans hle hk')]
  · -- the first look was far enough
    have hpast : Catches later (min u64Max (t.absDeadlineNs + k * t.periodNs)) t.periodNs 0 := by
      refine ⟨?_, fun j hj => absurd hj (Nat.not_lt_zero j)⟩
      rw [Nat.zero_mul, Nat.add_zero, ← min_assoc, min_self]
      by_contra hge
      exact hagain ⟨hdue.1, hdue.2.1, Nat.not_lt.mp hge⟩
    rw [rollTask_of_not_due hagain, hn.unique (hk.trans hle hpast), Nat.add_zero]

/-- No activation counter overflows while the table is rolled to `now`. -/
def CountersFit (s : Scheduler) (now : ℕ) : Prop :=
  ∀ i k, i ≠ 0 → Due now (s.tasks i) →
    Catches now (s.tasks i).absDeadlineNs (s.tasks i).periodNs k →
    (s.tasks i).activations + k < 2 ^ 64

/-! ### The earliest deadline -/

/-- The slots `pick_next` does not skip, in the order of the scan. -/
def candidates (s : Scheduler) : List (Fin maxTasks) :=
  (List.finRange maxTasks).tail.filter fun i => Eligible (s.tasks i)

theorem mem_candidates {s : Scheduler} {i : Fin maxTasks} :
    i ∈ s.candidates ↔ i ≠ 0 ∧ Eligible (s.tasks i) := by
  have htail : ∀ i : Fin maxTasks, i ∈ (List.finRange maxTasks).tail ↔ i ≠ 0 := by decide
  rw [candidates, List.mem_filter, htail, decide_eq_true_iff]

/-- **The scan of `pick_next`** finds the first candidate with the earliest deadline. -/
theorem pickNext_eq (s : Scheduler) :
    s.pickNext = (s.candidates.argmin fun i => (s.tasks i).absDeadlineNs).getD 0 := by
  -- the pair the scan carries is the best candidate so far with its deadline
  have hscan : ∀ (l : List (Fin maxTasks)) (best : Option (Fin maxTasks)),
      (l.foldl s.pickStep (best.getD 0, best.map fun i => (s.tasks i).absDeadlineNs)).1
        = ((l.filter fun i => Eligible (s.tasks i)).foldl
            (List.argAux fun i j => (s.tasks i).absDeadlineNs < (s.tasks j).absDeadlineNs)
            best).getD 0 := by
    intro l
    induction l with
    | nil => exact fun _ => rfl
    | cons i l ih =>
      intro best
      rw [List.foldl_cons, List.filter_cons, pickStep]
      by_cases hi : Eligible (s.tasks i)
      · rw [if_pos hi, if_pos (decide_eq_true hi), List.foldl_cons, ← ih]
        congr 2
        cases best with
        | none => rfl
        | some j =>
          simp only [Option.map_some, Option.getD_some, List.argAux]
          split <;> rfl
      · rw [if_neg hi, if_neg (by simpa using hi), ih]
  exact hscan (List.finRange maxTasks).tail none

/-- In the order of the scan an earlier candidate has a lower index. -/
theorem le_of_idxOf_candidates {s : Scheduler} {i j : Fin maxTasks} (hi : i ∈ s.candidates)
    (hj : j ∈ s.candidates) (h : s.candidates.idxOf i ≤ s.candidates.idxOf j) : i ≤ j := by
  have hsorted : s.candidates.Pairwise (· < ·) :=
    List.Pairwise.filter _ ((List.pairwise_lt_finRange maxTasks).tail)
  rcases Nat.eq_or_lt_of_le h with heq | hlt
  · exact le_of_eq ((List.idxOf_inj hi).mp heq)
  · have hlt' := List.pairwise_iff_getElem.mp hsorted _ _ (List.idxOf_lt_length_of_mem hi)
      (List.idxOf_lt_length_of_mem hj) hlt
    rw [List.getElem_idxOf, List.getElem_idxOf] at hlt'
    exact hlt'.le

/-- The choice of `pick_next` among the tasks that may run. -/
theorem pickNext_cases (s : Scheduler) :
    (s.pickNext = 0 ∧ ∀ i, i ≠ 0 → ¬ Eligible (s.tasks i)) ∨
      (s.pickNext ≠ 0 ∧ Eligible (s.tasks s.pickNext) ∧ ∀ i, i ≠ 0 → Eligible (s.tasks i) →
        (s.tasks s.pickNext).absDeadlineNs ≤ (s.tasks i).absDeadlineNs ∧
          ((s.tasks i).absDeadlineNs = (s.tasks s.pickNext).absDeadlineNs → s.pickNext ≤ i)) := by
  rw [pickNext_eq]
  cases hmin : s.candidates.argmin fun i => (s.tasks i).absDeadlineNs with
  | none =>
    refine Or.inl ⟨rfl, fun i hi helig => ?_⟩
    have hmem := mem_candidates.mpr ⟨hi, helig⟩
    rw [List.argmin_eq_none.mp hmin] at hmem
    exact List.not_mem_nil hmem
  | some n =>
    obtain ⟨hn, hle, hfirst⟩ := List.argmin_eq_some_iff.mp hmin
    obtain ⟨hne, helig⟩ := mem_candidates.mp hn
    refine Or.inr ⟨hne, helig, fun i hi hei => ?_⟩
    have hmem := mem_candidates.mpr ⟨hi, hei⟩
    exact ⟨hle i hmem, fun heq => le_of_idxOf_candidates hn hmem (hfirst i hmem heq.le)⟩

/-- Which tasks may run once the deadlines are rolled. -/
theorem eligible_rollTask_iff {now : ℕ} (hnow : now < u64Max) (t : Task) :
    Eligible (rollTask now t) ↔
      t.present = true ∧ t.blocked = false ∧ (t.runnable = true ∨ Due now t) := by
  by_cases hdue : Due now t
  · obtain ⟨k, -, hroll, -⟩ := rollTask_of_due hnow hdue
    rw [hroll, Eligible]
    cases hb : t.blocked <;> simp [Task.caughtUp, hdue, hb]
  · rw [rollTask_of_not_due hdue, Eligible]
    simp only [hdue, or_false]
    tauto

end Scheduler

/-! ### The two results -/

/-- **Rolling terminates and lands where the least number of periods takes it.** The clock has not
saturated and no counter is about to overflow. Then the loop ends for every task, a due task is
moved past the clock by the least number of periods and released unless it is parked, nothing
else changes, and looking at the clock earlier as well makes no difference. -/
theorem rollDeadlines_closed_form (s : Scheduler) {now : ℕ} (hnow : now < u64Max)
    (hfit : s.CountersFit now) :
    (∀ i, i ≠ 0 → ∃ n, ∀ fuel, n < fuel →
      (s.tasks i).present = true → 0 < (s.tasks i).periodNs →
      Scheduler.rollLoop now fuel (s.tasks i) = some ((s.rollDeadlines now).tasks i)) ∧
    (∀ i, i ≠ 0 → Scheduler.Due now (s.tasks i) →
      ∃ k, Catches now (s.tasks i).absDeadlineNs (s.tasks i).periodNs k ∧
        (s.rollDeadlines now).tasks i = { s.tasks i with
          activations := (s.tasks i).activations + k
          absDeadlineNs := min u64Max ((s.tasks i).absDeadlineNs + k * (s.tasks i).periodNs)
          runnable := (s.tasks i).runnable || !(s.tasks i).blocked }) ∧
    (∀ i, i = 0 ∨ ¬ Scheduler.Due now (s.tasks i) →
      (s.rollDeadlines now).tasks i = s.tasks i) ∧
    (s.rollDeadlines now).num = s.num ∧ (s.rollDeadlines now).current = s.current ∧
    ∀ later, now ≤ later → later < u64Max →
      (s.rollDeadlines now).rollDeadlines later = s.rollDeadlines later := by
  have htask : ∀ i, i ≠ 0 →
      (s.rollDeadlines now).tasks i = Scheduler.rollTask now (s.tasks i) := fun i hi => if_neg hi
  refine ⟨fun i hi => ?_, fun i hi hdue => ?_, fun i hi => ?_, rfl, rfl, fun later hle hl => ?_⟩
  · rw [htask i hi]
    by_cases hdue : Scheduler.Due now (s.tasks i)
    · obtain ⟨k, -, -, hend⟩ := Scheduler.rollTask_of_due hnow hdue
      exact ⟨k, fun fuel hfuel _ _ => hend fuel hfuel⟩
    · refine ⟨0, fun fuel hfuel hpres hper => ?_⟩
      obtain ⟨fuel, rfl⟩ : ∃ n, fuel = n + 1 := ⟨fuel - 1, by omega⟩
      rw [Scheduler.rollTask_of_not_due hdue]
      exact Scheduler.rollLoop_of_lt (Nat.not_le.mp fun hd => hdue ⟨hpres, hper, hd⟩)
  · obtain ⟨k, hk, hroll, -⟩ := Scheduler.rollTask_of_due hnow hdue
    refine ⟨k, hk, ?_⟩
    rw [htask i hi, hroll, Task.caughtUp, Nat.mod_eq_of_lt (hfit i k hi hdue hk)]
  · by_cases hzero : i = 0
    · exact if_pos hzero
    · rw [htask i hzero, Scheduler.rollTask_of_not_due (hi.resolve_left hzero)]
  · simp only [Scheduler.rollDeadlines]
    congr 1
    funext i
    by_cases hi : i = 0
    · simp only [hi, if_true]
    · simp only [hi, if_false]
      exact Scheduler.rollTask_rollTask hle hl (s.tasks i)

/-- A table with one periodic task, whose deadline has passed several times. -/
def lateTable : Scheduler where
  tasks i :=
    if i = 1 then { Task.empty with present := true, periodNs := 5, absDeadlineNs := 3 }
    else { Task.empty with present := i = 0, runnable := i = 0 }
  num := 2
  current := 0

theorem catches_lateTable : Catches 20 3 5 4 := by
  refine ⟨by decide, fun j hj => ?_⟩
  rw [min_le_iff]
  omega

/-- Four periods take the deadline of the late task from 3 to 23. -/
theorem rollDeadlines_closed_form_lateTable :
    20 < u64Max ∧ lateTable.CountersFit 20 ∧
      (lateTable.rollDeadlines 20).tasks 1 = { Task.empty with
        present := true, runnable := true, periodNs := 5, absDeadlineNs := 23,
        activations := 4 } := by
  have hnow : 20 < u64Max := by decide
  have honly : ∀ i : Fin maxTasks, i ≠ 0 → Scheduler.Due 20 (lateTable.tasks i) → i = 1 := by decide
  have hfit : lateTable.CountersFit 20 := by
    intro i k hi hdue hk
    obtain rfl := honly i hi hdue
    obtain rfl : k = 4 := hk.unique catches_lateTable
    decide
  obtain ⟨k, hk, hroll⟩ :=
    (rollDeadlines_closed_form lateTable hnow hfit).2.1 1 (by decide) (by decide)
  obtain rfl : k = 4 := hk.unique catches_lateTable
  exact ⟨hnow, hfit, hroll⟩

/-- **Every decision is earliest deadline first.** Once the deadlines are rolled, the idle task is
picked if and only if no other task may run; otherwise a task that may run, with the earliest
deadline of all of them, the lowest index on ties, and, if it is periodic, a deadline that is
still to come. Saturated deadlines compete like any other. -/
theorem edf_decision (s : Scheduler) {now : ℕ} (hnow : now < u64Max) :
    let r := s.rollDeadlines now
    (r.pickNext = 0 ↔ ∀ i, i ≠ 0 → ¬ Scheduler.Eligible (r.tasks i)) ∧
    (r.pickNext ≠ 0 → Scheduler.Eligible (r.tasks r.pickNext) ∧
      (∀ i, i ≠ 0 → Scheduler.Eligible (r.tasks i) →
        (r.tasks r.pickNext).absDeadlineNs ≤ (r.tasks i).absDeadlineNs ∧
          ((r.tasks i).absDeadlineNs = (r.tasks r.pickNext).absDeadlineNs → r.pickNext ≤ i)) ∧
      ((r.tasks r.pickNext).periodNs ≠ 0 → now < (r.tasks r.pickNext).absDeadlineNs)) ∧
    ∀ i, i ≠ 0 → (Scheduler.Eligible (r.tasks i) ↔ (s.tasks i).present = true ∧
      (s.tasks i).blocked = false ∧
      ((s.tasks i).runnable = true ∨ Scheduler.Due now (s.tasks i))) := by
  intro r
  have htask : ∀ i, i ≠ 0 → r.tasks i = Scheduler.rollTask now (s.tasks i) := fun i hi => if_neg hi
  refine ⟨?_, fun hne => ?_, fun i hi => htask i hi ▸ Scheduler.eligible_rollTask_iff hnow _⟩
  · rcases r.pickNext_cases with ⟨hzero, hnone⟩ | ⟨hne, helig, -⟩
    · exact iff_of_true hzero hnone
    · exact iff_of_false hne fun hnone => hnone _ hne helig
  · rcases r.pickNext_cases with ⟨hzero, -⟩ | ⟨-, helig, hmin⟩
    · exact absurd hzero hne
    refine ⟨helig, hmin, fun hper => ?_⟩
    rw [htask _ hne] at helig hper ⊢
    by_cases hdue : Scheduler.Due now (s.tasks r.pickNext)
    · obtain ⟨k, hk, hroll, -⟩ := Scheduler.rollTask_of_due hnow hdue
      rw [hroll]
      exact hk.1
    · rw [Scheduler.rollTask_of_not_due hdue] at helig hper ⊢
      by_contra hle
      exact hdue ⟨helig.1, Nat.pos_of_ne_zero hper, Nat.not_lt.mp hle⟩

/-- The late task is released by the roll, and the idle task is not picked. -/
theorem edf_decision_lateTable : 20 < u64Max ∧ (lateTable.rollDeadlines 20).pickNext ≠ 0 := by
  have hnow : 20 < u64Max := by decide
  obtain ⟨hidle, -, helig⟩ := edf_decision lateTable hnow
  refine ⟨hnow, fun hzero => hidle.mp hzero 1 (by decide) ?_⟩
  exact (helig 1 (by decide)).mpr (by decide)

end Cairn
