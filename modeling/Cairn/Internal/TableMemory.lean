import Cairn.Internal.PageTable

/-!
# Page tables in memory

A hierarchy of page tables is held in a memory of words: a table is an array of words under a name,
and a word says that nothing is mapped, that a page is mapped, or under which name the table of the
level below is found. The hierarchy that hangs on a name is then a tree of `PageTable`. Nothing
makes the tables of the tree distinct arrays, however: a name can be reached along several paths,
and then one write changes the tree in several places.

So the paths are made explicit. `reach` follows a path of indices to the name of a table, and
`Unshared` says that no name is reached along two paths. Under it a write to a word of a table of
level `0` is `PageTable.put` on the tree, and writes outside the names that are reached leave the
tree as it is.

Nothing here knows what words and names are, or how a word is read at a level.

## Main definitions

* `TableMemory.Word` — what a word says
* `TableMemory.tree`, `TableMemory.walk` — the tree in memory, and the walk of one address
* `TableMemory.reach`, `TableMemory.Unshared`

## Main results

* `TableMemory.translate_tree` — walking the memory is translating by the tree
* `TableMemory.tree_write`, `TableMemory.reach_write` — a write at level `0`
* `TableMemory.tree_congr`, `TableMemory.reach_congr` — writes outside the tree
-/

namespace Cairn

namespace TableMemory

open PageTable

/-- What a word of a table says. -/
inductive Word (α : Type)
  /-- Nothing is mapped. -/
  | absent
  /-- The word maps a page. -/
  | page
  /-- The table of the level below has this name. -/
  | table (a : α)

variable {α ι W A : Type} (decode : ℕ → W → Word α)

/-- The entry of level `0` a word stands for, below the words `pre`. -/
def leafEntry (leaf : List W → A) (pre : List W) (w : W) : Entry ι A 0 :=
  match decode 0 w with
  | .page => .page (leaf (w :: pre))
  | _ => .absent

/-- The tree under a name. What a page is can depend on all words of its walk, the last one first;
`pre` are the words above. -/
def tree (leaf : List W → A) (mem : α → ι → W) : (n : ℕ) → α → List W → Table ι A n
  | 0, a, pre => fun j => leafEntry decode leaf pre (mem a j)
  | n + 1, a, pre => fun j =>
    match decode (n + 1) (mem a j) with
    | .absent => .absent
    | .page => .page (leaf (mem a j :: pre))
    | .table b => .table (tree leaf mem n b (mem a j :: pre))

/-- The words of the walk of an address, the last one first. -/
def walk (mem : α → ι → W) (i : ℕ → ι) : (n : ℕ) → α → List W → Option (List W)
  | 0, a, pre =>
    match decode 0 (mem a (i 0)) with
    | .page => some (mem a (i 0) :: pre)
    | _ => none
  | n + 1, a, pre =>
    match decode (n + 1) (mem a (i (n + 1))) with
    | .absent => none
    | .page => some (mem a (i (n + 1)) :: pre)
    | .table b => walk mem i n b (mem a (i (n + 1)) :: pre)

/-- The table that a path of indices leads to. -/
def reach (mem : α → ι → W) : ℕ → α → List ι → Option α
  | _, a, [] => some a
  | 0, _, _ :: _ => none
  | n + 1, a, j :: p =>
    match decode (n + 1) (mem a j) with
    | .table b => reach mem n b p
    | _ => none

/-- The path of an address to its table of level `0`. -/
def path (i : ℕ → ι) : ℕ → List ι
  | 0 => []
  | n + 1 => i (n + 1) :: path i n

/-- The words of the walk of an address above level `0`, if the tables are there. -/
def above (mem : α → ι → W) (i : ℕ → ι) : (n : ℕ) → α → List W → List W
  | 0, _, pre => pre
  | n + 1, a, pre =>
    match decode (n + 1) (mem a (i (n + 1))) with
    | .table b => above mem i n b (mem a (i (n + 1)) :: pre)
    | _ => pre

/-- No table is reached along two paths. -/
def Unshared (mem : α → ι → W) (n : ℕ) (a : α) : Prop :=
  ∀ p q b, reach decode mem n a p = some b → reach decode mem n a q = some b → p = q

variable {decode} {mem mem' : α → ι → W} {n : ℕ} {a b : α} {i : ℕ → ι}

/-- **Walking the memory is translating by the tree.** -/
theorem translate_tree (leaf : List W → A) (mem : α → ι → W) (i : ℕ → ι) (n : ℕ) (a : α)
    (pre : List W) :
    PageTable.translate i n (tree decode leaf mem n a pre)
      = (walk decode mem i n a pre).map leaf := by
  induction n generalizing a pre with
  | zero =>
    cases h : decode 0 (mem a (i 0)) <;> simp [PageTable.translate, tree, leafEntry, walk, h]
  | succ n ih =>
    cases h : decode (n + 1) (mem a (i (n + 1))) <;>
      simp [PageTable.translate, tree, walk, h, ih]

theorem walk_eq_translate (mem : α → ι → W) (i : ℕ → ι) (n : ℕ) (a : α) (pre : List W) :
    walk decode mem i n a pre = PageTable.translate i n (tree decode id mem n a pre) := by
  rw [translate_tree, Option.map_id_fun, id]

theorem reach_cons_of_table {j : ι} {c : α} (h : decode (n + 1) (mem a j) = .table c)
    (p : List ι) : reach decode mem (n + 1) a (j :: p) = reach decode mem n c p := by
  rw [reach, h]

/-- The first step of a path leads to a table. -/
theorem exists_of_reach_cons {j : ι} {p : List ι}
    (h : reach decode mem (n + 1) a (j :: p) = some b) :
    ∃ c, decode (n + 1) (mem a j) = .table c ∧ reach decode mem n c p = some b := by
  cases hd : decode (n + 1) (mem a j) with
  | table c => exact ⟨c, rfl, by rw [← h, reach_cons_of_table hd]⟩
  | absent | page => simp [reach, hd] at h

/-- The tables down to level `0` are in the tree if the path leads to one. -/
theorem walks_tree {leaf : List W → A} {pre : List W} :
    Walks i n (tree decode leaf mem n a pre) ↔ ∃ b, reach decode mem n a (path i n) = some b := by
  induction n generalizing a pre with
  | zero => exact ⟨fun _ => ⟨a, rfl⟩, fun _ => trivial⟩
  | succ n ih =>
    cases h : decode (n + 1) (mem a (i (n + 1))) <;> simp [Walks, tree, path, reach, h, ih]

/-- The walk reads one index for each level. -/
theorem walk_agree {j : ℕ → ι} (h : Agree n i j) (a : α) (pre : List W) :
    walk decode mem i n a pre = walk decode mem j n a pre := by
  induction n generalizing a pre with
  | zero => rw [walk, walk, h 0 (Nat.le_refl 0)]
  | succ n ih =>
    obtain ⟨htop, hbelow⟩ := agree_succ.mp h
    rw [walk, walk, htop]
    simp only [ih hbelow]

/-- Where the tables are there, the walk ends at level `0`. -/
theorem walk_of_reach {pre : List W} (hb : reach decode mem n a (path i n) = some b) :
    walk decode mem i n a pre
      = (leafEntry decode id (above decode mem i n a pre) (mem b (i 0)) : Entry ι _ 0).mapped := by
  induction n generalizing a pre with
  | zero =>
    cases hb
    cases h : decode 0 (mem b (i 0)) <;> simp [walk, above, leafEntry, Entry.mapped, h]
  | succ n ih =>
    obtain ⟨c, hd, hc⟩ := exists_of_reach_cons hb
    simp only [walk, above, hd, ih hc]

theorem length_above {pre : List W} (hb : reach decode mem n a (path i n) = some b) :
    (above decode mem i n a pre).length = pre.length + n := by
  induction n generalizing a pre with
  | zero => rfl
  | succ n ih =>
    obtain ⟨c, hd, hc⟩ := exists_of_reach_cons hb
    simp only [above, hd, ih hc, List.length_cons]
    omega

/-! ### Writes outside the tree -/

/-- A path is read in the tables above level `0` only. -/
theorem reach_congr (h : ∀ p b, p.length < n → reach decode mem n a p = some b → mem' b = mem b)
    (p : List ι) : reach decode mem' n a p = reach decode mem n a p := by
  induction n generalizing a p with
  | zero => cases p <;> rfl
  | succ n ih =>
    cases p with
    | nil => rfl
    | cons j p =>
      have hroot : mem' a = mem a := h [] a (Nat.succ_pos n) rfl
      cases hd : decode (n + 1) (mem a j) with
      | absent | page => simp [reach, hroot, hd]
      | table c =>
        rw [reach_cons_of_table (hroot ▸ hd), reach_cons_of_table hd]
        refine ih (fun q b hq hb => h (j :: q) b (Nat.succ_lt_succ hq) ?_) p
        rwa [reach_cons_of_table hd]

/-- The tree depends on the tables that are reached. -/
theorem tree_congr (leaf : List W → A)
    (h : ∀ p b, reach decode mem n a p = some b → mem' b = mem b) (pre : List W) :
    tree decode leaf mem' n a pre = tree decode leaf mem n a pre := by
  have hroot : mem' a = mem a := h [] a (by cases n <;> rfl)
  induction n generalizing a pre with
  | zero => simp only [tree, hroot]
  | succ n ih =>
    funext j
    simp only [tree, hroot]
    cases hd : decode (n + 1) (mem a j) with
    | absent | page => rfl
    | table c =>
      have hsub : ∀ p b, reach decode mem n c p = some b → mem' b = mem b := fun p b hb =>
        h (j :: p) b (by rwa [reach_cons_of_table hd])
      simp only [ih hsub _ (hsub [] c (by cases n <;> rfl))]

/-! ### Writes at level 0 -/

variable [DecidableEq α] [DecidableEq ι]

/-- Write one word of a table. -/
def write (mem : α → ι → W) (b : α) (j : ι) (w : W) : α → ι → W :=
  Function.update mem b (Function.update (mem b) j w)

theorem write_of_ne {c : α} (h : c ≠ b) (j : ι) (w : W) : write mem b j w c = mem c :=
  Function.update_of_ne h ..

omit [DecidableEq α] [DecidableEq ι] in
theorem Unshared.child (h : Unshared decode mem (n + 1) a) {j : ι} {c : α}
    (hd : decode (n + 1) (mem a j) = .table c) : Unshared decode mem n c := by
  intro p q b hp hq
  have hpq := h (j :: p) (j :: q) b (by rwa [reach_cons_of_table hd])
    (by rwa [reach_cons_of_table hd])
  exact (List.cons.inj hpq).2

omit [DecidableEq α] [DecidableEq ι] in
@[simp] theorem length_path (i : ℕ → ι) (n : ℕ) : (path i n).length = n := by
  induction n with
  | zero => rfl
  | succ n ih => rw [path, List.length_cons, ih]

/-- A write to a table of level `0` changes no path. -/
theorem reach_write (h : Unshared decode mem n a)
    (hb : reach decode mem n a (path i n) = some b) (j : ι) (w : W) (p : List ι) :
    reach decode (write mem b j w) n a p = reach decode mem n a p := by
  refine reach_congr (fun q c hq hc => write_of_ne ?_ j w) p
  rintro rfl
  rw [h q (path i n) c hc hb, length_path] at hq
  exact Nat.lt_irrefl n hq

/-- **A write to a table of level `0` replaces one entry of the tree.** -/
theorem tree_write (leaf : List W → A) (h : Unshared decode mem n a)
    (hb : reach decode mem n a (path i n) = some b) (w : W) (pre : List W) :
    tree decode leaf (write mem b (i 0) w) n a pre
      = put i (leafEntry decode leaf (above decode mem i n a pre) w) n
          (tree decode leaf mem n a pre) := by
  induction n generalizing a pre with
  | zero =>
    cases hb
    funext j
    simp only [tree, put, above, write, Function.update_self]
    by_cases hj : j = i 0
    · rw [hj, Function.update_self, Function.update_self]
    · rw [Function.update_of_ne hj, Function.update_of_ne hj]
  | succ n ih =>
    obtain ⟨c, hd, hc⟩ := exists_of_reach_cons hb
    have hroot : write mem b (i 0) w a = mem a := by
      refine write_of_ne ?_ _ _
      rintro rfl
      cases h [] (path i (n + 1)) a rfl hb
    have hentry : tree decode leaf mem (n + 1) a pre (i (n + 1))
        = .table (tree decode leaf mem n c (mem a (i (n + 1)) :: pre)) := by
      simp only [tree, hd]
    rw [put_of_table hentry]
    funext j
    by_cases hj : j = i (n + 1)
    · -- the table on the path of the address
      subst hj
      simp only [tree, hroot, hd, above, Function.update_self, ih (h.child hd) hc]
    · -- another table: it does not reach the one that is written
      rw [Function.update_of_ne hj]
      simp only [tree, hroot]
      cases hdj : decode (n + 1) (mem a j) with
      | absent | page => rfl
      | table d =>
        simp only
        rw [tree_congr leaf fun p e he => write_of_ne ?_ _ _]
        rintro rfl
        have hp := h (j :: p) _ e (by rwa [reach_cons_of_table hdj]) hb
        exact hj (List.cons.inj hp).1

end TableMemory

end Cairn
