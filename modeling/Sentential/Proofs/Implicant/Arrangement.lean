import Mathlib.Data.List.Forall2
import Sentential.Minimizer.Session
import Sentential.Proofs.Implicant.Generation

/-!
# The arrangement of the rows does not matter

A run is told by which rows it starts from.  In what order they stand, and how often each of them,
decides in what order the result stands, but not which rows are in it.  Nothing is asked of the
rows: they may have free cells and different lengths.

* `SameRows xs ys`         each row of one list is in the other;
* `perm_following`, `perm_unmerged`   one step, from a generation and from the same rearranged;
* `forall₂_generations`    the whole run, generation by generation;
* `merge_depends_on_set`   two sessions that merge the same rows.
-/

namespace Sentential

def SameRows (xs ys : List Row) : Prop := ∀ x, x ∈ xs ↔ x ∈ ys

theorem SameRows.of_perm {xs ys : List Row} (h : xs.Perm ys) : SameRows xs ys := fun _ => h.mem_iff

theorem SameRows.perm_eraseDups {xs ys : List Row} (h : SameRows xs ys) :
    xs.eraseDups.Perm ys.eraseDups := by
  refine (List.perm_ext_iff_of_nodup (nodup_eraseDups xs) (nodup_eraseDups ys)).mpr fun x => ?_
  rw [List.mem_eraseDups, List.mem_eraseDups]
  exact h x

/-! ## one step -/

section
variable {xs ys : List Row}

theorem SameRows.mergers (h : SameRows xs ys) : SameRows (mergers xs) (mergers ys) := by
  intro z
  rw [mem_mergers_iff, mem_mergers_iff]
  simp only [h _]

theorem SameRows.merges_iff (h : SameRows xs ys) (x : Row) : Merges xs x ↔ Merges ys x := by
  unfold Merges
  simp only [h _]

theorem perm_following (h : xs.Perm ys) : (following xs).Perm (following ys) :=
  (SameRows.of_perm h).mergers.perm_eraseDups

theorem perm_unmerged (h : xs.Perm ys) : (unmerged xs).Perm (unmerged ys) := by
  rw [unmerged_eq, unmerged_eq]
  have htest : (fun x => !decide (Merges xs x)) = fun x => !decide (Merges ys x) := by
    funext x
    rw [decide_eq_decide.mpr ((SameRows.of_perm h).merges_iff x)]
  rw [htest]
  exact h.filter _

/-! ## all steps -/

theorem forall₂_generations (h : xs.Perm ys) :
    List.Forall₂ List.Perm (generations xs) (generations ys) := by
  induction xs using generations.induct generalizing ys with
  | case1 =>
    obtain rfl := h.nil_eq
    rw [generations_nil]
    exact .nil
  | case2 x xs ih =>
    cases ys with
    | nil => exact absurd h.eq_nil (List.cons_ne_nil _ _)
    | cons y ys =>
      rw [generations_cons, generations_cons]
      exact .cons h (ih (perm_following h))

end

section
variable {gens hens : List (List Row)} (h : List.Forall₂ List.Perm gens hens)
include h

theorem map_length_eq_of_forall₂ : gens.map List.length = hens.map List.length := by
  induction h with
  | nil => rfl
  | cons hrows _ ih => rw [List.map_cons, List.map_cons, hrows.length_eq, ih]

theorem sameRows_leftOver_of_forall₂ : SameRows (leftOver gens) (leftOver hens) := by
  intro x
  rw [leftOver, leftOver, List.mem_eraseDups, List.mem_eraseDups]
  induction h with
  | nil => exact Iff.rfl
  | cons hrows _ ih =>
    rw [List.flatMap_cons, List.flatMap_cons, List.mem_append, List.mem_append, ih,
      (perm_unmerged hrows).mem_iff]

end

namespace Minimizer

/-- **The arrangement of the rows does not matter**: whatever two sessions have done before, if they
merge the same rows, in any order and any number of times each, then both answer with the same rows,
each once, and both remember the same sizes of generations. -/
theorem merge_depends_on_set (m k : Minimizer) (rows others : List Row)
    (h : ∀ x, x ∈ rows ↔ x ∈ others) :
    (m.merge rows).answer.Nodup ∧ (k.merge others).answer.Nodup
      ∧ (∀ x, x ∈ (m.merge rows).answer ↔ x ∈ (k.merge others).answer)
      ∧ ∃ sizes, (m.merge rows).state.generations = some sizes
        ∧ (k.merge others).state.generations = some sizes := by
  have hruns : List.Forall₂ List.Perm (history rows) (history others) :=
    forall₂_generations (SameRows.perm_eraseDups h)
  refine ⟨nodup_primeImplicants rows, nodup_primeImplicants others,
    sameRows_leftOver_of_forall₂ hruns, (history rows).map List.length, rfl, ?_⟩
  rw [map_length_eq_of_forall₂ hruns]
  rfl

/-- rows of different lengths, one of them twice, and a free cell -/
theorem merge_depends_on_set_of_short_row :
    let rows : List Row := [[.on, .free], [.on], [.off, .free], [.on]]
    let others : List Row := [[.off, .free], [.on], [.on, .free]]
    (∀ x, x ∈ rows ↔ x ∈ others)
      ∧ ∀ x, x ∈ ((fresh 30).merge rows).answer ↔ x ∈ ((fresh 10).merge others).answer := by
  intro rows others
  have h (x : Row) : x ∈ rows ↔ x ∈ others := by
    simp only [rows, others, List.mem_cons, List.not_mem_nil, or_false]
    grind
  exact ⟨h, (merge_depends_on_set (fresh 30) (fresh 10) rows others h).2.2.1⟩

end Minimizer

end Sentential
