import Sentential.Minimizer.Session
import Sentential.Proofs.Implicant.Generation

/-!
# Merging keeps what is covered

The merger of two adjacent rows covers what the two cover together, and nothing else.  So a row that
is dropped because it takes part in a merger is not missed: the merger stands in the next
generation.

The rows are of one length.  Nothing else is asked of them: a generation may mix rows with
different numbers of free cells, and a merger may be a row that was there before.

* `Row.covers_merge`             a merger;
* `Covering rows vs`             some row covers the values;
* `covering_iff_unmerged_or_following`   one step: what a generation covers is covered by the rows
                                 that it leaves over or by the next generation;
* `covering_flatMap_unmerged`    the whole run, by induction on the generations;
* `merge_keeps_covered`          the answer of a session.
-/

namespace Sentential

namespace Row

theorem length_merge (x y : Row) : (merge x y).length = min x.length y.length := by
  induction x generalizing y with
  | nil => exact (Nat.zero_min _).symm
  | cons a x ih =>
    cases y with
    | nil => exact (Nat.min_zero _).symm
    | cons b y =>
      rw [merge_cons, List.length_cons, List.length_cons, List.length_cons, ih]
      omega

theorem covers_merge (x y : Row) (hl : x.length = y.length) (h : x.adjacent y = true)
    (vs : List Bool) : (x.merge y).covers vs = (x.covers vs || y.covers vs) := by
  obtain ⟨u, w, b, rfl, rfl⟩ := exists_flip_of_adjacent x y hl h
  rw [merge_flip]
  exact covers_free u w b vs

end Row

/-- some row covers the values -/
def Covering (rows : List Row) (vs : List Bool) : Prop := ∃ x ∈ rows, x.covers vs = true

theorem covering_append (xs ys : List Row) (vs : List Bool) :
    Covering (xs ++ ys) vs ↔ Covering xs vs ∨ Covering ys vs := by
  constructor
  · rintro ⟨x, hx, hcovers⟩
    exact (List.mem_append.mp hx).imp (fun hx => ⟨x, hx, hcovers⟩) fun hx => ⟨x, hx, hcovers⟩
  · rintro (⟨x, hx, hcovers⟩ | ⟨x, hx, hcovers⟩)
    · exact ⟨x, List.mem_append_left _ hx, hcovers⟩
    · exact ⟨x, List.mem_append_right _ hx, hcovers⟩

/-! ## one step -/

section
variable {n : Nat} {rows : List Row} (hn : ∀ x ∈ rows, x.length = n)
include hn

theorem length_of_mem_following (z : Row) (hz : z ∈ following rows) : z.length = n := by
  obtain ⟨x, hx, y, hy, _, rfl⟩ := (mem_following_iff rows z).mp hz
  rw [Row.length_merge, hn x hx, hn y hy, Nat.min_self]

theorem covering_iff_unmerged_or_following (vs : List Bool) :
    Covering rows vs ↔ Covering (unmerged rows) vs ∨ Covering (following rows) vs := by
  constructor
  · rintro ⟨x, hx, hcovers⟩
    by_cases hm : Merges rows x
    · obtain ⟨_, y, hy, hadj⟩ := hm
      refine .inr ⟨x.merge y, (mem_following_iff rows _).mpr ⟨x, hx, y, hy, hadj, rfl⟩, ?_⟩
      rw [Row.covers_merge x y ((hn x hx).trans (hn y hy).symm) hadj, hcovers, Bool.true_or]
    · exact .inl ⟨x, (mem_unmerged rows x).mpr ⟨hx, hm⟩, hcovers⟩
  · rintro (⟨x, hx, hcovers⟩ | ⟨z, hz, hcovers⟩)
    · exact ⟨x, ((mem_unmerged rows x).mp hx).1, hcovers⟩
    · obtain ⟨x, hx, y, hy, hadj, rfl⟩ := (mem_following_iff rows z).mp hz
      rw [Row.covers_merge x y ((hn x hx).trans (hn y hy).symm) hadj, Bool.or_eq_true] at hcovers
      rcases hcovers with hcovers | hcovers
      · exact ⟨x, hx, hcovers⟩
      · exact ⟨y, hy, hcovers⟩

/-! ## all steps -/

theorem length_of_mem_flatMap_unmerged (x : Row) (hx : x ∈ (generations rows).flatMap unmerged) :
    x.length = n := by
  induction rows using generations.induct with
  | case1 =>
    rw [generations_nil] at hx
    exact absurd hx List.not_mem_nil
  | case2 y rows ih =>
    rw [generations_cons, List.flatMap_cons, List.mem_append] at hx
    rcases hx with hx | hx
    · exact hn x ((mem_unmerged _ x).mp hx).1
    · exact ih (length_of_mem_following hn) hx

theorem covering_flatMap_unmerged (vs : List Bool) :
    Covering ((generations rows).flatMap unmerged) vs ↔ Covering rows vs := by
  induction rows using generations.induct with
  | case1 => rw [generations_nil, List.flatMap_nil]
  | case2 y rows ih =>
    rw [generations_cons, List.flatMap_cons, covering_append, ih (length_of_mem_following hn)]
    exact (covering_iff_unmerged_or_following hn vs).symm

end

theorem covering_eraseDups (rows : List Row) (vs : List Bool) :
    Covering rows.eraseDups vs ↔ Covering rows vs := by
  unfold Covering
  simp only [List.mem_eraseDups]

namespace Minimizer

/-- **Merging keeps what is covered.**  Whatever a session has done before, if it merges rows of one
length, then the rows of the answer have that length, and an assignment is covered by one of them
just if it is covered by one of the rows that were merged. -/
theorem merge_keeps_covered (m : Minimizer) (n : Nat) (rows : List Row)
    (hn : ∀ x ∈ rows, x.length = n) :
    (∀ x ∈ (m.merge rows).answer, x.length = n)
      ∧ ∀ a : Assignment, (∃ x ∈ (m.merge rows).answer, x.covers a.values = true)
        ↔ ∃ x ∈ rows, x.covers a.values = true := by
  have hn' : ∀ x ∈ rows.eraseDups, x.length = n := fun x hx => hn x (List.mem_eraseDups.mp hx)
  constructor
  · intro x hx
    exact length_of_mem_flatMap_unmerged hn' x (List.mem_eraseDups.mp hx)
  · intro a
    have hrun := covering_flatMap_unmerged hn' a.values
    rw [covering_eraseDups] at hrun
    exact (covering_eraseDups _ a.values).trans hrun

/-- two rows merge to a third one that is there already and merges on -/
theorem merge_keeps_covered_of_mixed_rows :
    let rows : List Row := [[.on, .on], [.on, .off], [.on, .free], [.off, .free]]
    (∀ x ∈ rows, x.length = 2)
      ∧ ∀ a : Assignment, (∃ x ∈ ((fresh 30).merge rows).answer, x.covers a.values = true)
        ↔ ∃ x ∈ rows, x.covers a.values = true := by
  intro rows
  have hn : ∀ x ∈ rows, x.length = 2 := by decide
  exact ⟨hn, (merge_keeps_covered (fresh 30) 2 rows hn).2⟩

end Minimizer

end Sentential
