import Mathlib.Data.Nat.Find
import Sentential.Minimizer.Session
import Sentential.Proofs.Implicant.Generation

/-!
# Merging comes to an end

Merging is a loop.  A turn counts the rows that are to be merged, sets aside what is left over of
them and goes on with their mergers; the loop ends as soon as there are none.  A turn can always be
taken, so that the loop ends has to be shown.  Nothing is asked of the rows: they may have
different numbers of free cells and different lengths, and a merger may be a row that was there
before.

What goes down is the number of fixed cells.  A merger has fewer of them than each of its two rows,
also where it was cut to the shorter one.  So if no row has more than `k` to begin with, then after
`i` turns none has more than `k - i`.

* `Merging.turn`, `Merging.after s i`   one turn, and the state after `i` turns;
* `Merging.EndsAfter s j`  the loop that begins at `s` takes `j` turns;
* `Row.fixed_merge_lt_right`   one merger, seen from its second row;
* `Merging.fixed_add_le`   all rows after some turns, by induction on the turns;
* `Merging.exists_endsAfter`   the loop ends;
* `Merging.generations_eq_trail` what it went through are the generations;
* `merge_ends`             a session that merges rows.
-/

namespace Sentential

/-- the second row may be the longer one, so it is measured the other way round -/
theorem Row.fixed_merge_lt_right (x y : Row) (h : x.adjacent y = true) :
    fixed (merge x y) < fixed y := by
  rw [adjacent_comm] at h
  rw [merge_comm]
  exact fixed_merge_lt y x h

/-! ## turns -/

/-- the rows to be merged, the rows left over so far, and the sizes of the generations so far -/
structure Merging where
  todo : List Row
  done : List Row
  sizes : List Nat

namespace Merging

def start (rows : List Row) : Merging := ⟨rows.eraseDups, [], []⟩

def turn (s : Merging) : Merging :=
  ⟨following s.todo, s.done ++ unmerged s.todo, s.sizes ++ [s.todo.length]⟩

def after (s : Merging) : Nat → Merging
  | 0 => s
  | i + 1 => (s.after i).turn

/-- there is something to do before each of the first `j` turns, and nothing after them -/
def EndsAfter (s : Merging) (j : Nat) : Prop :=
  (s.after j).todo = [] ∧ ∀ i < j, (s.after i).todo ≠ []

/-- the rows before each of the first `j` turns -/
def trail (s : Merging) (j : Nat) : List (List Row) := (List.range j).map fun i => (s.after i).todo

variable (s : Merging)

theorem after_succ (i : Nat) : s.after (i + 1) = (s.after i).turn := rfl

theorem todo_after_succ (i : Nat) : (s.after (i + 1)).todo = following (s.after i).todo := rfl

theorem after_turn (i : Nat) : s.turn.after i = s.after (i + 1) := by
  induction i with
  | zero => rfl
  | succ i ih => rw [after_succ, ih, after_succ s (i + 1)]

theorem length_trail (j : Nat) : (s.trail j).length = j := by
  rw [trail, List.length_map, List.length_range]

theorem trail_succ (j : Nat) : s.trail (j + 1) = s.trail j ++ [(s.after j).todo] := by
  rw [trail, List.range_succ, List.map_append, List.map_singleton, trail]

theorem trail_succ_eq_cons (j : Nat) : s.trail (j + 1) = s.todo :: s.turn.trail j := by
  rw [trail, List.range_succ_eq_map, List.map_cons, List.map_map, trail]
  simp only [after_turn]
  rfl

theorem done_after (j : Nat) : (s.after j).done = s.done ++ (s.trail j).flatMap unmerged := by
  induction j with
  | zero => exact (List.append_nil _).symm
  | succ j ih =>
    rw [after_succ, turn, ih, trail_succ, List.flatMap_append, List.flatMap_singleton,
      List.append_assoc]

theorem sizes_after (j : Nat) : (s.after j).sizes = s.sizes ++ (s.trail j).map List.length := by
  induction j with
  | zero => exact (List.append_nil _).symm
  | succ j ih =>
    rw [after_succ, turn, ih, trail_succ, List.map_append, List.map_singleton, List.append_assoc]

/-! ## the end -/

/-- each turn takes away a fixed cell -/
theorem fixed_add_le {k : Nat} (h : ∀ x ∈ s.todo, x.fixed ≤ k) (i : Nat) :
    ∀ x ∈ (s.after i).todo, x.fixed + i ≤ k := by
  induction i with
  | zero => exact h
  | succ i ih =>
    intro z hz
    rw [todo_after_succ] at hz
    obtain ⟨x, hx, y, _, hadj, rfl⟩ := (mem_following_iff _ z).mp hz
    have hle := ih x hx
    have hlt := Row.fixed_merge_lt x y hadj
    omega

theorem exists_endsAfter {k : Nat} (h : ∀ x ∈ s.todo, x.fixed ≤ k) :
    ∃ j, j ≤ k + 1 ∧ s.EndsAfter j := by
  have hlast : (s.after (k + 1)).todo = [] := by
    refine List.eq_nil_iff_forall_not_mem.mpr fun x hx => ?_
    have := s.fixed_add_le h (k + 1) x hx
    omega
  -- the loop ends at the first such turn
  have hends : ∃ j, (s.after j).todo = [] := ⟨k + 1, hlast⟩
  exact ⟨Nat.find hends, Nat.find_min' hends hlast, Nat.find_spec hends,
    fun i hi => Nat.find_min hends hi⟩

section
variable {s} {j : Nat} (h : s.EndsAfter j)
include h

theorem ne_nil_of_mem_trail (rows : List Row) (hrows : rows ∈ s.trail j) : rows ≠ [] := by
  obtain ⟨i, hi, rfl⟩ := List.mem_map.mp hrows
  exact h.2 i (List.mem_range.mp hi)

/-- what the loop goes through are the generations -/
theorem generations_eq_trail : generations s.todo = s.trail j := by
  induction j generalizing s with
  | zero =>
    have hnone : s.todo = [] := h.1
    rw [hnone, generations_nil]
    rfl
  | succ j ih =>
    have hrest : s.turn.EndsAfter j := by
      refine ⟨?_, fun i hi => ?_⟩
      · rw [after_turn]
        exact h.1
      · rw [after_turn]
        exact h.2 (i + 1) (Nat.succ_lt_succ hi)
    have hsome : s.todo ≠ [] := h.2 0 (Nat.succ_pos j)
    obtain ⟨x, rows, hx⟩ := List.exists_cons_of_ne_nil hsome
    rw [trail_succ_eq_cons, ← ih hrest, turn, hx, generations_cons]

end

end Merging

namespace Minimizer

/-- **Merging comes to an end**, for any rows and whatever the session has done before: if no row
has more than `k` fixed cells, then the loop takes at most `k + 1` turns.  The answer and the sizes
of the generations are what it has gathered by then, with one size for each turn, none of them zero.
The rows of the next turn are the mergers of adjacent rows of this one, and such a row has fewer
fixed cells than either of the two. -/
theorem merge_ends (m : Minimizer) (rows : List Row) (k : Nat) (hk : ∀ x ∈ rows, x.fixed ≤ k) :
    let s := Merging.start rows
    ∃ j, j ≤ k + 1 ∧ s.EndsAfter j
      ∧ (m.merge rows).answer = (s.after j).done.eraseDups
      ∧ (m.merge rows).state.generations = some (s.after j).sizes
      ∧ (s.after j).sizes.length = j ∧ (∀ n ∈ (s.after j).sizes, 0 < n)
      ∧ ∀ i z, (z ∈ (s.after (i + 1)).todo ↔
          ∃ x ∈ (s.after i).todo, ∃ y ∈ (s.after i).todo, x.adjacent y = true ∧ z = x.merge y)
        ∧ ∀ x ∈ (s.after i).todo, ∀ y ∈ (s.after i).todo, x.adjacent y = true → z = x.merge y →
          z.fixed < x.fixed ∧ z.fixed < y.fixed := by
  intro s
  obtain ⟨j, hj, hends⟩ := s.exists_endsAfter fun x hx => hk x (List.mem_eraseDups.mp hx)
  have hhistory : history rows = s.trail j := Merging.generations_eq_trail hends
  have hsizes : (s.after j).sizes = (s.trail j).map List.length := s.sizes_after j
  refine ⟨j, hj, hends, ?_, ?_, ?_, ?_, fun i z => ⟨mem_following_iff _ z, ?_⟩⟩
  · rw [merge, leftOver, hhistory, s.done_after]
    rfl
  · rw [merge, hhistory, hsizes]
  · rw [hsizes, List.length_map, s.length_trail]
  · intro n hn
    rw [hsizes] at hn
    obtain ⟨gen, hgen, rfl⟩ := List.mem_map.mp hn
    exact List.length_pos_iff.mpr (Merging.ne_nil_of_mem_trail hends gen hgen)
  · rintro x - y - hadj rfl
    exact ⟨Row.fixed_merge_lt x y hadj, Row.fixed_merge_lt_right x y hadj⟩

/-- one of the mergers is there before, and another is of a longer and a shorter row -/
theorem merge_ends_of_mixed_rows :
    let rows : List Row := [[.on, .on], [.on, .off], [.on, .free], [.off, .free], [.on]]
    (∀ x ∈ rows, x.fixed ≤ 2)
      ∧ ∃ j, j ≤ 3 ∧ (Merging.start rows).EndsAfter j
        ∧ ((fresh 30).merge rows).answer = ((Merging.start rows).after j).done.eraseDups
        ∧ ((fresh 30).merge rows).state.generations = some ((Merging.start rows).after j).sizes
        ∧ ∀ n ∈ ((Merging.start rows).after j).sizes, 0 < n := by
  intro rows
  have hk : ∀ x ∈ rows, x.fixed ≤ 2 := by decide
  obtain ⟨j, hj, hends, hanswer, hsizes, _, hpos, _⟩ := merge_ends (fresh 30) rows 2 hk
  exact ⟨hk, j, hj, hends, hanswer, hsizes, hpos⟩

end Minimizer

end Sentential
