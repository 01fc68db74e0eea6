import Sentential.Implicant.Row

/-!
# Prime implicants

The rows that a list of rows covers are merged generation by generation.  A row merges with every
later row of its generation that is adjacent to it; the mergers, each once, are the next generation.
Rows that take part in no merger are left over, and the rows left over in all generations are the
prime implicants.

`generations` ends because a merger has fewer fixed cells than the rows it was made of
(`Row.fixed_merge_lt`): the measure `reach` is one more than the largest number of fixed cells.
-/

namespace Sentential

/-! ## one generation -/

/-- the mergers of each row with the later rows adjacent to it -/
def mergers : List Row → List Row
  | [] => []
  | x :: later => (later.filter x.adjacent).map x.merge ++ mergers later

/-- `left` without the rows that merge with a later row, and without those later rows -/
def dropMerged (left : List Row) : List Row → List Row
  | [] => left
  | x :: later =>
    let ys := later.filter x.adjacent
    dropMerged (if ys.isEmpty then left else left.filter fun u => !(x :: ys).contains u) later

def unmerged (rows : List Row) : List Row := dropMerged rows rows

def following (rows : List Row) : List Row := (mergers rows).eraseDups

theorem mem_mergers (rows : List Row) (z : Row) (h : z ∈ mergers rows) :
    ∃ x ∈ rows, ∃ y ∈ rows, x.adjacent y = true ∧ z = x.merge y := by
  induction rows with
  | nil => exact absurd h List.not_mem_nil
  | cons x later ih =>
    rcases List.mem_append.mp h with h | h
    · obtain ⟨y, hy, rfl⟩ := List.mem_map.mp h
      obtain ⟨hy, hxy⟩ := List.mem_filter.mp hy
      exact ⟨x, List.mem_cons_self .., y, List.mem_cons_of_mem _ hy, hxy, rfl⟩
    · obtain ⟨x', hx, y, hy, hxy⟩ := ih h
      exact ⟨x', List.mem_cons_of_mem _ hx, y, List.mem_cons_of_mem _ hy, hxy⟩

/-! ## all generations -/

def reach : List Row → Nat
  | [] => 0
  | x :: rows => max (x.fixed + 1) (reach rows)

theorem fixed_lt_reach (rows : List Row) (x : Row) (h : x ∈ rows) : x.fixed < reach rows := by
  induction rows with
  | nil => exact absurd h List.not_mem_nil
  | cons y rows ih =>
    rw [reach]
    rcases List.mem_cons.mp h with rfl | h
    · omega
    · have := ih h
      omega

theorem reach_lt (rows : List Row) (b : Nat) (hb : 0 < b) (h : ∀ x ∈ rows, x.fixed + 1 < b) :
    reach rows < b := by
  induction rows with
  | nil => exact hb
  | cons x rows ih =>
    have hx := h x (List.mem_cons_self ..)
    have := ih fun y hy => h y (List.mem_cons_of_mem _ hy)
    rw [reach]
    omega

theorem reach_following (x : Row) (rows : List Row) :
    reach (following (x :: rows)) < reach (x :: rows) := by
  apply reach_lt
  · have := fixed_lt_reach (x :: rows) x (List.mem_cons_self ..)
    omega
  · intro z hz
    obtain ⟨y, hy, y', _, hadj, rfl⟩ := mem_mergers _ z (List.mem_eraseDups.mp hz)
    have h1 := fixed_lt_reach _ y hy
    have h2 := Row.fixed_merge_lt y y' hadj
    omega

/-- the given rows and what follows from them, as long as there is anything -/
def generations : List Row → List (List Row)
  | [] => []
  | x :: rows => (x :: rows) :: generations (following (x :: rows))
termination_by rows => reach rows
decreasing_by exact reach_following x rows

theorem generations_nil : generations [] = [] := by rw [generations]
theorem generations_cons (x : Row) (rows : List Row) :
    generations (x :: rows) = (x :: rows) :: generations (following (x :: rows)) := by
  rw [generations]

/-! ## prime implicants -/

/-- the generations that a list of rows starts -/
def history (rows : List Row) : List (List Row) := generations rows.eraseDups

/-- what is left over in the generations, each row once -/
def leftOver (gens : List (List Row)) : List Row := (gens.flatMap unmerged).eraseDups

def primeImplicants (rows : List Row) : List Row := leftOver (history rows)

end Sentential
