import Sentential.Proofs.Minimizer.Order

/-!
# The order of the answer, cell by cell

`Row.Before` compares numbers.  Here the same order is said of the cells: first the fewer free
cells; then the place in the truth table, where free cells are read as true; then the last place at
which only one of the rows is free, and the row that is free there comes first.

* `TableBefore vs ws`      the order of a truth table: in the first place where the values differ,
                           true comes before false;
* `Row.FreeLast x y`       the last place at which only one of the rows is free is free in `x`;
* `Row.Precedes x y`       the order;
* `index_lt_iff`, `mask_lt_iff`   what the numbers say of the cells, by induction on the rows;
* `before_iff_precedes`    so the two orders are one, for rows of one length;
* `request_lists_in_order` the answer of a session.
-/

namespace Sentential

/-- earlier in a truth table: the first cell decides, and true comes before false -/
def TableBefore (vs ws : List Bool) : Prop := List.Lex (fun v w => v = true ∧ w = false) vs ws

namespace Row

/-- the values of a row whose free cells are read as true -/
def raised (x : Row) : List Bool := x.map fun c => decide (c ≠ .off)

def FreeAt (x : Row) (i : Nat) : Prop := x[i]? = some .free

/-- the last place at which only one of the rows is free is free in the first row -/
def FreeLast (x y : Row) : Prop :=
  ∃ i, x.FreeAt i ∧ ¬ y.FreeAt i ∧ ∀ k, i < k → (x.FreeAt k ↔ y.FreeAt k)

/-- fewer free cells, or as many and earlier in the truth table, or there in the same place and free
in the last place at which only one of the rows is free -/
def Precedes (x y : Row) : Prop :=
  x.freed < y.freed ∨ x.freed = y.freed
    ∧ (TableBefore x.raised y.raised ∨ x.raised = y.raised ∧ x.FreeLast y)

/-! ## the place in the truth table -/

theorem raised_cons (c : Cell) (x : Row) : raised (c :: x) = decide (c ≠ .off) :: raised x := rfl

theorem raised_ofValues (vs : List Bool) : raised (ofValues vs) = vs := by
  rw [raised, ofValues, List.map_map]
  refine (List.map_congr_left fun v _ => ?_).trans (List.map_id vs)
  cases v <;> rfl

theorem index_lt_iff (x y : Row) (hl : x.length = y.length) :
    index x < index y ↔ TableBefore x.raised y.raised := by
  induction x generalizing y with
  | nil =>
    rw [List.eq_nil_of_length_eq_zero hl.symm]
    exact iff_of_false (Nat.lt_irrefl _) List.not_lex_nil
  | cons c x ih =>
    cases y with
    | nil => exact nomatch hl
    | cons d y =>
      have hl' : x.length = y.length := Nat.succ.inj hl
      rw [index_cons_lt_iff c d hl', TableBefore, raised_cons, raised_cons, List.cons_lex_cons_iff,
        ih y hl']
      simp [TableBefore]

theorem index_eq_iff (x y : Row) (hl : x.length = y.length) :
    index x = index y ↔ x.raised = y.raised := by
  induction x generalizing y with
  | nil =>
    rw [List.eq_nil_of_length_eq_zero hl.symm]
    exact iff_of_true rfl rfl
  | cons c x ih =>
    cases y with
    | nil => exact nomatch hl
    | cons d y =>
      have hl' : x.length = y.length := Nat.succ.inj hl
      rw [index_cons_eq_iff c d hl', raised_cons, raised_cons, List.cons.injEq, ih y hl']
      simp

/-! ## the free places -/

theorem freeAt_cons_zero (c : Cell) (x : Row) : FreeAt (c :: x) 0 ↔ c = .free := by
  rw [FreeAt, List.getElem?_cons_zero, Option.some.injEq]

theorem mask_eq_iff (x y : Row) (hl : x.length = y.length) :
    mask x = mask y ↔ ∀ i, x.FreeAt i ↔ y.FreeAt i := by
  induction x generalizing y with
  | nil =>
    rw [List.eq_nil_of_length_eq_zero hl.symm]
    exact iff_of_true rfl fun _ => Iff.rfl
  | cons c x ih =>
    cases y with
    | nil => exact nomatch hl
    | cons d y =>
      rw [mask_cons_eq_iff, ih y (Nat.succ.inj hl)]
      constructor
      · rintro ⟨hcd, hxy⟩ (_ | i)
        · rw [freeAt_cons_zero, freeAt_cons_zero, hcd]
        · exact hxy i
      · intro h
        refine ⟨?_, fun i => h (i + 1)⟩
        rw [← freeAt_cons_zero c x, ← freeAt_cons_zero d y]
        exact h 0

theorem freeLast_cons_iff (c d : Cell) (x y : Row) :
    FreeLast (c :: x) (d :: y)
      ↔ FreeLast x y ∨ (∀ i, x.FreeAt i ↔ y.FreeAt i) ∧ c = .free ∧ d ≠ .free := by
  constructor
  · rintro ⟨_ | i, hx, hy, hlater⟩
    · rw [freeAt_cons_zero] at hx hy
      exact .inr ⟨fun i => hlater (i + 1) (Nat.succ_pos i), hx, hy⟩
    · exact .inl ⟨i, hx, hy, fun k hk => hlater (k + 1) (Nat.succ_lt_succ hk)⟩
  · rintro (⟨i, hx, hy, hlater⟩ | ⟨hsame, hc, hd⟩)
    · refine ⟨i + 1, hx, hy, ?_⟩
      rintro (_ | k) hk
      · exact absurd hk (Nat.not_lt_zero _)
      · exact hlater k (Nat.lt_of_succ_lt_succ hk)
    · refine ⟨0, (freeAt_cons_zero c x).mpr hc, fun h => hd ((freeAt_cons_zero d y).mp h), ?_⟩
      rintro (_ | k) hk
      · exact absurd hk (Nat.lt_irrefl _)
      · exact hsame k

theorem mask_lt_iff (x y : Row) (hl : x.length = y.length) :
    mask y < mask x ↔ x.FreeLast y := by
  induction x generalizing y with
  | nil =>
    rw [List.eq_nil_of_length_eq_zero hl.symm]
    refine iff_of_false (Nat.lt_irrefl _) ?_
    rintro ⟨i, hi, _⟩
    exact nomatch hi
  | cons c x ih =>
    cases y with
    | nil => exact nomatch hl
    | cons d y =>
      have hl' : x.length = y.length := Nat.succ.inj hl
      rw [mask_cons_lt_iff, freeLast_cons_iff, ih y hl', eq_comm (a := mask y), mask_eq_iff x y hl',
        and_comm (a := d ≠ .free)]

theorem before_iff_precedes (x y : Row) (hl : x.length = y.length) : Before x y ↔ Precedes x y := by
  rw [Before, Precedes, index_lt_iff x y hl, index_eq_iff x y hl, mask_lt_iff x y hl]

theorem precedes_irrefl (x : Row) : ¬ Precedes x x :=
  fun h => before_irrefl x ((before_iff_precedes x x rfl).mpr h)

theorem before_of_precedes {n : Nat} {xs : List Row} (hn : ∀ x ∈ xs, x.length = n)
    (h : xs.Pairwise Precedes) : xs.Pairwise Before :=
  h.imp_of_mem fun {x y} hx hy hxy =>
    (before_iff_precedes x y ((hn x hx).trans (hn y hy).symm)).mpr hxy

end Row

namespace Formula

/-- the truth table lists its rows in the order of tables -/
theorem sorted_keys_truthTable (f : Formula) :
    (f.truthTable.keys.map Assignment.values).Pairwise TableBefore := by
  rw [keys_truthTable, rows]
  split
  · exact .nil
  · refine List.pairwise_map.mpr (List.pairwise_map.mpr ((sorted_valueRows _).imp_of_mem ?_))
    intro vs ws hvs hws hlt
    have hvs := length_of_mem_valueRows _ vs hvs
    have hws := length_of_mem_valueRows _ ws hws
    have hl : (Row.ofValues vs).length = (Row.ofValues ws).length := by
      rw [Row.length_ofValues, Row.length_ofValues, hvs, hws]
    rw [Row.index_lt_iff _ _ hl, Row.raised_ofValues, Row.raised_ofValues] at hlt
    rwa [f.values_row vs hvs, f.values_row ws hws]

end Formula

namespace Minimizer

/-- **The answer is in order.**  The order of the truth table is that in which tables list their
rows.  The answer is strictly ascending in the order of rows, so it is the only such list of its
rows, which are the prime implicants if the formula has symbols. -/
theorem request_lists_in_order (m : Minimizer) (f : Formula) :
    (f.truthTable.keys.map Assignment.values).Pairwise TableBefore
      ∧ ∃ rows, (m.request (.formula f) []).answer = .ok rows ∧ rows.Pairwise Row.Precedes
        ∧ (∀ x : Row, ¬ x.Precedes x)
        ∧ (∀ xs : List Row, xs.Pairwise Row.Precedes → (∀ x, x ∈ xs ↔ x ∈ rows) → xs = rows)
        ∧ (f.names ≠ [] → ∀ x, x ∈ rows ↔ f.IsPrime x) := by
  have hlength := length_of_mem_primeImplicants f
  have hsorted := sorted_primesOf f
  refine ⟨f.sorted_keys_truthTable, _, answer_request m f, ?_, Row.precedes_irrefl, ?_, ?_⟩
  · refine hsorted.imp_of_mem fun {x y} hx hy hxy => ?_
    exact (Row.before_iff_precedes x y ((hlength x hx).trans (hlength y hy).symm)).mp hxy
  · intro xs hxs hmem
    have hn (x : Row) (hx : x ∈ xs) : x.length = f.names.length := hlength x ((hmem x).mp hx)
    exact Row.eq_of_sorted (Row.before_of_precedes hn hxs) hsorted hmem
  · exact fun hf => mem_primeImplicants_trueRows f hf

/-- both prime implicants stand in the first place of the table, so their free cells decide -/
theorem request_lists_in_order_of_or :
    let x : Formula := .symbol ⟨"X", by decide⟩
    let f : Formula := .or x (.symbol ⟨"Y", by decide⟩)
    f.names ≠ [] ∧ ∃ rows, ((fresh 30).request (.formula f) []).answer = .ok rows
      ∧ rows.Pairwise Row.Precedes ∧ ∀ r, r ∈ rows ↔ f.IsPrime r := by
  intro x f
  have hf := f.names_ne_nil ⟨"X", by decide⟩ (List.mem_cons_self ..)
  obtain ⟨_, rows, hanswer, hsorted, _, _, hprime⟩ := request_lists_in_order (fresh 30) f
  exact ⟨hf, rows, hanswer, hsorted, hprime hf⟩

end Minimizer

end Sentential
