import Sentential.Proofs.Implicant.Column
import Sentential.Proofs.Minimizer.Dependence

/-!
# Minimizing again

The minimal formula lacks the symbols that do not matter, so its own truth table has fewer columns,
and its run is another one.  Yet it ends with the same products in the same order: over the symbols
that are left the prime implicants are the same rows without the free columns, and the order of rows
does not look at columns that are free in all of them.

* `primeImplicants_eq_map_widen`   the prime implicants of a formula are those of its minimal
                                   formula with the free columns put in;
* `primesFormula_primesFormula`    the minimal formula is its own minimal formula;
* `request_again`                  the answers of any two sessions.

The truth table must not consist of true rows alone: the minimal formula of such a table is the
empty product, which has no table, and the minimal formula of an empty table is the empty sum.
-/

namespace Sentential

namespace Formula

/-! ## kept columns -/

/-- which symbols of the formula its minimal formula keeps -/
def kept (f : Formula) : List Bool := f.names.map fun n => decide (n ∈ f.primesFormula.names)

section
variable (f : Formula)

theorem select_kept : select f.kept f.names = f.primesFormula.names := by
  have hsubset (n : Name) (hn : n ∈ f.primesFormula.names) : n ∈ f.names :=
    f.mem_names_of_dependsOn n ((f.mem_names_primesFormula n).mp hn)
  rw [kept, select_map_eq_filter]
  refine Name.eq_of_ascending (f.ascending_names.filter _) (ascending_names _) fun n => ?_
  rw [List.mem_filter, decide_eq_true_eq]
  exact and_iff_right_of_imp (hsubset n)

theorem length_kept : f.kept.length = f.names.length := List.length_map ..

theorem count_kept : f.kept.count true = f.primesFormula.names.length := by
  rw [← select_kept, length_select f.kept f.names f.length_kept.symm]

theorem valueAt_select_kept (hf : f.names ≠ []) (vs : List Bool)
    (hl : vs.length = f.names.length) :
    f.primesFormula.valueAt (select f.kept vs) = f.valueAt vs := by
  have hvalues :
      (f.primesFormula.names.map fun n => (f.row vs).total n.text) = select f.kept vs := by
    rw [← select_kept, map_select, f.map_total_row vs hl]
  rw [← hvalues, ← value_eq_valueAt, value_primesFormula hf]
  rfl

theorem isPrime_widened_iff (hf : f.names ≠ []) {y x : Row} (h : Row.Widened f.kept y x) :
    f.IsPrime x ↔ f.primesFormula.IsPrime y := by
  have hholds (vs : List Bool) (hl : vs.length = f.kept.length) :
      f.Holds vs ↔ f.primesFormula.Holds (select f.kept vs) := by
    rw [Holds, Holds, f.valueAt_select_kept hf vs (hl.trans f.length_kept)]
  rw [isPrime_iff, isPrime_iff, ← f.length_kept, ← f.count_kept]
  exact primeImplicant_widened hholds h

theorem primeImplicants_eq_map_widen (hf : f.names ≠ []) (hg : f.primesFormula.names ≠ []) :
    primeImplicants (Minimizer.trueRows f)
      = (primeImplicants (Minimizer.trueRows f.primesFormula)).map (Row.widen f.kept) := by
  have hmem := Minimizer.mem_primeImplicants_trueRows f hf
  have hmem' := Minimizer.mem_primeImplicants_trueRows _ hg
  have hwidened (y : Row) (hy : y ∈ primeImplicants (Minimizer.trueRows f.primesFormula)) :
      Row.Widened f.kept y (Row.widen f.kept y) := by
    refine Row.widened_widen _ y ?_
    rw [count_kept]
    exact ((hmem' y).mp hy).1.1
  refine Row.eq_of_sorted (Minimizer.sorted_primesOf f) ?_ fun x => ?_
  · refine List.pairwise_map.mpr ((Minimizer.sorted_primesOf _).imp_of_mem fun hy hy' hlt => ?_)
    exact (hwidened _ hy).before (hwidened _ hy') hlt
  · rw [List.mem_map]
    constructor
    · intro hx
      -- all literals of a prime implicant stand in kept columns
      obtain ⟨y, hy⟩ := x.exists_widened (fun n => decide (n ∈ f.primesFormula.names)) f.names
        ((hmem x).mp hx).1.1 fun n hn =>
          decide_eq_true ((f.mem_names_primesFormula_iff n).mpr ⟨x, hx, hn⟩)
      refine ⟨y, (hmem' y).mpr ?_, hy.eq_widen.symm⟩
      exact (f.isPrime_widened_iff hf hy).mp ((hmem x).mp hx)
    · rintro ⟨y, hy, rfl⟩
      exact (hmem _).mpr ((f.isPrime_widened_iff hf (hwidened y hy)).mpr ((hmem' y).mp hy))

/-! ## the minimal formula again -/

theorem rowsFormula_map_widen (ks : List Bool) (rows : List Row) (ns : List Name)
    (h : ∀ y ∈ rows, y.length = ks.count true) :
    rowsFormula (rows.map (Row.widen ks)) ns = rowsFormula rows (select ks ns) := by
  rw [rowsFormula, rowsFormula, List.map_map]
  congr 1
  refine List.map_congr_left fun y hy => ?_
  show conjunction ((Row.widen ks y).literalsOver ns) = _
  rw [(Row.widened_widen ks y (h y hy)).literalsOver]

theorem primesFormula_of_names_eq_nil (hf : f.names = []) : f.primesFormula = .bottom := by
  rw [primesFormula, Minimizer.primeImplicants_eq_nil f hf]
  rfl

/-- without symbols the minimal formula has one value, and a false row says which -/
theorem primesFormula_eq_bottom (hf : f.names ≠ []) (hg : f.primesFormula.names = [])
    (h : ∃ e ∈ f.truthTable.entries, e.2 = false) : f.primesFormula = .bottom := by
  obtain ⟨_, he, hfalse⟩ := h
  obtain ⟨a, _, rfl⟩ := List.mem_map.mp he
  have hconstant (v : String → Bool) : f.value v = false := by
    rw [← value_primesFormula hf, ← hfalse, ← value_primesFormula hf]
    refine value_congr _ _ _ fun n hn => ?_
    rw [← mem_names, hg] at hn
    exact absurd hn List.not_mem_nil
  have hrows : Minimizer.trueRows f = [] := by
    refine List.eq_nil_iff_forall_not_mem.mpr fun x hx => ?_
    obtain ⟨vs, _, htrue, _⟩ := (Minimizer.mem_trueRows_iff f hf x).mp hx
    exact Bool.false_ne_true ((hconstant _).symm.trans htrue)
  rw [primesFormula, hrows, primeImplicants_nil]
  rfl

theorem primesFormula_primesFormula
    (h : f.truthTable.entries = [] ∨ ∃ e ∈ f.truthTable.entries, e.2 = false) :
    f.primesFormula.primesFormula = f.primesFormula := by
  by_cases hg : f.primesFormula.names = []
  · rw [primesFormula_of_names_eq_nil _ hg]
    by_cases hf : f.names = []
    · exact (f.primesFormula_of_names_eq_nil hf).symm
    · rcases h with h | h
      · rw [entries_truthTable, List.map_eq_nil_iff, rows_eq_nil_iff] at h
        exact absurd h hf
      · exact (f.primesFormula_eq_bottom hf hg h).symm
  · have hf : f.names ≠ [] := fun hf => hg (by rw [f.primesFormula_of_names_eq_nil hf]; rfl)
    have hlength (y : Row) (hy : y ∈ primeImplicants (Minimizer.trueRows f.primesFormula)) :
        y.length = f.kept.count true := by
      rw [count_kept]
      exact ((Minimizer.mem_primeImplicants_trueRows _ hg y).mp hy).1.1
    calc f.primesFormula.primesFormula
      _ = rowsFormula (primeImplicants (Minimizer.trueRows f.primesFormula))
            (select f.kept f.names) := by rw [select_kept]; rfl
      _ = rowsFormula ((primeImplicants (Minimizer.trueRows f.primesFormula)).map
            (Row.widen f.kept)) f.names := (rowsFormula_map_widen _ _ _ hlength).symm
      _ = f.primesFormula := by rw [← f.primeImplicants_eq_map_widen hf hg]; rfl

end

end Formula

namespace Minimizer

/-- **Minimizing again changes nothing**: if the truth table is empty or has a false row, then the
minimal formula, its products and literals in their order included, is what any session answers to
it in turn. -/
theorem request_again (f : Formula)
    (h : f.truthTable.entries = [] ∨ ∃ e ∈ f.truthTable.entries, e.2 = false) :
    ∃ g, (∀ m : Minimizer, m.Minimizes f g) ∧ ∀ m : Minimizer, m.Minimizes g g := by
  refine ⟨f.primesFormula, fun m => minimizes_primesFormula m f, fun m => ?_⟩
  have hagain := minimizes_primesFormula m f.primesFormula
  rwa [f.primesFormula_primesFormula h] at hagain

/-- the symbol `Y` does not matter, so the second call of the session works on one column -/
theorem request_again_of_dropped_symbol :
    let x : Formula := .symbol ⟨"X", by decide⟩
    let y : Formula := .symbol ⟨"Y", by decide⟩
    let f : Formula := .and x (.or y (.not y))
    let m := fresh 30
    (∃ e ∈ f.truthTable.entries, e.2 = false)
      ∧ ∃ g, m.Minimizes f g ∧ (m.request (.formula f) []).state.Minimizes g g := by
  intro x y f m
  have hfalse : ∃ e ∈ f.truthTable.entries, e.2 = false := by decide
  obtain ⟨g, hfirst, hagain⟩ := request_again f (.inr hfalse)
  exact ⟨hfalse, g, hfirst m, hagain _⟩

end Minimizer

end Sentential
