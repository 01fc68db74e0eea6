import Mathlib.Data.List.Basic
import Sentential.Proofs.Implicant.Product
import Sentential.Proofs.Semantics.Total

/-!
# From tables to formulas and back

The formula of a truth table is a disjunction with one full product for each true row.  A product is
full if it has a literal for each symbol.

* `Formula.tableFormula f`    that disjunction, over the symbols of `f`;
* `formula_truthTable`        it is what the table of `f` is turned into;
* `value_tableFormula`        it has the value of `f` under every valuation, since a full product is
                              true in its own row only;
* `occurrences_tableFormula`  it has the symbols of `f` if there is a true row, and none otherwise;
* `truthTable_tableFormula`   so with a true row it has the table of `f`.

`truthTable_round_trip` puts these together with the tables that have no true row.
-/

namespace Sentential

/-! ## rows as products -/

namespace Mapping
open Formula

theorem literals_zip (ns : List Name) (vs : List Bool) :
    literals ⟨((ns.map Name.text).zip vs).map fun e => (.text e.1, e.2)⟩
      = .ok ((Row.ofValues vs).literalsOver ns) := by
  induction ns generalizing vs with
  | nil => cases vs <;> rfl
  | cons n ns ih =>
    cases vs with
    | nil => rfl
    | cons v vs =>
      have hname : Name.ofDatum (.text n.text) = .ok n := Name.ofText_text n
      have hrest := ih vs
      have hcell : (Cell.ofBool v).literalOver n = [literal n v] := by cases v <;> rfl
      rw [literals] at hrest ⊢
      rw [List.map_cons, List.zip_cons_cons, List.map_cons, List.mapM_cons, hname, hrest]
      show Except.ok (literal n v :: (Row.ofValues vs).literalsOver ns)
        = .ok ((Cell.ofBool v).literalOver n ++ (Row.ofValues vs).literalsOver ns)
      rw [hcell]
      rfl

end Mapping

theorem TruthTable.trueRows_eq_nil_iff (t : TruthTable) :
    t.trueRows = [] ↔ ∀ e ∈ t.entries, e.2 = false := by
  rw [trueRows, List.map_eq_nil_iff, List.filter_eq_nil_iff]
  simp only [Bool.not_eq_true]

namespace Formula

/-- the disjunction of a full product for each row that makes the formula true -/
def tableFormula (f : Formula) : Formula := rowsFormula (Minimizer.trueRows f) f.names

section
variable (f : Formula)

theorem product_row (vs : List Bool) :
    (f.row vs).mapping.product = .ok (.conjunction ((Row.ofValues vs).literalsOver f.names)) := by
  have hliterals : (f.row vs).mapping.literals = .ok ((Row.ofValues vs).literalsOver f.names) :=
    Mapping.literals_zip f.names vs
  rw [Mapping.product, hliterals]
  rfl

theorem product_of_mem_trueRows (a : Assignment) (h : a ∈ f.truthTable.trueRows) :
    a.mapping.product
      = .ok (.conjunction ((Row.ofAssignment a).literalsOver f.names)) := by
  rw [trueRows_truthTable] at h
  have htotal : a.IsTotalFor f := f.keys_of_mem_rows a (List.mem_filter.mp h).1
  have hrow := f.product_row a.values
  rwa [← eq_row_of_isTotalFor htotal] at hrow

theorem formula_truthTable : f.truthTable.formula = .ok f.tableFormula := by
  rw [TruthTable.formula_eq, mapM_eq_ok _ _ _ f.product_of_mem_trueRows]
  show Except.ok _ = Except.ok _
  rw [tableFormula, rowsFormula, Minimizer.trueRows, List.map_map]
  rfl

/-! ## the formula of a table -/

theorem value_tableFormula (hf : f.names ≠ []) (v : String → Bool) :
    f.tableFormula.value v = f.value v := by
  have hlength : (f.names.map fun n => v n.text).length = f.names.length := List.length_map ..
  rw [tableFormula, value_rowsFormula, f.value_eq_valueAt, Bool.eq_iff_iff, List.any_eq_true]
  constructor
  · rintro ⟨x, hx, hcovers⟩
    obtain ⟨vs, hl, htrue, rfl⟩ := (Minimizer.mem_trueRows_iff f hf x).mp hx
    -- a row of fixed cells covers nothing but its own values
    have hvs := (Row.covers_ofValues_iff vs _ (hl.trans hlength.symm)).mp hcovers
    rwa [← hvs]
  · intro htrue
    refine ⟨Row.ofValues (f.names.map fun n => v n.text), ?_, ?_⟩
    · exact (Minimizer.mem_trueRows_iff f hf _).mpr ⟨_, hlength, htrue, rfl⟩
    · exact (Row.covers_ofValues_iff _ _ rfl).mpr rfl

theorem names_ne_nil_of_trueRows (h : f.truthTable.trueRows ≠ []) : f.names ≠ [] := by
  intro hnames
  rw [trueRows_truthTable, f.rows_eq_nil hnames] at h
  exact h rfl

theorem occurrences_tableFormula :
    f.tableFormula.occurrences = (Minimizer.trueRows f).flatMap fun _ => f.names := by
  have full (x : Row) (hx : x ∈ Minimizer.trueRows f) :
      (x.literalsOver f.names).flatMap occurrences = f.names := by
    obtain ⟨a, ha, rfl⟩ := List.mem_map.mp hx
    rw [trueRows_truthTable] at ha
    have htotal : a.IsTotalFor f := f.keys_of_mem_rows a (List.mem_filter.mp ha).1
    exact Row.occurrences_literalsOver_ofValues _ _ (length_values_of_isTotalFor htotal)
  rw [tableFormula, occurrences_rowsFormula]
  exact List.flatMap_congr full

theorem sameMeaning_tableFormula (h : f.truthTable.trueRows ≠ []) :
    SameMeaning f.tableFormula f := by
  refine ⟨f.value_tableFormula (f.names_ne_nil_of_trueRows h), fun n => ?_⟩
  obtain ⟨a, ha⟩ := List.exists_mem_of_ne_nil _ h
  have hrow : Row.ofAssignment a ∈ Minimizer.trueRows f := List.mem_map_of_mem ha
  rw [occurrences_tableFormula, ← mem_names f, List.mem_flatMap]
  exact ⟨fun ⟨_, _, hn⟩ => hn, fun hn => ⟨_, hrow, hn⟩⟩

theorem truthTable_tableFormula (h : f.truthTable.trueRows ≠ []) :
    f.tableFormula.truthTable = f.truthTable :=
  (f.sameMeaning_tableFormula h).truthTable_eq

theorem tableFormula_eq_bottom (h : f.truthTable.trueRows = []) : f.tableFormula = .bottom := by
  rw [tableFormula, Minimizer.trueRows, h]
  rfl

end

/-- **Tables and formulas**: the formula of a table with a true row is in disjunctive normal form
and has the same table again, row by row; without true rows, and so without symbols, it is the
truth value false. -/
theorem truthTable_round_trip (f : Formula) :
    ((∃ e ∈ f.truthTable.entries, e.2 = true) →
        ∃ g, f.truthTable.formula = .ok g ∧ g.truthTable = f.truthTable ∧ g.isDnf = true)
      ∧ ((∀ e ∈ f.truthTable.entries, e.2 = false) → f.truthTable.formula = .ok .bottom)
      ∧ (f.names = [] → f.truthTable.formula = .ok .bottom) := by
  have none_true (h : f.truthTable.trueRows = []) : f.truthTable.formula = .ok .bottom := by
    rw [formula_truthTable, f.tableFormula_eq_bottom h]
  refine ⟨?_, fun h => ?_, fun hnames => ?_⟩
  · rintro ⟨e, he, htrue⟩
    have hrows : f.truthTable.trueRows ≠ [] := by
      intro hnil
      have hfalse := (TruthTable.trueRows_eq_nil_iff _).mp hnil e he
      rw [htrue] at hfalse
      exact nomatch hfalse
    refine ⟨f.tableFormula, f.formula_truthTable, f.truthTable_tableFormula hrows, ?_⟩
    exact isDnf_rowsFormula _ f.names
  · exact none_true ((TruthTable.trueRows_eq_nil_iff _).mpr h)
  · refine none_true (Decidable.not_not.mp fun h => ?_)
    exact f.names_ne_nil_of_trueRows h hnames

theorem truthTable_round_trip_of_or :
    let x : Formula := .symbol ⟨"X", by decide⟩
    let f : Formula := .or x (.symbol ⟨"Y", by decide⟩)
    let g : Formula := .and x (.not x)
    (∃ e ∈ f.truthTable.entries, e.2 = true)
      ∧ (∃ k, f.truthTable.formula = .ok k ∧ k.truthTable = f.truthTable ∧ k.isDnf = true)
      ∧ (∀ e ∈ g.truthTable.entries, e.2 = false) ∧ g.truthTable.formula = .ok .bottom
      ∧ names .top = [] ∧ (truthTable .top).formula = .ok .bottom := by
  intro x f g
  have hf : ∃ e ∈ f.truthTable.entries, e.2 = true := by decide
  have hg : ∀ e ∈ g.truthTable.entries, e.2 = false := by decide
  obtain ⟨some_true, _, _⟩ := truthTable_round_trip f
  obtain ⟨_, none_true, _⟩ := truthTable_round_trip g
  obtain ⟨_, _, no_names⟩ := truthTable_round_trip .top
  exact ⟨hf, some_true hf, hg, none_true hg, rfl, no_names rfl⟩

end Formula

end Sentential
