import Sentential.Proofs.Semantics.Total

/-!
# Equivalence

Formulas are equivalent if their truth tables are the same.  The rows of a table are the total
assignments of the formula, each once, so the table shows which symbols there are and which values
the formula has.  A formula without symbols is the exception: its table is empty and shows no value.

* `mem_rows_iff`, `rows_eq_nil_iff`   what the rows of a formula are;
* `names_eq_of_rows_eq`               the rows determine the symbols;
* `equivalentTo_iff_valueAt`          equivalence, said of lists of values for the symbols;
* `equivalentTo_iff_evaluate`         the same said by evaluation under total assignments.
-/

namespace Sentential.Formula

/-! ## rows and symbols -/

section
variable (f g : Formula)

theorem mem_rows_iff (hf : f.names ≠ []) (a : Assignment) : a ∈ f.rows ↔ a.IsTotalFor f := by
  constructor
  · exact f.keys_of_mem_rows a
  · intro ha
    rw [f.rows_eq hf]
    have hvalues : a.values ∈ valueRows f.names.length :=
      length_values_of_isTotalFor ha ▸ mem_valueRows a.values
    exact List.mem_map.mpr ⟨a.values, hvalues, (eq_row_of_isTotalFor ha).symm⟩

theorem rows_eq_nil_iff : f.rows = [] ↔ f.names = [] := by
  constructor
  · intro hrows
    refine Decidable.not_not.mp fun hf => ?_
    -- with symbols there is a row, for instance the one in which all of them are true
    have hl : (List.replicate f.names.length true).length = f.names.length := List.length_replicate
    have hrow := (f.mem_rows_iff hf _).mpr (isTotalFor_row _ hl)
    rw [hrows] at hrow
    exact List.not_mem_nil hrow
  · exact f.rows_eq_nil

theorem names_eq_of_rows_eq (h : f.rows = g.rows) : f.names = g.names := by
  cases hrows : f.rows with
  | nil =>
    rw [f.rows_eq_nil_iff.mp hrows, g.rows_eq_nil_iff.mp (h ▸ hrows)]
  | cons a as =>
    have ha : a ∈ f.rows := by rw [hrows]; exact List.mem_cons_self ..
    have hkeys : f.names.map Name.text = g.names.map Name.text :=
      (f.keys_of_mem_rows a ha).symm.trans (g.keys_of_mem_rows a (h ▸ ha))
    exact (List.map_inj_right fun _ _ => Name.text_injective).mp hkeys

/-! ## equivalence -/

theorem equivalentTo_iff_rows :
    f.equivalentTo g = true
      ↔ f.names = g.names ∧ ∀ a ∈ f.rows, f.value a.total = g.value a.total := by
  rw [equivalentTo, decide_eq_true_iff]
  constructor
  · intro h
    have hrows : f.rows = g.rows := by
      rw [← keys_truthTable, ← keys_truthTable, Roster.keys, Roster.keys, h]
    refine ⟨f.names_eq_of_rows_eq g hrows, fun a ha => ?_⟩
    rw [entries_truthTable, entries_truthTable, ← hrows] at h
    exact (Prod.mk.inj (List.map_inj_left.mp h a ha)).2
  · rintro ⟨hnames, hvalues⟩
    rw [entries_truthTable, entries_truthTable, ← rows_eq_of_names_eq f g hnames]
    exact List.map_congr_left fun a ha => by rw [hvalues a ha]

theorem equivalentTo_iff_valueAt :
    f.equivalentTo g = true
      ↔ f.names = g.names ∧ (f.names = []
        ∨ ∀ vs, vs.length = f.names.length → f.valueAt vs = g.valueAt vs) := by
  rw [equivalentTo_iff_rows]
  refine and_congr_right fun hnames => ?_
  by_cases hf : f.names = []
  · rw [f.rows_eq_nil_iff.mpr hf]
    exact iff_of_true (fun a ha => absurd ha List.not_mem_nil) (.inl hf)
  · rw [or_iff_right hf]
    -- a total assignment of the one formula is one of the other, with the same list of values
    have hrow : f.row = g.row := row_eq_of_names_eq f g hnames
    constructor
    · intro h vs hl
      rw [valueAt, valueAt, ← hrow]
      exact h _ ((f.mem_rows_iff hf _).mpr (isTotalFor_row vs hl))
    · intro h a ha
      have htotal := (f.mem_rows_iff hf a).mp ha
      have hvalues := h a.values (length_values_of_isTotalFor htotal)
      rwa [valueAt, valueAt, ← hrow, ← eq_row_of_isTotalFor htotal] at hvalues

/-- **Equivalence by truth tables**: to compare the tables as rosters is to compare the symbols
and, where there are any, the values under all total assignments; under these there are values. -/
theorem equivalentTo_iff_evaluate :
    f.equivalentTo g = f.truthTable.agrees g.truthTable
      ∧ (∀ a : Assignment, a.IsTotalFor f → ∃ b, f.evaluate a.valuation = .ok b)
      ∧ (f.equivalentTo g = true
        ↔ f.names = g.names ∧ (f.names = [] ∨ ∀ a : Assignment, a.IsTotalFor f →
          f.evaluate a.valuation = g.evaluate a.valuation)) := by
  refine ⟨equivalentTo_eq_agrees f g, fun a ha => ⟨_, evaluate_of_isTotalFor ha⟩, ?_⟩
  rw [equivalentTo_iff_valueAt]
  refine and_congr_right fun hnames => or_congr_right ?_
  constructor
  · intro h a ha
    have hg : a.IsTotalFor g := ha.trans (congrArg _ hnames)
    rw [evaluate_of_isTotalFor ha, evaluate_of_isTotalFor hg,
      h a.values (length_values_of_isTotalFor ha)]
  · intro h vs hl
    have hf := isTotalFor_row vs hl
    have hg : (f.row vs).IsTotalFor g := hf.trans (congrArg _ hnames)
    have hvalues := h (f.row vs) hf
    rw [evaluate_of_isTotalFor hf, evaluate_of_isTotalFor hg, f.values_row vs hl] at hvalues
    exact Except.ok.inj hvalues

end

end Sentential.Formula
