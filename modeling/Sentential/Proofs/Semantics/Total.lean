import Sentential.Minimizer.Session
import Sentential.Proofs.Semantics.Meaning

/-!
# Total assignments

A total assignment of a formula gives values to its symbols and to nothing else.  It is a list of
values for the symbols in ascending order, so the formula is a function of such lists.

* `Assignment.IsTotalFor a f`   the keys of `a` are the symbols of `f`;
* `Formula.valueAt f vs`        the value of `f` where its symbols have the values `vs`;
* `evaluate_of_isTotalFor`      evaluation under a total assignment always gives that value;
* `value_eq_valueAt`            so does the recursive value under any valuation;
* `Minimizer.mem_trueRows_iff`  the rows that the minimizer starts from.
-/

namespace Sentential

/-- the assignment gives values to the symbols of the formula and to nothing else -/
def Assignment.IsTotalFor (a : Assignment) (f : Formula) : Prop := a.keys = f.names.map Name.text

/-! ## values of an assignment -/

theorem Assignment.values_eq (a : Assignment) : a.values = a.keys.map a.total := by
  rw [Assignment.values, Assignment.keys, List.map_map]
  refine List.map_congr_left fun e he => ?_
  show e.2 = (a.get? e.1).getD false
  rw [(a.mem_entries_iff e.1 e.2).mp he]
  rfl

namespace Formula

/-- the value of the formula where its symbols, in ascending order, have the values `vs` -/
def valueAt (f : Formula) (vs : List Bool) : Bool := f.value (f.row vs).total

/-! ## total assignments and lists of values -/

section
variable {a : Assignment} {f : Formula}

theorem length_values_of_isTotalFor (h : a.IsTotalFor f) : a.values.length = f.names.length := by
  have hkeys := congrArg List.length h
  rw [Assignment.keys, List.length_map, List.length_map] at hkeys
  rw [Assignment.values, List.length_map, hkeys]

theorem isTotalFor_row (vs : List Bool) (h : vs.length = f.names.length) :
    (f.row vs).IsTotalFor f := f.keys_row vs h

theorem values_of_isTotalFor (h : a.IsTotalFor f) :
    a.values = f.names.map fun n => a.total n.text := by
  rw [a.values_eq, h, List.map_map]
  rfl

theorem eq_row_of_isTotalFor (h : a.IsTotalFor f) : a = f.row a.values := by
  have hentries : a.entries = (f.names.map Name.text).zip a.values := by
    rw [← h, Assignment.keys, Assignment.values, List.zip_map', List.map_id']
  obtain ⟨es, hes⟩ := a
  exact Assignment.mk.injEq .. ▸ hentries

theorem binds_of_isTotalFor (h : a.IsTotalFor f) : a.valuation.Binds f := by
  intro n hn
  have hkey : n.text ∈ a.keys := h ▸ List.mem_map_of_mem hn
  obtain ⟨e, he, hen⟩ := List.mem_map.mp hkey
  rw [Assignment.valuation, Assignment.get?, List.lookup_isSome_iff]
  exact ⟨e, he, beq_iff_eq.mpr hen.symm⟩

theorem evaluate_of_isTotalFor (h : a.IsTotalFor f) :
    f.evaluate a.valuation = .ok (f.valueAt a.values) := by
  rw [evaluate_of_binds _ f (binds_of_isTotalFor h), valueAt, ← eq_row_of_isTotalFor h]
  rfl

end

theorem map_total_row (f : Formula) (vs : List Bool) (h : vs.length = f.names.length) :
    (f.names.map fun n => (f.row vs).total n.text) = vs := by
  rw [← values_of_isTotalFor (isTotalFor_row vs h), values_row f vs h]

theorem names_ne_nil (f : Formula) (n : Name) (h : n ∈ f.occurrences) : f.names ≠ [] :=
  List.ne_nil_of_mem ((mem_names f n).mpr h)

theorem value_eq_valueAt (f : Formula) (v : String → Bool) :
    f.value v = f.valueAt (f.names.map fun n => v n.text) := by
  refine value_congr f _ _ fun n hn => ?_
  have hmem : n.text ∈ f.names.map Name.text := List.mem_map_of_mem ((mem_names f n).mpr hn)
  have hvalues : (f.names.map fun n => v n.text) = (f.names.map Name.text).map v :=
    (List.map_map ..).symm
  show v n.text
    = (((f.names.map Name.text).zip (f.names.map fun n => v n.text)).lookup n.text).getD false
  rw [hvalues, ← List.map_prod_left_eq_zip, lookup_map_pair, if_pos hmem]
  rfl

/-! ## rows -/

theorem rows_eq_nil (f : Formula) (hf : f.names = []) : f.rows = [] := by
  rw [rows, hf]
  rfl

theorem rows_eq (f : Formula) (hf : f.names ≠ []) :
    f.rows = (valueRows f.names.length).map f.row := by
  rw [rows, List.isEmpty_eq_false_iff.mpr hf, if_neg Bool.false_ne_true]

theorem keys_truthTable (f : Formula) : f.truthTable.keys = f.rows := by
  rw [Roster.keys, entries_truthTable, List.map_map]
  exact List.map_id' _

theorem trueRows_truthTable (f : Formula) :
    f.truthTable.trueRows = f.rows.filter fun a => f.value a.total := by
  rw [TruthTable.trueRows, entries_truthTable, List.filter_map, List.map_map]
  exact List.map_id' _

end Formula

namespace Minimizer

theorem trueRows_eq (f : Formula) (hf : f.names ≠ []) :
    trueRows f = ((valueRows f.names.length).filter f.valueAt).map Row.ofValues := by
  rw [trueRows, Formula.trueRows_truthTable, f.rows_eq hf, List.filter_map, List.map_map]
  refine List.map_congr_left fun vs hvs => ?_
  have hl := length_of_mem_valueRows _ vs (List.mem_filter.mp hvs).1
  show Row.ofValues (f.row vs).values = Row.ofValues vs
  rw [f.values_row vs hl]

/-- the minimizer starts from the values that make the formula true -/
theorem mem_trueRows_iff (f : Formula) (hf : f.names ≠ []) (x : Row) :
    x ∈ trueRows f
      ↔ ∃ vs, vs.length = f.names.length ∧ f.valueAt vs = true ∧ x = Row.ofValues vs := by
  rw [trueRows_eq f hf, List.mem_map]
  constructor
  · rintro ⟨vs, hvs, rfl⟩
    obtain ⟨hmem, htrue⟩ := List.mem_filter.mp hvs
    exact ⟨vs, length_of_mem_valueRows _ vs hmem, htrue, rfl⟩
  · rintro ⟨vs, hl, htrue, rfl⟩
    exact ⟨vs, List.mem_filter.mpr ⟨hl ▸ mem_valueRows vs, htrue⟩, rfl⟩

end Minimizer

end Sentential
