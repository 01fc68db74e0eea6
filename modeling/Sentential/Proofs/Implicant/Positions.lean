import Mathlib.Data.List.Sort
import Sentential.Proofs.Implicant.Product
import Sentential.Proofs.Semantics.Total
import Sentential.Proofs.Semantics.Truth

/-!
# Rows read by position and by name

A row is read in two ways.  `Row.covers` takes the values of an assignment by position, in the order
of its keys; the formula of a row has literals, whose symbols are looked up by name.  Over ascending
names the two readings agree, also for a row without fixed cells and for no rows at all.

* `Assignment.keys_eq`              an assignment to ascending names has its keys in their order;
* `evaluate_rowsFormula`            under it the formula of some rows is true where one covers its
                                    values;
* `Row.formula_of_length_ne`        a row without one cell for each name has no formula;
* `implicantsFormula_iff_covers`    what callers get for any rows.
-/

namespace Sentential

/-! ## keys -/

/-- the keys of an assignment to ascending names are these names, in their order -/
theorem Assignment.keys_eq (a : Assignment) (ns : List Name) (hns : Name.Ascending ns)
    (h : ∀ k, k ∈ a.keys ↔ k ∈ ns.map Name.text) : a.keys = ns.map Name.text := by
  have hkeys : a.keys.Pairwise (· < ·) := List.pairwise_map.mpr a.ascending
  exact hkeys.eq_of_mem_iff (List.pairwise_map.mpr hns) h

theorem Assignment.valuation_of_mem_keys (a : Assignment) (k : String) (h : k ∈ a.keys) :
    a.valuation k = some (a.total k) := by
  obtain ⟨e, he, rfl⟩ := List.mem_map.mp h
  have hvalue : a.valuation e.1 = some e.2 := (a.mem_entries_iff e.1 e.2).mp he
  rw [Assignment.total, Formula.valueOrFalse, hvalue]
  rfl

/-! ## evaluation -/

section
variable (rows : List Row) (ns : List Name)

theorem evaluate_rowsFormula (a : Assignment) (h : a.keys = ns.map Name.text) :
    (rowsFormula rows ns).evaluate a.valuation = .ok (rows.any fun x => x.covers a.values) := by
  have hbound (n : Name) (hn : n ∈ (rowsFormula rows ns).names) :
      a.valuation n.text = some (a.total n.text) := by
    have hmem := occurrences_rowsFormula_subset rows ns ((Formula.mem_names _ n).mp hn)
    exact a.valuation_of_mem_keys _ (h ▸ List.mem_map_of_mem hmem)
  rw [Formula.evaluate_of_agrees hbound, value_rowsFormula, a.values_eq, h, List.map_map]
  rfl

/-! ## rows of other lengths -/

theorem Row.formula_of_length_ne (x : Row) (h : x.length ≠ ns.length) :
    x.formula (ns.map Name.datum) = .error (.lengthMismatch x.length ns.length) := by
  rw [Row.formula, List.length_map, if_neg h]
  rfl

/-- the first row of another length is the fault -/
theorem implicantsFormula_eq_error (h : ∃ x ∈ rows, x.length ≠ ns.length) :
    ∃ us x ws, rows = us ++ x :: ws ∧ (∀ u ∈ us, u.length = ns.length) ∧ x.length ≠ ns.length
      ∧ implicantsFormula rows (ns.map Name.datum)
        = .error (.lengthMismatch x.length ns.length) := by
  have haccepted (x : Row) (hx : ¬ x.length ≠ ns.length) :
      ∃ f, x.formula (ns.map Name.datum) = .ok f :=
    ⟨_, Row.formula_of_length_eq ns x (not_not.mp hx)⟩
  obtain ⟨us, x, ws, hrows, hus, hx, hfault⟩ := exists_first_refused _ haccepted rows h
  refine ⟨us, x, ws, hrows, fun u hu => not_not.mp (hus u hu), hx, ?_⟩
  rw [implicantsFormula, hfault _ (Row.formula_of_length_ne ns x hx)]
  rfl

/-- **Rows and their formula**: over ascending names, rows with one cell for each name have a
formula in disjunctive normal form, and an assignment to these names makes it true just if one of
the rows covers its values.  If some row has another length, the first such row is the fault. -/
theorem implicantsFormula_iff_covers (hns : Name.Ascending ns) :
    ((∀ x ∈ rows, x.length = ns.length) →
        ∃ f, implicantsFormula rows (ns.map Name.datum) = .ok f ∧ f.isDnf = true
          ∧ ∀ a : Assignment, (∀ k, k ∈ a.keys ↔ k ∈ ns.map Name.text) →
            ∃ b, f.evaluate a.valuation = .ok b
              ∧ (b = true ↔ ∃ x ∈ rows, x.covers a.values = true))
      ∧ ((∃ x ∈ rows, x.length ≠ ns.length) →
        ∃ us x ws fault, rows = us ++ x :: ws ∧ (∀ u ∈ us, u.length = ns.length)
          ∧ x.length ≠ ns.length ∧ fault = .lengthMismatch x.length ns.length
          ∧ fault.kind = .value
          ∧ implicantsFormula rows (ns.map Name.datum) = .error fault) := by
  refine ⟨fun h => ?_, fun h => ?_⟩
  · refine ⟨rowsFormula rows ns, implicantsFormula_eq rows ns h, isDnf_rowsFormula rows ns,
      fun a ha => ?_⟩
    exact ⟨_, evaluate_rowsFormula rows ns a (a.keys_eq ns hns ha), List.any_eq_true⟩
  · obtain ⟨us, x, ws, hrows, hus, hx, hfault⟩ := implicantsFormula_eq_error rows ns h
    exact ⟨us, x, ws, _, hrows, hus, hx, rfl, rfl, hfault⟩

end

/-- a row without fixed cells is covered by everything; a row that is too short is the fault -/
theorem implicantsFormula_iff_covers_of_free_row :
    let x : Name := ⟨"X", by decide⟩
    let y : Name := ⟨"Y", by decide⟩
    let a : Assignment := ⟨[("X", false), ("Y", true)], by unfold Ascending; decide⟩
    let rows : List Row := [[.on, .off], [.free, .free]]
    Name.Ascending [x, y] ∧ (∀ r ∈ rows, r.length = [x, y].length)
      ∧ (∀ k, k ∈ a.keys ↔ k ∈ [x, y].map Name.text)
      ∧ (∃ f, implicantsFormula rows ([x, y].map Name.datum) = .ok f ∧ f.isDnf = true
        ∧ f.evaluate a.valuation = .ok true)
      ∧ (∃ r ∈ [.on] :: rows, r.length ≠ [x, y].length)
      ∧ ∃ fault, fault.kind = .value
        ∧ implicantsFormula ([.on] :: rows) ([x, y].map Name.datum) = .error fault := by
  intro x y a rows
  have hns : Name.Ascending [x, y] := by
    unfold Name.Ascending
    decide
  have hrows : ∀ r ∈ rows, r.length = [x, y].length := by decide
  have hkeys (k : String) : k ∈ a.keys ↔ k ∈ [x, y].map Name.text := Iff.rfl
  have hshort : ∃ r ∈ [.on] :: rows, r.length ≠ [x, y].length := by decide
  obtain ⟨reads, _⟩ := implicantsFormula_iff_covers rows [x, y] hns
  obtain ⟨_, refuses⟩ := implicantsFormula_iff_covers ([.on] :: rows) [x, y] hns
  obtain ⟨f, hf, hdnf, hcovers⟩ := reads hrows
  obtain ⟨b, hvalue, hb⟩ := hcovers a hkeys
  have htrue : b = true := hb.mpr ⟨[.free, .free], by decide, rfl⟩
  obtain ⟨_, _, _, fault, _, _, _, _, hkind, hfault⟩ := refuses hshort
  exact ⟨hns, hrows, hkeys, ⟨f, hf, hdnf, htrue ▸ hvalue⟩, hshort, fault, hkind, hfault⟩

end Sentential
