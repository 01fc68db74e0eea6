import Sentential.Implicant.Product
import Sentential.Proofs.Form
import Sentential.Proofs.Implicant.Adjacency
import Sentential.Proofs.Semantics.Meaning

/-!
# The formula of a list of rows

Over names, a row is the conjunction of its literals `Row.literalsOver x ns`, and a list of rows is
the disjunction `rowsFormula rows ns` of these conjunctions.

* `implicantsFormula_eq`       rows of the right length have this formula;
* `value_rowsFormula`          it is true where some row covers the values of the names;
* `isDnf_rowsFormula`          it is in disjunctive normal form;
* `occurrences_rowsFormula`    its symbols are those of the literals, so all are among the names.

Chains come first: their value, form and symbols are those of their members.
-/

namespace Sentential

namespace Formula

/-! ## chains -/

theorem value_conjunction (fs : List Formula) (v : String → Bool) :
    (conjunction fs).value v = fs.all fun f => f.value v := by
  induction fs with
  | nil => rfl
  | cons f fs ih =>
    cases fs with
    | nil => exact (Bool.and_true _).symm
    | cons g fs =>
      show (f.value v && (conjunction (g :: fs)).value v) = _
      rw [ih]
      rfl

theorem value_disjunction (fs : List Formula) (v : String → Bool) :
    (disjunction fs).value v = fs.any fun f => f.value v := by
  induction fs with
  | nil => rfl
  | cons f fs ih =>
    cases fs with
    | nil => exact (Bool.or_false _).symm
    | cons g fs =>
      show (f.value v || (disjunction (g :: fs)).value v) = _
      rw [ih]
      rfl

/-- what a chain of one or more formulas inherits from them -/
theorem chain_induction {j : Junction} {p : Formula → Prop} (neutral : p (neutral j))
    (join : ∀ l r, p l → p r → p (.join j l r)) (fs : List Formula) (h : ∀ f ∈ fs, p f) :
    p (chain j fs) := by
  induction fs with
  | nil => exact neutral
  | cons f fs ih =>
    have hf := h f (List.mem_cons_self ..)
    cases fs with
    | nil => exact hf
    | cons g fs => exact join f _ hf (ih fun k hk => h k (List.mem_cons_of_mem _ hk))

theorem isPure_chain (j : Junction) (fs : List Formula) (h : ∀ f ∈ fs, f.isPure j = true) :
    (chain j fs).isPure j = true := by
  refine chain_induction (p := fun f => f.isPure j = true) ?_ (fun l r hl hr => ?_) fs h
  · cases j <;> rfl
  · exact (isPure_join_iff j l r).mpr ⟨hl, hr⟩

theorem isLayered_chain_dual (j : Junction) (fs : List Formula)
    (h : ∀ f ∈ fs, f.isLayered j = true) : (chain j.dual fs).isLayered j = true := by
  refine chain_induction (p := fun f => f.isLayered j = true) ?_ (fun l r hl hr => ?_) fs h
  · cases j <;> rfl
  · exact (isLayered_join_dual_iff j l r).mpr ⟨hl, hr⟩

theorem occurrences_chain (j : Junction) (fs : List Formula) :
    (chain j fs).occurrences = fs.flatMap occurrences := by
  induction fs with
  | nil => cases j <;> rfl
  | cons f fs ih =>
    cases fs with
    | nil => exact (List.append_nil _).symm
    | cons g fs =>
      rw [chain_cons_cons, occurrences, ih]
      rfl

end Formula

/-! ## literals of a row -/

/-- the literal of a fixed cell -/
def Cell.literalOver (c : Cell) (n : Name) : List Formula :=
  match c with
  | .on => [.symbol n]
  | .off => [.not (.symbol n)]
  | .free => []

namespace Row
open Formula

/-- the literals of the fixed cells, from left to right -/
def literalsOver : Row → List Name → List Formula
  | c :: x, n :: ns => c.literalOver n ++ literalsOver x ns
  | _, _ => []

theorem literals_eq (x : Row) (ns : List Name) :
    x.literals (ns.map Name.datum) = .ok (x.literalsOver ns) := by
  induction x generalizing ns with
  | nil => rfl
  | cons c x ih =>
    cases ns with
    | nil => rfl
    | cons n ns =>
      rw [List.map_cons, literals, ih, literalsOver]
      cases c with
      | on => rw [Cell.literal?, Name.ofDatum_datum]; rfl
      | off => rw [Cell.literal?, Name.ofDatum_datum]; rfl
      | free => rfl

theorem all_literalsOver (x : Row) (ns : List Name) (v : String → Bool) :
    ((x.literalsOver ns).all fun f => f.value v) = x.covers (ns.map fun n => v n.text) := by
  induction x generalizing ns with
  | nil => rfl
  | cons c x ih =>
    cases ns with
    | nil => rfl
    | cons n ns =>
      rw [literalsOver, List.all_append, ih, List.map_cons, covers_cons]
      congr 1
      cases c with
      | on => cases h : v n.text <;> simp [Cell.literalOver, value, h] <;> rfl
      | off => cases h : v n.text <;> simp [Cell.literalOver, value, h] <;> rfl
      | free => rfl

theorem mem_literalsOver (x : Row) (ns : List Name) (f : Formula) (h : f ∈ x.literalsOver ns) :
    ∃ n ∈ ns, f = .symbol n ∨ f = .not (.symbol n) := by
  induction x generalizing ns with
  | nil => exact nomatch h
  | cons c x ih =>
    cases ns with
    | nil => exact nomatch h
    | cons n ns =>
      rcases List.mem_append.mp h with h | h
      · refine ⟨n, List.mem_cons_self .., ?_⟩
        cases c with
        | on => exact .inl (List.mem_singleton.mp h)
        | off => exact .inr (List.mem_singleton.mp h)
        | free => exact nomatch h
      · obtain ⟨k, hk, hf⟩ := ih ns h
        exact ⟨k, List.mem_cons_of_mem _ hk, hf⟩

/-- a row without free cells has a literal for each name -/
theorem occurrences_literalsOver_ofValues (vs : List Bool) (ns : List Name)
    (h : vs.length = ns.length) : ((ofValues vs).literalsOver ns).flatMap occurrences = ns := by
  induction vs generalizing ns with
  | nil => exact (List.eq_nil_of_length_eq_zero h.symm).symm
  | cons v vs ih =>
    cases ns with
    | nil => exact nomatch h
    | cons n ns =>
      have hfirst : ((Cell.ofBool v).literalOver n).flatMap occurrences = [n] := by cases v <;> rfl
      show ((Cell.ofBool v).literalOver n ++ (ofValues vs).literalsOver ns).flatMap occurrences = _
      rw [List.flatMap_append, hfirst, ih ns (Nat.succ.inj h)]
      rfl

end Row

/-! ## rows as a formula -/

/-- the disjunction of the conjunctions of literals -/
def rowsFormula (rows : List Row) (ns : List Name) : Formula :=
  .disjunction (rows.map fun x => .conjunction (x.literalsOver ns))

theorem mapM_eq_ok {ε α β : Type} (f : α → Except ε β) (g : α → β) (xs : List α)
    (h : ∀ x ∈ xs, f x = .ok (g x)) : xs.mapM f = .ok (xs.map g) := by
  induction xs with
  | nil => rfl
  | cons x xs ih =>
    have hx := h x (List.mem_cons_self ..)
    have hxs := ih fun y hy => h y (List.mem_cons_of_mem _ hy)
    rw [List.mapM_cons, hx, hxs]
    rfl

/-- a walk along a list fails like the first member that is refused -/
theorem exists_first_refused {ε α β : Type} (f : α → Except ε β) {refused : α → Prop}
    (accepted : ∀ x, ¬ refused x → ∃ y, f x = .ok y) (xs : List α) (h : ∃ x ∈ xs, refused x) :
    ∃ us x ws, xs = us ++ x :: ws ∧ (∀ u ∈ us, ¬ refused u) ∧ refused x
      ∧ ∀ e, f x = .error e → xs.mapM f = .error e := by
  induction xs with
  | nil =>
    obtain ⟨x, hx, _⟩ := h
    exact absurd hx List.not_mem_nil
  | cons x xs ih =>
    by_cases hx : refused x
    · refine ⟨[], x, xs, rfl, List.forall_mem_nil _, hx, fun e he => ?_⟩
      rw [List.mapM_cons, he]
      rfl
    · obtain ⟨z, hz, hrefused⟩ := h
      have hz : z ∈ xs := by
        rcases List.mem_cons.mp hz with rfl | hz
        · exact absurd hrefused hx
        · exact hz
      obtain ⟨us, w, ws, hxs, hus, hw, hall⟩ := ih ⟨z, hz, hrefused⟩
      refine ⟨x :: us, w, ws, hxs ▸ rfl, List.forall_mem_cons.mpr ⟨hx, hus⟩, hw, fun e he => ?_⟩
      obtain ⟨y, hy⟩ := accepted x hx
      rw [List.mapM_cons, hy, hall e he]
      rfl

section
variable (rows : List Row) (ns : List Name)

theorem Row.formula_of_length_eq (x : Row) (h : x.length = ns.length) :
    x.formula (ns.map Name.datum) = .ok (.conjunction (x.literalsOver ns)) := by
  rw [Row.formula, if_pos (h.trans (List.length_map ..).symm), Row.literals_eq]
  rfl

theorem implicantsFormula_eq (h : ∀ x ∈ rows, x.length = ns.length) :
    implicantsFormula rows (ns.map Name.datum) = .ok (rowsFormula rows ns) := by
  rw [implicantsFormula, mapM_eq_ok _ _ rows fun x hx => Row.formula_of_length_eq ns x (h x hx)]
  rfl

theorem value_rowsFormula (v : String → Bool) :
    (rowsFormula rows ns).value v = rows.any fun x => x.covers (ns.map fun n => v n.text) := by
  rw [rowsFormula, Formula.value_disjunction, List.any_map]
  congr 1
  funext x
  show (Formula.conjunction (x.literalsOver ns)).value v = _
  rw [Formula.value_conjunction, Row.all_literalsOver]

theorem isDnf_rowsFormula : (rowsFormula rows ns).isDnf = true := by
  refine Formula.isLayered_chain_dual .and _ fun f hf => ?_
  obtain ⟨x, _, rfl⟩ := List.mem_map.mp hf
  refine Formula.isLayered_of_isPure .and (Formula.isPure_chain .and _ fun l hl => ?_)
  obtain ⟨n, _, rfl | rfl⟩ := x.mem_literalsOver ns l hl
  · rfl
  · rfl

theorem occurrences_rowsFormula :
    (rowsFormula rows ns).occurrences
      = rows.flatMap fun x => (x.literalsOver ns).flatMap Formula.occurrences := by
  rw [rowsFormula, Formula.disjunction, Formula.occurrences_chain, List.flatMap_map]
  congr 1
  funext x
  exact Formula.occurrences_chain .and _

theorem occurrences_rowsFormula_subset : (rowsFormula rows ns).occurrences ⊆ ns := by
  intro n hn
  rw [occurrences_rowsFormula] at hn
  obtain ⟨x, _, hx⟩ := List.mem_flatMap.mp hn
  obtain ⟨l, hl, hln⟩ := List.mem_flatMap.mp hx
  obtain ⟨k, hk, rfl | rfl⟩ := x.mem_literalsOver ns l hl
  · exact List.mem_singleton.mp hln ▸ hk
  · exact List.mem_singleton.mp hln ▸ hk

end

end Sentential
