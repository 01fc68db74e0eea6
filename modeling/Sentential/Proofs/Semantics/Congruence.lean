import Sentential.Proofs.Formula.Stacks
import Sentential.Proofs.Semantics.Meaning

/-!
# Outcomes of evaluation

The outcome of an evaluation is a value, or the fault of the first symbol that has none.  The
outcome of a node is made of the outcomes of its arguments, so a bottom-up transformation keeps
outcomes if its rule does, whatever else the rule does to the formulas that it is handed.

* `evaluate_not`, `evaluate_binary`   the outcome of a node; the left argument fails first;
* `returning rule`                    a rule as a function that may be driven through a formula;
* `deepTransformM_returning`          it makes the formula that a sweep makes, and cannot fail;
* `deepTransformM_keeps_outcome`      the congruence;
* `evaluate_unfoldArrow`              arrows may be unfolded.
-/

namespace Sentential.Formula

/-! ## the outcome of a node -/

section
variable (m : Valuation)

theorem evaluate_top : evaluate m .top = .ok true := evaluate_eq_match m .top

theorem evaluate_bottom : evaluate m .bottom = .ok false := evaluate_eq_match m .bottom

theorem evaluate_symbol (n : Name) (b : Bool) (h : m n.text = some b) :
    evaluate m (.symbol n) = .ok b := by
  rw [evaluate_eq_match, firstUnbound?, occurrences, List.find?_singleton, value, valueOrFalse, h]
  rfl

theorem evaluate_not (f : Formula) :
    evaluate m (.not f) = (do
      let x ← f.evaluate m
      return !x) := by
  rw [evaluate_eq_match, evaluate_eq_match, firstUnbound?_not]
  cases f.firstUnbound? m with
  | some n => rfl
  | none => rfl

theorem evaluate_binary (op : Connective) (l r : Formula) :
    evaluate m (.binary op l r) = (do
      let x ← l.evaluate m
      let y ← r.evaluate m
      return op.value x y) := by
  rw [evaluate_eq_match, evaluate_eq_match, evaluate_eq_match, firstUnbound?_binary]
  cases l.firstUnbound? m with
  | some n => rfl
  | none =>
    cases r.firstUnbound? m with
    | some n => rfl
    | none => rfl

/-- the unfolding of an equivalence meets each argument twice, but first in the same order -/
theorem evaluate_unfoldArrow (f : Formula) : f.unfoldArrow.evaluate m = f.evaluate m := by
  cases f with
  | binary op l r =>
    rcases op with j | _ | _
    · rfl
    · rw [unfoldArrow, evaluate_binary, evaluate_not, evaluate_binary]
      cases l.evaluate m <;> rfl
    · simp only [unfoldArrow, evaluate_binary, evaluate_not]
      cases l.evaluate m with
      | error e => rfl
      | ok x =>
        cases r.evaluate m with
        | error e => rfl
        | ok y => cases x <;> cases y <;> rfl
  | top => rfl
  | bottom => rfl
  | symbol n => rfl
  | not f => rfl

end

/-! ## rules that are driven through a formula -/

/-- a rule as a function that may be driven through a formula -/
def returning (rule : Formula → Formula) (f : Formula) : Except Fault Operand :=
  .ok (.formula (rule f))

/-- what a rule returns can always be rebuilt -/
theorem deepTransformM_returning (rule : Formula → Formula) (f : Formula) :
    deepTransformM (returning rule) f = .ok (.formula (f.sweep rule)) := by
  rw [deepTransformM_eq]
  induction f with
  | top => rw [sweep_top]; rfl
  | bottom => rw [sweep_bottom]; rfl
  | symbol n => rw [sweep_symbol]; rfl
  | not f ih => rw [deepTransformRecM, ih, sweep_not]; rfl
  | binary op l r ihl ihr => rw [deepTransformRecM, ihl, ihr, sweep_binary]; rfl

/-- **Congruence of outcomes.**  If a rule keeps the outcome of every formula under a valuation, the
value or the symbol that is named as unbound, the bottom-up transformation with that rule does. -/
theorem deepTransformM_keeps_outcome (m : Valuation) (rule : Formula → Formula)
    (h : ∀ g, (rule g).evaluate m = g.evaluate m) (f : Formula) :
    deepTransformM (returning rule) f = .ok (.formula (f.sweep rule))
      ∧ (f.sweep rule).evaluate m = f.evaluate m := by
  refine ⟨deepTransformM_returning rule f, ?_⟩
  induction f with
  | top => rw [sweep_top, h]
  | bottom => rw [sweep_bottom, h]
  | symbol n => rw [sweep_symbol, h]
  | not f ih => rw [sweep_not, h, evaluate_not, evaluate_not, ih]
  | binary op l r ihl ihr => rw [sweep_binary, h, evaluate_binary, evaluate_binary, ihl, ihr]

/-- the unfolded equivalence meets the unbound symbol more often, and names the same one -/
theorem deepTransformM_keeps_outcome_of_unfoldArrow :
    let x : Formula := .symbol ⟨"X", by decide⟩
    let y : Formula := .symbol ⟨"Y", by decide⟩
    let f : Formula := .not (.equivalent x (.implies y x))
    let m : Valuation := fun k => if k = "X" then some true else none
    (∀ g, (unfoldArrow g).evaluate m = g.evaluate m)
      ∧ deepTransformM (returning unfoldArrow) f = .ok (.formula (f.sweep unfoldArrow))
      ∧ (f.sweep unfoldArrow).evaluate m = .error (.unbound (.text "Y")) := by
  intro x y f m
  have h := evaluate_unfoldArrow m
  obtain ⟨hmade, houtcome⟩ := deepTransformM_keeps_outcome m unfoldArrow h f
  refine ⟨h, hmade, houtcome.trans ?_⟩
  rw [evaluate_eq_match]
  rfl

end Sentential.Formula
