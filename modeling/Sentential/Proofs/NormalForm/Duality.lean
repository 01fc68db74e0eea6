import Sentential.Proofs.NormalForm.Complement

/-!
# The passes that distribute are duals

The conjunctive pass does to a formula what the disjunctive pass does to its dual, the same tree
with the two junctions exchanged at every node.  Nothing is asked of the formula: arrows and
negations of any kind stay where they are.

* `Formula.dual f`       the dual formula;
* `sweep_dual`           two rules that match under the exchange give sweeps that match;
* `distribute_dual`      the rules that distribute `j` and `j.dual` match, node by node and with the
                         arguments in the same order.

`passes_of_dual` is the result for both passes.
-/

namespace Sentential

/-! ## dual formulas -/

/-- arrows have no dual connective and stay as they are -/
def Connective.dual : Connective → Connective
  | .junction j => .junction j.dual
  | op => op

@[simp] theorem Connective.dual_dual (op : Connective) : op.dual.dual = op := by
  rcases op with j | _ | _
  · exact congrArg Connective.junction j.dual_dual
  · rfl
  · rfl

theorem Connective.dual_eq_junction_iff (op : Connective) (j : Junction) :
    op.dual = .junction j.dual ↔ op = .junction j := by
  constructor
  · intro h
    rw [← op.dual_dual, h]
    exact congrArg Connective.junction j.dual_dual
  · intro h
    rw [h]
    rfl

namespace Formula

/-- conjunctions and disjunctions exchanged at every node -/
def dual : Formula → Formula
  | .not f => .not f.dual
  | .binary op l r => .binary op.dual l.dual r.dual
  | f => f

theorem dual_join (j : Junction) (l r : Formula) :
    dual (.join j l r) = .join j.dual l.dual r.dual := rfl

theorem isJoin_dual (j : Junction) (f : Formula) : f.dual.isJoin j.dual = f.isJoin j := by
  cases f with
  | binary op l r => exact decide_eq_decide.mpr (op.dual_eq_junction_iff j)
  | top => rfl
  | bottom => rfl
  | symbol n => rfl
  | not f => rfl

/-! ## sweeps -/

/-- rules that match under the exchange of junctions give sweeps that match -/
theorem sweep_dual {rule rule' : Formula → Formula} (h : ∀ g, rule' g.dual = (rule g).dual)
    (f : Formula) : f.dual.sweep rule' = (f.sweep rule).dual := by
  induction f with
  | top =>
    rw [sweep_top, ← h]
    exact sweep_top rule'
  | bottom =>
    rw [sweep_bottom, ← h]
    exact sweep_bottom rule'
  | symbol n =>
    rw [sweep_symbol, ← h]
    exact sweep_symbol rule' n
  | not f ih =>
    rw [dual, sweep_not, ih, sweep_not, ← h]
    rfl
  | binary op l r ihl ihr =>
    rw [dual, sweep_binary, ihl, ihr, sweep_binary, ← h]
    rfl

/-! ## distribution -/

theorem distribute_dual (j : Junction) (f : Formula) :
    distribute j.dual f.dual = (distribute j f).dual := by
  cases f with
  | binary op l r =>
    by_cases hop : op = .junction j
    · subst hop
      rw [dual_join, distribute_join, distribute_join]
      exact distributeOver_exchanged dual_join isJoin_dual j r l
    · have hdual : op.dual ≠ .junction j.dual := mt (op.dual_eq_junction_iff j).mp hop
      rw [dual, distribute_binary_of_ne j.dual _ _ _ hdual, distribute_binary_of_ne j _ _ _ hop]
      rfl
  | top => rfl
  | bottom => rfl
  | symbol n => rfl
  | not f => rfl

/-- **The passes that distribute are duals**: whatever its form, a formula with the junctions
exchanged is brought by the one pass to what the other makes of the formula, with the junctions
exchanged. -/
theorem passes_of_dual (f : Formula) :
    mkDnf f.dual = (mkCnf f).dual ∧ mkCnf f.dual = (mkDnf f).dual :=
  ⟨sweep_dual (distribute_dual .or) f, sweep_dual (distribute_dual .and) f⟩

end Formula

end Sentential
