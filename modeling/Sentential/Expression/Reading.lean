import Sentential.Expression.Basic
import Sentential.Formula.Construction

/-!
# Expressions as formulas

`Expression.formula` reads an expression as a formula.  Junctions of many arguments are nested to
the right.  An equivalence of many arguments says that each argument agrees with the next, as a
conjunction.  Arguments are read from left to right; an implication has to have two.
-/

namespace Sentential

/-- each formula equivalent to the next -/
def Formula.neighbours : List Formula → List Formula
  | f :: g :: fs => .equivalent f g :: neighbours (g :: fs)
  | _ => []

namespace Expression

mutual
def formula : Expression → Except Fault Formula
  | .constant b => .ok (Formula.ofBool b)
  | .symbol s => do
    let n ← Name.ofText s
    return .symbol n
  | .apply .not [] => throw .noArgument
  | .apply .not (e :: _) => do
    let f ← e.formula
    return .not f
  | .apply (.connective (.junction j)) es => do
    let fs ← formulas es
    return Formula.chain j fs
  | .apply (.connective .implies) es =>
    match es with
    | [a, b] => do
      let f ← a.formula
      let g ← b.formula
      return .implies f g
    | [] => throw (.tooFewArguments 2 0)
    | [_] => throw (.tooFewArguments 2 1)
    | _ => throw (.tooManyArguments 2)
  | .apply (.connective .equivalent) es => do
    let fs ← formulas es
    return Formula.conjunction (Formula.neighbours fs)
  | .foreign text => throw (.notPropositional text)
def formulas : List Expression → Except Fault (List Formula)
  | [] => return []
  | e :: es => do
    let f ← e.formula
    let fs ← formulas es
    return f :: fs
end

/-! ## equations -/

section
variable (e : Expression) (es : List Expression)

theorem formula_symbol (s : String) :
    (symbol s).formula = do return .symbol (← Name.ofText s) := rfl

theorem formula_not : (apply .not (e :: es)).formula = do return .not (← e.formula) := rfl

theorem formula_junction (j : Junction) :
    (apply (.connective (.junction j)) es).formula = do
      return Formula.chain j (← formulas es) := rfl

theorem formula_implies (a b : Expression) :
    (apply (.connective .implies) [a, b]).formula = do
      return .implies (← a.formula) (← b.formula) := rfl

theorem formula_equivalent :
    (apply (.connective .equivalent) es).formula = do
      return Formula.conjunction (Formula.neighbours (← formulas es)) := rfl

theorem formulas_cons : formulas (e :: es) = do
    return (← e.formula) :: (← formulas es) := rfl

end

end Expression

end Sentential
