import Sentential.Expression.Basic
import Sentential.Fault

/-!
# Expressions that simplify as they are built

The builders of this module remove what is trivial about a term and keep its meaning.

* `Expression.negate`   flips a truth value and cancels a negation,
* `Expression.joinAll`  flattens a junction, drops its neutral value and repeated arguments, and
                        gives the other value if that is among the arguments,
* `Expression.imply`    is a disjunction if one side is a truth value, and true if the sides agree,
* `Expression.equate`   looks at the different arguments only, and is a junction if a truth value is
                        among them.

A `Builder` is a way to build: `Formula.expressionBy` makes the expression of a formula with it, and
`Formula.expression` does so with `Builder.simplifying`, the builders above.  `Operand.expression`
refuses data.
-/

namespace Sentential

namespace Expression

def negate : Expression → Expression
  | .constant b => .constant !b
  | .apply .not [e] => e
  | e => .apply .not [e]

/-- the value that a junction may drop -/
def neutral : Junction → Bool
  | .and => true
  | .or => false

/-- the arguments, if the expression is this junction, or the expression itself -/
def parts (j : Junction) : Expression → List Expression
  | .apply (.connective (.junction k)) es =>
    if k = j then es else [.apply (.connective (.junction k)) es]
  | e => [e]

def joinAll (j : Junction) (es : List Expression) : Expression :=
  let all := es.flatMap (parts j)
  if all.any (isConstant !(neutral j)) then .constant !(neutral j)
  else
    match distinct (all.filter fun e => !e.isConstant (neutral j)) with
    | [] => .constant (neutral j)
    | [e] => e
    | ds => .apply (.connective (.junction j)) ds

def isTruthValue (e : Expression) : Bool := e.isConstant true || e.isConstant false

def imply (a b : Expression) : Expression :=
  if a.isTruthValue || b.isTruthValue then joinAll .or [a.negate, b]
  else if a.same b then .constant true
  else .apply (.connective .implies) [a, b]

def equate (es : List Expression) : Expression :=
  let ds := distinct es
  if ds.length ≤ 1 then .constant true
  else if ds.any (isConstant true) then joinAll .and (ds.filter fun e => !e.isConstant true)
  else if ds.any (isConstant false) then
    joinAll .and ((ds.filter fun e => !e.isConstant false).map negate)
  else .apply (.connective .equivalent) ds

end Expression

/-! ## expressions of formulas -/

/-- what makes an expression of the expressions below it -/
structure Builder where
  negate : Expression → Expression
  connect : Connective → Expression → Expression → Expression

def Builder.simplifying : Builder where
  negate := Expression.negate
  connect
    | .junction j, a, b => .joinAll j [a, b]
    | .implies, a, b => .imply a b
    | .equivalent, a, b => .equate [a, b]

/-- the expression that a builder makes of a formula, from the atoms upwards -/
def Formula.expressionBy (B : Builder) : Formula → Expression
  | .top => .constant true
  | .bottom => .constant false
  | .symbol n => .symbol n.text
  | .not f => B.negate (f.expressionBy B)
  | .binary op l r => B.connect op (l.expressionBy B) (r.expressionBy B)

def Formula.expression (f : Formula) : Expression := f.expressionBy .simplifying

def Operand.expression : Operand → Except Fault Expression
  | .formula f => .ok f.expression
  | .datum d => .error (.naming d (.notExpressible d))

end Sentential
