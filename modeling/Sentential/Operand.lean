import Sentential.Datum
import Sentential.Formula.Infix
import Sentential.Formula.Written

/-!
# Operands

An `Operand` is what a caller hands over where a formula is expected: a formula, or a datum that is
none.  Both have a written form, a form for readers, and a word for their kind.
-/

namespace Sentential

inductive Operand where
  | formula (f : Formula)
  | datum (d : Datum)

namespace Operand

def written : Operand → String
  | .formula f => f.written
  | .datum d => d.written

def shown : Operand → String
  | .formula f => f.shown
  | .datum d => d.shown

def typeName : Operand → String
  | .formula f => f.operator
  | .datum d => d.typeName

/-- formulas are compared as trees; no formula is the same as a datum -/
def same : Operand → Operand → Bool
  | .formula f, .formula g => f = g
  | .datum d, .datum e => d.same e
  | _, _ => false

theorem same_formula (f g : Formula) : (formula f).same (formula g) = decide (f = g) := rfl

end Operand

end Sentential
