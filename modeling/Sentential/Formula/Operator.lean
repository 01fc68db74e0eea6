import Sentential.Datum.Arithmetic
import Sentential.Formula.Construction

/-!
# Operators between operands

A sign behind a formula builds a formula: conjunction, disjunction, implication, and implication
from right to left.  A sign behind a datum has the meaning that it has for data, and none if a
formula follows.
-/

namespace Sentential.Operand

def combine (s : Sign) (x y : Operand) : Except Fault Operand :=
  match s, x, y with
  | .both, .formula f, y => do
    let g ← Formula.mkBinary (.junction .and) (.formula f) y
    return .formula g
  | .either, .formula f, y => do
    let g ← Formula.mkBinary (.junction .or) (.formula f) y
    return .formula g
  | .rightward, .formula f, y => do
    let g ← Formula.mkBinary .implies (.formula f) y
    return .formula g
  | .leftward, .formula f, y => do
    let g ← Formula.mkBinary .implies y (.formula f)
    return .formula g
  | s, .datum d, .datum e => do
    let c ← d.combine s e
    return .datum c
  | s, x, y => .error (.notCombinable s x.typeName y.typeName)

def invert : Operand → Except Fault Operand
  | .formula f => .ok (.formula (.not f))
  | .datum d => do
    let c ← d.invert
    return .datum c

/-- each operand once, where it comes first -/
def distinct : List Operand → List Operand
  | [] => []
  | x :: xs => x :: (distinct xs).filter fun y => !x.same y

/-- the operand may stand in a set -/
def checkKey : Operand → Except Fault Unit
  | .formula _ => .ok ()
  | .datum d => if d.isKey then .ok () else .error (.notKey d)

/-- the operand can be written -/
def checkLength : Operand → Except Fault Unit
  | .formula _ => .ok ()
  | .datum d => d.checkLength

end Sentential.Operand
