import Sentential.Formula.Traversal
import Sentential.NormalForm.Rule

/-!
# Normal forms

A pass sweeps a formula with a rule, from the atoms to the root.  One sweep is enough for a rule
that makes no new instance of its pattern above the node it changes.

* `Formula.mkNormal`  removes implications and equivalences,
* `Formula.mkNnf`     moves negations to the atoms and then cancels pairs of them: a pair comes into
                      being only when the first sweep has passed both,
* `Formula.mkCnf`, `Formula.mkDnf`  distribute one junction over the other.

A pass makes its form of a formula that has the form before it.  It runs on any other formula too.
`Formula.toNormal` to `Formula.toDnf` chain the passes, so they make their form of every formula.
Truth values are kept as they are.
-/

namespace Sentential

namespace Formula

def mkNormal (f : Formula) : Formula := f.sweep unfoldArrow

def mkNnf (f : Formula) : Formula := (f.sweep deMorgan).sweep doubleNegation

def mkCnf (f : Formula) : Formula := f.sweep (distribute .or)

def mkDnf (f : Formula) : Formula := f.sweep (distribute .and)

def toNormal (f : Formula) : Formula := f.mkNormal

def toNnf (f : Formula) : Formula := f.mkNormal.mkNnf

def toCnf (f : Formula) : Formula := f.toNnf.mkCnf

def toDnf (f : Formula) : Formula := f.toNnf.mkDnf

end Formula

/-- the passes and chains of passes -/
inductive Stage where
  | mkNormal
  | mkNnf
  | mkCnf
  | mkDnf
  | toNormal
  | toNnf
  | toCnf
  | toDnf
deriving DecidableEq, Repr

def Stage.apply : Stage → Formula → Formula
  | .mkNormal => Formula.mkNormal
  | .mkNnf => Formula.mkNnf
  | .mkCnf => Formula.mkCnf
  | .mkDnf => Formula.mkDnf
  | .toNormal => Formula.toNormal
  | .toNnf => Formula.toNnf
  | .toCnf => Formula.toCnf
  | .toDnf => Formula.toDnf

end Sentential
