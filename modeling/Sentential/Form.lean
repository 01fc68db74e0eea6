import Sentential.Datum
import Sentential.Formula.Basic

/-!
# Forms

A form restricts the shape of a formula.

* `Form.fancy`   no restriction,
* `Form.normal`  no implication and no equivalence,
* `Form.nnf`     normal, and negations stand on atoms only,
* `Form.cnf`     negation normal, and no disjunction has a conjunction below it,
* `Form.dnf`     negation normal, and no conjunction has a disjunction below it.

`Formula.hasForm` decides whether a formula has a form.  A `Tag` is what a caller may ask for: one
of the forms, their common bound, or a kind of data, which is no form at all.
-/

namespace Sentential

namespace Formula

def isNormal (f : Formula) : Bool :=
  !f.anyNode (isBinary .implies) && !f.anyNode (isBinary .equivalent)

/-- a negation of something that is no atom -/
def isDeepNot : Formula → Bool
  | .not f => !f.isAtom
  | _ => false

def isNnf (f : Formula) : Bool := f.isNormal && !f.anyNode isDeepNot

/-- a junction `j` at the root and its dual below it -/
def isMixed (j : Junction) : Formula → Bool
  | .binary op l r =>
    op = .junction j && (l.anyNode (isJoin j.dual) || r.anyNode (isJoin j.dual))
  | _ => false

/-- negation normal, and no junction `j` has its dual below it -/
def isLayered (j : Junction) (f : Formula) : Bool := f.isNnf && !f.anyNode (isMixed j)

def isCnf (f : Formula) : Bool := f.isLayered .or

def isDnf (f : Formula) : Bool := f.isLayered .and

end Formula

inductive Form where
  | fancy
  | normal
  | nnf
  | cnf
  | dnf
deriving DecidableEq, Repr

def Form.name : Form → String
  | .fancy => "Fancy"
  | .normal => "Normal"
  | .nnf => "NNF"
  | .cnf => "CNF"
  | .dnf => "DNF"

def Formula.hasForm (f : Formula) : Form → Bool
  | .fancy => true
  | .normal => f.isNormal
  | .nnf => f.isNnf
  | .cnf => f.isCnf
  | .dnf => f.isDnf

def Form.all : List Form := [.fancy, .normal, .nnf, .cnf, .dnf]

/-- what is taken to have a form; nothing is checked -/
def Form.assume {α : Type} (_ : Form) (x : α) : α := x

/-- what may be asked for where a form is expected -/
inductive Tag where
  | form (φ : Form)
  | bound
  /-- the kind of a datum, given by the plainest one of its kind -/
  | kind (plainest : Datum)

def Tag.name : Tag → String
  | .form φ => φ.name
  | .bound => "Form"
  | .kind d => d.typeName

/-- a tag as faults describe it -/
def Tag.description : Tag → String
  | .kind d => "<class '" ++ d.typeName ++ "'>"
  | t => "<class 'proplogic.propositional.forms." ++ t.name ++ "'>"

end Sentential
