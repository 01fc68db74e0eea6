import Sentential.Formula.Construction
import Sentential.Implicant.Row

/-!
# Implicants as formulas

A row over a list of names is the conjunction of the literals that its fixed cells describe, and a
list of rows the disjunction of those.  A row has to have a cell for each name.  Names are handed
over as data; only those of fixed cells are looked at.
-/

namespace Sentential

/-- the literal of a fixed cell -/
def Cell.literal? (c : Cell) (name : Datum) : Except Fault (Option Formula) :=
  match c with
  | .on => do
    let n ← Name.ofDatum name
    return some (.symbol n)
  | .off => do
    let n ← Name.ofDatum name
    return some (.not (.symbol n))
  | .free => return none

namespace Row

/-- the literals of the fixed cells, from left to right -/
def literals : Row → List Datum → Except Fault (List Formula)
  | c :: x, name :: names => do
    let l ← c.literal? name
    let ls ← literals x names
    return l.toList ++ ls
  | _, _ => return []

def formula (x : Row) (names : List Datum) : Except Fault Formula :=
  if x.length = names.length then do
    let ls ← x.literals names
    return Formula.conjunction ls
  else throw (.lengthMismatch x.length names.length)

end Row

/-- the disjunction of the rows; the first row that has no formula is the fault -/
def implicantsFormula (rows : List Row) (names : List Datum) : Except Fault Formula := do
  let fs ← rows.mapM fun x => x.formula names
  return Formula.disjunction fs

end Sentential
