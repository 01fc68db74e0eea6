import Sentential.Formula.Construction
import Sentential.Mapping

/-!
# Tables

A `Table` is what callers hand over as a truth table: truth values under mappings, in the order in
which the mappings first arrived.  Nothing is asked of it: rows may be missing, and two rows may
have different keys.

* `Table.ofPairs`   one row for each mapping; of two values the later;
* `Table.trueRows`  the mappings that are true;
* `Table.formula`   the disjunction of one conjunction of literals for each of them.
-/

namespace Sentential

abbrev Table := List (Mapping × Bool)

namespace Table

/-- put a value under a mapping; a mapping that is there stays as it is -/
def put (m : Mapping) (v : Bool) : Table → Table
  | [] => [(m, v)]
  | (n, w) :: t => if n.same m then (n, v) :: t else (n, w) :: put m v t

def ofPairs (ps : List (Mapping × Bool)) : Table := ps.foldl (fun t p => put p.1 p.2 t) []

def trueRows (t : Table) : List Mapping := (t.filter Prod.snd).map Prod.fst

end Table

/-! ## formulas -/

namespace Mapping

/-- the literals of a mapping; its keys have to be names -/
def literals (m : Mapping) : Except Fault (List Formula) :=
  m.entries.mapM fun e => do
    let n ← Name.ofDatum e.1
    return Formula.literal n e.2

def product (m : Mapping) : Except Fault Formula := do
  let ls ← m.literals
  return Formula.conjunction ls

end Mapping

def Table.formula (t : Table) : Except Fault Formula := do
  let ps ← t.trueRows.mapM Mapping.product
  return Formula.disjunction ps

end Sentential
