import Sentential.Implicant.Prime
import Sentential.Implicant.Product
import Sentential.Minimizer.Options
import Sentential.Semantics.TruthTable

/-!
# Sessions of the minimizer

A `Minimizer` remembers the options of its last call, the symbols, the sizes of the generations, the
result and whether times have been taken, and it has a channel for messages with a level.  A step
gives an answer, the next state and the messages that were printed.

`Minimizer.call` minimizes a formula.  It forgets the last call first; a call that fails leaves what
it had set by then.  During a call the channel has the level of the options, afterwards the
effective level that it had before.  Everything that a call leaves behind apart from that level is a
function of the formula and the options alone.
-/

namespace Sentential

structure Minimizer where
  options : Option Options
  symbols : Option (List Name)
  generations : Option (List Nat)
  result : Option (List Row)
  tableTimed : Bool
  mergingTimed : Bool
  totalTimed : Bool
  level : Level

namespace Minimizer

/-- nothing remembered, and a channel of level `l` -/
def fresh (l : Level) : Minimizer := ⟨none, none, none, none, false, false, false, l⟩

structure Outcome (α : Type) where
  answer : α
  state : Minimizer
  log : List Message

/-! ## messages of a call -/

def generationMessages (sizes : List Nat) : List Message :=
  sizes.mapIdx fun i n =>
    ⟨10, "generation " ++ toString (i + 1) ++ ": " ++ toString n ++ " rows"⟩

def tableMessage (rows symbols : Nat) : Message :=
  ⟨20, toString rows ++ " of " ++ toString (Nat.pow 2 symbols) ++ " rows are true"⟩

def resultMessage (n : Nat) : Message := ⟨20, "found " ++ toString n ++ " prime implicants"⟩

/-! ## steps -/

def trueRows (f : Formula) : List Row := f.truthTable.trueRows.map Row.ofAssignment

/-- the number of symbols exceeds the bound of the options -/
def exceeds (n : Nat) (o : Options) : Bool :=
  match o.limit? with
  | some limit => limit < n
  | none => false

/-- a call with options, on a channel whose level before the call counts as `saved` -/
def run (saved : Level) (x : Operand) (o : Options) : Outcome (Except Fault (List Row)) :=
  let begun := { fresh saved with options := some o }
  match o.level, o.checkLength, x.receive "fold" with
  | .error e, _, _ => ⟨.error e, begun, []⟩
  | .ok _, .error e, _ => ⟨.error e, begun, []⟩
  | .ok l, .ok (), .error e => ⟨.error e, begun, Message.printed l [⟨20, o.written⟩]⟩
  | .ok l, .ok (), .ok f =>
    let opening : List Message := [⟨20, o.written⟩]
    let named := { begun with symbols := some f.names }
    if exceeds f.names.length o then
      ⟨.error (.tooManySymbols f.names.length o.maxSymbols), named, Message.printed l opening⟩
    else
      let rows := trueRows f
      let gens := history rows
      let primes := leftOver gens
      let sizes := gens.map List.length
      let done := { named with
        generations := some sizes
        result := some primes
        tableTimed := true
        mergingTimed := true
        totalTimed := true }
      ⟨.ok primes, done, Message.printed l
        (opening ++ tableMessage rows.length f.names.length :: generationMessages sizes
          ++ [resultMessage primes.length])⟩

def call (m : Minimizer) (x : Operand) (kvs : List (String × Datum)) :
    Outcome (Except Fault (List Row)) :=
  match Options.ofPairs kvs with
  | .error e => ⟨.error e, fresh m.level, []⟩
  | .ok o => run m.level.effective x o

/-- a call whose options may bear names that are taken; such a call does not begin -/
def request (m : Minimizer) (x : Operand) (kvs : List (String × Datum)) :
    Outcome (Except Fault (List Row)) :=
  match Options.checkNames kvs with
  | .error e => ⟨.error e, m, []⟩
  | .ok () => m.call x kvs

/-- merge rows outside of a call: only the sizes of the generations are remembered -/
def merge (m : Minimizer) (rows : List Row) : Outcome (List Row) :=
  let gens := history rows
  let sizes := gens.map List.length
  ⟨leftOver gens, { m with generations := some sizes },
    Message.printed m.level (generationMessages sizes)⟩

def setLevel (m : Minimizer) (l : Level) : Minimizer := { m with level := l }

/-- the level of a message has to be an integer -/
def messageLevel (d : Datum) : Except Fault Level :=
  match d with
  | .int n => .ok (.number n)
  | .bool b => .ok (.truth b)
  | _ => .error .notMessageLevel

/-- a message from outside; if its level passes, then that is written, and it has to be a text -/
def say (m : Minimizer) (level text : Datum) : Outcome (Except Fault Unit) :=
  match messageLevel level with
  | .error e => ⟨.error e, m, []⟩
  | .ok l =>
    if m.level.passes l then
      match level.checkLength, text with
      | .error e, _ => ⟨.error e, m, []⟩
      | .ok (), .text s => ⟨.ok (), m, Message.printed m.level [⟨l, s⟩]⟩
      | .ok (), d => ⟨.error (.lacksOperation d "strip"), m, []⟩
    else ⟨.ok (), m, []⟩

end Minimizer

/-- the prime implicants of an operand, over its symbols in ascending order -/
def Operand.minimize (x : Operand) (kvs : List (String × Datum)) : Except Fault (List Row) :=
  ((Minimizer.fresh 30).request x kvs).answer

def Formula.minimize (f : Formula) : Except Fault (List Row) := (Operand.formula f).minimize []

/-- the disjunction of all prime implicants -/
def Formula.minimal (f : Formula) : Except Fault Formula := do
  let rows ← f.minimize
  implicantsFormula rows (f.names.map Name.datum)

end Sentential
