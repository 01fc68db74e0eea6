import Sentential.Fault
import Sentential.Minimizer.Message

/-!
# Options of the minimizer

Two options may be given by name: the level of the messages and a bound on the number of symbols.
They keep what the caller handed over, so that messages show it unchanged.  A bound has to be an
integer that is not negative, or nothing; that the level is one is checked when it is used
(`Options.level`), and that both can be written when they are (`Options.checkLength`).

Options arrive by name next to the formula, so two names are taken: `checkNames` refuses them before
a call begins.
-/

namespace Sentential

/-- a level by one of the names, or as an integer -/
def Level.ofDatum (d : Datum) : Except Fault Level :=
  match d with
  | .text s =>
    match Level.ofName? s with
    | some l => .ok l
    | none => .error (.unknownLevel s)
  | .int n => .ok (.number n)
  | .bool b => .ok (.truth b)
  | d => .error (.naming d (.notLevel d))

theorem Level.ofDatum_datum (l : Level) : Level.ofDatum l.datum = .ok l := by cases l <;> rfl

structure Options where
  logLevel : Datum
  maxSymbols : Datum

namespace Options

/-- the values that count if no other is given -/
def standard : Options := ⟨.int 0, .nothing⟩

def written (o : Options) : String :=
  "Options(log_level=" ++ o.logLevel.written ++ ", max_symbols=" ++ o.maxSymbols.written ++ ")"

/-- an integer among the options is too long to be written -/
def isLong (o : Options) : Bool := o.logLevel.isLong || o.maxSymbols.isLong

/-- the options can be written -/
def checkLength (o : Options) : Except Fault Unit :=
  if o.isLong then .error .tooLongToWrite else .ok ()

theorem isLong_eq_false {o : Options} (hl : o.logLevel.isLong = false)
    (hm : o.maxSymbols.isLong = false) : o.isLong = false := by
  rw [isLong, hl, hm]
  rfl

theorem checkLength_eq_ok {o : Options} (h : o.isLong = false) : o.checkLength = .ok () := by
  rw [checkLength, h]
  rfl

theorem checkLength_eq_error {o : Options} (h : o.isLong = true) :
    o.checkLength = .error .tooLongToWrite := by
  rw [checkLength, if_pos h]

/-- the bound, if there is one -/
def limit? (o : Options) : Option Int := o.maxSymbols.int?

def checkLimit (d : Datum) : Except Fault Unit :=
  match d, d.int? with
  | .nothing, _ => .ok ()
  | d, some i => if i < 0 then .error (.naming d (.negativeLimit d)) else .ok ()
  | d, none => .error (.notOrdered d.typeName "int")

theorem checkLimit_of_int? {d : Datum} {i : Int} (h : d.int? = some i) :
    checkLimit d = if i < 0 then .error (.naming d (.negativeLimit d)) else .ok () := by
  cases d with
  | bool b => cases h; rfl
  | int j => cases h; rfl
  | _ => cases h

theorem checkLimit_of_int?_eq_none {d : Datum} (h : d.int? = none) (hd : d ≠ .nothing) :
    checkLimit d = .error (.notOrdered d.typeName "int") := by
  cases d with
  | nothing => exact absurd rfl hd
  | bool b => cases h
  | int i => cases h
  | _ => rfl

/-- options by name; of two values for one name the later counts -/
def setAll (o : Options) : List (String × Datum) → Except Fault Options
  | [] => .ok o
  | ("log_level", d) :: kvs => setAll { o with logLevel := d } kvs
  | ("max_symbols", d) :: kvs => setAll { o with maxSymbols := d } kvs
  | (k, _) :: _ => .error (.unknownOption k)

def ofPairs (kvs : List (String × Datum)) : Except Fault Options := do
  let o ← standard.setAll kvs
  checkLimit o.maxSymbols
  return o

/-- the names that stand for the minimizer and for the formula in the arguments of a call -/
def checkNames (kvs : List (String × Datum)) : Except Fault Unit :=
  match (kvs.map Prod.fst).find? fun k => k = "self" || k = "f" with
  | some k => .error (.repeatedArgument "QuineMcCluskey.__call__" k)
  | none => .ok ()

/-- the level of the messages -/
def level (o : Options) : Except Fault Level := Level.ofDatum o.logLevel

theorem checkLength_standard : standard.checkLength = .ok () :=
  checkLength_eq_ok (isLong_eq_false (Datum.isLong_int_of_lt (by decide)) Datum.isLong_nothing)

/-- a bound of one digit can be written -/
theorem checkLength_of_lt {i : Int} (h : i.natAbs < 10) :
    checkLength { standard with maxSymbols := .int i } = .ok () :=
  checkLength_eq_ok
    (isLong_eq_false (Datum.isLong_int_of_lt (by decide)) (Datum.isLong_int_of_lt h))

end Options

end Sentential
