import Sentential.Form
import Sentential.Operand

/-!
# Faults

Everything that can go wrong in the library, as causes.  `Fault.message` is the one place where the
texts are written, and `Fault.kind` sorts the causes.  Faults of the kinds for which
`Kind.isInput` holds are the caller's; they are reported in one line.
-/

namespace Sentential

inductive Kind where
  | unboundSymbol
  | form
  | tooManySymbols
  | input
  | value
  | type
  | key
  | index
  | assertion
  | attribute
  | overflow
  | memory
  | shape
deriving DecidableEq, Repr

def Kind.label : Kind → String
  | .unboundSymbol => "UnboundSymbolError"
  | .form => "FormError"
  | .tooManySymbols => "TooManySymbols"
  | .input => "NoTraceException"
  | .value => "ValueError"
  | .type => "TypeError"
  | .key => "KeyError"
  | .index => "IndexError"
  | .assertion => "AssertionError"
  | .attribute => "AttributeError"
  | .overflow => "OverflowError"
  | .memory => "MemoryError"
  | .shape => "ShapeInvariantViolation"

/-- caused by what the caller handed over -/
def Kind.isInput : Kind → Bool
  | .unboundSymbol | .form | .tooManySymbols | .input => true
  | _ => false

/-- the signs between two operands -/
inductive Sign where
  | plus
  | minus
  | both
  | either
  | rightward
  | leftward
deriving DecidableEq, Repr

def Sign.text : Sign → String
  | .plus => "+"
  | .minus => "-"
  | .both => "&"
  | .either => "|"
  | .rightward => ">>"
  | .leftward => "<<"

inductive Fault where
  /-- a connective was applied to something that is no formula -/
  | notFormula (d : Datum)
  /-- a symbol was to be named by something that is no name -/
  | notName (d : Datum)
  /-- the two arguments of a connective were asked for -/
  | notBinary (f : Formula)
  /-- evaluation has no rule for a node -/
  | irreducible (f : Formula)
  /-- evaluation ended in something other than a truth value -/
  | unreduced (f : Formula)
  | unbound (symbol : Datum)
  | lacksForm (x : Operand) (t : Tag)
  | notTag (t : Tag)
  /-- a form was to have instances -/
  | abstractTag (t : Tag)
  | notTruthValue (d key : Datum)
  | missingKey (d : Datum)
  | lengthMismatch (cells names : Nat)
  /-- two data of these kinds were to be put in order -/
  | notOrdered (left right : String)
  | negativeLimit (limit : Datum)
  | unknownOption (key : String)
  | unknownLevel (name : String)
  | notLevel (d : Datum)
  | tooManySymbols (count : Nat) (limit : Datum)
  | notPropositional (text : String)
  | tooFewArguments (expected got : Nat)
  | tooManyArguments (expected : Nat)
  | noArgument
  /-- a formula was said to contain itself -/
  | cyclic
  /-- a formula's operation was asked of something that is none -/
  | lacksOperation (d : Datum) (name : String)
  /-- an expression was to be made of something that is no formula -/
  | notExpressible (d : Datum)
  /-- a sign stands between operands of these kinds, for which it has no meaning -/
  | notCombinable (s : Sign) (left right : String)
  | notAppendable (left right : String)
  | notInvertible (kind : String)
  | negativeShift
  /-- the result of a shift is too long for any integer -/
  | tooManyDigits
  /-- there is no room for the result of a shift -/
  | noRoom
  /-- an integer has too many digits to be written -/
  | tooLongToWrite
  /-- a set was to hold something that may change -/
  | notKey (d : Datum)
  | repeatedArgument (function name : String)
  /-- arguments were given by names that are no texts -/
  | notKeyword
  | notIterable (d : Datum)
  /-- pairs were expected, and the item at this index has another length -/
  | notPair (index length : Nat)
  | notSequence (index : Nat)
  | notMessageLevel
  /-- a quantity of time was to be a number; the sign is the one that needed it -/
  | notQuantity (sign : String) (d : Datum)
  | tooLargeInteger
  | tooLargeQuotient
  | tooManyDays (days : Int)
  | tooLarge
  | infinite
  | notNumber

namespace Fault

def kind : Fault → Kind
  | .notFormula _ | .notName _ | .notTag _ | .notTruthValue _ _ | .lengthMismatch _ _
  | .negativeLimit _ | .unknownLevel _ | .notPropositional _ | .tooFewArguments _ _
  | .tooManyArguments _ | .notExpressible _ | .negativeShift | .tooLongToWrite | .notPair _ _
  | .notNumber => .value
  | .notBinary _ | .irreducible _ | .unreduced _ => .shape
  | .unbound _ => .unboundSymbol
  | .lacksForm _ _ => .form
  | .abstractTag _ | .notOrdered _ _ | .unknownOption _ | .notLevel _ | .notCombinable _ _ _
  | .notAppendable _ _ | .notInvertible _ | .notKey _ | .repeatedArgument _ _ | .notKeyword
  | .notIterable _ | .notSequence _ | .notMessageLevel | .notQuantity _ _ => .type
  | .missingKey _ => .key
  | .tooManySymbols _ _ => .tooManySymbols
  | .noArgument => .index
  | .cyclic => .assertion
  | .lacksOperation _ _ => .attribute
  | .tooManyDigits | .tooLargeInteger | .tooLargeQuotient | .tooManyDays _ | .tooLarge
  | .infinite => .overflow
  | .noRoom => .memory

def message : Fault → String
  | .notFormula d => d.written ++ " is not a Formula"
  | .notName d => d.written ++ " is not a valid symbol name"
  | .notBinary f => "reconnect requires a binary operator, not " ++ f.written
  | .irreducible f => "cannot reduce " ++ f.written
  | .unreduced f => f.written ++ " has not been reduced to a truth value"
  | .unbound d => "no truth value for symbol " ++ d.written
  | .lacksForm x t => x.shown ++ " is not in " ++ t.name ++ " form"
  | .notTag t => t.description ++ " is not a form tag"
  | .abstractTag t => "form tag " ++ t.name ++ " cannot be instantiated"
  | .notTruthValue d key => d.written ++ " is not a truth value for " ++ key.written
  | .missingKey d => d.written
  | .lengthMismatch cells names =>
    toString cells ++ " cells do not match " ++ toString names ++ " names"
  | .notOrdered left right =>
    "'<' not supported between instances of '" ++ left ++ "' and '" ++ right ++ "'"
  | .negativeLimit limit => "negative max_symbols=" ++ limit.written
  | .unknownOption key =>
    "Options.__init__() got an unexpected keyword argument '" ++ key ++ "'"
  | .unknownLevel name => "Unknown level: " ++ Text.quote name
  | .notLevel d => "Level not an integer or a valid string: " ++ d.written
  | .tooManySymbols count limit =>
    toString count ++ " symbols exceed max_symbols=" ++ limit.written
  | .notPropositional text => text ++ " is not a propositional expression"
  | .tooFewArguments expected got =>
    "not enough values to unpack (expected " ++ toString expected ++ ", got " ++ toString got ++ ")"
  | .tooManyArguments expected =>
    "too many values to unpack (expected " ++ toString expected ++ ")"
  | .noArgument => "tuple index out of range"
  | .cyclic => ""
  | .lacksOperation d name =>
    "'" ++ d.typeName ++ "' object has no attribute '" ++ name ++ "'"
  | .notExpressible d => "cannot convert " ++ d.written ++ " to sympy"
  | .notCombinable s left right =>
    "unsupported operand type(s) for " ++ s.text ++ ": '" ++ left ++ "' and '" ++ right ++ "'"
  | .notAppendable left right =>
    "can only concatenate " ++ left ++ " (not \"" ++ right ++ "\") to " ++ left
  | .notInvertible kind => "bad operand type for unary ~: '" ++ kind ++ "'"
  | .negativeShift => "negative shift count"
  | .tooManyDigits => "too many digits in integer"
  | .noRoom => ""
  | .tooLongToWrite =>
    "Exceeds the limit (4300 digits) for integer string conversion; "
      ++ "use sys.set_int_max_str_digits() to increase the limit"
  | .notKey d => "unhashable type: '" ++ d.typeName ++ "'"
  | .repeatedArgument function name =>
    function ++ "() got multiple values for argument '" ++ name ++ "'"
  | .notKeyword => "keywords must be strings"
  | .notIterable d => "'" ++ d.typeName ++ "' object is not iterable"
  | .notPair index length =>
    "dictionary update sequence element #" ++ toString index ++ " has length " ++ toString length
      ++ "; 2 is required"
  | .notSequence index =>
    "cannot convert dictionary update sequence element #" ++ toString index ++ " to a sequence"
  | .notMessageLevel => "level must be an integer"
  | .notQuantity sign d =>
    "unsupported operand type(s) for " ++ sign ++ ": '" ++ d.typeName ++ "' and 'int'"
  | .tooLargeInteger => "int too large to convert to float"
  | .tooLargeQuotient => "integer division result too large for a float"
  | .tooManyDays days => "days=" ++ toString days ++ "; must have magnitude <= 999999999"
  | .tooLarge => "Python int too large to convert to C int"
  | .infinite => "cannot convert float infinity to integer"
  | .notNumber => "cannot convert float NaN to integer"

/-- the fault that names a datum; a datum that is too long to be written cannot be named -/
def naming (d : Datum) (e : Fault) : Fault := if d.isLong then .tooLongToWrite else e

theorem naming_text (s : String) (e : Fault) : naming (.text s) e = e := rfl

theorem kind_naming (d : Datum) (e : Fault) :
    (naming d e).kind = if d.isLong then .value else e.kind := by
  rw [naming, apply_ite kind]
  rfl

theorem kind_naming_of_value (d : Datum) (e : Fault) (h : e.kind = .value) :
    (naming d e).kind = .value := by
  rw [kind_naming, h, ite_self]

end Fault

/-- the datum can be written -/
def Datum.checkLength (d : Datum) : Except Fault Unit :=
  if d.isLong then .error .tooLongToWrite else .ok ()

/-- the formula of which an operation is asked -/
def Operand.receive (x : Operand) (operation : String) : Except Fault Formula :=
  match x with
  | .formula f => .ok f
  | .datum d => .error (.lacksOperation d operation)

theorem Operand.receive_formula (f : Formula) (operation : String) :
    (Operand.formula f).receive operation = .ok f := rfl

/-- the operand has the form that the tag asks for; to ask for no restriction asks nothing of it -/
def Tag.check (t : Tag) (x : Operand) : Except Fault Bool :=
  match t with
  | .form .fancy => .ok true
  | .form φ => do
    let f ← x.receive "fold"
    return f.hasForm φ
  | t => .error (.notTag t)

/-- the operand itself, if it has the form that the tag asks for -/
def Tag.require (t : Tag) (x : Operand) : Except Fault Operand := do
  let b ← t.check x
  if b then return x else throw (.lacksForm x t)

/-- no form has instances, and neither has their bound; a kind of data gives its plainest datum -/
def Tag.instantiate : Tag → Except Fault Datum
  | .kind d => .ok d
  | t => .error (.abstractTag t)

theorem Tag.instantiate_form (φ : Form) :
    (Tag.form φ).instantiate = .error (.abstractTag (.form φ)) := rfl

theorem Tag.check_form (φ : Form) (f : Formula) :
    (Tag.form φ).check (.formula f) = .ok (f.hasForm φ) := by cases φ <;> rfl

theorem Tag.require_form (φ : Form) (f : Formula) :
    (Tag.form φ).require (.formula f)
      = if f.hasForm φ then .ok (.formula f) else .error (.lacksForm (.formula f) (.form φ)) := by
  rw [Tag.require, Tag.check_form]
  cases f.hasForm φ <;> rfl

end Sentential
