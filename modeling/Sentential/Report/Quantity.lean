import Sentential.Fault
import Sentential.Report.Double

/-!
# Quantities of time

A quantity of time is handed over as a double, or as a datum that counts as an integer of any size.
Both are read as doubles: `Quantity.toDouble` takes the quantity as it is, `Quantity.thousandth` a
thousandth of it.  A thousandth of an integer is rounded once, from the exact fraction; to round the
integer first would lose up to one part in two to the fifty-third, which is milliseconds for times
of a million years.
-/

namespace Sentential

inductive Quantity where
  | datum (d : Datum)
  | double (x : Float)

namespace Quantity

/-- seconds from seconds -/
def toDouble : Quantity → Except Fault Float
  | .double x => .ok x
  | .datum d =>
    match d.int? with
    | none => .error (.notQuantity "-" d)
    | some i =>
      match Double.nearest? i 1 with
      | some x => .ok x
      | none => .error .tooLargeInteger

/-- seconds from milliseconds -/
def thousandth : Quantity → Except Fault Float
  | .double x => .ok (x / 1000.0)
  | .datum d =>
    match d.int? with
    | none => .error (.notQuantity "/" d)
    | some i =>
      match Double.nearest? i 1000 with
      | some x => .ok x
      | none => .error .tooLargeQuotient

/-- the quantity may be subtracted from; that it may be too large comes out when this is done -/
def check : Quantity → Except Fault Unit
  | .double _ => .ok ()
  | .datum d =>
    match d.int? with
    | some _ => .ok ()
    | none => .error (.notQuantity "-" d)

theorem toDouble_double (x : Float) : (double x).toDouble = .ok x := rfl

theorem thousandth_double (x : Float) : (double x).thousandth = .ok (x / 1000.0) := rfl

end Quantity

end Sentential
