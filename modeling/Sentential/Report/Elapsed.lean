import Sentential.Report.Quantity

/-!
# Elapsed time

Times are whole microseconds.  `Elapsed.shown` writes days, hours, minutes and seconds; a time
before the start has a negative number of days and the rest counted forwards.  The fraction has six
digits and is left out if it is zero.  `Elapsed.column` is that text without its last three
characters, which shows milliseconds where there is a fraction.

`Elapsed.ofSeconds` takes seconds as a double.  The whole seconds are split off first; the fraction
times one million is rounded to the nearest integer, and a half goes to the even one.  A time of one
thousand million days or more has no text.
-/

namespace Sentential.Elapsed

/-! ## from seconds -/

def microseconds (x : Float) : Int :=
  let whole := Double.integer (fun m d => m.tdiv d) x
  let fraction := (x - Float.ofInt whole) * 1000000.0
  whole * 1000000 + Double.integer Double.roundToEven fraction

def days (u : Int) : Int := u.fdiv 86400000000

/-- the time itself, unless it has too many days -/
def checkDays (u : Int) : Except Fault Int :=
  let d := days u
  if d < -2147483648 || 2147483647 < d then .error .tooLarge
  else if d < -999999999 || 999999999 < d then .error (.tooManyDays d)
  else .ok u

def ofSeconds (x : Float) : Except Fault Int :=
  if x.isNaN then .error .notNumber
  else if x.isInf then .error .infinite
  else checkDays (microseconds x)

/-- milliseconds since the start, seen from a reference in seconds -/
def between (reference milliseconds : Quantity) : Except Fault Int := do
  let x ← milliseconds.thousandth
  let y ← reference.toDouble
  ofSeconds (x - y)

/-! ## text -/

/-- the last `w` decimal digits of `n` -/
def digits : Nat → Nat → List Char
  | 0, _ => []
  | w + 1, n => digits w (n / 10) ++ [Char.ofNat (48 + n % 10)]

/-- the microseconds of the day -/
def rest (u : Int) : Nat := (u.fmod 86400000000).toNat

def dayText (d : Int) : List Char :=
  if d = 0 then []
  else (toString d).toList ++ ' ' :: 'd' :: 'a' :: 'y' ::
    (if d = 1 || d = -1 then [',', ' '] else ['s', ',', ' '])

def clockText (n : Nat) : List Char :=
  let s := n / 1000000
  (toString (s / 3600)).toList ++ ':' :: digits 2 (s / 60 % 60) ++ ':' :: digits 2 (s % 60) ++
    (if n % 1000000 = 0 then [] else '.' :: digits 6 (n % 1000000))

def shown (u : Int) : List Char := dayText (days u) ++ clockText (rest u)

def column (u : Int) : String :=
  let t := shown u
  String.ofList (t.take (t.length - 3))

end Sentential.Elapsed
