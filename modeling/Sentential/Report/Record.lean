import Sentential.Minimizer.Options
import Sentential.Report.Elapsed

/-!
# Records

A record is a line to be: when it was made, a level and a text, all as they are handed over.
`Record.shownFrom` writes the line, with the time since a reference.  The word for the level comes
first in the order of faults, then the time; every text can be shown.

In the place of a level a record takes whatever may stand in a set.  A name there stands for its
number, and the number is what is shown.
-/

namespace Sentential

/-- what is shown in the place of a level -/
def Level.word (d : Datum) : Except Fault String :=
  match d with
  | .int n => .ok (Level.number n).name
  | .bool b => .ok (Level.truth b).name
  | .text s =>
    match Level.ofName? s with
    | some l => .ok l.datum.shown
    | none => .ok ("Level " ++ s)
  | .nothing => .ok ("Level " ++ Datum.nothing.shown)
  | d => .error (.notKey d)

theorem Level.word_datum (l : Level) : Level.word l.datum = .ok l.name := by cases l <;> rfl

structure Record where
  milliseconds : Quantity
  level : Datum
  text : Datum

namespace Record

/-- the line, with the time since the reference -/
def shownFrom (reference : Quantity) (r : Record) : Except Fault String := do
  let word ← Level.word r.level
  let u ← Elapsed.between reference r.milliseconds
  return Message.channel ++ " - " ++ Level.padded word ++ " - " ++ Elapsed.column u ++ ": "
    ++ r.text.shown

end Record

end Sentential
