import Sentential.Datum
import Sentential.Text.Blank

/-!
# Messages

A message has a level and a text.  It is printed if its level is positive and reaches the effective
level of the channel, and if its text is not blank.  The effective level of a channel is its own
level, or 30 if that is zero.

A level is an integer.  A truth value may stand for one or zero; it counts as that, but is kept and
shown as what it is.  `Level.name` is how a level is printed; six levels have names, and
`Level.ofName?` reads these and two other names for them.
-/

namespace Sentential

inductive Level where
  | number (n : Int)
  | truth (b : Bool)
deriving DecidableEq

namespace Level

instance (n : Nat) : OfNat Level n := ⟨.number n⟩

/-- the level as it was handed over -/
def datum : Level → Datum
  | .number n => .int n
  | .truth b => .bool b

/-- the integer that a level counts as -/
def value : Level → Int
  | .number n => n
  | .truth b => if b then 1 else 0

def ofName? : String → Option Level
  | "CRITICAL" => some 50
  | "FATAL" => some 50
  | "ERROR" => some 40
  | "WARN" => some 30
  | "WARNING" => some 30
  | "INFO" => some 20
  | "DEBUG" => some 10
  | "NOTSET" => some 0
  | _ => none

def name (l : Level) : String :=
  if l.value = 50 then "CRITICAL"
  else if l.value = 40 then "ERROR"
  else if l.value = 30 then "WARNING"
  else if l.value = 20 then "INFO"
  else if l.value = 10 then "DEBUG"
  else if l.value = 0 then "NOTSET"
  else "Level " ++ l.datum.shown

/-- a word with spaces after it, up to five characters -/
def padded (word : String) : String := word ++ "".pushn ' ' (5 - word.length)

/-- the level that decides what a channel of level `l` prints -/
def effective (l : Level) : Level := if l.value = 0 then 30 else l

/-- a channel of level `l` lets messages of level `k` through -/
def passes (l k : Level) : Bool := 0 < k.value && l.effective.value ≤ k.value

theorem datum_int? (l : Level) : l.datum.int? = some l.value := by cases l <;> rfl

theorem effective_effective (l : Level) : l.effective.effective = l.effective := by
  by_cases h : l.value = 0
  · rw [effective, effective, if_pos h]; rfl
  · rw [effective, effective, if_neg h, if_neg h]

theorem passes_effective (l k : Level) : passes l.effective k = passes l k := by
  rw [passes, effective_effective, passes]

end Level

structure Message where
  level : Level
  text : String
deriving DecidableEq

namespace Message

def channel : String := "proplogic.qm"

def shown (m : Message) : String :=
  channel ++ " - " ++ Level.padded m.level.name ++ " - " ++ m.text

/-- the messages that a channel of level `l` prints -/
def printed (l : Level) (ms : List Message) : List Message :=
  ms.filter fun m => l.passes m.level && !Text.isBlank m.text

theorem printed_append (l : Level) (ms ns : List Message) :
    printed l (ms ++ ns) = printed l ms ++ printed l ns :=
  List.filter_append ..

end Message

end Sentential
