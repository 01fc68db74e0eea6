import Sentential.Text.Quoted

/-!
# Plain data

A `Datum` is a value that is no formula: nothing, a truth value, an integer, a text, a list, or data
under texts.  Data stand where a caller may hand over anything, so that the fault which follows can
show what it was.

`Datum.written` is the form that tells texts from other values, `Datum.shown` is the same but leaves
a text bare.  `Datum.holds` reads a datum as a truth value: nothing, zero and the empty ones are
false.

An integer of more than 4300 digits is too long to be written, and so are data that hold one:
`Datum.isLong` tells these.

Truth values count as integers: `Datum.same` compares data in this sense.  `Datum.isKey` holds for
the data that may stand in a set; lists and data under texts may not.

Data under texts are two lists of one length, the texts and the data at the same places; no text
stands twice.
-/

namespace Sentential

inductive Datum where
  | nothing
  | bool (b : Bool)
  | int (i : Int)
  | text (s : String)
  | list (xs : List Datum)
  | fields (texts : List String) (data : List Datum)

namespace Datum

mutual
def written : Datum → String
  | .nothing => "None"
  | .bool b => if b then "True" else "False"
  | .int i => toString i
  | .text s => Text.quote s
  | .list xs => "[" ++ writtenItems xs ++ "]"
  | .fields ks xs => "\x7b" ++ writtenFields ks xs ++ "\x7d"
/-- the items of a list, with a comma between neighbours -/
def writtenItems : List Datum → String
  | [] => ""
  | [x] => x.written
  | x :: y :: ys => x.written ++ ", " ++ writtenItems (y :: ys)
def writtenFields : List String → List Datum → String
  | [k], x :: _ => Text.quote k ++ ": " ++ x.written
  | k :: ks, x :: xs => Text.quote k ++ ": " ++ x.written ++ ", " ++ writtenFields ks xs
  | _, _ => ""
end

def shown : Datum → String
  | .text s => s
  | d => d.written

/-- the word for the kind of a datum -/
def typeName : Datum → String
  | .nothing => "NoneType"
  | .bool _ => "bool"
  | .int _ => "int"
  | .text _ => "str"
  | .list _ => "list"
  | .fields _ _ => "dict"

/-- the integer that a datum counts as: a truth value counts as one or zero -/
def int? : Datum → Option Int
  | .bool b => some (if b then 1 else 0)
  | .int i => some i
  | _ => none

def holds : Datum → Bool
  | .nothing => false
  | .bool b => b
  | .int i => i ≠ 0
  | .text s => s ≠ ""
  | .list xs => !xs.isEmpty
  | .fields _ xs => !xs.isEmpty

def bool? : Datum → Option Bool
  | .bool b => some b
  | _ => none

/-- the datum counts as the truth value `b`: it is `b`, or the integer one or zero for it -/
def countsAs (b : Bool) : Datum → Bool
  | .bool c => c == b
  | .int i => i = (if b then 1 else 0)
  | _ => false

mutual
def same : Datum → Datum → Bool
  | .nothing, .nothing => true
  | .bool b, e => countsAs b e
  | .int i, .bool b => countsAs b (.int i)
  | .int i, .int j => i = j
  | .text s, .text t => s = t
  | .list xs, .list ys => sameItems xs ys
  | .fields ks xs, .fields js ys => ks.length = js.length && sameFields ks xs (js.zip ys)
  | _, _ => false
def sameItems : List Datum → List Datum → Bool
  | [], [] => true
  | x :: xs, y :: ys => x.same y && sameItems xs ys
  | _, _ => false
/-- each datum is the same as the one under the same text -/
def sameFields : List String → List Datum → List (String × Datum) → Bool
  | k :: ks, x :: xs, es =>
    (match es.lookup k with
      | some y => x.same y
      | none => false) && sameFields ks xs es
  | _, _, _ => true
end

mutual
/-- an integer of more than 4300 digits, or data that hold one -/
def isLong : Datum → Bool
  | .int i => Nat.pow 10 4300 ≤ i.natAbs
  | .list xs => anyLong xs
  | .fields _ xs => anyLong xs
  | _ => false
def anyLong : List Datum → Bool
  | [] => false
  | x :: xs => x.isLong || anyLong xs
end

def isKey : Datum → Bool
  | .list _ => false
  | .fields _ _ => false
  | _ => true

theorem bool?_eq_some_iff (d : Datum) (b : Bool) : d.bool? = some b ↔ d = .bool b := by
  cases d <;> simp [bool?]

theorem same_text (s t : String) : (text s).same (.text t) = decide (s = t) := by
  rw [same]

theorem isLong_nothing : nothing.isLong = false := rfl

theorem isLong_int_iff (i : Int) : (int i).isLong = true ↔ Nat.pow 10 4300 ≤ i.natAbs := by
  rw [isLong, decide_eq_true_iff]

/-- an integer of one digit can be written -/
theorem isLong_int_of_lt {i : Int} (h : i.natAbs < 10) : (int i).isLong = false := by
  rw [isLong, decide_eq_false_iff_not, Nat.not_le]
  -- the power is not to be computed
  generalize hk : 4300 = k
  have hlimit : 10 ≤ Nat.pow 10 k := Nat.le_self_pow (by omega) 10
  exact Nat.lt_of_lt_of_le h hlimit

theorem holds_bool (b : Bool) : (Datum.bool b).holds = b := rfl

end Datum

def boolWord (b : Bool) : String := (Datum.bool b).written

end Sentential
