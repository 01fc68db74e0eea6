import Sentential.Fault

/-!
# Arithmetic of data

`Datum.combine` gives the signs between two data their meaning: sums and differences of integers,
concatenation of texts and of lists, the bits that two integers have in common or that one of them
has, shifts, and the union of data under texts.  Truth values count as integers; what two of them
have in common is a truth value.  All other operands are refused.

The bits of a negative integer are those of its two's complement, which has no end to the left:
`bitsBoth` and `bitsEither` are written by the cases of the signs.
-/

namespace Sentential

/-! ## bits -/

def bitsBoth : Int → Int → Int
  | .ofNat m, .ofNat n => .ofNat (Nat.land m n)
  | .ofNat m, .negSucc n => .ofNat (m - Nat.land m n)
  | .negSucc m, .ofNat n => .ofNat (n - Nat.land n m)
  | .negSucc m, .negSucc n => .negSucc (Nat.lor m n)

/-- a bit is in neither of two integers if it is in both complements -/
def bitsEither (i j : Int) : Int := -bitsBoth (-i - 1) (-j - 1) - 1

/-- division by a power of two; where the power exceeds the integer only the sign is left -/
def shiftRight (i : Int) (n : Nat) : Int :=
  if i.natAbs.log2 < n then (if i < 0 then -1 else 0) else i.fdiv (Nat.pow 2 n)

/-- the places of thirty bits that an integer takes when it is shifted to the left by `n` -/
def places (i : Int) (n : Nat) : Nat := i.natAbs.log2 / 30 + 1 + (n + 29) / 30

/-- multiplication by a power of two; zero stays zero, however far it is shifted.  Integers have a
largest number of places; far below it there is no room for them any more. -/
def shiftLeft (i : Int) (n : Nat) : Except Fault Int :=
  if i = 0 then .ok 0
  else if 2305843009213693945 < places i n then .error .tooManyDigits
  else if 1000000000 < places i n then .error .noRoom
  else .ok (i * Nat.pow 2 n)

namespace Datum

/-! ## signs between data -/

def combineInts (s : Sign) (i j : Int) : Except Fault Int :=
  match s with
  | .plus => .ok (i + j)
  | .minus => .ok (i - j)
  | .both => .ok (bitsBoth i j)
  | .either => .ok (bitsEither i j)
  | .rightward => if j < 0 then .error .negativeShift else .ok (shiftRight i j.toNat)
  | .leftward => if j < 0 then .error .negativeShift else shiftLeft i j.toNat

/-- put a datum under a text; a text that is there keeps its place -/
def putField (k : String) (v : Datum) : List (String × Datum) → List (String × Datum)
  | [] => [(k, v)]
  | (j, w) :: es => if k = j then (j, v) :: es else (j, w) :: putField k v es

/-- data under texts, of which the later of two under one text stays -/
def union (es fs : List (String × Datum)) : Datum :=
  let all := fs.foldl (fun es f => putField f.1 f.2 es) es
  .fields (all.map Prod.fst) (all.map Prod.snd)

def combine (s : Sign) (d e : Datum) : Except Fault Datum :=
  match s, d, e with
  | .plus, .text a, .text b => .ok (.text (a ++ b))
  | .plus, .list xs, .list ys => .ok (.list (xs ++ ys))
  | .plus, .text _, e => .error (.notAppendable d.typeName e.typeName)
  | .plus, .list _, e => .error (.notAppendable d.typeName e.typeName)
  | .both, .bool a, .bool b => .ok (.bool (a && b))
  | .either, .bool a, .bool b => .ok (.bool (a || b))
  | .either, .fields ks xs, .fields js ys => .ok (union (ks.zip xs) (js.zip ys))
  | s, d, e =>
    match d.int?, e.int? with
    | some i, some j => (combineInts s i j).map Datum.int
    | _, _ => .error (.notCombinable s d.typeName e.typeName)

/-- the integer whose bits are those that this one lacks -/
def invert (d : Datum) : Except Fault Datum :=
  match d.int? with
  | some i => .ok (.int (-i - 1))
  | none => .error (.notInvertible d.typeName)

/-- the larger of two data of one kind, the first of equal ones -/
def larger (d e : Datum) : Datum :=
  match d, e with
  | .text a, .text b => if a < b then e else d
  | d, e =>
    match d.int?, e.int? with
    | some i, some j => if i < j then e else d
    | _, _ => d

theorem combine_plus_int (i j : Int) :
    combine .plus (.int i) (.int j) = .ok (.int (i + j)) := rfl

theorem combine_plus_text (a b : String) :
    combine .plus (.text a) (.text b) = .ok (.text (a ++ b)) := rfl

end Datum

end Sentential
