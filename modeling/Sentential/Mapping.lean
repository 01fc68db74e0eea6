import Sentential.Assignment
import Sentential.Sorting

/-!
# Mappings

A `Mapping` gives truth values to finitely many keys, which may be any data that may stand in a set.
Its entries stand in ascending order.  Texts have an order, and so have integers, but there is none
between data of different kinds; so the keys are all texts, or all integers, or there is one alone.
The mappings under texts are the assignments (`Assignment.mapping`).

* `Mapping.collect`       entries as they arrive: one for each key, of two values the later;
* `Mapping.ofEntries`     checks the values, then the order;
* `Mapping.ofArguments`   joins entries given by name to others; of two values the named one stays;
* `Mapping.find`, `Mapping.get`   the views;
* `Mapping.same`          the same values under the same keys.

Truth values count as integers, so `true` and one are one key.  It is kept as it came first, which
`Mapping.written` shows and `Mapping.same` does not see.
-/

namespace Sentential

/-! ## the order of keys -/

/-- the first key comes before the second -/
def Datum.precedes (d e : Datum) : Except Fault Bool :=
  match d, e with
  | .text s, .text t => .ok (s < t)
  | d, e =>
    match d.int?, e.int? with
    | some i, some j => .ok (i < j)
    | _, _ => .error (.notOrdered d.typeName e.typeName)

theorem Datum.precedes_text (s t : String) : Datum.precedes (.text s) (.text t) = .ok (s < t) := rfl

theorem Datum.precedes_int (i j : Int) : Datum.precedes (.int i) (.int j) = .ok (i < j) := rfl

/-! ## mappings -/

structure Mapping where
  entries : List (Datum × Bool)

def Assignment.mapping (a : Assignment) : Mapping := ⟨a.entries.map fun e => (.text e.1, e.2)⟩

namespace Mapping

def keys (m : Mapping) : List Datum := m.entries.map Prod.fst

def values (m : Mapping) : List Bool := m.entries.map Prod.snd

/-- the value under a key -/
def get? (m : Mapping) (k : Datum) : Option Bool :=
  (m.entries.find? fun e => e.1.same k).map Prod.snd

/-- the value under a datum, which has to be a key -/
def find (m : Mapping) (d : Datum) : Except Fault (Option Bool) :=
  if d.isKey then .ok (m.get? d) else .error (.notKey d)

/-- the value of a key that must have one -/
def get (m : Mapping) (d : Datum) : Except Fault Bool := do
  match ← m.find d with
  | some v => return v
  | none => throw (.missingKey d)

def same (m n : Mapping) : Bool :=
  m.entries.length = n.entries.length && m.entries.all fun e => n.get? e.1 = some e.2

/-- each mapping once, where it comes first -/
def distinct : List Mapping → List Mapping
  | [] => []
  | m :: ms => m :: (distinct ms).filter fun n => !m.same n

/-- the entries have the same keys, and data that count as the truth values here -/
def countsAs (m : Mapping) (es : List (Datum × Datum)) : Bool :=
  m.entries.length = es.length &&
    m.entries.all fun e =>
      match es.find? fun f => f.1.same e.1 with
      | some f => f.2.countsAs e.2
      | none => false

/-! ## what callers hand over -/

/-- put a datum under a key; a key that is there stays as it is -/
def put (k v : Datum) : List (Datum × Datum) → List (Datum × Datum)
  | [] => [(k, v)]
  | (j, w) :: es => if j.same k then (j, v) :: es else (j, w) :: put k v es

/-- the entries put one after the other, up to the first whose key may not stand in a set -/
def collect (es : List (Datum × Datum)) : Except Fault (List (Datum × Datum)) :=
  es.foldlM (fun fs e => if e.1.isKey then .ok (put e.1 e.2 fs) else .error (.notKey e.1)) []

/-- the entries, if all keys are texts -/
def texts? : List (Datum × Datum) → Option (List (String × Datum))
  | [] => some []
  | (.text k, d) :: es => (texts? es).map ((k, d) :: ·)
  | _ :: _ => none

/-- a mapping of entries that have different keys -/
def ofEntries (es : List (Datum × Datum)) : Except Fault Mapping :=
  match texts? es with
  | some ps => do
    let a ← Assignment.ofRoster (.ofPairs ps)
    return a.mapping
  | none => do
    let bs ← Assignment.checkEntries id es
    let cs ← Sorting.sort (fun a b => a.1.precedes b.1) bs
    return ⟨cs⟩

def ofItems (es : List (Datum × Datum)) : Except Fault Mapping := do
  let fs ← collect es
  ofEntries fs

/-- the entries of a mapping as data -/
def toEntries (m : Mapping) : List (Datum × Datum) := m.entries.map fun e => (e.1, .bool e.2)

/-- the entry that one item stands for: a list or a text of two, or data under two texts -/
def entryOfDatum (i : Nat) (d : Datum) : Except Fault (Datum × Datum) :=
  match d with
  | .list [k, v] => .ok (k, v)
  | .list xs => .error (.notPair i xs.length)
  | .fields [k, v] _ => .ok (.text k, .text v)
  | .fields ks _ => .error (.notPair i ks.length)
  | .text s =>
    match s.toList with
    | [a, b] => .ok (.text (String.singleton a), .text (String.singleton b))
    | cs => .error (.notPair i cs.length)
  | _ => .error (.notSequence i)

/-- the entries of a list of items, of which the first has the index `i`, after other entries -/
def collectItems (i : Nat) (before : List (Datum × Datum)) :
    List Datum → Except Fault (List (Datum × Datum))
  | [] => .ok before
  | d :: ds => do
    let e ← entryOfDatum i d
    if e.1.isKey then collectItems (i + 1) (put e.1 e.2 before) ds else throw (.notKey e.1)

/-- the entries that a datum stands for -/
def entriesOfDatum : Datum → Except Fault (List (Datum × Datum))
  | .text s => collectItems 0 [] (s.toList.map fun c => .text (String.singleton c))
  | .list xs => collectItems 0 [] xs
  | .fields ks xs => .ok ((ks.map Datum.text).zip xs)
  | d => .error (.notIterable d)

/-- the names that stand for something else in a list of arguments -/
def isReserved (positional : Bool) (k : String) : Bool := k = "self" || (positional && k = "items")

/-- arguments by name; all names have to be texts -/
def keywords (es : List (Datum × Datum)) : Except Fault (Roster String Datum) := do
  let fs ← collect es
  match texts? fs with
  | some ps => return .ofPairs ps
  | none => throw .notKeyword

/-- entries by position, if there are any, and by name; the name `items` stands for the former -/
def ofArguments (items : Option (List (Datum × Datum))) (named : Roster String Datum) :
    Except Fault Mapping :=
  match named.keys.find? (isReserved items.isSome) with
  | some k => .error (.repeatedArgument "SymbolMapping.__init__" k)
  | none => do
    let given ← match items, named.get? "items" with
      | some es, _ => collect es
      | none, some d => entriesOfDatum d
      | none, none => pure []
    let own := named.entries.filter fun e => e.1 ≠ "items"
    ofEntries (own.foldl (fun es e => put (.text e.1) e.2 es) given)

/-! ## written form -/

def writtenItems : List (Datum × Bool) → String
  | [] => ""
  | [(k, v)] => k.written ++ ": " ++ boolWord v
  | (k, v) :: e :: es => k.written ++ ": " ++ boolWord v ++ ", " ++ writtenItems (e :: es)

def written (m : Mapping) : String :=
  "SymbolMapping(\x7b" ++ writtenItems m.entries ++ "\x7d)"

end Mapping

def Assignment.written (a : Assignment) : String := a.mapping.written

end Sentential
