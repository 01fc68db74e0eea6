import Sentential.Assignment

/-!
# Rows of cells

A row fixes some symbols of a list and leaves the others free: one cell for each symbol, `on`, `off`
or `free`.  It describes a product of literals, and it covers the assignments that agree with it on
all fixed cells.

* `Row.comparable x y`  the same cells are free in both,
* `Row.distance x y`    the number of cells in which they differ,
* `Row.merge x y`       the cells in which they agree, and the others freed,
* `Row.covers x vs`     the values `vs` agree with the fixed cells.

Where two rows have different lengths, the longer one is read up to the end of the shorter one.

`Row.fixed_merge_add_distance` is why merging comes to an end: the merger of comparable rows has as
many fixed cells fewer as the rows have differences.
-/

namespace Sentential

inductive Cell where
  | on
  | off
  | free
deriving DecidableEq, Repr

namespace Cell

def ofBool (b : Bool) : Cell := if b then .on else .off

def isFree (c : Cell) : Bool := c = .free

/-- the cell allows the value -/
def admits (c : Cell) (b : Bool) : Bool := c.isFree || c = ofBool b

def join (a b : Cell) : Cell := if a = b then a else .free

def symbol : Cell → Char
  | .on => '1'
  | .off => '0'
  | .free => '-'

def ofSymbol? : Char → Option Cell
  | '1' => some .on
  | '0' => some .off
  | '-' => some .free
  | _ => none

def written : Cell → String
  | .on => "QMVal.TRUE"
  | .off => "QMVal.FALSE"
  | .free => "QMVal.DONT_CARE"

theorem ofSymbol?_symbol (c : Cell) : ofSymbol? c.symbol = some c := by cases c <;> rfl

theorem admits_ofBool (a b : Bool) : (ofBool a).admits b = (a == b) := by
  cases a <;> cases b <;> rfl

end Cell

abbrev Row := List Cell

namespace Row

def comparable : Row → Row → Bool
  | a :: x, b :: y => a.isFree == b.isFree && comparable x y
  | _, _ => true

def distance : Row → Row → Nat
  | a :: x, b :: y => distance x y + if a = b then 0 else 1
  | _, _ => 0

def merge : Row → Row → Row
  | a :: x, b :: y => a.join b :: merge x y
  | _, _ => []

def covers : Row → List Bool → Bool
  | a :: x, v :: vs => a.admits v && covers x vs
  | _, _ => true

def ofValues (vs : List Bool) : Row := vs.map Cell.ofBool

def ofAssignment (a : Assignment) : Row := ofValues a.values

/-- the row with a symbol for each cell -/
def shown (x : Row) : String := String.ofList (x.map Cell.symbol)

def ofSymbols? (s : String) : Option Row := s.toList.mapM Cell.ofSymbol?

/-- the cells between parentheses; a row of one cell keeps its comma -/
def written (x : Row) : String :=
  match x with
  | [c] => "(" ++ c.written ++ ",)"
  | _ => "(" ++ ", ".intercalate (x.map Cell.written) ++ ")"

/-- the number of cells that are not free -/
def fixed (x : Row) : Nat := x.countP fun c => !c.isFree

/-! ## equations -/

theorem comparable_cons (a b : Cell) (x y : Row) :
    comparable (a :: x) (b :: y) = (a.isFree == b.isFree && comparable x y) := rfl
theorem distance_cons (a b : Cell) (x y : Row) :
    distance (a :: x) (b :: y) = distance x y + if a = b then 0 else 1 := rfl
theorem merge_cons (a b : Cell) (x y : Row) : merge (a :: x) (b :: y) = a.join b :: merge x y := rfl
theorem covers_cons (a : Cell) (x : Row) (v : Bool) (vs : List Bool) :
    covers (a :: x) (v :: vs) = (a.admits v && covers x vs) := rfl
theorem fixed_cons (a : Cell) (x : Row) :
    fixed (a :: x) = fixed x + if a = .free then 0 else 1 := by
  rw [fixed, List.countP_cons, fixed]
  cases a <;> rfl

theorem merge_nil_left (y : Row) : merge [] y = [] := rfl
theorem merge_nil_right (x : Row) : merge x [] = [] := by cases x <;> rfl
theorem distance_nil_left (y : Row) : distance [] y = 0 := rfl
theorem distance_nil_right (x : Row) : distance x [] = 0 := by cases x <;> rfl

/-! ## fixed cells of a merger -/

theorem fixed_merge_add_distance (x y : Row) (h : comparable x y = true) :
    fixed (merge x y) + distance x y ≤ fixed x := by
  induction x generalizing y with
  | nil => exact Nat.le_refl 0
  | cons a x ih =>
    cases y with
    | nil => exact Nat.zero_le _
    | cons b y =>
      rw [comparable_cons, Bool.and_eq_true] at h
      have hxy := ih y h.2
      rw [merge_cons, distance_cons, fixed_cons, fixed_cons]
      by_cases hab : a = b
      · rw [if_pos hab, Cell.join, if_pos hab]
        omega
      · have ha : a ≠ .free := by
          intro ha
          subst ha
          have hb : b.isFree = true := by
            have h1 := h.1
            cases b <;> first | rfl | exact absurd h1 (by decide)
          exact hab (of_decide_eq_true hb).symm
        rw [if_neg hab, Cell.join, if_neg hab, if_pos rfl, if_neg ha]
        omega

/-- comparable rows with one difference, which can be merged -/
def adjacent (x y : Row) : Bool := x.comparable y && x.distance y = 1

theorem adjacent_iff (x y : Row) :
    x.adjacent y = true ↔ x.comparable y = true ∧ x.distance y = 1 := by
  rw [adjacent, Bool.and_eq_true, decide_eq_true_eq]

theorem fixed_merge_lt (x y : Row) (h : x.adjacent y = true) : fixed (merge x y) < fixed x := by
  obtain ⟨hcomp, hdist⟩ := (adjacent_iff x y).mp h
  have := fixed_merge_add_distance x y hcomp
  omega

end Row

end Sentential
