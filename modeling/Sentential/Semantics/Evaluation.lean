import Sentential.Formula.Traversal
import Sentential.Mapping
import Sentential.NormalForm.Rule

/-!
# Evaluation

`Formula.evaluate m f` is the truth value of `f` where `m` gives values to texts.  It is a sweep:
each node is reduced to a truth value after its arguments, from left to right, and no argument is
skipped.  So a symbol without a value is a fault also where it cannot matter, and the leftmost one
is named.  Implications and equivalences are reduced by way of the connectives that
`Formula.unfoldArrow` writes them with.

`Formula.value v f` is the truth value by recursion, where `v` gives a value to every text, and
`Formula.firstUnbound? m f` is the leftmost symbol without a value.  `evaluate_eq_match` ties the
three together.

Valuations come from assignments, from mappings, whose other keys do not matter, and from any data
under keys.
-/

namespace Sentential

/-- truth values for some texts -/
abbrev Valuation := String → Option Bool

def Assignment.valuation (a : Assignment) : Valuation := a.get?

def Mapping.valuation (m : Mapping) : Valuation := fun k => m.get? (.text k)

theorem Assignment.valuation_mapping (a : Assignment) : a.mapping.valuation = a.valuation := by
  obtain ⟨es, h⟩ := a
  funext k
  show ((es.map fun e => (Datum.text e.1, e.2)).find? fun e => e.1.same (.text k)).map Prod.snd
    = es.lookup k
  induction es with
  | nil => rfl
  | cons e es ih =>
    rw [List.map_cons, List.find?_cons, List.lookup_cons, Datum.same_text]
    by_cases hk : e.1 = k
    · rw [decide_eq_true hk, beq_iff_eq.mpr hk.symm]
      rfl
    · rw [decide_eq_false hk, beq_false_of_ne (Ne.symm hk)]
      exact ih (List.pairwise_cons.mp h).2

/-- data under keys, read as truth values -/
def valuationOf (es : List (Datum × Datum)) : Valuation :=
  fun k => (es.find? fun e => e.1.same (.text k)).map fun e => e.2.holds

def Connective.value : Connective → Bool → Bool → Bool
  | .junction .and, x, y => x && y
  | .junction .or, x, y => x || y
  | .implies, x, y => !x || y
  | .equivalent, x, y => x == y

namespace Formula

/-! ## reduction -/

/-- the truth value that a reduced formula stands for -/
def toBool : Formula → Except Fault Bool
  | .top => .ok true
  | .bottom => .ok false
  | f => .error (.unreduced f)

theorem toBool_ofBool (b : Bool) : (ofBool b).toBool = .ok b := by cases b <;> rfl

/-- reduce a node over reduced arguments that is no arrow -/
def reduceNormal (m : Valuation) : Formula → Except Fault Formula
  | .top => .ok .top
  | .bottom => .ok .bottom
  | .symbol n =>
    match m n.text with
    | some b => .ok (ofBool b)
    | none => .error (.unbound (.text n.text))
  | .not .top => .ok .bottom
  | .not .bottom => .ok .top
  | .and l r => do
    let x ← l.toBool
    let y ← r.toBool
    return ofBool (x && y)
  | .or l r => do
    let x ← l.toBool
    let y ← r.toBool
    return ofBool (x || y)
  | f => .error (.irreducible f)

def evaluateNormal (m : Valuation) (f : Formula) : Except Fault Bool := do
  let g ← f.sweepM (reduceNormal m)
  g.toBool

/-- reduce a node over reduced arguments -/
def reduce (m : Valuation) (f : Formula) : Except Fault Formula :=
  match f with
  | .implies _ _ | .equivalent _ _ => do
    let b ← evaluateNormal m f.unfoldArrow
    return ofBool b
  | _ => reduceNormal m f

def evaluate (m : Valuation) (f : Formula) : Except Fault Bool := do
  let g ← f.sweepM (reduce m)
  g.toBool

/-! ## truth by recursion -/

def value (v : String → Bool) : Formula → Bool
  | .top => true
  | .bottom => false
  | .symbol n => v n.text
  | .not f => !f.value v
  | .binary op l r => op.value (l.value v) (r.value v)

def firstUnbound? (m : Valuation) (f : Formula) : Option Name :=
  f.occurrences.find? fun n => (m n.text).isNone

theorem firstUnbound?_not (m : Valuation) (f : Formula) :
    firstUnbound? m (.not f) = firstUnbound? m f := rfl

theorem firstUnbound?_binary (m : Valuation) (op : Connective) (l r : Formula) :
    firstUnbound? m (.binary op l r) = (firstUnbound? m l).or (firstUnbound? m r) :=
  List.find?_append

/-! ## reduction over truth values -/

section
variable (m : Valuation)

theorem reduce_not (x : Bool) : reduce m (.not (ofBool x)) = .ok (ofBool (!x)) := by
  cases x <;> rfl

theorem reduce_binary (op : Connective) (x y : Bool) :
    reduce m (.binary op (ofBool x) (ofBool y)) = .ok (ofBool (op.value x y)) := by
  rcases op with j | _ | _
  · cases j <;> cases x <;> cases y <;> rfl
  · show (do
      let b ← evaluateNormal m (.or (.not (ofBool x)) (ofBool y))
      return ofBool b) = _
    simp only [evaluateNormal, sweepM, climbM_eq_climbRecM, climbRecM]
    cases x <;> cases y <;> rfl
  · show (do
      let b ← evaluateNormal m (.and (.or (.not (ofBool x)) (ofBool y))
        (.or (.not (ofBool y)) (ofBool x)))
      return ofBool b) = _
    simp only [evaluateNormal, sweepM, climbM_eq_climbRecM, climbRecM]
    cases x <;> cases y <;> rfl

/-- texts without a value count as false -/
def valueOrFalse : String → Bool := fun k => (m k).getD false

/-- a sweep reduces a formula to its value, or stops at the leftmost symbol without one -/
theorem sweepM_reduce (f : Formula) :
    f.sweepM (reduce m) = match f.firstUnbound? m with
      | some n => .error (.unbound (.text n.text))
      | none => .ok (ofBool (f.value (valueOrFalse m))) := by
  rw [sweepM, climbM_eq_climbRecM]
  induction f with
  | top => rfl
  | bottom => rfl
  | symbol n =>
    show reduceNormal m (.symbol n) = _
    simp only [reduceNormal, firstUnbound?, occurrences, List.find?, value, valueOrFalse]
    cases m n.text <;> rfl
  | not f ih =>
    rw [climbRecM, ih, firstUnbound?_not]
    cases f.firstUnbound? m with
    | some n => rfl
    | none => exact reduce_not m _
  | binary op l r ihl ihr =>
    rw [climbRecM, ihl, ihr, firstUnbound?_binary]
    cases l.firstUnbound? m with
    | some n => rfl
    | none =>
      cases r.firstUnbound? m with
      | some n => rfl
      | none => exact reduce_binary m op _ _

theorem evaluate_eq_match (f : Formula) :
    f.evaluate m = match f.firstUnbound? m with
      | some n => .error (.unbound (.text n.text))
      | none => .ok (f.value (valueOrFalse m)) := by
  rw [evaluate, sweepM_reduce]
  cases f.firstUnbound? m with
  | some n => rfl
  | none => exact toBool_ofBool _

end

end Formula

end Sentential
