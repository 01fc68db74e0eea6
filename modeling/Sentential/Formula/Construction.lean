import Sentential.Fault
import Sentential.Formula.Traversal

/-!
# Checked construction

The constructors check their operands from left to right and refuse the first datum.

`Formula.transformM` and `Formula.deepTransformM` drive functions whose results are operands, so a
function may give up the shape of a formula, fail, or keep a state.  A node above a datum cannot be
rebuilt.
-/

namespace Sentential

def Operand.formula? : Operand → Except Fault Formula
  | .formula f => .ok f
  | .datum d => .error (.naming d (.notFormula d))

theorem Operand.formula?_formula (f : Formula) : (Operand.formula f).formula? = .ok f := rfl

namespace Name

/-- a name from a datum: a text with at least one character -/
def ofDatum (d : Datum) : Except Fault Name :=
  match d with
  | .text s =>
    match Name.ofText? s with
    | some n => .ok n
    | none => .error (.notName d)
  | d => .error (.naming d (.notName d))

def ofText (s : String) : Except Fault Name := ofDatum (.text s)

def datum (n : Name) : Datum := .text n.text

theorem ofText_text (n : Name) : ofText n.text = .ok n := by
  simp [ofText, ofDatum, Name.ofText?_text]

theorem ofDatum_datum (n : Name) : ofDatum n.datum = .ok n := ofText_text n

end Name

namespace Formula

/-! ## constructors -/

def mkNot (x : Operand) : Except Fault Formula := do
  let f ← x.formula?
  return .not f

def mkBinary (op : Connective) (x y : Operand) : Except Fault Formula := do
  let l ← x.formula?
  let r ← y.formula?
  return .binary op l r

/-- operands under a junction, nested to the right; a single operand is not looked at -/
def mkChain (j : Junction) : List Operand → Except Fault Operand
  | [] => .ok (.formula (neutral j))
  | [x] => .ok x
  | x :: xs => do
    let rest ← mkChain j xs
    let f ← mkBinary (.junction j) x rest
    return Operand.formula f

theorem mkBinary_formula (op : Connective) (l r : Formula) :
    mkBinary op (.formula l) (.formula r) = .ok (.binary op l r) := rfl

theorem mkChain_cons_cons (j : Junction) (x y : Operand) (xs : List Operand) :
    mkChain j (x :: y :: xs) = (do
      let rest ← mkChain j (y :: xs)
      let f ← mkBinary (.junction j) x rest
      return Operand.formula f) := rfl

theorem mkChain_formula (j : Junction) (fs : List Formula) :
    mkChain j (fs.map Operand.formula) = .ok (.formula (chain j fs)) := by
  induction fs with
  | nil => rfl
  | cons f fs ih =>
    cases fs with
    | nil => rfl
    | cons g fs =>
      rw [List.map_cons, List.map_cons, mkChain_cons_cons, ← List.map_cons, ih]
      rfl

/-! ## driving functions with operands for results -/

section
variable {m : Type → Type} [Monad m] [MonadLiftT (Except Fault) m]

/-- apply `fn` to the arguments of the root, from left to right, and rebuild the root -/
def transformM (fn : Formula → m Operand) : Formula → m Formula
  | .not f => do
    let x ← fn f
    mkNot x
  | .binary op l r => do
    let x ← fn l
    let y ← fn r
    mkBinary op x y
  | f => pure f

/-- rebuild a node over operands and hand it to `fn` -/
@[specialize] def rebuildM (fn : Formula → m Operand) : Layer Operand → m Operand
  | .top => fn .top
  | .bottom => fn .bottom
  | .symbol n => fn (.symbol n)
  | .not x => do fn (← mkNot x)
  | .binary op x y => do fn (← mkBinary op x y)

/-- rebuild each node from its finished arguments and hand it to `fn` -/
@[specialize] def deepTransformM (fn : Formula → m Operand) (f : Formula) : m Operand :=
  climbM (rebuildM fn) f

/-- the same by recursion: arguments from left to right, then the rebuilt node -/
def deepTransformRecM (fn : Formula → m Operand) : Formula → m Operand
  | .not f => do
    let x ← deepTransformRecM fn f
    fn (← mkNot x)
  | .binary op l r => do
    let x ← deepTransformRecM fn l
    let y ← deepTransformRecM fn r
    fn (← mkBinary op x y)
  | f => fn f

end

/-- the arguments of a connective, handed to `fn` -/
def reconnect {α : Type} (fn : Formula → Formula → α) (f : Formula) : Except Fault α :=
  match f.sides? with
  | some (l, r) => .ok (fn l r)
  | none => .error (.notBinary f)

/-- what `project` makes of the arguments of a connective, put together by `combine` -/
def reconnectMap {α β : Type} (combine : α → α → β) (project : Formula → α) (f : Formula) :
    Except Fault β :=
  f.reconnect fun l r => combine (project l) (project r)

end Formula

end Sentential
