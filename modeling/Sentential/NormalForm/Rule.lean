import Sentential.Formula.Basic

/-!
# Rules at the root

Each rule looks at the root of a formula and leaves every formula alone that does not match.

* `Formula.unfoldArrow`      an implication or equivalence in terms of the other connectives,
* `Formula.deMorgan`         a negated junction becomes the dual junction of negations,
* `Formula.doubleNegation`   two negations cancel,
* `Formula.distribute j`     a junction `j` over its dual becomes a dual junction of junctions `j`.

`deMorgan` and `distribute` go on below the root where they have made a new instance of their own
pattern: `pushNot f` is what the first makes of the negation of `f`, and `distributeOver j l r` what
the second makes of `l` and `r` under `j`.

The order of the arguments is kept, with one exception: where only the right argument is a dual
junction, its parts come first, in front of the left argument.
-/

namespace Sentential.Formula

/-! ## arrows -/

def unfoldArrow : Formula → Formula
  | .implies x y => .or (.not x) y
  | .equivalent x y => .and (.or (.not x) y) (.or (.not y) x)
  | f => f

/-! ## negations -/

/-- the negation of a formula, moved below all junctions at the root -/
def pushNot : Formula → Formula
  | .join j l r => .join j.dual l.pushNot r.pushNot
  | f => .not f

theorem pushNot_join (j : Junction) (l r : Formula) :
    pushNot (.join j l r) = .join j.dual l.pushNot r.pushNot := rfl

def deMorgan : Formula → Formula
  | .not f => f.pushNot
  | f => f

def doubleNegation : Formula → Formula
  | .not (.not f) => f
  | f => f

/-! ## distribution -/

/-- each part of the dual junction `r` in front of `l`, under `j` -/
def spread (j : Junction) (l : Formula) : Formula → Formula
  | .binary op a b =>
    if op = .junction j.dual then .join j.dual (spread j l a) (spread j l b)
    else .join j (.binary op a b) l
  | r => .join j r l

/-- `l` and `r` under `j`, with the dual junctions at their roots moved outwards -/
def distributeOver (j : Junction) (r : Formula) : Formula → Formula
  | .binary op a b =>
    if op = .junction j.dual then .join j.dual (distributeOver j r a) (distributeOver j r b)
    else if r.isJoin j.dual then spread j (.binary op a b) r
    else .join j (.binary op a b) r
  | l => if r.isJoin j.dual then spread j l r else .join j l r

def distribute (j : Junction) : Formula → Formula
  | .binary op l r =>
    if op = .junction j then distributeOver j r l else .binary op l r
  | f => f

theorem spread_join (j : Junction) (l a b : Formula) :
    spread j l (.join j.dual a b) = .join j.dual (spread j l a) (spread j l b) := by
  simp [spread]

theorem distributeOver_join (j : Junction) (r a b : Formula) :
    distributeOver j r (.join j.dual a b)
      = .join j.dual (distributeOver j r a) (distributeOver j r b) := by
  simp [distributeOver]

end Sentential.Formula
