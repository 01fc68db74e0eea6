import Sentential.Proofs.NormalForm.Distribution
import Sentential.Proofs.NormalForm.Polarity
import Sentential.Proofs.NormalForm.Shape

/-!
# The normal forms of a negation

Conjunctive and disjunctive normal form mirror each other: the one of a negation is the complement
of the other one of the formula, the same tree with the junctions exchanged and the literals turned
round.

* `Formula.complement f`        the complement, also of a formula that is not negation normal;
* `complement_nnf`              it turns the polarity round, so the negation normal form of a
                                negation is a complement (`toNnf_not`);
* `distributeOver_exchanged`    a map that exchanges the junctions goes through distribution, step
                                by step: where the one distributes a junction, the other distributes
                                its dual, at the same places and with the same exchange of
                                arguments;
* `sweep_distribute_complement` so the complement goes through the sweeps.

`passes_of_not` is the result for both normal forms.
-/

namespace Sentential

theorem Junction.dual_under (j : Junction) (p : Bool) : (j.under p).dual = j.under !p := by
  cases p with
  | true => rfl
  | false => exact j.dual_dual

namespace Formula

/-! ## complements -/

/-- the opposite of a literal, and the negation of any other formula -/
def opposite : Formula → Formula
  | .not .top => .top
  | .not .bottom => .bottom
  | .not (.symbol n) => .symbol n
  | f => .not f

/-- junctions exchanged throughout, and each literal replaced by its opposite -/
def complement : Formula → Formula
  | .join j l r => .join j.dual l.complement r.complement
  | f => f.opposite

theorem complement_join (j : Junction) (l r : Formula) :
    complement (.join j l r) = .join j.dual l.complement r.complement := rfl

/-- the root of a complement is a junction where the root of the formula is the dual one -/
theorem isJoin_complement (j : Junction) (f : Formula) :
    f.complement.isJoin j.dual = f.isJoin j := by
  cases f with
  | binary op l r =>
    rcases op with k | _ | _
    · cases j <;> cases k <;> rfl
    · rfl
    · rfl
  | not f => cases f <;> rfl
  | top => rfl
  | bottom => rfl
  | symbol n => rfl

theorem isLiteral_complement (f : Formula) (h : f.isLiteral = true) :
    f.complement.isLiteral = true := by
  cases f with
  | not f =>
    cases f with
    | top => rfl
    | bottom => rfl
    | symbol n => rfl
    | not f => exact nomatch h
    | binary op l r => exact nomatch h
  | top => rfl
  | bottom => rfl
  | symbol n => rfl
  | binary op l r => exact nomatch h

/-! ## polarity -/

theorem complement_nnf (f : Formula) (p : Bool) : (f.nnf p).complement = f.nnf !p := by
  induction f generalizing p with
  | top => cases p <;> rfl
  | bottom => cases p <;> rfl
  | symbol n => cases p <;> rfl
  | not f ih => exact ih !p
  | binary op l r ihl ihr =>
    rcases op with j | _ | _
    · show complement (.join (j.under p) (l.nnf p) (r.nnf p)) = .join (j.under !p) _ _
      rw [complement_join, ihl, ihr, j.dual_under]
    · cases p with
      | true =>
        show complement (.or (l.nnf false) (r.nnf true)) = .and (l.nnf true) (r.nnf false)
        rw [complement_join, ihl, ihr]
        rfl
      | false =>
        show complement (.and (l.nnf true) (r.nnf false)) = .or (l.nnf false) (r.nnf true)
        rw [complement_join, ihl, ihr]
        rfl
    · cases p with
      | true =>
        show complement (.and (.or (l.nnf false) (r.nnf true)) (.or (r.nnf false) (l.nnf true)))
          = .or (.and (l.nnf true) (r.nnf false)) (.and (r.nnf true) (l.nnf false))
        simp only [complement_join, ihl, ihr]
        rfl
      | false =>
        show complement (.or (.and (l.nnf true) (r.nnf false)) (.and (r.nnf true) (l.nnf false)))
          = .and (.or (l.nnf false) (r.nnf true)) (.or (r.nnf false) (l.nnf true))
        simp only [complement_join, ihl, ihr]
        rfl

theorem toNnf_not (f : Formula) : toNnf (.not f) = f.toNnf.complement := by
  have descent (g : Formula) : g.toNnf = g.nnf true := (sweep_lowered g).1
  rw [descent, descent, complement_nnf]
  rfl

/-! ## distribution -/

section
variable {φ : Formula → Formula} (join : ∀ k l r, φ (.join k l r) = .join k.dual (φ l) (φ r))
  (root : ∀ k f, (φ f).isJoin k.dual = f.isJoin k)
include join root

/-- what exchanges the junctions goes through each kind of step -/
theorem distributeOver_exchanged (j : Junction) (r l : Formula) :
    distributeOver j.dual (φ r) (φ l) = φ (distributeOver j r l) := by
  refine distributeOver_induction (P := fun l r x => distributeOver j.dual (φ r) (φ l) = φ x)
    ?_ ?_ ?_ r l
  · intro l r hl hr
    rw [← root] at hl hr
    rw [distributeOver_of_not_isJoin j.dual _ _ hl, hr, if_neg Bool.false_ne_true, join]
  · intro a b r x y hx hy
    rw [join, distributeOver_join, hx, hy, join]
  · intro l r x hl hr hx
    rw [← root] at hl hr
    rw [distributeOver_swap j.dual _ _ hl hr, hx]

end

theorem sweep_distribute_complement (j : Junction) (f : Formula) (h : f.isNnf = true) :
    f.complement.sweep (distribute j.dual) = (f.sweep (distribute j)).complement := by
  have exchanged := distributeOver_exchanged complement_join isJoin_complement j
  refine isNnf_induction j
    (p := fun f => f.complement.sweep (distribute j.dual) = (f.sweep (distribute j)).complement)
    ?_ ?_ ?_ f h
  · intro f hf
    rw [sweep_distribute_of_isLiteral j f hf,
      sweep_distribute_of_isLiteral j.dual _ (isLiteral_complement f hf)]
  · intro l r hl hr
    rw [complement_join, sweep_distribute_join, sweep_distribute_join, hl, hr, exchanged]
  · intro l r hl hr
    rw [complement_join, sweep_distribute_join_dual, sweep_distribute_join_dual, hl, hr,
      complement_join]

/-- **The normal forms mirror each other**: the conjunctive normal form of a negation is the
complement of the disjunctive normal form of the formula, and the other way round. -/
theorem passes_of_not (f : Formula) :
    toCnf (.not f) = f.toDnf.complement ∧ toDnf (.not f) = f.toCnf.complement := by
  have hnnf := isNnf_toNnf f
  constructor
  · show (toNnf (.not f)).sweep (distribute .or) = _
    rw [toNnf_not]
    exact sweep_distribute_complement .and _ hnnf
  · show (toNnf (.not f)).sweep (distribute .and) = _
    rw [toNnf_not]
    exact sweep_distribute_complement .or _ hnnf

end Formula

end Sentential
