import Sentential.Form

/-!
# Forms, node by node

The validators search all nodes of a formula.  Here they are read off the root and the arguments.

* `Formula.isLiteral f`   an atom or the negation of one;
* `Formula.isPure j f`    negation normal, and without any dual of the junction `j`: what may stand
                          below `j` in a layered formula;
* `isNormal_…`, `isNnf_…`, `isPure_…`, `isLayered_…`   one statement for each kind of root;
* `isNnf_induction`       the formulas in negation normal form are made of literals and junctions.
-/

namespace Sentential

theorem Junction.eq_dual_of_ne {j k : Junction} (h : k ≠ j) : k = j.dual := by
  cases j with
  | and =>
    cases k with
    | and => exact absurd rfl h
    | or => rfl
  | or =>
    cases k with
    | and => rfl
    | or => exact absurd rfl h

namespace Formula

def isLiteral : Formula → Bool
  | .not f => f.isAtom
  | f => f.isAtom

/-- negation normal, and no dual of the junction `j` anywhere -/
def isPure (j : Junction) (f : Formula) : Bool := f.isNnf && !f.anyNode (isJoin j.dual)

/-! ## normal -/

theorem isNormal_join_iff (j : Junction) (l r : Formula) :
    isNormal (.join j l r) = true ↔ l.isNormal = true ∧ r.isNormal = true := by
  simp only [isNormal, anyNode, isBinary, Bool.and_eq_true, Bool.not_eq_true', Bool.or_eq_false_iff,
    reduceCtorEq, decide_false, true_and]
  exact and_and_and_comm

theorem isNormal_implies (l r : Formula) : isNormal (.implies l r) = false := rfl

theorem isNormal_equivalent (l r : Formula) : isNormal (.equivalent l r) = false := by
  simp [isNormal, anyNode, isBinary]

/-! ## negation normal -/

theorem isNormal_of_isNnf {f : Formula} (h : f.isNnf = true) : f.isNormal = true :=
  (Bool.and_eq_true_iff.mp h).1

theorem isNnf_not (f : Formula) : isNnf (.not f) = f.isAtom := by
  cases f with
  | top => rfl
  | bottom => rfl
  | symbol n => rfl
  | not f => simp [isNnf, anyNode, isDeepNot, isAtom]
  | binary op l r => simp [isNnf, anyNode, isDeepNot, isAtom]

theorem isNnf_join_iff (j : Junction) (l r : Formula) :
    isNnf (.join j l r) = true ↔ l.isNnf = true ∧ r.isNnf = true := by
  simp only [isNnf, anyNode, isDeepNot, Bool.and_eq_true, isNormal_join_iff, Bool.not_eq_true',
    Bool.or_eq_false_iff, true_and]
  exact and_and_and_comm

theorem isNnf_of_isLiteral {f : Formula} (h : f.isLiteral = true) : f.isNnf = true := by
  cases f with
  | not f => rwa [isNnf_not]
  | top => rfl
  | bottom => rfl
  | symbol n => rfl
  | binary op l r => exact nomatch h

theorem isLiteral_of_isNnf_not {f : Formula} (h : isNnf (.not f) = true) :
    isLiteral (.not f) = true := by
  rwa [isNnf_not] at h

/-- induction over the formulas in negation normal form, with a junction and its dual apart -/
theorem isNnf_induction (j : Junction) {p : Formula → Prop}
    (literal : ∀ f, f.isLiteral = true → p f)
    (same : ∀ l r, p l → p r → p (.join j l r))
    (dual : ∀ l r, p l → p r → p (.join j.dual l r)) (f : Formula) (h : f.isNnf = true) : p f := by
  induction f with
  | top => exact literal .top rfl
  | bottom => exact literal .bottom rfl
  | symbol n => exact literal (.symbol n) rfl
  | not f => exact literal _ (isLiteral_of_isNnf_not h)
  | binary op l r ihl ihr =>
    rcases op with k | _ | _
    · obtain ⟨hl, hr⟩ := (isNnf_join_iff k l r).mp h
      by_cases hk : k = j
      · subst hk
        exact same l r (ihl hl) (ihr hr)
      · obtain rfl := Junction.eq_dual_of_ne hk
        exact dual l r (ihl hl) (ihr hr)
    · exact absurd (isNormal_of_isNnf h) (by rw [isNormal_implies]; decide)
    · exact absurd (isNormal_of_isNnf h) (by rw [isNormal_equivalent]; decide)

/-! ## layered -/

section
variable (j : Junction)

theorem isPure_of_isLiteral {f : Formula} (h : f.isLiteral = true) : f.isPure j = true := by
  have hn := isNnf_of_isLiteral h
  refine Bool.and_eq_true_iff.mpr ⟨hn, ?_⟩
  cases f with
  | not f =>
    cases f with
    | top => rfl
    | bottom => rfl
    | symbol n => rfl
    | not f => exact nomatch h
    | binary op l r => exact nomatch h
  | top => rfl
  | bottom => rfl
  | symbol n => rfl
  | binary op l r => exact nomatch h

theorem isJoin_of_isPure {f : Formula} (h : f.isPure j = true) : f.isJoin j.dual = false := by
  have hnone : f.anyNode (isJoin j.dual) = false := by
    rw [isPure, Bool.and_eq_true, Bool.not_eq_true'] at h
    exact h.2
  cases f with
  | binary op l r =>
    rw [anyNode, Bool.or_eq_false_iff, Bool.or_eq_false_iff] at hnone
    exact hnone.1.1
  | top => rfl
  | bottom => rfl
  | symbol n => rfl
  | not f => rfl

theorem isPure_join_iff (l r : Formula) :
    isPure j (.join j l r) = true ↔ l.isPure j = true ∧ r.isPure j = true := by
  have hne : decide (Connective.junction j = .junction j.dual) = false :=
    decide_eq_false fun e => j.dual_ne (Connective.junction.inj e).symm
  simp only [isPure, Bool.and_eq_true, isNnf_join_iff, anyNode, isJoin, isBinary, hne,
    Bool.not_eq_true', Bool.or_eq_false_iff, true_and]
  exact and_and_and_comm

/-- without a dual junction there is nothing below `j` that must not be there -/
theorem anyNode_isMixed (f : Formula) (h : f.anyNode (isJoin j.dual) = false) :
    f.anyNode (isMixed j) = false := by
  induction f with
  | binary op l r ihl ihr =>
    rw [anyNode, Bool.or_eq_false_iff, Bool.or_eq_false_iff] at h
    obtain ⟨⟨_, hl⟩, hr⟩ := h
    rw [anyNode, ihl hl, ihr hr, isMixed, hl, hr]
    simp
  | not f ih =>
    rw [anyNode, Bool.or_eq_false_iff] at h
    rw [anyNode, ih h.2]
    rfl
  | top => rfl
  | bottom => rfl
  | symbol n => rfl

theorem isLayered_of_isPure {f : Formula} (h : f.isPure j = true) : f.isLayered j = true := by
  rw [isPure, Bool.and_eq_true, Bool.not_eq_true'] at h
  rw [isLayered, h.1, anyNode_isMixed j f h.2]
  rfl

theorem isLayered_join_iff (l r : Formula) :
    isLayered j (.join j l r) = true ↔ l.isPure j = true ∧ r.isPure j = true := by
  constructor
  · intro h
    rw [isLayered, Bool.and_eq_true, isNnf_join_iff, anyNode, isMixed, decide_eq_true rfl,
      Bool.true_and, Bool.not_eq_true', Bool.or_eq_false_iff, Bool.or_eq_false_iff,
      Bool.or_eq_false_iff] at h
    obtain ⟨⟨hl, hr⟩, ⟨⟨hl', hr'⟩, _⟩, _⟩ := h
    rw [isPure, isPure, hl, hr, hl', hr']
    exact ⟨rfl, rfl⟩
  · exact fun h => isLayered_of_isPure j ((isPure_join_iff j l r).mpr h)

theorem isLayered_join_dual_iff (l r : Formula) :
    isLayered j (.join j.dual l r) = true ↔ l.isLayered j = true ∧ r.isLayered j = true := by
  have hne : decide (Connective.junction j.dual = .junction j) = false :=
    decide_eq_false fun e => j.dual_ne (Connective.junction.inj e)
  simp only [isLayered, Bool.and_eq_true, isNnf_join_iff, anyNode, isMixed, hne, Bool.false_and,
    Bool.not_eq_true', Bool.or_eq_false_iff, true_and]
  exact and_and_and_comm

/-- a layered formula that is no dual junction itself has none inside -/
theorem isPure_of_isLayered {f : Formula} (h : f.isLayered j = true)
    (hj : f.isJoin j.dual = false) : f.isPure j = true := by
  cases f with
  | binary op l r =>
    rcases op with k | _ | _
    · by_cases hk : k = j
      · subst hk
        exact (isPure_join_iff k l r).mpr ((isLayered_join_iff k l r).mp h)
      · obtain rfl := Junction.eq_dual_of_ne hk
        exact absurd hj (by simp [isJoin, isBinary])
    · exact absurd (isNormal_of_isNnf (Bool.and_eq_true_iff.mp h).1) (by simp [isNormal_implies])
    · exact absurd (isNormal_of_isNnf (Bool.and_eq_true_iff.mp h).1) (by simp [isNormal_equivalent])
  | not f =>
    have hn := (Bool.and_eq_true_iff.mp h).1
    rw [isNnf_not] at hn
    exact isPure_of_isLiteral j hn
  | top => rfl
  | bottom => rfl
  | symbol n => rfl

end

end Formula

end Sentential
