import Sentential.Fault
import Sentential.NormalForm.Pass
import Sentential.Proofs.Form
import Sentential.Proofs.NormalForm.Distribution

/-!
# Every pass makes its form

One sweep is enough for each rule.  The statement that an induction on the formula carries is about
what a sweep has made of the arguments:

* `isNormal_mkNormal`          no arrow is left;
* `Formula.Pushed f`           normal, and no negation of a junction: what the first sweep of
                               `mkNnf` makes of a normal formula (`pushed_sweep_deMorgan`).
                               Negations may still stand on each other;
* `isNnf_sweep_doubleNegation` the second sweep cancels those;
* `isLayered_distribute`       a junction of layered formulas is layered after distribution.

`shape_of_passes` puts these together.
-/

namespace Sentential.Formula

/-! ## arrows -/

theorem isNormal_unfoldArrow (op : Connective) (l r : Formula) (hl : l.isNormal = true)
    (hr : r.isNormal = true) : (unfoldArrow (.binary op l r)).isNormal = true := by
  have forth := (isNormal_join_iff .or (.not l) r).mpr ⟨hl, hr⟩
  have back := (isNormal_join_iff .or (.not r) l).mpr ⟨hr, hl⟩
  rcases op with j | _ | _
  · exact (isNormal_join_iff j l r).mpr ⟨hl, hr⟩
  · exact forth
  · exact (isNormal_join_iff .and _ _).mpr ⟨forth, back⟩

theorem isNormal_mkNormal (f : Formula) : f.mkNormal.isNormal = true := by
  rw [mkNormal]
  induction f with
  | top => rw [sweep_top]; rfl
  | bottom => rw [sweep_bottom]; rfl
  | symbol n => rw [sweep_symbol]; rfl
  | not f ih => rw [sweep_not]; exact ih
  | binary op l r ihl ihr =>
    rw [sweep_binary]
    exact isNormal_unfoldArrow op _ _ ihl ihr

/-! ## negations -/

/-- normal, and no negation stands on a junction -/
def Pushed : Formula → Prop
  | .not f => Pushed f ∧ ∀ j, f.isJoin j = false
  | .binary (.junction _) l r => Pushed l ∧ Pushed r
  | .binary _ _ _ => False
  | _ => True

theorem pushed_pushNot (f : Formula) (h : Pushed f) : Pushed f.pushNot := by
  induction f with
  | binary op l r ihl ihr =>
    rcases op with j | _ | _
    · exact ⟨ihl h.1, ihr h.2⟩
    · exact False.elim h
    · exact False.elim h
  | top => exact ⟨trivial, fun _ => rfl⟩
  | bottom => exact ⟨trivial, fun _ => rfl⟩
  | symbol n => exact ⟨trivial, fun _ => rfl⟩
  | not f => exact ⟨h, fun _ => rfl⟩

theorem pushed_sweep_deMorgan (f : Formula) (h : f.isNormal = true) :
    Pushed (f.sweep deMorgan) := by
  induction f with
  | top => rw [sweep_top]; exact trivial
  | bottom => rw [sweep_bottom]; exact trivial
  | symbol n => rw [sweep_symbol]; exact trivial
  | not f ih =>
    rw [sweep_not]
    exact pushed_pushNot _ (ih h)
  | binary op l r ihl ihr =>
    rw [sweep_binary]
    rcases op with j | _ | _
    · obtain ⟨hl, hr⟩ := (isNormal_join_iff j l r).mp h
      exact ⟨ihl hl, ihr hr⟩
    · exact absurd h (by rw [isNormal_implies]; decide)
    · exact absurd h (by rw [isNormal_equivalent]; decide)

theorem isLiteral_doubleNegation (f : Formula) (h : f.isLiteral = true) :
    (doubleNegation (.not f)).isLiteral = true := by
  cases f with
  | not g =>
    -- an atom under two negations: both go
    have hg : g.isAtom = true := h
    cases g with
    | top => rfl
    | bottom => rfl
    | symbol n => rfl
    | not g => exact nomatch hg
    | binary op l r => exact nomatch hg
  | top => rfl
  | bottom => rfl
  | symbol n => rfl
  | binary op l r => exact nomatch h

/-- what is no junction has become a literal; this is what the node above needs to know -/
theorem sweep_doubleNegation (f : Formula) (h : Pushed f) :
    (f.sweep doubleNegation).isNnf = true ∧
      ((∀ j, f.isJoin j = false) → (f.sweep doubleNegation).isLiteral = true) := by
  induction f with
  | top => rw [sweep_top]; exact ⟨rfl, fun _ => rfl⟩
  | bottom => rw [sweep_bottom]; exact ⟨rfl, fun _ => rfl⟩
  | symbol n => rw [sweep_symbol]; exact ⟨rfl, fun _ => rfl⟩
  | not f ih =>
    have hlit := isLiteral_doubleNegation _ ((ih h.1).2 h.2)
    rw [sweep_not]
    exact ⟨isNnf_of_isLiteral hlit, fun _ => hlit⟩
  | binary op l r ihl ihr =>
    rw [sweep_binary]
    rcases op with j | _ | _
    · refine ⟨(isNnf_join_iff j _ _).mpr ⟨(ihl h.1).1, (ihr h.2).1⟩, fun hj => ?_⟩
      exact absurd (isJoin_join j l r) (by rw [hj j]; decide)
    · exact False.elim h
    · exact False.elim h

theorem isNnf_mkNnf (f : Formula) (h : f.isNormal = true) : f.mkNnf.isNnf = true :=
  (sweep_doubleNegation _ (pushed_sweep_deMorgan f h)).1

/-! ## distribution -/

section
variable (j : Junction)

theorem isLayered_distributeOver (r l : Formula) :
    l.isLayered j = true → r.isLayered j = true → (distributeOver j r l).isLayered j = true := by
  refine distributeOver_induction
    (P := fun l r x => l.isLayered j = true → r.isLayered j = true → x.isLayered j = true)
    ?_ ?_ ?_ r l
  · intro l r hl hr hl' hr'
    refine (isLayered_join_iff j l r).mpr ⟨?_, ?_⟩
    · exact isPure_of_isLayered j hl' hl
    · exact isPure_of_isLayered j hr' hr
  · intro a b r x y hx hy hab hr
    obtain ⟨ha, hb⟩ := (isLayered_join_dual_iff j a b).mp hab
    exact (isLayered_join_dual_iff j x y).mpr ⟨hx ha hr, hy hb hr⟩
  · exact fun l r x _ _ hx hl hr => hx hr hl

theorem isLayered_sweep_distribute (f : Formula) (h : f.isNnf = true) :
    (f.sweep (distribute j)).isLayered j = true := by
  refine isNnf_induction j (p := fun f => (f.sweep (distribute j)).isLayered j = true) ?_ ?_ ?_ f h
  · intro f hf
    rw [sweep_distribute_of_isLiteral j f hf]
    exact isLayered_of_isPure j (isPure_of_isLiteral j hf)
  · intro l r hl hr
    rw [sweep_distribute_join]
    exact isLayered_distributeOver j _ _ hl hr
  · intro l r hl hr
    rw [sweep_distribute_join_dual]
    exact (isLayered_join_dual_iff j _ _).mpr ⟨hl, hr⟩

end

theorem isCnf_mkCnf (f : Formula) (h : f.isNnf = true) : f.mkCnf.isCnf = true :=
  isLayered_sweep_distribute .or f h

theorem isDnf_mkDnf (f : Formula) (h : f.isNnf = true) : f.mkDnf.isDnf = true :=
  isLayered_sweep_distribute .and f h

/-! ## chains of passes -/

theorem isNnf_toNnf (f : Formula) : f.toNnf.isNnf = true := isNnf_mkNnf _ (isNormal_mkNormal f)

theorem require_of_hasForm (φ : Form) (f : Formula) (h : f.hasForm φ = true) :
    (Tag.form φ).require (.formula f) = .ok (.formula f) := by
  rw [Tag.require_form, if_pos h]

/-- **Every pass makes its form** of a formula that has the form before it, and every chain of
passes makes its form of any formula, so that the form may be required. -/
theorem shape_of_passes (f : Formula) :
    f.mkNormal.isNormal = true
      ∧ (f.isNormal = true → f.mkNnf.isNnf = true)
      ∧ (f.isNnf = true → f.mkCnf.isCnf = true ∧ f.mkDnf.isDnf = true)
      ∧ (f.toNormal.isNormal = true ∧ (Tag.form .normal).require (.formula f.toNormal)
          = .ok (.formula f.toNormal))
      ∧ (f.toNnf.isNnf = true ∧ (Tag.form .nnf).require (.formula f.toNnf)
          = .ok (.formula f.toNnf))
      ∧ (f.toCnf.isCnf = true ∧ (Tag.form .cnf).require (.formula f.toCnf)
          = .ok (.formula f.toCnf))
      ∧ (f.toDnf.isDnf = true ∧ (Tag.form .dnf).require (.formula f.toDnf)
          = .ok (.formula f.toDnf)) := by
  have hnormal := isNormal_mkNormal f
  have hnnf := isNnf_toNnf f
  have hcnf := isCnf_mkCnf f.toNnf hnnf
  have hdnf := isDnf_mkDnf f.toNnf hnnf
  refine ⟨hnormal, isNnf_mkNnf f, fun h => ⟨isCnf_mkCnf f h, isDnf_mkDnf f h⟩, ?_, ?_, ?_, ?_⟩
  · exact ⟨hnormal, require_of_hasForm .normal _ hnormal⟩
  · exact ⟨hnnf, require_of_hasForm .nnf _ hnnf⟩
  · exact ⟨hcnf, require_of_hasForm .cnf _ hcnf⟩
  · exact ⟨hdnf, require_of_hasForm .dnf _ hdnf⟩

theorem shape_of_passes_of_and_or :
    let x : Formula := .symbol ⟨"X", by decide⟩
    let f : Formula := .or x (.and (.not x) .top)
    f.mkNnf.isNnf = true ∧ f.mkCnf.isCnf = true ∧ f.mkDnf.isDnf = true := by
  intro x f
  have hnormal : f.isNormal = true := by decide
  have hnnf : f.isNnf = true := by decide
  obtain ⟨_, nnf, layered, _⟩ := shape_of_passes f
  exact ⟨nnf hnormal, layered hnnf⟩

end Sentential.Formula
