import Sentential.NormalForm.Pass

/-!
# Negation normal form in one descent

`Formula.nnf f p` goes down a formula once and takes the polarity `p` along: `f.nnf true` stands for
`f` and `f.nnf false` for its negation.  The passes reach the same formula in three sweeps.

* `Formula.lowered f`   what the first two sweeps make of `f`: no arrows, and every negation moved
                        below the junctions, `lowered_not` by `pushNot`;
* `sweep_not_not`       the third sweep does not see two negations on top of each other.  So it does
                        not see a negation pushed twice either (`sweep_pushNot_pushNot`), which is
                        how a formula comes back at positive polarity below two negations;
* `sweep_lowered`       the third sweep makes `f.nnf true` of `f.lowered` and `f.nnf false` of its
                        pushed negation.  One induction needs both.

`toNnf_eq_nnf` is the result: the same tree, with the arguments in the same order.
-/

namespace Sentential

/-- a junction at positive polarity, its dual at negative polarity -/
def Junction.under : Junction → Bool → Junction
  | j, true => j
  | j, false => j.dual

namespace Formula

/-- the negation normal form of a formula at a polarity -/
def nnf : Formula → Bool → Formula
  | .not f, p => f.nnf !p
  | .join j l r, p => .join (j.under p) (l.nnf p) (r.nnf p)
  | .implies l r, true => .or (l.nnf false) (r.nnf true)
  | .implies l r, false => .and (l.nnf true) (r.nnf false)
  | .equivalent l r, true =>
    .and (.or (l.nnf false) (r.nnf true)) (.or (r.nnf false) (l.nnf true))
  | .equivalent l r, false =>
    .or (.and (l.nnf true) (r.nnf false)) (.and (r.nnf true) (l.nnf false))
  | a, true => a
  | a, false => .not a

/-! ## the first two sweeps -/

/-- without arrows, and with the negations moved below the junctions -/
def lowered (f : Formula) : Formula := f.mkNormal.sweep deMorgan

/-- the second sweep leaves connectives as they stand -/
theorem sweep_deMorgan_binary (op : Connective) (l r : Formula) :
    sweep deMorgan (.binary op l r) = .binary op (l.sweep deMorgan) (r.sweep deMorgan) :=
  sweep_binary_of_fixed _ op l r fun _ _ => rfl

theorem sweep_deMorgan_not (f : Formula) :
    sweep deMorgan (.not f) = (f.sweep deMorgan).pushNot := by
  rw [sweep_not]
  rfl

theorem lowered_of_isAtom (f : Formula) (h : f.isAtom = true) : f.lowered = f := by
  have hfirst : f.mkNormal = f.unfoldArrow := sweep_of_isAtom _ f h
  cases f with
  | top => rw [lowered, hfirst]; exact sweep_top _
  | bottom => rw [lowered, hfirst]; exact sweep_bottom _
  | symbol n => rw [lowered, hfirst]; exact sweep_symbol _ n
  | not f => exact nomatch h
  | binary op l r => exact nomatch h

theorem lowered_not (f : Formula) : lowered (.not f) = f.lowered.pushNot := by
  have hfirst : mkNormal (.not f) = .not f.mkNormal := sweep_not _ f
  rw [lowered, hfirst, sweep_deMorgan_not]
  rfl

section
variable (l r : Formula)

theorem lowered_join (j : Junction) :
    lowered (.join j l r) = .join j l.lowered r.lowered := by
  have hfirst : mkNormal (.join j l r) = .join j l.mkNormal r.mkNormal := sweep_binary _ _ l r
  rw [lowered, hfirst, sweep_deMorgan_binary]
  rfl

theorem lowered_implies : lowered (.implies l r) = .or l.lowered.pushNot r.lowered := by
  have hfirst : mkNormal (.implies l r) = .or (.not l.mkNormal) r.mkNormal := sweep_binary _ _ l r
  rw [lowered, hfirst, sweep_deMorgan_binary, sweep_deMorgan_not]
  rfl

theorem lowered_equivalent :
    lowered (.equivalent l r)
      = .and (.or l.lowered.pushNot r.lowered) (.or r.lowered.pushNot l.lowered) := by
  have hfirst : mkNormal (.equivalent l r)
      = .and (.or (.not l.mkNormal) r.mkNormal) (.or (.not r.mkNormal) l.mkNormal) :=
    sweep_binary _ _ l r
  rw [lowered, hfirst, sweep_deMorgan_binary, sweep_deMorgan_binary, sweep_deMorgan_binary,
    sweep_deMorgan_not, sweep_deMorgan_not]
  rfl

end

/-! ## the third sweep -/

/-- a negation stands on a negation at the root -/
def isDoubleNot : Formula → Bool
  | .not (.not _) => true
  | _ => false

/-- above a formula without two negations at its root the rule makes none, and undoes itself -/
theorem doubleNegation_not (f : Formula) (h : f.isDoubleNot = false) :
    (doubleNegation (.not f)).isDoubleNot = false ∧
      doubleNegation (.not (doubleNegation (.not f))) = f := by
  cases f with
  | not g =>
    cases g with
    | not g => exact nomatch h
    | top => exact ⟨rfl, rfl⟩
    | bottom => exact ⟨rfl, rfl⟩
    | symbol n => exact ⟨rfl, rfl⟩
    | binary op l r => exact ⟨rfl, rfl⟩
  | top => exact ⟨rfl, rfl⟩
  | bottom => exact ⟨rfl, rfl⟩
  | symbol n => exact ⟨rfl, rfl⟩
  | binary op l r => exact ⟨rfl, rfl⟩

theorem isDoubleNot_sweep_doubleNegation (f : Formula) :
    (f.sweep doubleNegation).isDoubleNot = false := by
  induction f with
  | top => rw [sweep_top]; rfl
  | bottom => rw [sweep_bottom]; rfl
  | symbol n => rw [sweep_symbol]; rfl
  | not f ih =>
    rw [sweep_not]
    exact (doubleNegation_not _ ih).1
  | binary op l r _ _ => rw [sweep_binary]; rfl

theorem sweep_not_not (f : Formula) :
    sweep doubleNegation (.not (.not f)) = f.sweep doubleNegation := by
  rw [sweep_not, sweep_not]
  exact (doubleNegation_not _ (isDoubleNot_sweep_doubleNegation f)).2

theorem sweep_doubleNegation_binary (op : Connective) (l r : Formula) :
    sweep doubleNegation (.binary op l r)
      = .binary op (l.sweep doubleNegation) (r.sweep doubleNegation) :=
  sweep_binary_of_fixed _ op l r fun _ _ => rfl

theorem sweep_pushNot_pushNot (f : Formula) :
    f.pushNot.pushNot.sweep doubleNegation = f.sweep doubleNegation := by
  induction f with
  | binary op l r ihl ihr =>
    rcases op with j | _ | _
    · rw [pushNot_join, pushNot_join, Junction.dual_dual, sweep_doubleNegation_binary, ihl, ihr,
        sweep_doubleNegation_binary]
    · exact sweep_not_not _
    · exact sweep_not_not _
  | top => exact sweep_not_not .top
  | bottom => exact sweep_not_not .bottom
  | symbol n => exact sweep_not_not (.symbol n)
  | not f => exact sweep_not_not (.not f)

/-! ## three sweeps and one descent -/

/-- the third sweep ends at positive polarity, and at negative polarity below a pushed negation -/
theorem sweep_lowered (f : Formula) :
    f.lowered.sweep doubleNegation = f.nnf true ∧
      f.lowered.pushNot.sweep doubleNegation = f.nnf false := by
  -- an atom reaches the third sweep as it is, and its negation as a negation
  have atom (a : Formula) (h : a.isAtom = true) (hnot : a.pushNot = .not a) :
      a.lowered.sweep doubleNegation = doubleNegation a ∧
        a.lowered.pushNot.sweep doubleNegation = doubleNegation (.not (doubleNegation a)) := by
    rw [lowered_of_isAtom a h, hnot, sweep_not, sweep_of_isAtom _ a h]
    exact ⟨rfl, rfl⟩
  induction f with
  | top => exact atom .top rfl rfl
  | bottom => exact atom .bottom rfl rfl
  | symbol n => exact atom (.symbol n) rfl rfl
  | not f ih =>
    rw [lowered_not, sweep_pushNot_pushNot]
    exact ⟨ih.2, ih.1⟩
  | binary op l r ihl ihr =>
    obtain ⟨lpos, lneg⟩ := ihl
    obtain ⟨rpos, rneg⟩ := ihr
    rcases op with j | _ | _
    · rw [lowered_join, pushNot_join, sweep_doubleNegation_binary, sweep_doubleNegation_binary,
        lpos, lneg, rpos, rneg]
      exact ⟨rfl, rfl⟩
    · rw [lowered_implies, pushNot_join]
      simp only [sweep_doubleNegation_binary, sweep_pushNot_pushNot, lpos, lneg, rpos, rneg]
      exact ⟨rfl, rfl⟩
    · rw [lowered_equivalent, pushNot_join, pushNot_join, pushNot_join]
      simp only [sweep_doubleNegation_binary, sweep_pushNot_pushNot, lpos, lneg, rpos, rneg]
      exact ⟨rfl, rfl⟩

/-- **Three sweeps are one descent**: the negation normal form is what the polarity makes of the
formula on the way down. -/
theorem toNnf_eq_nnf (f : Formula) : f.toNnf = f.nnf true := by
  have hsweeps : f.toNnf = f.lowered.sweep doubleNegation := rfl
  rw [hsweeps, (sweep_lowered f).1]

example (x y : Name) :
    nnf (.not (.and (.symbol x) (.implies (.symbol y) .bottom))) true
      = .or (.not (.symbol x)) (.and (.symbol y) (.not .bottom)) := rfl

end Formula

end Sentential
