import Sentential.NormalForm.Pass
import Sentential.Proofs.Form

/-!
# What distribution does

`Formula.distributeOver j r l` makes three kinds of steps, and `distributeOver_induction` is the
induction over them: what holds of each kind holds of every distribution.

* `plain`  neither argument is a dual junction, and the two are joined as they stand;
* `parts`  the left argument is a dual junction, and both its parts are treated;
* `swap`   the right argument alone is a dual junction, and the arguments change places.

A sweep distributes at the junctions `j` and leaves literals and dual junctions as they stand
(`sweep_distribute_join` and its neighbours).  The last kind of step is a distribution with the
arguments exchanged (`distributeOver_swap`).
-/

namespace Sentential.Formula

/-! ## junctions at the root -/

theorem isJoin_join (j : Junction) (l r : Formula) : isJoin j (.join j l r) = true := by
  simp [isJoin, isBinary]

theorem isJoin_binary_of_ne (j : Junction) (op : Connective) (l r : Formula)
    (h : op ≠ .junction j) : isJoin j (.binary op l r) = false := by
  simp [isJoin, isBinary, h]

/-! ## steps -/

section
variable (j : Junction)

theorem spread_of_not_isJoin (l r : Formula) (h : r.isJoin j.dual = false) :
    spread j l r = .join j r l := by
  cases r with
  | binary op a b =>
    have hop : op ≠ .junction j.dual := of_decide_eq_false h
    rw [spread, if_neg hop]
  | top => rfl
  | bottom => rfl
  | symbol n => rfl
  | not f => rfl

/-- a left argument that is no dual junction stays in one piece -/
theorem distributeOver_of_not_isJoin (r l : Formula) (h : l.isJoin j.dual = false) :
    distributeOver j r l = if r.isJoin j.dual then spread j l r else .join j l r := by
  cases l with
  | binary op a b =>
    have hop : op ≠ .junction j.dual := of_decide_eq_false h
    rw [distributeOver, if_neg hop]
  | top => rfl
  | bottom => rfl
  | symbol n => rfl
  | not f => rfl

theorem distribute_join (l r : Formula) : distribute j (.join j l r) = distributeOver j r l := by
  simp [distribute]

theorem distribute_binary_of_ne (op : Connective) (l r : Formula) (h : op ≠ .junction j) :
    distribute j (.binary op l r) = .binary op l r := by
  simp [distribute, h]

end

/-! ## sweeps -/

section
variable (j : Junction)

theorem sweep_distribute_of_isLiteral (f : Formula) (h : f.isLiteral = true) :
    f.sweep (distribute j) = f := by
  cases f with
  | top => exact sweep_top _
  | bottom => exact sweep_bottom _
  | symbol n => exact sweep_symbol _ n
  | not f =>
    have hatom : f.sweep (distribute j) = distribute j f := sweep_of_isAtom _ f h
    rw [sweep_not, hatom]
    cases f with
    | top => rfl
    | bottom => rfl
    | symbol n => rfl
    | not f => exact nomatch h
    | binary op l r => exact nomatch h
  | binary op l r => exact nomatch h

theorem sweep_distribute_join (l r : Formula) :
    sweep (distribute j) (.join j l r)
      = distributeOver j (r.sweep (distribute j)) (l.sweep (distribute j)) := by
  rw [sweep_binary, distribute_join]

theorem sweep_distribute_join_dual (l r : Formula) :
    sweep (distribute j) (.join j.dual l r)
      = .join j.dual (l.sweep (distribute j)) (r.sweep (distribute j)) := by
  have hne : Connective.junction j.dual ≠ .junction j :=
    fun e => j.dual_ne (Connective.junction.inj e)
  exact sweep_binary_of_fixed _ _ l r fun x y => distribute_binary_of_ne j _ x y hne

end

/-! ## induction -/

section
variable {j : Junction} {P : Formula → Formula → Formula → Prop}
  (plain : ∀ l r, l.isJoin j.dual = false → r.isJoin j.dual = false → P l r (.join j l r))
  (parts : ∀ a b r x y, P a r x → P b r y → P (.join j.dual a b) r (.join j.dual x y))
include plain parts

theorem spread_induction (l r : Formula) (hl : l.isJoin j.dual = false) : P r l (spread j l r) := by
  induction r with
  | binary op a b iha ihb =>
    by_cases hop : op = .junction j.dual
    · subst hop
      rw [spread_join]
      exact parts a b l _ _ iha ihb
    · have hr := isJoin_binary_of_ne j.dual op a b hop
      rw [spread_of_not_isJoin j l _ hr]
      exact plain _ l hr hl
  | top => exact plain .top l rfl hl
  | bottom => exact plain .bottom l rfl hl
  | symbol n => exact plain (.symbol n) l rfl hl
  | not f => exact plain (.not f) l rfl hl

variable (swap : ∀ l r x, l.isJoin j.dual = false → r.isJoin j.dual = true → P r l x → P l r x)
include swap

theorem distributeOver_induction_of_not_isJoin (r l : Formula) (hl : l.isJoin j.dual = false) :
    P l r (distributeOver j r l) := by
  rw [distributeOver_of_not_isJoin j r l hl]
  by_cases hr : r.isJoin j.dual = true
  · rw [if_pos hr]
    exact swap l r _ hl hr (spread_induction plain parts l r hl)
  · rw [if_neg hr]
    exact plain l r hl (Bool.eq_false_iff.mpr hr)

/-- what holds of each kind of step relates the arguments of a distribution to its result -/
theorem distributeOver_induction (r l : Formula) : P l r (distributeOver j r l) := by
  have whole := distributeOver_induction_of_not_isJoin plain parts swap r
  induction l with
  | binary op a b iha ihb =>
    by_cases hop : op = .junction j.dual
    · subst hop
      rw [distributeOver_join]
      exact parts a b r _ _ iha ihb
    · exact whole _ (isJoin_binary_of_ne j.dual op a b hop)
  | top => exact whole .top rfl
  | bottom => exact whole .bottom rfl
  | symbol n => exact whole (.symbol n) rfl
  | not f => exact whole (.not f) rfl

end

/-! ## the arguments exchanged -/

section
variable (j : Junction)

/-- to spread the left argument over the right one is to distribute with the arguments exchanged -/
theorem spread_eq_distributeOver (l r : Formula) (hl : l.isJoin j.dual = false) :
    spread j l r = distributeOver j l r := by
  refine spread_induction (P := fun r l x => x = distributeOver j l r) ?_ ?_ l r hl
  · intro l r hl hr
    rw [distributeOver_of_not_isJoin j r l hl, hr, if_neg Bool.false_ne_true]
  · intro a b r x y hx hy
    rw [distributeOver_join, hx, hy]

theorem distributeOver_swap (l r : Formula) (hl : l.isJoin j.dual = false)
    (hr : r.isJoin j.dual = true) : distributeOver j r l = distributeOver j l r := by
  rw [distributeOver_of_not_isJoin j r l hl, if_pos hr, spread_eq_distributeOver j l r hl]

end

end Sentential.Formula
