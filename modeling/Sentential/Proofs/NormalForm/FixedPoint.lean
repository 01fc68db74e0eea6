import Sentential.Proofs.NormalForm.Shape

/-!
# The fixed points of passes

A second run of a pass changes nothing, whatever formula the first one was given.  What a pass
leaves alone is what has its form already.

* `Settled rule f`        the rule leaves every node of `f` alone, so a sweep does
                          (`sweep_eq_self`);
* `Settling rule`         the rule settles a node whose arguments are settled: where it makes new
                          instances of its pattern below the node, it goes on there.  One sweep then
                          settles any formula (`settled_sweep`), and a second one changes nothing;
* `settling_unfoldArrow`, `settling_deMorgan`, `settling_doubleNegation`, `settling_distribute`
                          all rules are of this kind;
* `sweep_doubleNegation_steady`   the two sweeps of `mkNnf` together: the second one makes no new
                          work for the first, also above arrows;
* `Stage.source`, `Stage.target`   the form that a stage asks for and the form that it makes.

`Stage.apply_fixed_iff` puts these together.
-/

namespace Sentential

namespace Formula

/-! ## settled formulas -/

/-- the rule leaves every node of the formula alone -/
def Settled (rule : Formula → Formula) : Formula → Prop
  | .not f => rule (.not f) = .not f ∧ Settled rule f
  | .binary op l r => rule (.binary op l r) = .binary op l r ∧ Settled rule l ∧ Settled rule r
  | f => rule f = f

/-- the rule settles every node whose arguments are settled -/
structure Settling (rule : Formula → Formula) : Prop where
  top : rule .top = .top
  bottom : rule .bottom = .bottom
  symbol : ∀ n, rule (.symbol n) = .symbol n
  not : ∀ f, Settled rule f → Settled rule (rule (.not f))
  binary : ∀ op l r, Settled rule l → Settled rule r → Settled rule (rule (.binary op l r))

section
variable {rule : Formula → Formula}

theorem sweep_eq_self (f : Formula) (h : Settled rule f) : f.sweep rule = f := by
  induction f with
  | top => rw [sweep_top]; exact h
  | bottom => rw [sweep_bottom]; exact h
  | symbol n => rw [sweep_symbol]; exact h
  | not f ih => rw [sweep_not, ih h.2, h.1]
  | binary op l r ihl ihr => rw [sweep_binary, ihl h.2.1, ihr h.2.2, h.1]

theorem settled_sweep (h : Settling rule) (f : Formula) : Settled rule (f.sweep rule) := by
  induction f with
  | top => rw [sweep_top, h.top]; exact h.top
  | bottom => rw [sweep_bottom, h.bottom]; exact h.bottom
  | symbol n => rw [sweep_symbol, h.symbol]; exact h.symbol n
  | not f ih => rw [sweep_not]; exact h.not _ ih
  | binary op l r ihl ihr => rw [sweep_binary]; exact h.binary op _ _ ihl ihr

theorem sweep_sweep (h : Settling rule) (f : Formula) :
    (f.sweep rule).sweep rule = f.sweep rule :=
  sweep_eq_self _ (settled_sweep h f)

end

/-! ## the rules -/

theorem settling_unfoldArrow : Settling unfoldArrow where
  top := rfl
  bottom := rfl
  symbol _ := rfl
  not _ h := ⟨rfl, h⟩
  binary op l r hl hr := by
    have arm {x y : Formula} (hx : Settled unfoldArrow x) (hy : Settled unfoldArrow y) :
        Settled unfoldArrow (.or (.not x) y) := ⟨rfl, ⟨rfl, hx⟩, hy⟩
    rcases op with j | _ | _
    · exact ⟨rfl, hl, hr⟩
    · exact arm hl hr
    · exact ⟨rfl, arm hl hr, arm hr hl⟩

theorem settled_pushNot (f : Formula) (h : Settled deMorgan f) : Settled deMorgan f.pushNot := by
  induction f with
  | binary op l r ihl ihr =>
    rcases op with j | _ | _
    · exact ⟨rfl, ihl h.2.1, ihr h.2.2⟩
    · exact ⟨rfl, h⟩
    · exact ⟨rfl, h⟩
  | top => exact ⟨rfl, h⟩
  | bottom => exact ⟨rfl, h⟩
  | symbol n => exact ⟨rfl, h⟩
  | not f => exact ⟨rfl, h⟩

theorem settling_deMorgan : Settling deMorgan where
  top := rfl
  bottom := rfl
  symbol _ := rfl
  not f h := settled_pushNot f h
  binary _ _ _ hl hr := ⟨rfl, hl, hr⟩

theorem settling_doubleNegation : Settling doubleNegation where
  top := rfl
  bottom := rfl
  symbol _ := rfl
  not f h := by
    cases f with
    | not g => exact h.2
    | top => exact ⟨rfl, h⟩
    | bottom => exact ⟨rfl, h⟩
    | symbol n => exact ⟨rfl, h⟩
    | binary op l r => exact ⟨rfl, h⟩
  binary _ _ _ hl hr := ⟨rfl, hl, hr⟩

section
variable (j : Junction)

theorem settled_join (l r : Formula) (hl : Settled (distribute j) l)
    (hr : Settled (distribute j) r) (hl' : l.isJoin j.dual = false)
    (hr' : r.isJoin j.dual = false) : Settled (distribute j) (.join j l r) := by
  refine ⟨?_, hl, hr⟩
  rw [distribute_join, distributeOver_of_not_isJoin j r l hl', hr', if_neg Bool.false_ne_true]

theorem settled_join_dual (l r : Formula) (hl : Settled (distribute j) l)
    (hr : Settled (distribute j) r) : Settled (distribute j) (.join j.dual l r) :=
  ⟨distribute_binary_of_ne j _ l r fun e => j.dual_ne (Connective.junction.inj e), hl, hr⟩

theorem settled_distributeOver (r l : Formula) :
    Settled (distribute j) l → Settled (distribute j) r →
      Settled (distribute j) (distributeOver j r l) := by
  refine distributeOver_induction
    (P := fun l r x => Settled (distribute j) l → Settled (distribute j) r →
      Settled (distribute j) x) ?_ ?_ ?_ r l
  · exact fun l r hl' hr' hl hr => settled_join j l r hl hr hl' hr'
  · intro a b r x y hx hy hab hr
    exact settled_join_dual j x y (hx hab.2.1 hr) (hy hab.2.2 hr)
  · exact fun l r x _ _ hx hl hr => hx hr hl

theorem settling_distribute : Settling (distribute j) where
  top := rfl
  bottom := rfl
  symbol _ := rfl
  not _ h := ⟨rfl, h⟩
  binary op l r hl hr := by
    by_cases hop : op = .junction j
    · subst hop
      rw [distribute_join]
      exact settled_distributeOver j r l hl hr
    · have hne := fun x y => distribute_binary_of_ne j op x y hop
      rw [hne]
      exact ⟨hne l r, hl, hr⟩

end

/-! ## two sweeps -/

/-- the second sweep of `mkNnf` makes no new work for the first: what is no junction stays none -/
theorem sweep_doubleNegation_steady (f : Formula) (h : Settled deMorgan f) :
    Settled deMorgan (f.sweep doubleNegation)
      ∧ (f.pushNot = .not f →
        (f.sweep doubleNegation).pushNot = .not (f.sweep doubleNegation)) := by
  induction f with
  | top => rw [sweep_top]; exact ⟨rfl, fun _ => rfl⟩
  | bottom => rw [sweep_bottom]; exact ⟨rfl, fun _ => rfl⟩
  | symbol n => rw [sweep_symbol]; exact ⟨rfl, fun _ => rfl⟩
  | not f ih =>
    obtain ⟨hsettled, hpush⟩ := ih h.2
    have hnot := hpush h.1
    rw [sweep_not]
    generalize f.sweep doubleNegation = g at hsettled hnot
    cases g with
    | not g => exact ⟨hsettled.2, fun _ => hsettled.1⟩
    | top => exact ⟨⟨rfl, hsettled⟩, fun _ => rfl⟩
    | bottom => exact ⟨⟨rfl, hsettled⟩, fun _ => rfl⟩
    | symbol n => exact ⟨⟨rfl, hsettled⟩, fun _ => rfl⟩
    | binary op l r => exact ⟨⟨hnot, hsettled⟩, fun _ => rfl⟩
  | binary op l r ihl ihr =>
    rw [sweep_binary]
    refine ⟨⟨rfl, (ihl h.2.1).1, (ihr h.2.2).1⟩, fun hpush => ?_⟩
    rcases op with j | _ | _
    · exact nomatch hpush
    · rfl
    · rfl

theorem mkNnf_eq_self (f : Formula) (hm : Settled deMorgan f) (hd : Settled doubleNegation f) :
    f.mkNnf = f := by
  rw [mkNnf, sweep_eq_self f hm, sweep_eq_self f hd]

theorem mkNnf_mkNnf (f : Formula) : f.mkNnf.mkNnf = f.mkNnf := by
  have hfirst := settled_sweep settling_deMorgan f
  exact mkNnf_eq_self f.mkNnf (sweep_doubleNegation_steady _ hfirst).1
    (settled_sweep settling_doubleNegation _)

/-! ## forms and settled formulas -/

theorem settled_of_isNormal (f : Formula) (h : f.isNormal = true) : Settled unfoldArrow f := by
  induction f with
  | top => rfl
  | bottom => rfl
  | symbol n => rfl
  | not f ih => exact ⟨rfl, ih h⟩
  | binary op l r ihl ihr =>
    rcases op with j | _ | _
    · obtain ⟨hl, hr⟩ := (isNormal_join_iff j l r).mp h
      exact ⟨rfl, ihl hl, ihr hr⟩
    · exact absurd h (by rw [isNormal_implies]; decide)
    · exact absurd h (by rw [isNormal_equivalent]; decide)

section
variable {rule : Formula → Formula}

theorem settled_of_isAtom (settling : Settling rule) (f : Formula) (h : f.isAtom = true) :
    Settled rule f := by
  cases f with
  | top => exact settling.top
  | bottom => exact settling.bottom
  | symbol n => exact settling.symbol n
  | not f => exact nomatch h
  | binary op l r => exact nomatch h

theorem settled_of_isLiteral (settling : Settling rule)
    (not : ∀ a, a.isAtom = true → rule (.not a) = .not a) (f : Formula)
    (h : f.isLiteral = true) : Settled rule f := by
  cases f with
  | not f => exact ⟨not f h, settled_of_isAtom settling f h⟩
  | top => exact settled_of_isAtom settling .top h
  | bottom => exact settled_of_isAtom settling .bottom h
  | symbol n => exact settled_of_isAtom settling (.symbol n) h
  | binary op l r => exact nomatch h

/-- what a rule leaves to do in negation normal form can only stand at junctions -/
theorem settled_of_isNnf (settling : Settling rule)
    (not : ∀ a, a.isAtom = true → rule (.not a) = .not a)
    (join : ∀ j l r, rule (.join j l r) = .join j l r) (f : Formula) (h : f.isNnf = true) :
    Settled rule f := by
  refine isNnf_induction .and (settled_of_isLiteral settling not) ?_ ?_ f h
  · exact fun l r hl hr => ⟨join _ l r, hl, hr⟩
  · exact fun l r hl hr => ⟨join _ l r, hl, hr⟩

end

theorem negation_of_isAtom (a : Formula) (h : a.isAtom = true) :
    deMorgan (.not a) = .not a ∧ doubleNegation (.not a) = .not a := by
  cases a with
  | top => exact ⟨rfl, rfl⟩
  | bottom => exact ⟨rfl, rfl⟩
  | symbol n => exact ⟨rfl, rfl⟩
  | not f => exact nomatch h
  | binary op l r => exact nomatch h

theorem mkNnf_of_isNnf (f : Formula) (h : f.isNnf = true) : f.mkNnf = f := by
  have first (a : Formula) (ha : a.isAtom = true) := (negation_of_isAtom a ha).1
  have second (a : Formula) (ha : a.isAtom = true) := (negation_of_isAtom a ha).2
  refine mkNnf_eq_self f ?_ ?_
  · exact settled_of_isNnf settling_deMorgan first (fun _ _ _ => rfl) f h
  · exact settled_of_isNnf settling_doubleNegation second (fun _ _ _ => rfl) f h

theorem mkNormal_of_isNormal (f : Formula) (h : f.isNormal = true) : f.mkNormal = f :=
  sweep_eq_self f (settled_of_isNormal f h)

theorem toNnf_of_isNnf (f : Formula) (h : f.isNnf = true) : f.toNnf = f := by
  rw [toNnf, mkNormal_of_isNormal f (isNormal_of_isNnf h), mkNnf_of_isNnf f h]

section
variable (j : Junction)

theorem settled_of_isLayered (f : Formula) (h : f.isLayered j = true) :
    Settled (distribute j) f := by
  have hnnf : f.isNnf = true := (Bool.and_eq_true_iff.mp h).1
  refine isNnf_induction j (p := fun f => f.isLayered j = true → Settled (distribute j) f)
    ?_ ?_ ?_ f hnnf h
  · exact fun f hf _ => settled_of_isLiteral (settling_distribute j) (fun _ _ => rfl) f hf
  · intro l r hl hr hlr
    obtain ⟨hl', hr'⟩ := (isLayered_join_iff j l r).mp hlr
    exact settled_join j l r (hl (isLayered_of_isPure j hl')) (hr (isLayered_of_isPure j hr'))
      (isJoin_of_isPure j hl') (isJoin_of_isPure j hr')
  · intro l r hl hr hlr
    obtain ⟨hl', hr'⟩ := (isLayered_join_dual_iff j l r).mp hlr
    exact settled_join_dual j l r (hl hl') (hr hr')

theorem sweep_distribute_of_isLayered (f : Formula) (h : f.isLayered j = true) :
    f.sweep (distribute j) = f :=
  sweep_eq_self f (settled_of_isLayered j f h)

end

end Formula

/-! ## stages -/

namespace Stage
open Formula

/-- the form that a stage asks for -/
def source : Stage → Form
  | .mkNnf => .normal
  | .mkCnf => .nnf
  | .mkDnf => .nnf
  | _ => .fancy

/-- the form that a stage makes -/
def target : Stage → Form
  | .mkNormal => .normal
  | .mkNnf => .nnf
  | .mkCnf => .cnf
  | .mkDnf => .dnf
  | .toNormal => .normal
  | .toNnf => .nnf
  | .toCnf => .cnf
  | .toDnf => .dnf

theorem hasForm_apply (s : Stage) (f : Formula) (h : f.hasForm s.source = true) :
    (s.apply f).hasForm s.target = true := by
  cases s with
  | mkNormal => exact isNormal_mkNormal f
  | mkNnf => exact isNnf_mkNnf f h
  | mkCnf => exact isCnf_mkCnf f h
  | mkDnf => exact isDnf_mkDnf f h
  | toNormal => exact isNormal_mkNormal f
  | toNnf => exact isNnf_toNnf f
  | toCnf => exact isCnf_mkCnf f.toNnf (isNnf_toNnf f)
  | toDnf => exact isDnf_mkDnf f.toNnf (isNnf_toNnf f)

theorem apply_eq_self (s : Stage) (f : Formula) (h : f.hasForm s.target = true) :
    s.apply f = f := by
  -- a chain of passes first leaves the formula as it is, and then its last pass does
  have chain (j : Junction) (hj : f.isLayered j = true) : f.toNnf.sweep (distribute j) = f := by
    rw [toNnf_of_isNnf f (Bool.and_eq_true_iff.mp hj).1, sweep_distribute_of_isLayered j f hj]
  cases s with
  | mkNormal => exact mkNormal_of_isNormal f h
  | mkNnf => exact mkNnf_of_isNnf f h
  | mkCnf => exact sweep_distribute_of_isLayered .or f h
  | mkDnf => exact sweep_distribute_of_isLayered .and f h
  | toNormal => exact mkNormal_of_isNormal f h
  | toNnf => exact toNnf_of_isNnf f h
  | toCnf => exact chain .or h
  | toDnf => exact chain .and h

theorem apply_apply (s : Stage) (f : Formula) : s.apply (s.apply f) = s.apply f := by
  cases s with
  | mkNormal => exact sweep_sweep settling_unfoldArrow f
  | mkNnf => exact mkNnf_mkNnf f
  | mkCnf => exact sweep_sweep (settling_distribute .or) f
  | mkDnf => exact sweep_sweep (settling_distribute .and) f
  | toNormal => exact sweep_sweep settling_unfoldArrow f
  | toNnf => exact apply_eq_self .toNnf _ (hasForm_apply .toNnf f rfl)
  | toCnf => exact apply_eq_self .toCnf _ (hasForm_apply .toCnf f rfl)
  | toDnf => exact apply_eq_self .toDnf _ (hasForm_apply .toDnf f rfl)

/-- **A second run changes nothing**, whatever formula the first one was given; and of the formulas
in the form that a stage asks for, it leaves exactly those alone that have the form it makes. -/
theorem apply_fixed_iff (s : Stage) (f : Formula) :
    s.apply (s.apply f) = s.apply f
      ∧ (f.hasForm s.source = true → (s.apply f = f ↔ f.hasForm s.target = true)) := by
  refine ⟨apply_apply s f, fun hsource => ⟨fun hfixed => ?_, apply_eq_self s f⟩⟩
  have hform := hasForm_apply s f hsource
  rwa [hfixed] at hform

/-- a disjunction over a conjunction: in disjunctive normal form already, in conjunctive not yet -/
theorem apply_fixed_iff_of_or_and :
    let x : Formula := .symbol ⟨"X", by decide⟩
    let f : Formula := .or x (.and (.not x) .top)
    f.hasForm (source .mkCnf) = true ∧ f.hasForm (source .mkDnf) = true
      ∧ apply .mkCnf f ≠ f ∧ apply .mkCnf (apply .mkCnf f) = apply .mkCnf f
      ∧ apply .mkDnf f = f := by
  intro x f
  have hcnf : f.hasForm (source .mkCnf) = true := by decide
  have hdnf : f.hasForm (source .mkDnf) = true := by decide
  obtain ⟨again, changed⟩ := apply_fixed_iff .mkCnf f
  obtain ⟨_, same⟩ := apply_fixed_iff .mkDnf f
  have hleft : ¬ f.hasForm (target .mkCnf) = true := by decide
  have hdone : f.hasForm (target .mkDnf) = true := by decide
  exact ⟨hcnf, hdnf, fun h => hleft ((changed hcnf).mp h), again, (same hdnf).mpr hdone⟩

end Stage

end Sentential
