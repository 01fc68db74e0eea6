import Sentential.Fault
import Sentential.Formula.Traversal
import Sentential.Proofs.Form

/-!
# Forms as grammars

A form is a grammar: a formula has the form iff it is built by the rules.  The tests for the forms
do not follow these rules.  They search the formula for nodes that must not be there, wherever they
stand: an arrow, a negation of something that is no atom, a junction with its dual anywhere below.

* `Atom`, `Literal`, `Normal`, `Nnf`   the grammars of single formulas;
* `Tree j p`             trees of the junction `j` over leaves in `p`.  Conjunctive normal form is
                         `Tree .and (Tree .or Literal)`, disjunctive normal form the dual;
* `Form.Generates`       the grammar of each form;
* `search`, `search_eq_anyNode`   the search of the tests is a fold with a flag that stays up;
* `isPure_iff_tree`, `isLayered_iff_tree`   what may stand below a junction, and what a layered
                         formula is made of, by induction on the formula;
* `accepts_grammar`      the tests, and what a caller gets who requires a form.
-/

namespace Sentential

namespace Formula

/-! ## grammars -/

inductive Atom : Formula → Prop where
  | top : Atom .top
  | bottom : Atom .bottom
  | symbol (n : Name) : Atom (.symbol n)

/-- an atom, or a negation directly above one -/
inductive Literal : Formula → Prop where
  | atom {f : Formula} (h : Atom f) : Literal f
  | not {f : Formula} (h : Atom f) : Literal (.not f)

inductive Normal : Formula → Prop where
  | atom {f : Formula} (h : Atom f) : Normal f
  | not {f : Formula} (h : Normal f) : Normal (.not f)
  | join (j : Junction) {l r : Formula} (hl : Normal l) (hr : Normal r) : Normal (.join j l r)

inductive Nnf : Formula → Prop where
  | literal {f : Formula} (h : Literal f) : Nnf f
  | join (j : Junction) {l r : Formula} (hl : Nnf l) (hr : Nnf r) : Nnf (.join j l r)

/-- trees of the junction `j` over leaves in `p` -/
inductive Tree (j : Junction) (p : Formula → Prop) : Formula → Prop where
  | leaf {f : Formula} (h : p f) : Tree j p f
  | join {l r : Formula} (hl : Tree j p l) (hr : Tree j p r) : Tree j p (.join j l r)

end Formula

/-- the formula is built by the rules of the form -/
def Form.Generates : Form → Formula → Prop
  | .fancy, _ => True
  | .normal, f => f.Normal
  | .nnf, f => f.Nnf
  | .cnf, f => f.Tree .and (Formula.Tree .or Formula.Literal)
  | .dnf, f => f.Tree .or (Formula.Tree .and Formula.Literal)

namespace Formula

/-! ## the search -/

/-- carry a flag through all nodes; a node that satisfies `p` raises it, and it stays up -/
def search (p : Formula → Bool) (f : Formula) : Bool := f.fold (fun g found => found || p g) false

theorem foldRecM_search (p : Formula → Bool) (found : Bool) (f : Formula) :
    foldRecM (fun g found => (pure (found || p g) : Id Bool)) found f
      = pure (found || f.anyNode p) := by
  induction f generalizing found with
  | top => rfl
  | bottom => rfl
  | symbol n => rfl
  | not f ih =>
    rw [foldRecM, ih, anyNode, pure_bind, Bool.or_assoc, Bool.or_comm (f.anyNode p)]
  | binary op l r ihl ihr =>
    -- the flag comes from the right argument to the left one and then to the node
    rw [foldRecM, ihr, pure_bind, ihl, pure_bind, anyNode, Bool.or_assoc, Bool.or_assoc,
      Bool.or_comm (r.anyNode p), Bool.or_comm (l.anyNode p), Bool.or_assoc]

theorem search_eq_anyNode (p : Formula → Bool) (f : Formula) : f.search p = f.anyNode p := by
  rw [search, fold, foldM_eq_foldRecM, foldRecM_search]
  exact Bool.false_or _

/-! ## single formulas -/

theorem isAtom_iff (f : Formula) : f.isAtom = true ↔ f.Atom := by
  constructor
  · intro h
    cases f with
    | top => exact .top
    | bottom => exact .bottom
    | symbol n => exact .symbol n
    | not f => exact nomatch h
    | binary op l r => exact nomatch h
  · rintro (_ | _ | _) <;> rfl

theorem isLiteral_iff (f : Formula) : f.isLiteral = true ↔ f.Literal := by
  constructor
  · intro h
    cases f with
    | not f => exact .not ((isAtom_iff f).mp h)
    | top => exact .atom .top
    | bottom => exact .atom .bottom
    | symbol n => exact .atom (.symbol n)
    | binary op l r => exact nomatch h
  · rintro (h | h)
    · cases h <;> rfl
    · exact (isAtom_iff _).mpr h

theorem isNormal_iff (f : Formula) : f.isNormal = true ↔ f.Normal := by
  constructor
  · intro h
    induction f with
    | top => exact .atom .top
    | bottom => exact .atom .bottom
    | symbol n => exact .atom (.symbol n)
    | not f ih => exact .not (ih h)
    | binary op l r ihl ihr =>
      rcases op with j | _ | _
      · obtain ⟨hl, hr⟩ := (isNormal_join_iff j l r).mp h
        exact .join j (ihl hl) (ihr hr)
      · exact absurd h (by rw [isNormal_implies]; decide)
      · exact absurd h (by rw [isNormal_equivalent]; decide)
  · intro h
    induction h with
    | atom h => cases h <;> rfl
    | not _ ih => exact ih
    | join j _ _ ihl ihr => exact (isNormal_join_iff j _ _).mpr ⟨ihl, ihr⟩

theorem isNnf_iff (f : Formula) : f.isNnf = true ↔ f.Nnf := by
  constructor
  · exact isNnf_induction .and (fun f h => .literal ((isLiteral_iff f).mp h))
      (fun _ _ hl hr => .join .and hl hr) (fun _ _ hl hr => .join .or hl hr) f
  · intro h
    induction h with
    | literal h => exact isNnf_of_isLiteral ((isLiteral_iff _).mpr h)
    | join j _ _ ihl ihr => exact (isNnf_join_iff j _ _).mpr ⟨ihl, ihr⟩

/-! ## layers -/

section
variable (j : Junction)

theorem isPure_iff_tree (f : Formula) : f.isPure j = true ↔ f.Tree j Literal := by
  constructor
  · intro h
    have hnnf : f.isNnf = true := (Bool.and_eq_true_iff.mp h).1
    revert h
    refine isNnf_induction j (p := fun f => f.isPure j = true → f.Tree j Literal) ?_ ?_ ?_ f hnnf
    · exact fun f hf _ => .leaf ((isLiteral_iff f).mp hf)
    · intro l r hl hr h
      obtain ⟨hl', hr'⟩ := (isPure_join_iff j l r).mp h
      exact .join (hl hl') (hr hr')
    · intro l r _ _ h
      exact absurd (isJoin_of_isPure j h) (by simp [isJoin, isBinary])
  · intro h
    induction h with
    | leaf h => exact isPure_of_isLiteral j ((isLiteral_iff _).mpr h)
    | join _ _ ihl ihr => exact (isPure_join_iff j _ _).mpr ⟨ihl, ihr⟩

theorem isLayered_iff_tree (f : Formula) :
    f.isLayered j = true ↔ f.Tree j.dual (Tree j Literal) := by
  constructor
  · intro h
    have hnnf : f.isNnf = true := (Bool.and_eq_true_iff.mp h).1
    revert h
    refine isNnf_induction j (p := fun f => f.isLayered j = true → f.Tree j.dual (Tree j Literal))
      ?_ ?_ ?_ f hnnf
    · exact fun f hf _ => .leaf (.leaf ((isLiteral_iff f).mp hf))
    · -- no dual junction is left below `j`, so the whole is a single leaf
      intro l r _ _ h
      have hpure := (isPure_join_iff j l r).mpr ((isLayered_join_iff j l r).mp h)
      exact .leaf ((isPure_iff_tree j _).mp hpure)
    · intro l r hl hr h
      obtain ⟨hl', hr'⟩ := (isLayered_join_dual_iff j l r).mp h
      exact .join (hl hl') (hr hr')
  · intro h
    induction h with
    | leaf h => exact isLayered_of_isPure j ((isPure_iff_tree j _).mpr h)
    | join _ _ ihl ihr => exact (isLayered_join_dual_iff j _ _).mpr ⟨ihl, ihr⟩

end

theorem hasForm_iff (φ : Form) (f : Formula) : f.hasForm φ = true ↔ φ.Generates f := by
  cases φ with
  | fancy => exact iff_of_true rfl trivial
  | normal => exact isNormal_iff f
  | nnf => exact isNnf_iff f
  | cnf => exact isLayered_iff_tree .or f
  | dnf => exact isLayered_iff_tree .and f

/-- **The tests accept the grammars**, and nothing else.  What a test searches for it finds by a
fold over all nodes.  Who requires a form gets the formula itself if the grammar generates it, and
otherwise a fault of the kind for forms, which names the formula and the form. -/
theorem accepts_grammar (f : Formula) :
    (∀ p, f.anyNode p = f.fold (fun g found => found || p g) false)
      ∧ (f.isNormal = true ↔ f.Normal) ∧ (f.isNnf = true ↔ f.Nnf)
      ∧ (f.isCnf = true ↔ f.Tree .and (Tree .or Literal))
      ∧ (f.isDnf = true ↔ f.Tree .or (Tree .and Literal))
      ∧ ∀ φ : Form,
        ((Tag.form φ).require (.formula f) = .ok (.formula f) ↔ φ.Generates f)
          ∧ ((∃ e, (Tag.form φ).require (.formula f) = .error e
            ∧ e = .lacksForm (.formula f) (.form φ) ∧ e.kind = .form) ↔ ¬ φ.Generates f) := by
  refine ⟨fun p => (search_eq_anyNode p f).symm, isNormal_iff f, isNnf_iff f,
    isLayered_iff_tree .or f, isLayered_iff_tree .and f, fun φ => ?_⟩
  rw [Tag.require_form, ← hasForm_iff]
  by_cases h : f.hasForm φ = true
  · rw [if_pos h]
    refine ⟨iff_of_true rfl h, iff_of_false ?_ (not_not_intro h)⟩
    rintro ⟨e, he, _⟩
    exact nomatch he
  · rw [if_neg h]
    exact ⟨iff_of_false (fun e => nomatch e) h, iff_of_true ⟨_, rfl, rfl, rfl⟩ h⟩

end Formula

end Sentential
