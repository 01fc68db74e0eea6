import Sentential.Proofs.Semantics.Congruence

/-!
# Substitution

Formulas are put for all symbols of a formula at once.  A formula that is put in may have the very
symbols that are replaced; it is not looked at again.

* `Formula.substitute s f`           `f` with `s n` for each symbol `n`, by recursion;
* `Formula.replaceSymbol s`          the rule that does this to a symbol and nothing to other nodes;
* `sweep_replaceSymbol`              a sweep with the rule is the substitution;
* `Valuation.through m s`            the valuation that gives each symbol the value of its formula;
* `evaluate_substitute`              to evaluate after the substitution is to evaluate through it;
* `deepTransformM_substitutes`       the substitution lemma, for the transformation that is run.
-/

namespace Sentential

/-- the valuation that gives a symbol the value that the formula for it has under `m` -/
def Valuation.through (m : Valuation) (s : Name → Formula) : Valuation :=
  fun k => (Name.ofText? k).bind fun n => ((s n).evaluate m).toOption

theorem Valuation.through_text (m : Valuation) (s : Name → Formula) (n : Name) :
    m.through s n.text = ((s n).evaluate m).toOption := by
  rw [through, Name.ofText?_text]
  rfl

namespace Formula

/-! ## simultaneous substitution -/

def substitute (s : Name → Formula) : Formula → Formula
  | .symbol n => s n
  | .not f => .not (f.substitute s)
  | .binary op l r => .binary op (l.substitute s) (r.substitute s)
  | f => f

def replaceSymbol (s : Name → Formula) : Formula → Formula
  | .symbol n => s n
  | f => f

section
variable (s : Name → Formula)

/-- above a symbol the rule meets connectives only, so nothing that is put in is replaced again -/
theorem sweep_replaceSymbol (f : Formula) : f.sweep (replaceSymbol s) = f.substitute s := by
  induction f with
  | top => exact sweep_top _
  | bottom => exact sweep_bottom _
  | symbol n => exact sweep_symbol _ n
  | not f ih =>
    rw [sweep_not, ih]
    rfl
  | binary op l r ihl ihr =>
    rw [sweep_binary_of_fixed _ op l r fun _ _ => rfl, ihl, ihr]
    rfl

theorem occurrences_substitute (f : Formula) :
    (f.substitute s).occurrences = f.occurrences.flatMap fun n => (s n).occurrences := by
  induction f with
  | top => rfl
  | bottom => rfl
  | symbol n => rw [occurrences, List.flatMap_singleton, substitute]
  | not f ih => exact ih
  | binary op l r ihl ihr =>
    rw [substitute, occurrences, occurrences, List.flatMap_append, ihl, ihr]

theorem mem_names_substitute (f : Formula) (n : Name) :
    n ∈ (f.substitute s).names ↔ ∃ k ∈ f.names, n ∈ (s k).names := by
  simp only [mem_names, occurrences_substitute, List.mem_flatMap]

/-! ## evaluation -/

variable (m : Valuation)

theorem through_of_binds (n : Name) (h : m.Binds (s n)) :
    ∃ b, (s n).evaluate m = .ok b ∧ m.through s n.text = some b := by
  have hvalue := evaluate_of_binds m (s n) h
  refine ⟨_, hvalue, ?_⟩
  rw [Valuation.through_text, hvalue]
  rfl

/-- where all formulas that are put in have values, a symbol counts as its formula does -/
theorem evaluate_substitute (f : Formula) (h : ∀ n ∈ f.occurrences, m.Binds (s n)) :
    (f.substitute s).evaluate m = f.evaluate (m.through s) := by
  induction f with
  | top => exact (evaluate_top m).trans (evaluate_top _).symm
  | bottom => exact (evaluate_bottom m).trans (evaluate_bottom _).symm
  | symbol n =>
    obtain ⟨b, hvalue, hthrough⟩ := through_of_binds s m n (h n (List.mem_singleton.mpr rfl))
    exact hvalue.trans (evaluate_symbol _ n b hthrough).symm
  | not f ih => rw [substitute, evaluate_not, evaluate_not, ih h]
  | binary op l r ihl ihr =>
    have hl := ihl fun n hn => h n (List.mem_append_left _ hn)
    have hr := ihr fun n hn => h n (List.mem_append_right _ hn)
    rw [substitute, evaluate_binary, evaluate_binary, hl, hr]

/-- **Substitution lemma.**  The transformation with the rule that puts a formula for each symbol
ends with the simultaneous substitution, whose symbols are those of the formulas that are put in.
Where all of these have values, the value after the substitution is the value of the formula under
the valuation that gives each symbol the value of its formula. -/
theorem deepTransformM_substitutes (f : Formula) :
    deepTransformM (returning (replaceSymbol s)) f = .ok (.formula (f.substitute s))
      ∧ (∀ n, n ∈ (f.substitute s).names ↔ ∃ k ∈ f.names, n ∈ (s k).names)
      ∧ ∀ m : Valuation, (∀ n ∈ f.names, m.Binds (s n)) →
        (∀ n ∈ f.names, ∃ b, (s n).evaluate m = .ok b ∧ m.through s n.text = some b)
          ∧ ∃ b, (f.substitute s).evaluate m = .ok b ∧ f.evaluate (m.through s) = .ok b := by
  refine ⟨?_, mem_names_substitute s f, fun m h => ?_⟩
  · rw [deepTransformM_returning, sweep_replaceSymbol]
  · have hthrough (n : Name) (hn : n ∈ f.names) := through_of_binds s m n (h n hn)
    have hbinds : (m.through s).Binds f := by
      intro n hn
      obtain ⟨b, -, hb⟩ := hthrough n hn
      rw [hb]
      rfl
    have hvalue := evaluate_of_binds _ f hbinds
    have heq := evaluate_substitute s m f fun n hn => h n ((mem_names f n).mpr hn)
    exact ⟨hthrough, _, heq.trans hvalue, hvalue⟩

end

/-- the formula for one symbol has both symbols, and a symbol that is not bound plays no part -/
theorem deepTransformM_substitutes_of_implies :
    let x : Formula := .symbol ⟨"X", by decide⟩
    let y : Formula := .symbol ⟨"Y", by decide⟩
    let z : Formula := .symbol ⟨"Z", by decide⟩
    let s : Name → Formula := fun n =>
      if n.text = "X" then .and y x else if n.text = "Y" then .not x else z
    let m : Valuation := fun k => if k = "Z" then none else some (decide (k = "X"))
    let f : Formula := .implies y (.or x y)
    let g : Formula := .implies (.not x) (.or (.and y x) (.not x))
    deepTransformM (returning (replaceSymbol s)) f = .ok (.formula g)
      ∧ (∀ n ∈ f.names, m.Binds (s n))
      ∧ ∃ b, g.evaluate m = .ok b ∧ f.evaluate (m.through s) = .ok b := by
  intro x y z s m f g
  have hx : m.Binds (.and y x) := (firstUnbound?_eq_none_iff m _).mp (by decide)
  have hy : m.Binds (.not x) := (firstUnbound?_eq_none_iff m _).mp (by decide)
  have h : ∀ n ∈ f.names, m.Binds (s n) := by
    intro n hn
    have hocc : n ∈ [⟨"Y", by decide⟩, ⟨"X", by decide⟩, ⟨"Y", by decide⟩] :=
      (mem_names f n).mp hn
    simp only [List.mem_cons, List.not_mem_nil, or_false] at hocc
    rcases hocc with rfl | rfl | rfl
    · exact hy
    · exact hx
    · exact hy
  obtain ⟨hmade, _, hvalues⟩ := deepTransformM_substitutes s f
  exact ⟨hmade, h, (hvalues m h).2⟩

end Formula

end Sentential
