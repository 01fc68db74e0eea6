import Sentential.Proofs.Minimizer.Minimal
import Sentential.Proofs.Semantics.Equivalence

/-!
# The minimizer decides equivalence

The list of prime implicants, with the order in which it is made, is a complete invariant of
equivalence among the formulas over the same symbols.

* `trueRows_eq_of_equivalentTo`   equivalent formulas start the same run, so they end it alike;
* `valueAt_eq_of_primes_eq`       the prime implicants cover what is true and nothing else, so their
                                  list gives the values back;
* `equivalentTo_iff_request`      both said of the answers of any two sessions.
-/

namespace Sentential.Minimizer
open Formula

section
variable {f g : Formula}

theorem trueRows_eq_of_equivalentTo (h : f.equivalentTo g = true) : trueRows f = trueRows g := by
  have hentries : f.truthTable.entries = g.truthTable.entries := of_decide_eq_true h
  rw [trueRows, trueRows, TruthTable.trueRows, TruthTable.trueRows, hentries]

theorem valueAt_eq_of_primes_eq (hf : f.names ≠ []) (hnames : f.names = g.names)
    (h : primeImplicants (trueRows f) = primeImplicants (trueRows g)) (vs : List Bool)
    (hl : vs.length = f.names.length) : f.valueAt vs = g.valueAt vs := by
  rw [← covers_primeImplicants hf vs hl, h]
  exact covers_primeImplicants (hnames ▸ hf) vs (hnames ▸ hl)

end

/-- **Prime implicants decide equivalence**: every session answers every formula with a list of
rows, and two formulas are equivalent if and only if they have the same symbols and two sessions,
whatever they did before, answer them with the same list, row for row and in the same order. -/
theorem equivalentTo_iff_request (m k : Minimizer) (f g : Formula) :
    (∃ rows, (m.request (.formula f) []).answer = .ok rows)
      ∧ (f.equivalentTo g = true
        ↔ f.names = g.names
          ∧ (m.request (.formula f) []).answer = (k.request (.formula g) []).answer) := by
  refine ⟨⟨_, answer_request m f⟩, ?_⟩
  rw [answer_request, answer_request]
  constructor
  · intro h
    refine ⟨((f.equivalentTo_iff_valueAt g).mp h).1, ?_⟩
    rw [trueRows_eq_of_equivalentTo h]
  · rintro ⟨hnames, hanswers⟩
    have hprimes : primeImplicants (trueRows f) = primeImplicants (trueRows g) :=
      Except.ok.inj hanswers
    refine (f.equivalentTo_iff_valueAt g).mpr ⟨hnames, ?_⟩
    by_cases hempty : f.names = []
    · exact .inl hempty
    · exact .inr (valueAt_eq_of_primes_eq hempty hnames hprimes)

end Sentential.Minimizer
