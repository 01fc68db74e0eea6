import Sentential.Proofs.Implicant.Product
import Sentential.Proofs.Minimizer.Primes

/-!
# The minimal formula

The prime implicants of a formula, read as a formula again, mean what the formula means.

* `covers_primeImplicants`   values are covered by a prime implicant iff they make the formula true;
* `value_primesFormula`      the same said of the disjunction;
* `request_gives_minimal`    the answer of a session, read over the symbols that the session
                             remembers.
-/

namespace Sentential

namespace Formula

/-- the disjunction of the prime implicants -/
def primesFormula (f : Formula) : Formula :=
  rowsFormula (primeImplicants (Minimizer.trueRows f)) f.names

section
variable {f : Formula}

theorem covers_primeImplicants (hf : f.names ≠ []) (vs : List Bool)
    (hl : vs.length = f.names.length) :
    ((primeImplicants (Minimizer.trueRows f)).any fun x => x.covers vs) = f.valueAt vs := by
  rw [Bool.eq_iff_iff, List.any_eq_true]
  constructor
  · rintro ⟨x, hx, hcovers⟩
    have hprime := (f.isPrime_iff x).mp ((Minimizer.mem_primeImplicants_trueRows f hf x).mp hx)
    exact hprime.1.2 vs hl hcovers
  · intro htrue
    -- the row of the values themselves is an implicant, hence below a prime one
    have hrow := ((implicant_fixed_iff (P := f.Holds) (Row.ofValues vs)).mpr ⟨vs, hl, htrue, rfl⟩).1
    obtain ⟨y, hy, hfree⟩ := exists_primeImplicant _ hrow
    refine ⟨y, ?_, hfree.covers vs ((Row.covers_ofValues_iff vs vs rfl).mpr rfl)⟩
    exact (Minimizer.mem_primeImplicants_trueRows f hf y).mpr ((f.isPrime_iff y).mpr hy)

theorem value_primesFormula (hf : f.names ≠ []) (v : String → Bool) :
    f.primesFormula.value v = f.value v := by
  rw [primesFormula, value_rowsFormula, f.value_eq_valueAt]
  exact covers_primeImplicants hf _ (List.length_map ..)

theorem binds_primesFormula {m : Valuation} (h : m.Binds f) : m.Binds f.primesFormula := by
  intro n hn
  exact h n (occurrences_rowsFormula_subset _ f.names ((mem_names _ n).mp hn))

theorem implicantsFormula_primeImplicants (hf : f.names ≠ []) :
    implicantsFormula (primeImplicants (Minimizer.trueRows f)) (f.names.map Name.datum)
      = .ok f.primesFormula := by
  refine implicantsFormula_eq _ f.names fun x hx => ?_
  exact ((Minimizer.mem_primeImplicants_trueRows f hf x).mp hx).1.1

theorem minimal_eq (hf : f.names ≠ []) : f.minimal = .ok f.primesFormula := by
  have hrows : f.minimize = .ok (primeImplicants (Minimizer.trueRows f)) :=
    Minimizer.answer_request (.fresh 30) f
  rw [minimal, hrows]
  exact implicantsFormula_primeImplicants hf

end

end Formula

namespace Minimizer

/-- **The prime implicants give the formula back**: over the symbols that the session remembers
they are the minimal formula, in disjunctive normal form, and wherever the symbols are bound both
formulas evaluate to the same value. -/
theorem request_gives_minimal (m : Minimizer) (f : Formula) (hf : f.names ≠ []) :
    ∃ rows ns g, (m.request (.formula f) []).answer = .ok rows
      ∧ (m.request (.formula f) []).state.symbols = some ns
      ∧ implicantsFormula rows (ns.map Name.datum) = .ok g
      ∧ f.minimal = .ok g ∧ g.isDnf = true
      ∧ ∀ v : Valuation, v.Binds f → ∃ b, f.evaluate v = .ok b ∧ g.evaluate v = .ok b := by
  have hg := Formula.implicantsFormula_primeImplicants hf
  refine ⟨_, _, f.primesFormula, answer_request m f, symbols_request m f, hg,
    Formula.minimal_eq hf, ?_, fun v hv => ?_⟩
  · exact isDnf_rowsFormula _ f.names
  · refine ⟨f.value (Formula.valueOrFalse v), Formula.evaluate_of_binds v f hv, ?_⟩
    rw [Formula.evaluate_of_binds v _ (Formula.binds_primesFormula hv),
      Formula.value_primesFormula hf]

theorem request_gives_minimal_of_implies :
    let x : Formula := .symbol ⟨"X", by decide⟩
    let f : Formula := .implies x (.symbol ⟨"Y", by decide⟩)
    f.names ≠ [] ∧ ∃ g, f.minimal = .ok g ∧ g.isDnf = true
      ∧ ∃ b, f.evaluate (fun _ => some true) = .ok b ∧ g.evaluate (fun _ => some true) = .ok b := by
  intro x f
  have hf := f.names_ne_nil ⟨"X", by decide⟩ (List.mem_cons_self ..)
  obtain ⟨_, _, g, _, _, _, hminimal, hdnf, hvalue⟩ := request_gives_minimal (fresh 30) f hf
  exact ⟨hf, g, hminimal, hdnf, hvalue _ fun _ _ => rfl⟩

end Minimizer

end Sentential
