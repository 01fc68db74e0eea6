import Sentential.Proofs.Implicant.Generation
import Sentential.Proofs.Minimizer.Steps
import Sentential.Proofs.Semantics.Total

/-!
# The minimizer lists the prime implicants

`Formula.IsImplicant` and `Formula.IsPrime` say by evaluation what it is to be an implicant of a
formula.  `isPrime_iff` reads this on lists of values, where the generations are known, and
`request_lists_primes` says it of the answer of a session.
-/

namespace Sentential

namespace Formula

/-- a cell for each symbol, and the formula is true under every total assignment that is covered -/
def IsImplicant (f : Formula) (x : Row) : Prop :=
  x.length = f.names.length ∧
    ∀ a : Assignment, a.IsTotalFor f → x.covers a.values = true → f.evaluate a.valuation = .ok true

/-- an implicant, and none any more as soon as one or more of its fixed cells are freed -/
def IsPrime (f : Formula) (x : Row) : Prop :=
  f.IsImplicant x ∧ ∀ y, x.FreesTo y → y ≠ x → ¬ f.IsImplicant y

/-- the values of the symbols that make the formula true -/
def Holds (f : Formula) (vs : List Bool) : Prop := f.valueAt vs = true

theorem isImplicant_iff (f : Formula) (x : Row) :
    f.IsImplicant x ↔ Implicant f.Holds f.names.length x := by
  refine and_congr_right fun _ => ⟨fun h vs hl hx => ?_, fun h a ha hx => ?_⟩
  · have htotal := isTotalFor_row vs hl
    have hvalues := f.values_row vs hl
    have htrue := h (f.row vs) htotal (by rw [hvalues]; exact hx)
    rw [evaluate_of_isTotalFor htotal, hvalues] at htrue
    exact Except.ok.inj htrue
  · rw [evaluate_of_isTotalFor ha]
    have htrue := h a.values (length_values_of_isTotalFor ha) hx
    rw [htrue]

theorem isPrime_iff (f : Formula) (x : Row) :
    f.IsPrime x ↔ PrimeImplicant f.Holds f.names.length x := by
  unfold IsPrime PrimeImplicant
  simp only [isImplicant_iff]

end Formula

namespace Minimizer

theorem mem_trueRows_iff_implicant (f : Formula) (hf : f.names ≠ []) (x : Row) :
    x ∈ trueRows f ↔ Implicant f.Holds f.names.length x ∧ x.freed = 0 := by
  rw [mem_trueRows_iff f hf, implicant_fixed_iff]
  rfl

theorem mem_primeImplicants_trueRows (f : Formula) (hf : f.names ≠ []) (x : Row) :
    x ∈ primeImplicants (trueRows f) ↔ f.IsPrime x := by
  rw [mem_primeImplicants (mem_trueRows_iff_implicant f hf), Formula.isPrime_iff]

theorem answer_request (m : Minimizer) (f : Formula) :
    (m.request (.formula f) []).answer = .ok (primeImplicants (trueRows f)) := by
  rw [request_nil]

theorem symbols_request (m : Minimizer) (f : Formula) :
    (m.request (.formula f) []).state.symbols = some f.names := by
  rw [request_nil]
  rfl

/-- **The minimizer lists the prime implicants** of a formula with symbols, each once and over the
symbols in ascending order, whatever the session did before. -/
theorem request_lists_primes (m : Minimizer) (f : Formula) (hf : f.names ≠ []) :
    ∃ rows ns, (m.request (.formula f) []).answer = .ok rows
      ∧ (m.request (.formula f) []).state.symbols = some ns ∧ ns = f.names
      ∧ rows.Nodup ∧ (∀ x, x ∈ rows ↔ f.IsPrime x) ∧ ∀ x ∈ rows, x.length = ns.length := by
  have hmem := mem_primeImplicants_trueRows f hf
  refine ⟨_, _, answer_request m f, symbols_request m f, rfl, nodup_primeImplicants _, hmem, ?_⟩
  intro x hx
  exact ((hmem x).mp hx).1.1

theorem request_lists_primes_of_or :
    let x : Formula := .symbol ⟨"X", by decide⟩
    let f : Formula := .or x (.symbol ⟨"Y", by decide⟩)
    f.names ≠ [] ∧ ∃ rows, ((fresh 30).request (.formula f) []).answer = .ok rows
      ∧ rows.Nodup ∧ ∀ r, r ∈ rows ↔ f.IsPrime r := by
  intro x f
  have hf := f.names_ne_nil ⟨"X", by decide⟩ (List.mem_cons_self ..)
  obtain ⟨rows, _, hanswer, _, _, hnodup, hmem, _⟩ := request_lists_primes (fresh 30) f hf
  exact ⟨hf, rows, hanswer, hnodup, hmem⟩

end Minimizer

end Sentential
