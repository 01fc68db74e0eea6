import Sentential.Proofs.NormalForm.Shape
import Sentential.Proofs.Semantics.Meaning

/-!
# Evaluation is truth by recursion

A caller evaluates under an `Environment`: a mapping, or data under keys, which count as truth
values in the sense of `Datum.holds`.  Evaluation gives the value that the recursion over the
constructors gives, or names the leftmost symbol without a datum, and has no other outcome.

* `Environment.datum? e n`    what the environment holds under a name;
* `evaluate_of_agrees`        all symbols have values: evaluation is the recursive value;
* `kind_of_evaluate`          every fault is about an unbound symbol;
* `evaluate_agrees`           both said of environments, with the leftmost symbol as the fault.

`reduce_arrow` says what happens at an arrow: the formula that the arrow is unfolded to is evaluated
as any other formula is.
-/

namespace Sentential

/-- what a caller may evaluate under -/
inductive Environment where
  | mapping (m : Mapping)
  | data (es : List (Datum × Datum))

namespace Environment

def valuation : Environment → Valuation
  | .mapping m => m.valuation
  | .data es => valuationOf es

/-- the datum under a name -/
def datum? : Environment → Name → Option Datum
  | .mapping m, n => (m.get? n.datum).map Datum.bool
  | .data es, n => (es.find? fun e => e.1.same n.datum).map Prod.snd

/-- the value of a name is what its datum counts as -/
theorem valuation_text (e : Environment) (n : Name) :
    e.valuation n.text = (e.datum? n).map Datum.holds := by
  cases e with
  | mapping m =>
    show m.get? n.datum = ((m.get? n.datum).map Datum.bool).map Datum.holds
    cases m.get? n.datum <;> rfl
  | data es =>
    show (es.find? fun e => e.1.same n.datum).map (fun e => e.2.holds)
      = ((es.find? fun e => e.1.same n.datum).map Prod.snd).map Datum.holds
    rw [Option.map_map]
    rfl

theorem valuation_eq_none_iff (e : Environment) (n : Name) :
    e.valuation n.text = none ↔ e.datum? n = none := by
  rw [valuation_text, Option.map_eq_none_iff]

end Environment

namespace Formula

/-! ## the two outcomes -/

section
variable {m : Valuation} {f : Formula}

theorem evaluate_of_agrees {v : String → Bool} (h : ∀ n ∈ f.names, m n.text = some (v n.text)) :
    f.evaluate m = .ok (f.value v) := by
  have hbinds : m.Binds f := fun n hn => by rw [h n hn]; rfl
  have hvalue : f.value (valueOrFalse m) = f.value v := by
    refine value_congr f _ _ fun n hn => ?_
    rw [valueOrFalse, h n ((mem_names f n).mpr hn)]
    rfl
  rw [evaluate_of_binds m f hbinds, hvalue]

theorem kind_of_evaluate {fault : Fault} (h : f.evaluate m = .error fault) :
    fault.kind = .unboundSymbol := by
  rw [evaluate_eq_match] at h
  cases hfirst : f.firstUnbound? m with
  | some n =>
    rw [hfirst] at h
    exact Except.error.inj h ▸ rfl
  | none =>
    rw [hfirst] at h
    exact nomatch h

end

/-! ## arrows -/

/-- without arrows, reduction never has to unfold one -/
theorem sweepM_reduceNormal (m : Valuation) (f : Formula) (h : f.isNormal = true) :
    f.sweepM (reduceNormal m) = f.sweepM (reduce m) := by
  rw [sweepM, sweepM, climbM_eq_climbRecM, climbM_eq_climbRecM]
  induction f with
  | top => rfl
  | bottom => rfl
  | symbol n => rfl
  | not f ih =>
    rw [climbRecM, climbRecM, ih h]
    rfl
  | binary op l r ihl ihr =>
    rcases op with j | _ | _
    · obtain ⟨hl, hr⟩ := (isNormal_join_iff j l r).mp h
      rw [climbRecM, climbRecM, ihl hl, ihr hr]
      rfl
    · exact absurd h (by rw [isNormal_implies]; decide)
    · exact absurd h (by rw [isNormal_equivalent]; decide)

theorem evaluateNormal_eq_evaluate (m : Valuation) (f : Formula) (h : f.isNormal = true) :
    evaluateNormal m f = f.evaluate m := by
  rw [evaluateNormal, evaluate, sweepM_reduceNormal m f h]

/-- an arrow over reduced arguments is evaluated by way of what it unfolds to -/
theorem reduce_arrow (m : Valuation) (op : Connective) (hop : ∀ j, op ≠ .junction j) (x y : Bool) :
    reduce m (.binary op (ofBool x) (ofBool y)) = (do
      let b ← (unfoldArrow (.binary op (ofBool x) (ofBool y))).evaluate m
      return ofBool b) := by
  have hreduced (b : Bool) : (ofBool b).isNormal = true := by cases b <;> rfl
  have hnormal := isNormal_unfoldArrow op _ _ (hreduced x) (hreduced y)
  rw [← evaluateNormal_eq_evaluate m _ hnormal]
  rcases op with j | _ | _
  · exact absurd rfl (hop j)
  · rfl
  · rfl

/-! ## evaluation under an environment -/

/-- **Evaluation is truth by recursion**: where every symbol has a datum, the value is the one of
the recursion over what the data count as; where one has none, the leftmost such symbol is the
fault, whether or not the value depends on it; and there is no other fault. -/
theorem evaluate_agrees (e : Environment) (f : Formula) :
    (∀ v : String → Bool, (∀ n ∈ f.names, ∃ d, e.datum? n = some d ∧ d.holds = v n.text) →
        f.evaluate e.valuation = .ok (f.value v))
      ∧ ((∃ n ∈ f.names, e.datum? n = none) →
        ∃ us n ws, f.occurrences = us ++ n :: ws ∧ (∀ k ∈ us, e.datum? k ≠ none)
          ∧ e.datum? n = none ∧ f.evaluate e.valuation = .error (.unbound n.datum))
      ∧ ∀ fault, f.evaluate e.valuation = .error fault → fault.kind = .unboundSymbol := by
  refine ⟨fun v hv => ?_, ?_, fun fault => kind_of_evaluate⟩
  · refine evaluate_of_agrees fun n hn => ?_
    obtain ⟨d, hd, hholds⟩ := hv n hn
    rw [e.valuation_text, hd, ← hholds]
    rfl
  · rintro ⟨k, hk, hnone⟩
    have hbinds : ¬ e.valuation.Binds f := by
      intro hall
      have hk' := hall k hk
      rw [(e.valuation_eq_none_iff k).mpr hnone] at hk'
      exact nomatch hk'
    obtain ⟨n, hn⟩ := exists_leftmost _ f hbinds
    have hfault := evaluate_of_leftmost _ f n hn
    obtain ⟨us, ws, hocc, hus, hunbound⟩ := hn
    refine ⟨us, n, ws, hocc, fun i hi hi' => ?_, ?_, hfault⟩
    · exact hus i hi ((e.valuation_eq_none_iff i).mpr hi')
    · exact (e.valuation_eq_none_iff n).mp hunbound

/-- data that count as true and false, and a fault where the value is settled without the symbol -/
theorem evaluate_agrees_of_or :
    let x : Name := ⟨"X", by decide⟩
    let y : Name := ⟨"Y", by decide⟩
    let f : Formula := .or (.symbol y) (.implies (.symbol x) (.symbol y))
    let full : Environment := .data [(.text "X", .int 2), (.text "Y", .text "")]
    let lacking : Environment := .mapping ⟨[(.text "Y", true)]⟩
    (∀ n ∈ f.names, ∃ d, full.datum? n = some d ∧ d.holds = decide (n.text = "X"))
      ∧ f.evaluate full.valuation = .ok false
      ∧ (∃ n ∈ f.names, lacking.datum? n = none)
      ∧ ∃ n, lacking.datum? n = none
        ∧ f.evaluate lacking.valuation = .error (.unbound n.datum) := by
  intro x y f full lacking
  have hx : x ∈ f.names := (mem_names f x).mpr (by decide)
  have hfull (n : Name) (hn : n ∈ f.names) :
      ∃ d, full.datum? n = some d ∧ d.holds = decide (n.text = "X") := by
    have hocc : n ∈ [y, x, y] := (mem_names f n).mp hn
    rcases List.mem_cons.mp hocc with rfl | hocc
    · exact ⟨.text "", rfl, by decide⟩
    rcases List.mem_cons.mp hocc with rfl | hocc
    · exact ⟨.int 2, rfl, by decide⟩
    · obtain rfl := List.mem_singleton.mp hocc
      exact ⟨.text "", rfl, by decide⟩
  have hlacking : ∃ n ∈ f.names, lacking.datum? n = none := ⟨x, hx, rfl⟩
  obtain ⟨agrees, _, _⟩ := evaluate_agrees full f
  obtain ⟨_, leftmost, _⟩ := evaluate_agrees lacking f
  have hvalue := agrees (fun k => decide (k = "X")) hfull
  obtain ⟨_, n, _, _, _, hnone, hfault⟩ := leftmost hlacking
  exact ⟨hfull, hvalue.trans (congrArg Except.ok (by decide)), hlacking, n, hnone, hfault⟩

end Formula

end Sentential
