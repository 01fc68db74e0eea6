import Sentential.Proofs.Semantics.Equivalence

/-!
# Replacing equivalent subformulas

A subformula may be replaced by an equivalent one, at one place or at several, if the two have
symbols.  Their tables then show all there is to know about them: the values, and the symbols that
the formula around them gets from them.

* `Formula.Replaced f g c d`     `d` is `c` with `g` for some of the occurrences of `f`;
* `SameMeaning.of_equivalentTo`  equivalence of formulas with symbols says that they mean the same,
                                 which passes through all connectives;
* `equivalentTo_of_replaced`     the formulas around them are equivalent.

Formulas without symbols are all equivalent, whatever their value is, and may not be exchanged.
-/

namespace Sentential.Formula

/-- the second formula is the first one with `g` for some occurrences of the subformula `f` -/
inductive Replaced (f g : Formula) : Formula → Formula → Prop
  | here : Replaced f g f g
  | keep (c : Formula) : Replaced f g c c
  | not {c d : Formula} (h : Replaced f g c d) : Replaced f g (.not c) (.not d)
  | binary (op : Connective) {l r l' r' : Formula} (hl : Replaced f g l l')
      (hr : Replaced f g r r') : Replaced f g (.binary op l r) (.binary op l' r')

section
variable {f g c d : Formula}

theorem SameMeaning.of_equivalentTo (h : f.equivalentTo g = true) (hf : f.names ≠ []) :
    SameMeaning f g := by
  obtain ⟨hnames, hvalues⟩ := (f.equivalentTo_iff_valueAt g).mp h
  have hvalue := hvalues.resolve_left hf
  refine ⟨fun v => ?_, fun n => ?_⟩
  · rw [f.value_eq_valueAt, g.value_eq_valueAt, ← hnames]
    exact hvalue _ (List.length_map ..)
  · rw [← mem_names, ← mem_names, hnames]

/-- what means the same may stand for the other, wherever it stands -/
theorem SameMeaning.of_replaced (h : SameMeaning f g) (hc : Replaced f g c d) :
    SameMeaning c d := by
  induction hc with
  | here => exact h
  | keep c => exact refl c
  | not _ ih => exact ih.not
  | binary op _ _ ihl ihr => exact ihl.binary op ihr

/-- **Equivalent formulas may be exchanged**: a formula in which some occurrences of a subformula
with symbols are replaced by an equivalent formula is equivalent to what it was before. -/
theorem equivalentTo_of_replaced (h : f.equivalentTo g = true) (hf : f.names ≠ [])
    (hc : Replaced f g c d) : c.equivalentTo d = true := by
  have hsame := SameMeaning.of_equivalentTo h hf
  exact (hsame.of_replaced hc).equivalentTo

end

/-- one of two occurrences is replaced, below a negation and an equivalence -/
theorem equivalentTo_of_replaced_of_implies :
    let x : Formula := .symbol ⟨"X", by decide⟩
    let y : Formula := .symbol ⟨"Y", by decide⟩
    let f : Formula := .implies x y
    let g : Formula := .or y (.not x)
    let c : Formula := .equivalent (.not f) (.and f x)
    let d : Formula := .equivalent (.not g) (.and f x)
    f.equivalentTo g = true ∧ f.names ≠ [] ∧ Replaced f g c d ∧ c ≠ d
      ∧ c.equivalentTo d = true := by
  intro x y f g c d
  have h : f.equivalentTo g = true := by decide
  have hf := f.names_ne_nil ⟨"X", by decide⟩ (List.mem_cons_self ..)
  have hc : Replaced f g c d := .binary .equivalent (.not .here) (.keep _)
  exact ⟨h, hf, hc, by decide, equivalentTo_of_replaced h hf hc⟩

/-- without symbols, equivalence does not pass through connectives -/
example :
    let x : Formula := .symbol ⟨"X", by decide⟩
    equivalentTo .top .bottom = true ∧ Replaced .top .bottom (.or x .top) (.or x .bottom)
      ∧ equivalentTo (.or x .top) (.or x .bottom) = false :=
  ⟨by decide, .binary _ (.keep _) .here, by decide⟩

end Sentential.Formula
