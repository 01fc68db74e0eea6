import Mathlib.Data.List.Basic
import Sentential.Expression.Reading
import Sentential.Proofs.Expression.Simplification
import Sentential.Proofs.Implicant.Product

/-!
# From formulas to expressions and back

A Boolean expression whose symbols have names is read as a formula.

* `Reads e g`               `e` is read as `g`, which has the values of `e` and no further symbols;
* `all_neighbours_iff`      formulas agree with their neighbours if all of them agree;
* `exists_reads`            what a Boolean expression is read as, by induction on the expression;
* `expression_round_trip`   a formula that a faithful builder has made an expression of comes back
                            as a formula with the same value.
-/

namespace Sentential

/-! ## neighbours -/

namespace Formula

theorem all_neighbours_cons_iff (f : Formula) (fs : List Formula) (v : String → Bool) :
    ((neighbours (f :: fs)).all fun k => k.value v) = true ↔ ∀ g ∈ fs, g.value v = f.value v := by
  induction fs generalizing f with
  | nil => exact iff_of_true rfl nofun
  | cons g fs ih =>
    rw [neighbours, List.all_cons, Bool.and_eq_true, ih, List.forall_mem_cons]
    show (f.value v == g.value v) = true ∧ _ ↔ _
    rw [beq_iff_eq, eq_comm]
    refine and_congr_right fun hg => ?_
    rw [hg]

/-- that neighbours agree is the equivalence of all of the formulas -/
theorem value_neighbours (fs : List Formula) (v : String → Bool) :
    (conjunction (neighbours fs)).value v
      = (Head.connective .equivalent).value (fs.map fun f => f.value v) := by
  rw [value_conjunction, Bool.eq_iff_iff]
  cases fs with
  | nil => exact Iff.rfl
  | cons f fs =>
    rw [all_neighbours_cons_iff, List.map_cons,
      Head.value_equivalent_iff_of_mem (List.mem_cons_self ..), List.forall_mem_cons,
      List.forall_mem_map]
    exact (and_iff_right rfl).symm

theorem occurrences_neighbours (fs : List Formula) :
    (neighbours fs).flatMap occurrences ⊆ fs.flatMap occurrences := by
  induction fs with
  | nil => exact List.Subset.refl _
  | cons f fs ih =>
    cases fs with
    | nil => exact List.nil_subset _
    | cons g fs =>
      rw [neighbours, List.flatMap_cons, List.flatMap_cons]
      refine List.append_subset.mpr ⟨?_, List.subset_append_of_subset_right _ ih⟩
      rw [List.flatMap_cons, occurrences, ← List.append_assoc]
      exact List.subset_append_left ..

theorem value_chain (j : Junction) (fs : List Formula) (v : String → Bool) :
    (chain j fs).value v
      = (Head.connective (.junction j)).value (fs.map fun f => f.value v) := by
  cases j with
  | and =>
    rw [Head.value, List.all_map]
    exact value_conjunction fs v
  | or =>
    rw [Head.value, List.any_map]
    exact value_disjunction fs v

end Formula

namespace Expression

/-! ## reading -/

/-- the formula has the values of the expression and no further symbols -/
structure Reads (e : Expression) (g : Formula) : Prop where
  formula : e.formula = .ok g
  value : ∀ v, g.value v = e.value v
  symbols : g.occurrences.map Name.text ⊆ e.symbols

/-- the same of lists -/
structure ReadsAll (es : List Expression) (gs : List Formula) : Prop where
  formulas : formulas es = .ok gs
  values : ∀ v, gs.map (Formula.value v) = es.map (value v)
  symbols : (gs.flatMap Formula.occurrences).map Name.text ⊆ es.flatMap symbols

theorem exists_readsAll {es : List Expression} (h : ∀ e ∈ es, ∃ g, Reads e g) :
    ∃ gs, ReadsAll es gs := by
  induction es with
  | nil => exact ⟨[], rfl, fun _ => rfl, List.Subset.refl _⟩
  | cons e es ih =>
    obtain ⟨g, hg⟩ := h e (List.mem_cons_self ..)
    obtain ⟨gs, hgs⟩ := ih fun d hd => h d (List.mem_cons_of_mem _ hd)
    refine ⟨g :: gs, ?_, fun v => ?_, ?_⟩
    · rw [formulas_cons, hg.formula, hgs.formulas]
      rfl
    · rw [List.map_cons, List.map_cons, hg.value, hgs.values]
    · rw [List.flatMap_cons, List.flatMap_cons, List.map_append]
      exact append_subset_append hg.symbols hgs.symbols

/-! ## one operator -/

section
variable {es : List Expression} {gs : List Formula}

theorem Reads.not {e : Expression} {g : Formula} (h : Reads e g) :
    Reads (.apply .not [e]) (.not g) where
  formula := by
    rw [formula_not, h.formula]
    rfl
  value v := by
    rw [value_not, ← h.value]
    rfl
  symbols := by
    rw [symbols_not]
    exact h.symbols

theorem Reads.implies {a b : Expression} {f g : Formula} (ha : Reads a f) (hb : Reads b g) :
    Reads (.apply (.connective .implies) [a, b]) (.implies f g) where
  formula := by
    rw [formula_implies, ha.formula, hb.formula]
    rfl
  value v := by
    rw [value_connective, ← ha.value, ← hb.value]
    rfl
  symbols := by
    rw [symbols_connective, Formula.occurrences, List.map_append]
    exact append_subset_append ha.symbols hb.symbols

theorem ReadsAll.junction (h : ReadsAll es gs) (j : Junction) :
    Reads (.apply (.connective (.junction j)) es) (.chain j gs) where
  formula := by
    rw [formula_junction, h.formulas]
    rfl
  value v := by
    rw [value_apply, ← h.values]
    exact Formula.value_chain j gs v
  symbols := by
    rw [symbols_apply, Formula.occurrences_chain]
    exact h.symbols

theorem ReadsAll.equivalent (h : ReadsAll es gs) :
    Reads (.apply (.connective .equivalent) es) (.conjunction (Formula.neighbours gs)) where
  formula := by
    rw [formula_equivalent, h.formulas]
    rfl
  value v := by
    rw [value_apply, ← h.values]
    exact Formula.value_neighbours gs v
  symbols := by
    rw [symbols_apply, Formula.conjunction, Formula.occurrences_chain]
    exact List.Subset.trans (List.map_subset _ (Formula.occurrences_neighbours gs)) h.symbols

end

theorem exists_reads {e : Expression} (he : e.IsBoolean) (hnames : "" ∉ e.symbols) :
    ∃ g, Reads e g := by
  induction he with
  | constant b =>
    refine ⟨.ofBool b, rfl, fun v => ?_, ?_⟩
    · cases b <;> rfl
    · cases b <;> exact List.nil_subset _
  | symbol s =>
    have hs : s ≠ "" := fun h => hnames (List.mem_singleton.mpr h.symm)
    refine ⟨.symbol ⟨s, hs⟩, ?_, fun _ => rfl, List.Subset.refl _⟩
    have hname : Name.ofText s = .ok ⟨s, hs⟩ := Name.ofText_text ⟨s, hs⟩
    rw [formula_symbol, hname]
    rfl
  | @apply h es htakes _ ih =>
    have hreads : ∀ e ∈ es, ∃ g, Reads e g :=
      fun e he => ih e he fun hempty => hnames (symbols_subset_apply h he hempty)
    rcases h with _ | j | _ | _
    · obtain ⟨e, rfl⟩ := List.length_eq_one_iff.mp htakes
      obtain ⟨g, hg⟩ := hreads e (List.mem_singleton_self e)
      exact ⟨_, hg.not⟩
    · obtain ⟨gs, hgs⟩ := exists_readsAll hreads
      exact ⟨_, hgs.junction j⟩
    · obtain ⟨a, b, rfl⟩ := List.length_eq_two.mp htakes
      obtain ⟨f, hf⟩ := hreads a (List.mem_cons_self ..)
      obtain ⟨g, hg⟩ := hreads b (List.mem_cons_of_mem _ (List.mem_singleton_self b))
      exact ⟨_, hf.implies hg⟩
    · obtain ⟨gs, hgs⟩ := exists_readsAll hreads
      exact ⟨_, hgs.equivalent⟩

end Expression

/-! ## there and back -/

namespace Formula
open Expression

/-- **Expressions keep what a formula says**: the expression that a faithful builder makes of a
formula is read as a formula without further symbols, and has the same truth value wherever the
symbols of the first formula have values. -/
theorem expression_round_trip (B : Builder) (p : Expression → Prop) (hB : B.Faithful p)
    (f : Formula) :
    ∃ g, (f.expressionBy B).formula = .ok g ∧ g.names ⊆ f.names
      ∧ ∀ m : Valuation, m.Binds f → ∃ b, f.evaluate m = .ok b ∧ g.evaluate m = .ok b := by
  have hsymbols := hB.symbols_expressionBy f
  have hnames : "" ∉ (f.expressionBy B).symbols := by
    intro hempty
    obtain ⟨n, _, hn⟩ := List.mem_map.mp (hsymbols hempty)
    exact n.nonempty hn
  obtain ⟨g, hg⟩ := exists_reads (hB.isBoolean _ (hB.holds_expressionBy f)) hnames
  have hsubset : g.names ⊆ f.names := by
    intro n hn
    have htext := hg.symbols (List.mem_map_of_mem ((mem_names g n).mp hn))
    obtain ⟨k, hk, hkn⟩ := List.mem_map.mp (hsymbols htext)
    exact (mem_names f n).mpr (Name.text_injective hkn ▸ hk)
  refine ⟨g, hg.formula, hsubset, fun m hm => ?_⟩
  have hmg : m.Binds g := fun n hn => hm n (hsubset hn)
  have hvalue : g.value (valueOrFalse m) = f.value (valueOrFalse m) :=
    (hg.value _).trans (hB.value_expressionBy f _)
  exact ⟨_, evaluate_of_binds m f hm, hvalue ▸ evaluate_of_binds m g hmg⟩

/-- a junction is flattened, a truth value dropped, and a symbol does not come back -/
theorem expression_round_trip_of_equivalent :
    let x : Formula := .symbol ⟨"X", by decide⟩
    let y : Formula := .symbol ⟨"Y", by decide⟩
    let z : Formula := .symbol ⟨"Z", by decide⟩
    let f : Formula := .equivalent (.and x (.and y x)) (.implies z (.or z .top))
    let g : Formula := .and x y
    let m : Valuation := fun k => some (k != "Y")
    Builder.simplifying.Faithful Tidy ∧ m.Binds f
      ∧ f.expression.formula = .ok g ∧ g.names ⊆ f.names
      ∧ ∃ b, f.evaluate m = .ok b ∧ g.evaluate m = .ok b := by
  intro x y z f g m
  have hm : m.Binds f := fun n _ => rfl
  obtain ⟨k, hk, hnames, hvalue⟩ :=
    expression_round_trip .simplifying Tidy Builder.faithful_simplifying f
  have hg : (f.expressionBy .simplifying).formula.toOption = some g := by decide +kernel
  rw [hk] at hg
  obtain rfl : k = g := Option.some.inj hg
  exact ⟨Builder.faithful_simplifying, hm, hk, hnames, hvalue m hm⟩

end Formula

end Sentential
