import Mathlib.Data.List.Basic
import Mathlib.Data.Set.List
import Sentential.Proofs.Implicant.Product
import Sentential.Proofs.Semantics.Truth

/-!
# Tables of any rows as formulas

A table that a caller hands over may lack rows, its rows may have different keys, and a row may have
no key at all.  Where the keys of the true rows are names, each true row is a `Product`: truth
values under names.

* `Product.formula p`          the conjunction of the literals of `p`: it is true where every name
                               of `p` has its value there;
* `productsFormula ps`         the disjunction of such conjunctions, in disjunctive normal form;
* `exists_products`            rows over names are products;
* `Table.formula_eq`           the formula of a table with such rows;
* `Table.formula_eq_error`     any other key of a true row is refused.

`Table.formula_iff_agrees` puts these together for all tables.
-/

namespace Sentential

/-- the datum can name a symbol: it is a text, and not the empty one -/
def Datum.IsName (d : Datum) : Prop := ∃ s, d = .text s ∧ s ≠ ""

/-- every text of the mapping has its value there -/
def Mapping.AgreesWith (r : Mapping) (m : Valuation) : Prop :=
  ∀ s b, (.text s, b) ∈ r.entries → m s = some b

theorem Datum.IsName.exists_name {d : Datum} (h : d.IsName) : ∃ n : Name, n.datum = d := by
  obtain ⟨s, rfl, hs⟩ := h
  exact ⟨⟨s, hs⟩, rfl⟩

theorem Name.ofDatum_of_not_isName (d : Datum) (h : ¬ d.IsName) :
    Name.ofDatum d = .error (.naming d (.notName d)) := by
  cases d with
  | text s =>
    have hs : s = "" := by
      by_contra hs
      exact h ⟨s, rfl, hs⟩
    subst hs
    rfl
  | _ => rfl

/-! ## products -/

/-- truth values under names -/
abbrev Product := List (Name × Bool)

namespace Product
open Formula

def mapping (p : Product) : Mapping := ⟨p.map fun e => (e.1.datum, e.2)⟩

def formula (p : Product) : Formula := .conjunction (p.map fun e => .literal e.1 e.2)

section
variable (p : Product)

theorem product_mapping : p.mapping.product = .ok p.formula := by
  have hliterals : p.mapping.literals = .ok (p.map fun e => literal e.1 e.2) := by
    show List.mapM _ (p.map _) = _
    rw [List.mapM_map]
    refine mapM_eq_ok _ _ p fun e _ => ?_
    show (do let n ← Name.ofDatum e.1.datum; return literal n e.2) = _
    rw [Name.ofDatum_datum]
    rfl
  rw [Mapping.product, hliterals]
  rfl

theorem value_formula_iff (v : String → Bool) :
    p.formula.value v = true ↔ ∀ e ∈ p, v e.1.text = e.2 := by
  have hliteral (n : Name) (b : Bool) : (literal n b).value v = (v n.text == b) := by
    cases b <;> simp [literal, value]
  simp [formula, value_conjunction, hliteral]

theorem isPure_formula : p.formula.isPure .and = true := by
  refine isPure_chain .and _ fun f hf => ?_
  obtain ⟨e, _, rfl⟩ := List.mem_map.mp hf
  obtain ⟨n, b⟩ := e
  cases b <;> rfl

theorem occurrences_formula : p.formula.occurrences = p.map Prod.fst := by
  have hliteral (e : Name × Bool) : (literal e.1 e.2).occurrences = [e.1] := by
    obtain ⟨n, b⟩ := e
    cases b <;> rfl
  rw [formula, conjunction, occurrences_chain, List.flatMap_map]
  simp [hliteral, List.map_eq_flatMap]

theorem mem_keys_mapping (n : Name) : n.datum ∈ p.mapping.keys ↔ n ∈ p.map Prod.fst := by
  have hkeys : p.mapping.keys = (p.map Prod.fst).map Name.datum := by
    simp [mapping, Mapping.keys]
  have hinjective : Function.Injective Name.datum :=
    fun _ _ h => Name.text_injective (Datum.text.inj h)
  rw [hkeys, List.mem_map_of_injective hinjective]

theorem agreesWith_mapping_iff (m : Valuation) :
    p.mapping.AgreesWith m ↔ ∀ e ∈ p, m e.1.text = some e.2 := by
  constructor
  · intro h e he
    exact h e.1.text e.2 (List.mem_map_of_mem he)
  · intro h s b hs
    obtain ⟨e, he, heq⟩ := List.mem_map.mp hs
    obtain ⟨hkey, rfl⟩ := Prod.mk.inj heq
    rw [← Datum.text.inj hkey]
    exact h e he

end

end Product

theorem Mapping.exists_product (r : Mapping) (h : ∀ k ∈ r.keys, k.IsName) :
    ∃ p : Product, p.mapping = r := by
  have hentries : r.entries ∈ Set.range (List.map fun e : Name × Bool => (e.1.datum, e.2)) := by
    rw [Set.range_list_map]
    intro e he
    obtain ⟨n, hn⟩ := (h e.1 (List.mem_map_of_mem he)).exists_name
    exact ⟨(n, e.2), by simp [hn]⟩
  obtain ⟨p, hp⟩ := hentries
  exact ⟨p, congrArg Mapping.mk hp⟩

/-- rows over names are products -/
theorem exists_products (rs : List Mapping) (h : ∀ r ∈ rs, ∀ k ∈ r.keys, k.IsName) :
    ∃ ps : List Product, ps.map Product.mapping = rs := by
  have hrs : rs ∈ Set.range (List.map Product.mapping) := by
    rw [Set.range_list_map]
    exact fun r hr => r.exists_product (h r hr)
  exact hrs

/-! ## disjunctions of products -/

/-- the disjunction of the products -/
def productsFormula (ps : List Product) : Formula := .disjunction (ps.map Product.formula)

section
variable (ps : List Product)

theorem value_productsFormula_iff (v : String → Bool) :
    (productsFormula ps).value v = true ↔ ∃ p ∈ ps, ∀ e ∈ p, v e.1.text = e.2 := by
  simp [productsFormula, Formula.value_disjunction, Product.value_formula_iff]

theorem isDnf_productsFormula : (productsFormula ps).isDnf = true := by
  refine Formula.isLayered_chain_dual .and _ fun f hf => ?_
  obtain ⟨p, _, rfl⟩ := List.mem_map.mp hf
  exact Formula.isLayered_of_isPure .and p.isPure_formula

theorem mem_names_productsFormula_iff (n : Name) :
    n ∈ (productsFormula ps).names ↔ ∃ p ∈ ps, n ∈ p.map Prod.fst := by
  rw [Formula.mem_names, productsFormula, Formula.disjunction, Formula.occurrences_chain,
    List.flatMap_map]
  simp only [List.mem_flatMap, Product.occurrences_formula]

/-- where all names have values, one of the products has to agree with them -/
theorem evaluate_productsFormula (m : Valuation)
    (h : ∀ p ∈ ps, ∀ n ∈ p.map Prod.fst, m n.text ≠ none) :
    ∃ b, (productsFormula ps).evaluate m = .ok b
      ∧ (b = true ↔ ∃ p ∈ ps, p.mapping.AgreesWith m) := by
  have hbinds : m.Binds (productsFormula ps) := by
    intro n hn
    obtain ⟨p, hp, hn⟩ := (mem_names_productsFormula_iff ps n).mp hn
    exact Option.isSome_iff_ne_none.mpr (h p hp n hn)
  refine ⟨_, Formula.evaluate_of_binds m _ hbinds, ?_⟩
  rw [value_productsFormula_iff]
  refine exists_congr fun p => and_congr_right fun hp => ?_
  rw [p.agreesWith_mapping_iff]
  refine forall₂_congr fun e he => ?_
  have hbound : m e.1.text ≠ none := h p hp e.1 (List.mem_map_of_mem he)
  obtain ⟨b, hb⟩ := Option.ne_none_iff_exists'.mp hbound
  simp [Formula.valueOrFalse, hb]

end

/-! ## refused keys -/

/-- a row is refused for one of its keys that are no names -/
theorem Mapping.product_eq_error (r : Mapping) (h : ∃ k ∈ r.keys, ¬ k.IsName) :
    ∃ k ∈ r.keys, ¬ k.IsName ∧ r.product = .error (.naming k (.notName k)) := by
  have haccepted (e : Datum × Bool) (he : ¬ ¬ e.1.IsName) :
      ∃ f, (do let n ← Name.ofDatum e.1; return Formula.literal n e.2) = Except.ok f := by
    obtain ⟨n, hn⟩ := (not_not.mp he).exists_name
    refine ⟨Formula.literal n e.2, ?_⟩
    rw [← hn, Name.ofDatum_datum]
    rfl
  obtain ⟨k, hk, hname⟩ := h
  obtain ⟨e, he, rfl⟩ := List.mem_map.mp hk
  obtain ⟨us, d, ws, hentries, _, hd, hfault⟩ :=
    exists_first_refused _ haccepted r.entries ⟨e, he, hname⟩
  refine ⟨d.1, ?_, hd, ?_⟩
  · exact List.mem_map_of_mem (hentries ▸ List.mem_append_right us (List.mem_cons_self ..))
  · have hrefused : (do let n ← Name.ofDatum d.1; return Formula.literal n d.2)
        = Except.error (Fault.naming d.1 (.notName d.1)) := by
      rw [Name.ofDatum_of_not_isName d.1 hd]
      rfl
    rw [product, literals, hfault _ hrefused]
    rfl

/-! ## tables -/

namespace Table

theorem formula_eq (t : Table) (ps : List Product) (h : ps.map Product.mapping = t.trueRows) :
    t.formula = .ok (productsFormula ps) := by
  have hrows : t.trueRows.mapM Mapping.product = .ok (ps.map Product.formula) := by
    rw [← h, List.mapM_map]
    exact mapM_eq_ok _ _ ps fun p _ => p.product_mapping
  rw [formula, hrows]
  rfl

theorem formula_eq_error (t : Table) (h : ∃ r ∈ t.trueRows, ∃ k ∈ r.keys, ¬ k.IsName) :
    ∃ r ∈ t.trueRows, ∃ k ∈ r.keys, ¬ k.IsName
      ∧ t.formula = .error (.naming k (.notName k)) := by
  have haccepted (r : Mapping) (hr : ¬ ∃ k ∈ r.keys, ¬ k.IsName) : ∃ f, r.product = .ok f := by
    push Not at hr
    obtain ⟨p, rfl⟩ := r.exists_product hr
    exact ⟨_, p.product_mapping⟩
  obtain ⟨us, r, ws, hrows, _, hr, hfault⟩ := exists_first_refused _ haccepted t.trueRows h
  obtain ⟨k, hk, hname, hproduct⟩ := r.product_eq_error hr
  refine ⟨r, hrows ▸ List.mem_append_right us (List.mem_cons_self ..), k, hk, hname, ?_⟩
  rw [formula, hfault _ hproduct]
  rfl

/-- **Tables as formulas**: whatever rows a table has, if the keys of its true rows are names, it
has a formula.  The formula is in disjunctive normal form, its symbols are the names of the true
rows, and where these have values it is true just if some true row agrees with all of them.  Any
other key of a true row, such as the empty text, is refused. -/
theorem formula_iff_agrees (t : Table) :
    ((∀ r ∈ t.trueRows, ∀ k ∈ r.keys, k.IsName) →
        ∃ f, t.formula = .ok f ∧ f.isDnf = true
          ∧ (∀ n : Name, n ∈ f.names ↔ ∃ r ∈ t.trueRows, n.datum ∈ r.keys)
          ∧ ∀ m : Valuation, (∀ r ∈ t.trueRows, ∀ s, .text s ∈ r.keys → m s ≠ none) →
            ∃ b, f.evaluate m = .ok b ∧ (b = true ↔ ∃ r ∈ t.trueRows, r.AgreesWith m))
      ∧ ((∃ r ∈ t.trueRows, ∃ k ∈ r.keys, ¬ k.IsName) →
        ∃ r ∈ t.trueRows, ∃ k ∈ r.keys, ¬ k.IsName
          ∧ t.formula = .error (.naming k (.notName k))
          ∧ (Fault.naming k (.notName k)).kind = .value) := by
  refine ⟨fun h => ?_, fun h => ?_⟩
  · obtain ⟨ps, hps⟩ := exists_products t.trueRows h
    refine ⟨productsFormula ps, t.formula_eq ps hps, isDnf_productsFormula ps, fun n => ?_,
      fun m hm => ?_⟩
    · rw [← hps, mem_names_productsFormula_iff]
      simp only [List.mem_map, exists_exists_and_eq_and, Product.mem_keys_mapping]
    · rw [← hps] at hm ⊢
      simp only [List.mem_map, exists_exists_and_eq_and]
      refine evaluate_productsFormula ps m fun p hp n hn => ?_
      exact hm _ (List.mem_map_of_mem hp) n.text ((p.mem_keys_mapping n).mpr hn)
  · obtain ⟨r, hr, k, hk, hname, hfault⟩ := t.formula_eq_error h
    exact ⟨r, hr, k, hk, hname, hfault, Fault.kind_naming_of_value k _ rfl⟩

/-- rows over different names; the empty name is refused where its row is true -/
theorem formula_iff_agrees_of_partial_rows :
    let t : Table := [(⟨[(.text "X", true), (.text "Y", false)]⟩, true),
      (⟨[(.text "", true)]⟩, false), (⟨[(.text "Z", true)]⟩, true)]
    let u : Table := (⟨[(.text "", true)]⟩, true) :: t
    let m : Valuation := fun k => some (k == "Z")
    (∀ r ∈ t.trueRows, ∀ k ∈ r.keys, k.IsName)
      ∧ (∀ r ∈ t.trueRows, ∀ s, .text s ∈ r.keys → m s ≠ none)
      ∧ (∃ f, t.formula = .ok f ∧ f.isDnf = true ∧ f.evaluate m = .ok true)
      ∧ (∃ r ∈ u.trueRows, ∃ k ∈ r.keys, ¬ k.IsName)
      ∧ ∃ k : Datum, ¬ k.IsName ∧ u.formula = .error (.naming k (.notName k)) := by
  intro t u m
  have hnames : ∀ r ∈ t.trueRows, ∀ k ∈ r.keys, k.IsName := by
    simp [t, trueRows, Mapping.keys, Datum.IsName]
  have hbound : ∀ r ∈ t.trueRows, ∀ s, .text s ∈ r.keys → m s ≠ none :=
    fun _ _ _ _ => Option.some_ne_none _
  have hempty : ∃ r ∈ u.trueRows, ∃ k ∈ r.keys, ¬ k.IsName :=
    ⟨_, List.mem_cons_self .., _, List.mem_cons_self .., by simp [Datum.IsName]⟩
  obtain ⟨reads, _⟩ := formula_iff_agrees t
  obtain ⟨_, refuses⟩ := formula_iff_agrees u
  obtain ⟨f, hf, hdnf, _, hvalue⟩ := reads hnames
  obtain ⟨b, hb, hiff⟩ := hvalue m hbound
  have htrue : b = true := by
    refine hiff.mpr ⟨⟨[(.text "Z", true)]⟩, by simp [t, trueRows], fun s b hs => ?_⟩
    obtain ⟨hkey, rfl⟩ := Prod.mk.inj (List.mem_singleton.mp hs)
    rw [Datum.text.inj hkey]
    rfl
  obtain ⟨_, _, k, _, hk, hfault, _⟩ := refuses hempty
  exact ⟨hnames, hbound, ⟨f, hf, hdnf, htrue ▸ hb⟩, hempty, k, hk, hfault⟩

end Table

end Sentential
