import Sentential.Proofs.Expression.Likeness

/-!
# The simplifying builder is faithful

Each builder of `Expression.negate`, `joinAll`, `imply`, `equate` makes a tidy expression of tidy
arguments, with the values of the node and no further symbols.

* `Tidies e d`                 `d` is such an expression for the node `e`;
* `mem_map_value_distinct`     to drop repeated expressions is to keep the set of values;
* `forall_juncts_iff`          a junction is neutral if the arguments that `joinAll` keeps are;
* `tidies_negate`, `tidies_joinAll`, `tidies_imply`, `tidies_equate`
                               the four builders;
* `faithful_simplifying`       so the builder that consists of them is faithful to tidy expressions;
* `value_expression`           and the expression of a formula has the value of the formula.
-/

namespace Sentential

namespace Expression

/-- a tidy expression with the values of `e` and no further symbols -/
structure Tidies (e d : Expression) : Prop extends Simplifies e d where
  tidy : d.Tidy

theorem Simplifies.tidies {e d c : Expression} (h : Simplifies e d) (h' : Tidies d c) :
    Tidies e c where
  value v := (h'.value v).trans (h.value v)
  symbols := List.Subset.trans h'.symbols h.symbols
  tidy := h'.tidy

theorem Tidy.tidies {e : Expression} (he : e.Tidy) : Tidies e e := ⟨Simplifies.refl e, he⟩

/-! ## truth values -/

theorem isConstant_iff {e : Expression} {b : Bool} : e.isConstant b = true ↔ e = .constant b := by
  cases e <;> simp [isConstant]

theorem mem_of_any_isConstant {b : Bool} {es : List Expression}
    (h : es.any (isConstant b) = true) : .constant b ∈ es := by
  obtain ⟨e, he, hconstant⟩ := List.any_eq_true.mp h
  exact isConstant_iff.mp hconstant ▸ he

theorem tidies_constant {e : Expression} {b : Bool} (h : ∀ v, e.value v = b) :
    Tidies e (.constant b) :=
  ⟨⟨fun v => (h v).symm, List.nil_subset _⟩, .constant b⟩

/-- whether all values are `b` does not depend on the constant `b` -/
theorem forall_filter_isConstant_iff (b : Bool) (es : List Expression) (v : String → Bool) :
    (∀ e ∈ es.filter (fun e => !e.isConstant b), e.value v = b) ↔ ∀ e ∈ es, e.value v = b := by
  constructor
  · intro h e he
    cases hb : e.isConstant b with
    | true =>
      rw [isConstant_iff.mp hb]
      rfl
    | false => exact h e (List.mem_filter.mpr ⟨he, by rw [hb]; rfl⟩)
  · intro h e he
    exact h e (List.mem_filter.mp he).1

/-! ## different expressions -/

theorem distinct_subset (es : List Expression) : distinct es ⊆ es := by
  induction es with
  | nil => exact List.Subset.refl _
  | cons e es ih => exact List.cons_subset_cons _ (List.Subset.trans List.filter_sublist.subset ih)

theorem pairwise_distinct (es : List Expression) :
    (distinct es).Pairwise fun e f => e.same f = false := by
  induction es with
  | nil => exact List.Pairwise.nil
  | cons e es ih =>
    refine List.pairwise_cons.mpr ⟨fun f hf => ?_, ih.filter _⟩
    have hne := (List.mem_filter.mp hf).2
    rwa [Bool.not_eq_true'] at hne

theorem mem_map_value_distinct {es : List Expression} (hes : ∀ e ∈ es, e.Tidy)
    (v : String → Bool) (b : Bool) :
    b ∈ (distinct es).map (value v) ↔ b ∈ es.map (value v) := by
  constructor
  · intro hb
    exact List.map_subset _ (distinct_subset es) hb
  · intro hb
    induction es with
    | nil => exact nomatch hb
    | cons e es ih =>
      rcases List.mem_cons.mp hb with rfl | hb
      · exact List.mem_cons_self ..
      · have htail := ih (fun f hf => hes f (List.mem_cons_of_mem _ hf)) hb
        obtain ⟨d, hd, rfl⟩ := List.mem_map.mp htail
        -- a later expression is dropped if it is the same as the first one, which has its value
        cases hsame : e.same d with
        | true =>
          rw [← (hes e (List.mem_cons_self ..)).same_value hsame v]
          exact List.mem_cons_self ..
        | false =>
          have hkept : d ∈ (distinct es).filter fun f => !e.same f :=
            List.mem_filter.mpr ⟨hd, by rw [hsame]; rfl⟩
          exact List.mem_cons_of_mem _ (List.mem_map_of_mem hkept)

theorem forall_distinct_iff {es : List Expression} (hes : ∀ e ∈ es, e.Tidy) (v : String → Bool)
    (b : Bool) : (∀ d ∈ distinct es, d.value v = b) ↔ ∀ e ∈ es, e.value v = b := by
  constructor
  · intro h e he
    have hvalue := (mem_map_value_distinct hes v (e.value v)).mpr (List.mem_map_of_mem he)
    obtain ⟨d, hd, hde⟩ := List.mem_map.mp hvalue
    exact hde ▸ h d hd
  · intro h d hd
    exact h d (distinct_subset es hd)

/-! ## negations -/

theorem tidies_negate {e : Expression} (he : e.Tidy) : Tidies (.apply .not [e]) e.negate := by
  unfold negate
  split
  · exact tidies_constant fun v => value_not ..
  · rename_i d
    refine ⟨⟨fun v => ?_, ?_⟩, he.arguments d (List.mem_singleton_self d)⟩
    · rw [value_not, value_not, Bool.not_not]
    · rw [symbols_not, symbols_not]
      exact List.Subset.refl _
  · refine Tidy.tidies (.apply rfl (fun d hd => ?_) nofun)
    exact List.mem_singleton.mp hd ▸ he

/-! ## junctions -/

section
variable {j : Junction} {e : Expression} {es : List Expression}

theorem value_junction_iff (v : String → Bool) :
    (apply (.connective (.junction j)) es).value v = neutral j
      ↔ ∀ e ∈ es, e.value v = neutral j := by
  rw [value_apply, Head.value_junction_iff, List.forall_mem_map]

theorem parts_cases (j : Junction) (e : Expression) :
    e = .apply (.connective (.junction j)) (parts j e) ∨ parts j e = [e] := by
  unfold parts
  split
  · rename_i k es
    split
    · rename_i hk
      exact .inl (by rw [hk])
    · exact .inr rfl
  · exact .inr rfl

theorem tidy_of_mem_parts (he : e.Tidy) : ∀ d ∈ parts j e, d.Tidy := by
  rcases parts_cases j e with h | h
  · rw [h] at he
    exact he.arguments
  · rw [h]
    exact fun d hd => List.mem_singleton.mp hd ▸ he

theorem symbols_of_mem_parts : ∀ d ∈ parts j e, d.symbols ⊆ e.symbols := by
  rcases parts_cases j e with h | h
  · intro d hd
    rw [h]
    exact symbols_subset_apply _ hd
  · rw [h]
    exact fun d hd => List.mem_singleton.mp hd ▸ List.Subset.refl _

theorem forall_parts_iff (v : String → Bool) :
    (∀ d ∈ parts j e, d.value v = neutral j) ↔ e.value v = neutral j := by
  rcases parts_cases j e with h | h
  · rw [← value_junction_iff, ← h]
  · rw [h, List.forall_mem_singleton]

/-- the arguments of a junction that do not go without saying, each once -/
def juncts (j : Junction) (es : List Expression) : List Expression :=
  distinct ((es.flatMap (parts j)).filter fun e => !e.isConstant (neutral j))

theorem joinAll_eq (j : Junction) (es : List Expression) :
    joinAll j es =
      if (es.flatMap (parts j)).any (isConstant !(neutral j)) then .constant !(neutral j)
      else match juncts j es with
        | [] => .constant (neutral j)
        | [e] => e
        | ds => .apply (.connective (.junction j)) ds := rfl

theorem tidy_of_mem_flatMap_parts (hes : ∀ e ∈ es, e.Tidy) :
    ∀ d ∈ es.flatMap (parts j), d.Tidy := by
  intro d hd
  obtain ⟨e, he, hde⟩ := List.mem_flatMap.mp hd
  exact tidy_of_mem_parts (hes e he) d hde

theorem forall_flatMap_parts_iff (v : String → Bool) :
    (∀ d ∈ es.flatMap (parts j), d.value v = neutral j) ↔ ∀ e ∈ es, e.value v = neutral j := by
  rw [List.forall_mem_flatMap]
  exact forall₂_congr fun e _ => forall_parts_iff v

theorem juncts_subset : juncts j es ⊆ es.flatMap (parts j) :=
  fun _ hd => (List.mem_filter.mp (distinct_subset _ hd)).1

theorem tidy_of_mem_juncts (hes : ∀ e ∈ es, e.Tidy) : ∀ d ∈ juncts j es, d.Tidy :=
  fun d hd => tidy_of_mem_flatMap_parts hes d (juncts_subset hd)

theorem symbols_of_mem_juncts (h : Head) :
    ∀ d ∈ juncts j es, d.symbols ⊆ (apply h es).symbols := by
  intro d hd
  obtain ⟨e, he, hde⟩ := List.mem_flatMap.mp (juncts_subset hd)
  exact List.Subset.trans (symbols_of_mem_parts d hde) (symbols_subset_apply h he)

/-- a junction is neutral if what `joinAll` keeps is -/
theorem forall_juncts_iff (hes : ∀ e ∈ es, e.Tidy) (v : String → Bool) :
    (∀ d ∈ juncts j es, d.value v = neutral j) ↔ ∀ e ∈ es, e.value v = neutral j := by
  have htidy : ∀ d ∈ (es.flatMap (parts j)).filter fun e => !e.isConstant (neutral j), d.Tidy :=
    fun d hd => tidy_of_mem_flatMap_parts hes d (List.mem_filter.mp hd).1
  rw [juncts, forall_distinct_iff htidy, forall_filter_isConstant_iff, forall_flatMap_parts_iff]

/-- a part with the other value keeps a junction from being neutral -/
theorem value_junction_of_mem_parts (h : .constant (!neutral j) ∈ es.flatMap (parts j))
    (v : String → Bool) : (apply (.connective (.junction j)) es).value v = !neutral j := by
  refine Bool.eq_not_of_ne fun hneutral => ?_
  rw [value_junction_iff, ← forall_flatMap_parts_iff] at hneutral
  exact (Bool.not_eq_self _).mp (hneutral _ h)

theorem tidies_joinAll (hes : ∀ e ∈ es, e.Tidy) :
    Tidies (.apply (.connective (.junction j)) es) (joinAll j es) := by
  rw [joinAll_eq]
  split
  · rename_i hany
    exact tidies_constant (value_junction_of_mem_parts (mem_of_any_isConstant hany))
  · have hvalue (v : String → Bool) : (apply (.connective (.junction j)) es).value v = neutral j
        ↔ ∀ d ∈ juncts j es, d.value v = neutral j := by
      rw [value_junction_iff, forall_juncts_iff hes]
    have htidy : ∀ d ∈ juncts j es, d.Tidy := tidy_of_mem_juncts hes
    have hsymbols : ∀ d ∈ juncts j es, d.symbols ⊆ _ :=
      symbols_of_mem_juncts (.connective (.junction j))
    have hdifferent : (juncts j es).Pairwise fun e f => e.same f = false := pairwise_distinct _
    generalize juncts j es = ds at hvalue htidy hsymbols hdifferent ⊢
    rcases ds with _ | ⟨d, _ | ⟨d', ds⟩⟩
    · exact tidies_constant fun v => (hvalue v).mpr nofun
    · have hd := List.mem_singleton_self d
      refine ⟨⟨fun v => ?_, hsymbols d hd⟩, htidy d hd⟩
      have hiff := hvalue v
      rw [List.forall_mem_singleton] at hiff
      exact bool_eq_of_eq_iff hiff.symm
    · refine ⟨⟨fun v => ?_, symbols_apply_subset hsymbols⟩, ?_⟩
      · exact bool_eq_of_eq_iff ((value_junction_iff v).trans (hvalue v).symm)
      · exact .apply trivial htidy fun _ => hdifferent

end

/-! ## implications -/

section
variable {a b : Expression} (ha : a.Tidy) (hb : b.Tidy)
include ha

theorem simplifies_disjunction :
    Simplifies (.apply (.connective .implies) [a, b])
      (.apply (.connective (.junction .or)) [a.negate, b]) := by
  have hnegate := tidies_negate ha
  refine ⟨fun v => ?_, ?_⟩
  · rw [value_connective, value_connective, hnegate.value, value_not]
    rfl
  · have hsymbols := hnegate.symbols
    rw [symbols_not] at hsymbols
    rw [symbols_connective, symbols_connective]
    exact append_subset_append hsymbols (List.Subset.refl _)

include hb

theorem tidy_pair : ∀ e ∈ [a, b], e.Tidy :=
  List.forall_mem_cons.mpr ⟨ha, List.forall_mem_singleton.mpr hb⟩

theorem tidies_imply : Tidies (.apply (.connective .implies) [a, b]) (imply a b) := by
  unfold imply
  split
  · have hpair := tidy_pair (tidies_negate ha).tidy hb
    exact (simplifies_disjunction ha).tidies (tidies_joinAll hpair)
  · split
    · rename_i hsame
      refine tidies_constant fun v => ?_
      rw [value_connective, ha.same_value hsame]
      exact Bool.not_or_self _
    · exact Tidy.tidies (.apply rfl (tidy_pair ha hb) nofun)

end

/-! ## equivalences -/

theorem simplifies_distinct {es : List Expression} (hes : ∀ e ∈ es, e.Tidy) :
    Simplifies (.apply (.connective .equivalent) es)
      (.apply (.connective .equivalent) (distinct es)) := by
  refine ⟨fun v => ?_, symbols_apply_subset fun d hd => ?_⟩
  · rw [value_apply, value_apply]
    exact Head.value_congr rfl (mem_map_value_distinct hes v)
  · exact symbols_subset_apply _ (distinct_subset es hd)

section
variable {ds : List Expression}

/-- with a truth value among the arguments, the others have to have that value -/
theorem value_equivalent_iff_of_constant {b : Bool} (h : .constant b ∈ ds) (v : String → Bool) :
    (apply (.connective .equivalent) ds).value v = true
      ↔ ∀ d ∈ ds.filter (fun d => !d.isConstant b), d.value v = b := by
  rw [forall_filter_isConstant_iff, value_apply,
    Head.value_equivalent_iff_of_mem (List.mem_map_of_mem (f := value v) h), List.forall_mem_map]
  rfl

theorem simplifies_conjunction (h : .constant true ∈ ds) :
    Simplifies (.apply (.connective .equivalent) ds)
      (.apply (.connective (.junction .and)) (ds.filter fun d => !d.isConstant true)) := by
  refine ⟨fun v => bool_eq_of_eq_iff (c := true) ?_, symbols_apply_subset fun d hd => ?_⟩
  · exact (value_junction_iff v).trans (value_equivalent_iff_of_constant h v).symm
  · exact symbols_subset_apply _ (List.mem_filter.mp hd).1

theorem simplifies_conjunction_negate (htidy : ∀ d ∈ ds, d.Tidy) (h : .constant false ∈ ds) :
    Simplifies (.apply (.connective .equivalent) ds)
      (.apply (.connective (.junction .and))
        ((ds.filter fun d => !d.isConstant false).map negate)) := by
  have hnegate (d : Expression) (hd : d ∈ ds.filter fun d => !d.isConstant false) :=
    tidies_negate (htidy d (List.mem_filter.mp hd).1)
  refine ⟨fun v => bool_eq_of_eq_iff (c := true) ?_, symbols_apply_subset fun d hd => ?_⟩
  · rw [value_equivalent_iff_of_constant h]
    refine (value_junction_iff v).trans ?_
    rw [List.forall_mem_map]
    refine forall₂_congr fun d hd => ?_
    rw [(hnegate d hd).value, value_not]
    simp only [neutral, Bool.not_eq_true']
  · obtain ⟨c, hc, rfl⟩ := List.mem_map.mp hd
    have hsymbols := (hnegate c hc).symbols
    rw [symbols_not] at hsymbols
    exact List.Subset.trans hsymbols (symbols_subset_apply _ (List.mem_filter.mp hc).1)

theorem value_equivalent_of_length_le_one (h : ds.length ≤ 1) (v : String → Bool) :
    (apply (.connective .equivalent) ds).value v = true := by
  rw [value_apply, Head.value_equivalent_iff]
  rcases ds with _ | ⟨d, _ | ⟨d', ds⟩⟩
  · exact nofun
  · intro a ha b hb
    exact (List.mem_singleton.mp ha).trans (List.mem_singleton.mp hb).symm
  · exact absurd h (by simp)

end

theorem tidies_equate {es : List Expression} (hes : ∀ e ∈ es, e.Tidy) :
    Tidies (.apply (.connective .equivalent) es) (equate es) := by
  refine (simplifies_distinct hes).tidies ?_
  have htidy : ∀ d ∈ distinct es, d.Tidy := fun d hd => hes d (distinct_subset es hd)
  have hfilter (p : Expression → Bool) : ∀ d ∈ (distinct es).filter p, d.Tidy :=
    fun d hd => htidy d (List.mem_filter.mp hd).1
  unfold equate
  dsimp only
  split
  · rename_i hshort
    exact tidies_constant (value_equivalent_of_length_le_one hshort)
  · split
    · rename_i htrue
      exact (simplifies_conjunction (mem_of_any_isConstant htrue)).tidies
        (tidies_joinAll (hfilter _))
    · split
      · rename_i hfalse
        refine (simplifies_conjunction_negate htidy (mem_of_any_isConstant hfalse)).tidies
          (tidies_joinAll (List.forall_mem_map.mpr fun d hd => ?_))
        exact (tidies_negate (hfilter _ d hd)).tidy
      · exact Tidy.tidies (.apply trivial htidy fun _ => pairwise_distinct es)

end Expression

/-! ## the builder -/

open Expression

/-- **The simplifying builder keeps values**: of tidy expressions it makes tidy ones. -/
theorem Builder.faithful_simplifying : Builder.simplifying.Faithful Tidy where
  isBoolean _ he := he.isBoolean
  constant := .constant
  symbol := .symbol
  negate e he := ⟨(tidies_negate he).tidy, (tidies_negate he).toSimplifies⟩
  connect op a b ha hb := by
    have hab := tidy_pair ha hb
    have h : Tidies (.apply (.connective op) [a, b]) (Builder.simplifying.connect op a b) := by
      cases op with
      | junction j => exact tidies_joinAll hab
      | implies => exact tidies_imply ha hb
      | equivalent => exact tidies_equate hab
    exact ⟨h.tidy, h.toSimplifies⟩

section
variable (f : Formula)

theorem Formula.tidy_expression : f.expression.Tidy :=
  Builder.faithful_simplifying.holds_expressionBy f

theorem Formula.value_expression (v : String → Bool) : f.expression.value v = f.value v :=
  Builder.faithful_simplifying.value_expressionBy f v

theorem Formula.symbols_expression : f.expression.symbols ⊆ f.occurrences.map Name.text :=
  Builder.faithful_simplifying.symbols_expressionBy f

end

end Sentential
