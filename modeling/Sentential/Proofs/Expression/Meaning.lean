import Sentential.Expression.Simplify
import Sentential.Semantics.Evaluation

/-!
# What an expression means

`Expression.value v e` is the truth value of an expression where `v` gives a value to every text,
and `Expression.symbols e` lists its symbols from left to right.  A foreign expression has no truth
value of its own and counts as false.

* `Head.value`, `Head.Takes`     the truth function of an operator, and how many arguments it takes;
* `Expression.IsBoolean`         truth values and symbols under operators with such arguments;
* `Simplifies e d`               `d` has the values of `e` and no further symbols;
* `Builder.Faithful B p`         the builder keeps within `p`, which holds of Boolean expressions
                                 only, and simplifies the nodes that it is asked for;
* `Builder.Faithful.value_expressionBy`, `Builder.Faithful.symbols_expressionBy`
                                 such a builder makes an expression with the values of the formula
                                 and of symbols of the formula.
-/

namespace Sentential

/-! ## operators -/

/-- two truth values agree if one value tells whether they do -/
theorem bool_eq_of_eq_iff {a b c : Bool} (h : a = c ↔ b = c) : a = b := by
  revert a b c
  decide

namespace Head

/-- the truth function of an operator; false if the arguments are too few or too many -/
def value : Head → List Bool → Bool
  | .not, [b] => !b
  | .connective (.junction .and), bs => bs.all id
  | .connective (.junction .or), bs => bs.any id
  | .connective .implies, [a, b] => !a || b
  | .connective .equivalent, bs => bs.all fun a => bs.all fun b => a == b
  | _, _ => false

def Takes : Head → Nat → Prop
  | .not, n => n = 1
  | .connective .implies, n => n = 2
  | _, _ => True

theorem value_pair (op : Connective) (a b : Bool) :
    (Head.connective op).value [a, b] = op.value a b := by
  rcases op with (_ | _) | _ | _ <;> cases a <;> cases b <;> rfl

/-- a junction has its neutral value if all arguments have it -/
theorem value_junction_iff (j : Junction) (bs : List Bool) :
    (Head.connective (.junction j)).value bs = Expression.neutral j
      ↔ ∀ b ∈ bs, b = Expression.neutral j := by
  cases j with
  | and => exact List.all_eq_true
  | or => simp only [value, Expression.neutral, List.any_eq_false, id, Bool.not_eq_true]

theorem value_equivalent_iff (bs : List Bool) :
    (Head.connective .equivalent).value bs = true ↔ ∀ a ∈ bs, ∀ b ∈ bs, a = b := by
  simp only [value, List.all_eq_true, beq_iff_eq]

/-- it is enough to compare with one of the arguments -/
theorem value_equivalent_iff_of_mem {bs : List Bool} {c : Bool} (hc : c ∈ bs) :
    (Head.connective .equivalent).value bs = true ↔ ∀ b ∈ bs, b = c := by
  rw [value_equivalent_iff]
  constructor
  · intro h b hb
    exact h b hb c hc
  · intro h a ha b hb
    exact (h a ha).trans (h b hb).symm

/-- the arguments of a commuting operator count as a set -/
theorem value_congr {h : Head} (hh : h.commutes = true) {bs cs : List Bool}
    (hmem : ∀ b, b ∈ bs ↔ b ∈ cs) : h.value bs = h.value cs := by
  rcases h with _ | j | _ | _
  · exact nomatch hh
  · have hiff : (Head.connective (.junction j)).value bs = Expression.neutral j
        ↔ (Head.connective (.junction j)).value cs = Expression.neutral j := by
      simp only [value_junction_iff, hmem]
    exact bool_eq_of_eq_iff hiff
  · exact nomatch hh
  · have hiff : (Head.connective .equivalent).value bs = true
        ↔ (Head.connective .equivalent).value cs = true := by
      simp only [value_equivalent_iff, hmem]
    exact bool_eq_of_eq_iff hiff

end Head

/-! ## values and symbols -/

theorem append_subset_append {α : Type} {xs ys us ws : List α} (h : xs ⊆ us) (h' : ys ⊆ ws) :
    xs ++ ys ⊆ us ++ ws :=
  List.append_subset.mpr
    ⟨List.subset_append_of_subset_left ws h, List.subset_append_of_subset_right us h'⟩

namespace Expression

mutual
def value (v : String → Bool) : Expression → Bool
  | .constant b => b
  | .symbol s => v s
  | .apply h es => h.value (values v es)
  | .foreign _ => false
def values (v : String → Bool) : List Expression → List Bool
  | [] => []
  | e :: es => e.value v :: values v es
end

mutual
/-- the symbols from left to right, once for each occurrence -/
def symbols : Expression → List String
  | .symbol s => [s]
  | .apply _ es => symbolsAll es
  | _ => []
def symbolsAll : List Expression → List String
  | [] => []
  | e :: es => e.symbols ++ symbolsAll es
end

section
variable (v : String → Bool) (h : Head) (es : List Expression)

theorem values_eq_map : values v es = es.map (value v) := by
  induction es with
  | nil => rfl
  | cons e es ih => rw [values, ih, List.map_cons]

theorem symbolsAll_eq_flatMap : symbolsAll es = es.flatMap symbols := by
  induction es with
  | nil => rfl
  | cons e es ih => rw [symbolsAll, ih, List.flatMap_cons]

theorem value_apply : (apply h es).value v = h.value (es.map (value v)) := by
  rw [value, values_eq_map]

theorem symbols_apply : (apply h es).symbols = es.flatMap symbols := by
  rw [symbols, symbolsAll_eq_flatMap]

end

theorem value_not (v : String → Bool) (e : Expression) :
    (apply .not [e]).value v = !e.value v := value_apply ..

theorem value_connective (v : String → Bool) (op : Connective) (a b : Expression) :
    (apply (.connective op) [a, b]).value v = op.value (a.value v) (b.value v) := by
  rw [value_apply]
  exact Head.value_pair ..

theorem symbols_not (e : Expression) : (apply .not [e]).symbols = e.symbols := by
  rw [symbols_apply, List.flatMap_singleton]

theorem symbols_connective (op : Connective) (a b : Expression) :
    (apply (.connective op) [a, b]).symbols = a.symbols ++ b.symbols := by
  rw [symbols_apply, List.flatMap_cons, List.flatMap_singleton]

theorem symbols_subset_apply (h : Head) {e : Expression} {es : List Expression} (he : e ∈ es) :
    e.symbols ⊆ (apply h es).symbols := by
  rw [symbols_apply]
  exact fun s hs => List.mem_flatMap.mpr ⟨e, he, hs⟩

theorem symbols_apply_subset {h : Head} {es : List Expression} {ss : List String}
    (hes : ∀ e ∈ es, e.symbols ⊆ ss) : (apply h es).symbols ⊆ ss := by
  intro s hs
  rw [symbols_apply] at hs
  obtain ⟨e, he, hse⟩ := List.mem_flatMap.mp hs
  exact hes e he hse

/-! ## Boolean expressions -/

/-- truth values and symbols under operators with as many arguments as they take -/
inductive IsBoolean : Expression → Prop
  | constant (b : Bool) : IsBoolean (.constant b)
  | symbol (s : String) : IsBoolean (.symbol s)
  | apply {h : Head} {es : List Expression} (htakes : h.Takes es.length)
      (hes : ∀ e ∈ es, IsBoolean e) : IsBoolean (.apply h es)

/-- the values of an expression, and no further symbols -/
structure Simplifies (e d : Expression) : Prop where
  value : ∀ v, d.value v = e.value v
  symbols : d.symbols ⊆ e.symbols

theorem Simplifies.refl (e : Expression) : Simplifies e e := ⟨fun _ => rfl, List.Subset.refl _⟩

end Expression

/-! ## builders -/

namespace Builder
open Expression

/-- what may be expected of a builder, where `p` holds of the expressions that it works on -/
structure Faithful (B : Builder) (p : Expression → Prop) : Prop where
  isBoolean : ∀ e, p e → e.IsBoolean
  constant : ∀ b, p (.constant b)
  symbol : ∀ s, p (.symbol s)
  negate : ∀ e, p e → p (B.negate e) ∧ Simplifies (.apply .not [e]) (B.negate e)
  connect : ∀ op a b, p a → p b →
    p (B.connect op a b) ∧ Simplifies (.apply (.connective op) [a, b]) (B.connect op a b)

namespace Faithful
variable {B : Builder} {p : Expression → Prop} (hB : B.Faithful p)
include hB

theorem holds_expressionBy (f : Formula) : p (f.expressionBy B) := by
  induction f with
  | top => exact hB.constant true
  | bottom => exact hB.constant false
  | symbol n => exact hB.symbol n.text
  | not f ih => exact (hB.negate _ ih).1
  | binary op l r ihl ihr => exact (hB.connect op _ _ ihl ihr).1

theorem value_expressionBy (f : Formula) (v : String → Bool) :
    (f.expressionBy B).value v = f.value v := by
  induction f with
  | top => rfl
  | bottom => rfl
  | symbol n => rfl
  | not f ih =>
    have hnot := (hB.negate _ (hB.holds_expressionBy f)).2
    rw [Formula.expressionBy, hnot.value, value_not, ih]
    rfl
  | binary op l r ihl ihr =>
    have hop := (hB.connect op _ _ (hB.holds_expressionBy l) (hB.holds_expressionBy r)).2
    rw [Formula.expressionBy, hop.value, value_connective, ihl, ihr]
    rfl

theorem symbols_expressionBy (f : Formula) :
    (f.expressionBy B).symbols ⊆ f.occurrences.map Name.text := by
  induction f with
  | top => exact List.nil_subset _
  | bottom => exact List.nil_subset _
  | symbol n => exact List.Subset.refl _
  | not f ih =>
    have hnot := (hB.negate _ (hB.holds_expressionBy f)).2.symbols
    rw [symbols_not] at hnot
    exact List.Subset.trans hnot ih
  | binary op l r ihl ihr =>
    have hop := (hB.connect op _ _ (hB.holds_expressionBy l) (hB.holds_expressionBy r)).2.symbols
    rw [symbols_connective] at hop
    rw [Formula.occurrences, List.map_append]
    exact List.Subset.trans hop (append_subset_append ihl ihr)

end Faithful

end Builder

end Sentential
