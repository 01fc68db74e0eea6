import Sentential.Proofs.Expression.RoundTrip
import Sentential.Proofs.Semantics.Truth

/-!
# Which expressions are formulas

A tree has the operators with as many arguments as they usually have, over truth values, symbols
with names, and foreign terms.  It is read as a formula if there is no foreign term in it, and then
nothing of it is lost: an equivalence of two or more arguments mentions each of them in one of its
neighbourhoods.  Otherwise reading it ends at the leftmost foreign term.

* `IsTree e`, `foreigns e`       trees, and the foreign terms from left to right;
* `exists_reads_of_isTree`       a tree without foreign terms is read;
* `symbols_subset_occurrences`   and its symbols are those of the formula, by induction on the tree;
* `Demands e d`, `Reaches e d`   reading `e` asks for `d` next, and reading `e` arrives at `d`;
* `formula_of_demands`, `formula_of_reaches`
                                 a fault at one step, and at many steps;
* `reaches_of_foreigns`          reading a tree arrives at its leftmost foreign term;
* `formula_of_tree`              what becomes of an expression.
-/

namespace Sentential

/-- the first member of a joined list stems from the first list that is not empty -/
theorem exists_of_flatMap_eq_cons {α β : Type} {f : α → List β} {xs : List α} {y : β} {ys : List β}
    (h : xs.flatMap f = y :: ys) :
    ∃ us x ws zs, xs = us ++ x :: ws ∧ us.flatMap f = [] ∧ f x = y :: zs := by
  induction xs with
  | nil => exact nomatch h
  | cons x xs ih =>
    rw [List.flatMap_cons] at h
    cases hx : f x with
    | nil =>
      rw [hx] at h
      obtain ⟨us, z, ws, zs, rfl, hus, hz⟩ := ih h
      refine ⟨x :: us, z, ws, zs, rfl, ?_, hz⟩
      rw [List.flatMap_cons, hx, hus, List.nil_append]
    | cons z zs =>
      rw [hx] at h
      obtain ⟨rfl, _⟩ := List.cons.inj h
      exact ⟨[], x, xs, zs, rfl, rfl, hx⟩

/-- of two or more formulas each is next to another -/
theorem Formula.subset_occurrences_neighbours (f g : Formula) (fs : List Formula) :
    (f :: g :: fs).flatMap occurrences ⊆ (neighbours (f :: g :: fs)).flatMap occurrences := by
  induction fs generalizing f g with
  | nil =>
    show f.occurrences ++ (g.occurrences ++ []) ⊆ f.occurrences ++ g.occurrences ++ []
    rw [List.append_assoc]
    exact List.Subset.refl _
  | cons k fs ih =>
    have hfirst : f.occurrences ⊆ (Formula.equivalent f g).occurrences :=
      List.subset_append_left ..
    rw [neighbours, List.flatMap_cons, List.flatMap_cons]
    exact append_subset_append hfirst (ih g k)

namespace Expression

/-! ## trees -/

/-- truth values, symbols with names, and foreign terms, under operators with one argument, with
two, or with two and more -/
inductive IsTree : Expression → Prop
  | constant (b : Bool) : IsTree (.constant b)
  | symbol {s : String} (hs : s ≠ "") : IsTree (.symbol s)
  | foreign (text : String) : IsTree (.foreign text)
  | not {e : Expression} (he : IsTree e) : IsTree (.apply .not [e])
  | implies {a b : Expression} (ha : IsTree a) (hb : IsTree b) :
      IsTree (.apply (.connective .implies) [a, b])
  | many {h : Head} {es : List Expression} (hh : h.commutes = true) (hlength : 2 ≤ es.length)
      (hes : ∀ e ∈ es, IsTree e) : IsTree (.apply h es)

mutual
/-- the texts of the foreign terms from left to right -/
def foreigns : Expression → List String
  | .foreign text => [text]
  | .apply _ es => foreignsAll es
  | _ => []
def foreignsAll : List Expression → List String
  | [] => []
  | e :: es => e.foreigns ++ foreignsAll es
end

theorem foreignsAll_eq_flatMap (es : List Expression) : foreignsAll es = es.flatMap foreigns := by
  induction es with
  | nil => rfl
  | cons e es ih => rw [foreignsAll, ih, List.flatMap_cons]

theorem foreigns_apply (h : Head) (es : List Expression) :
    (apply h es).foreigns = es.flatMap foreigns := by
  rw [foreigns, foreignsAll_eq_flatMap]

/-! ## trees without foreign terms -/

theorem isBoolean_of_isTree {e : Expression} (he : e.IsTree) (hforeign : e.foreigns = []) :
    e.IsBoolean := by
  induction he with
  | constant b => exact .constant b
  | symbol _ => exact .symbol _
  | foreign text => exact nomatch hforeign
  | not _ ih =>
    rw [foreigns_apply, List.flatMap_singleton] at hforeign
    exact .apply rfl fun d hd => List.mem_singleton.mp hd ▸ ih hforeign
  | implies _ _ iha ihb =>
    rw [foreigns_apply, List.flatMap_eq_nil_iff] at hforeign
    refine .apply rfl (List.forall_mem_cons.mpr ⟨iha ?_, List.forall_mem_singleton.mpr (ihb ?_)⟩)
    · exact hforeign _ List.mem_cons_self
    · exact hforeign _ (List.mem_cons_of_mem _ List.mem_cons_self)
  | many hh _ _ ih =>
    rw [foreigns_apply, List.flatMap_eq_nil_iff] at hforeign
    have htakes : ∀ {h : Head} {n : Nat}, h.commutes = true → h.Takes n := by
      rintro (_ | _ | _ | _) n hh
      · exact nomatch hh
      · trivial
      · exact nomatch hh
      · trivial
    exact .apply (htakes hh) fun d hd => ih d hd (hforeign d hd)

theorem named_of_isTree {e : Expression} (he : e.IsTree) : "" ∉ e.symbols := by
  induction he with
  | constant _ => exact List.not_mem_nil
  | symbol hs => exact fun hmem => hs (List.mem_singleton.mp hmem).symm
  | foreign _ => exact List.not_mem_nil
  | not _ ih =>
    rw [symbols_not]
    exact ih
  | implies _ _ iha ihb =>
    rw [symbols_connective, List.mem_append, not_or]
    exact ⟨iha, ihb⟩
  | many _ _ _ ih =>
    rw [symbols_apply, List.mem_flatMap]
    exact fun ⟨d, hd, hmem⟩ => ih d hd hmem

theorem exists_reads_of_isTree {e : Expression} (he : e.IsTree) (hforeign : e.foreigns = []) :
    ∃ g, Reads e g :=
  exists_reads (isBoolean_of_isTree he hforeign) (named_of_isTree he)

theorem mem_of_formulas {es : List Expression} {gs : List Formula} (h : formulas es = .ok gs) :
    gs.length = es.length ∧ ∀ e ∈ es, ∃ g ∈ gs, e.formula = .ok g := by
  induction es generalizing gs with
  | nil =>
    obtain rfl := Except.ok.inj h
    exact ⟨rfl, nofun⟩
  | cons e es ih =>
    rw [formulas_cons] at h
    obtain ⟨g, hg, h⟩ := Sorting.eq_ok_of_bind h
    obtain ⟨ks, hks, h⟩ := Sorting.eq_ok_of_bind h
    obtain rfl := Except.ok.inj h
    obtain ⟨hlength, hmem⟩ := ih hks
    refine ⟨congrArg Nat.succ hlength, List.forall_mem_cons.mpr ⟨?_, fun d hd => ?_⟩⟩
    · exact ⟨g, List.mem_cons_self, hg⟩
    · obtain ⟨k, hk, hd⟩ := hmem d hd
      exact ⟨k, List.mem_cons_of_mem g hk, hd⟩

/-- what many arguments are joined to mentions all that they mention -/
theorem occurrences_subset_of_formula {h : Head} {es : List Expression} {g : Formula}
    (hh : h.commutes = true) (hlength : 2 ≤ es.length) (hg : (apply h es).formula = .ok g) :
    ∃ gs, formulas es = .ok gs ∧ gs.flatMap Formula.occurrences ⊆ g.occurrences := by
  rcases h with _ | j | _ | _
  · exact absurd hh Bool.false_ne_true
  · rw [formula_junction] at hg
    obtain ⟨gs, hgs, hg⟩ := Sorting.eq_ok_of_bind hg
    obtain rfl := Except.ok.inj hg
    refine ⟨gs, hgs, ?_⟩
    rw [Formula.occurrences_chain]
    exact List.Subset.refl _
  · exact absurd hh Bool.false_ne_true
  · rw [formula_equivalent] at hg
    obtain ⟨gs, hgs, hg⟩ := Sorting.eq_ok_of_bind hg
    obtain rfl := Except.ok.inj hg
    refine ⟨gs, hgs, ?_⟩
    rw [Formula.conjunction, Formula.occurrences_chain]
    have hgs2 : 2 ≤ gs.length := (mem_of_formulas hgs).1 ▸ hlength
    rcases gs with _ | ⟨f, _ | ⟨k, gs⟩⟩
    · exact absurd hgs2 (by decide)
    · exact absurd hgs2 (by simp)
    · exact Formula.subset_occurrences_neighbours f k gs

theorem symbols_subset_occurrences {e : Expression} (he : e.IsTree) {g : Formula}
    (hg : e.formula = .ok g) : e.symbols ⊆ g.occurrences.map Name.text := by
  induction he generalizing g with
  | constant b => exact List.nil_subset _
  | @symbol s hs =>
    have hname : Name.ofText s = .ok ⟨s, hs⟩ := Name.ofText_text ⟨s, hs⟩
    rw [formula_symbol, hname] at hg
    obtain rfl := Except.ok.inj hg
    exact List.Subset.refl _
  | foreign text => cases hg
  | not _ ih =>
    rw [formula_not] at hg
    obtain ⟨f, hf, hg⟩ := Sorting.eq_ok_of_bind hg
    obtain rfl := Except.ok.inj hg
    rw [symbols_not]
    have hsubset := ih hf
    exact hsubset
  | implies _ _ iha ihb =>
    rw [formula_implies] at hg
    obtain ⟨f, hf, hg⟩ := Sorting.eq_ok_of_bind hg
    obtain ⟨k, hk, hg⟩ := Sorting.eq_ok_of_bind hg
    obtain rfl := Except.ok.inj hg
    rw [symbols_connective, Formula.occurrences, List.map_append]
    exact append_subset_append (iha hf) (ihb hk)
  | many hh hlength _ ih =>
    obtain ⟨gs, hgs, hsubset⟩ := occurrences_subset_of_formula hh hlength hg
    refine symbols_apply_subset fun d hd => ?_
    obtain ⟨k, hk, hdk⟩ := (mem_of_formulas hgs).2 d hd
    have hmem : k.occurrences ⊆ gs.flatMap Formula.occurrences := fun n hn =>
      List.mem_flatMap.mpr ⟨k, hk, hn⟩
    exact List.Subset.trans (ih d hd hdk) (List.map_subset _ (List.Subset.trans hmem hsubset))

/-! ## foreign terms -/

/-- reading the first expression asks for the second: the arguments further left have been read -/
inductive Demands : Expression → Expression → Prop
  | not (e : Expression) (es : List Expression) : Demands (.apply .not (e :: es)) e
  | left (a b : Expression) : Demands (.apply (.connective .implies) [a, b]) a
  | right {a b : Expression} {f : Formula} (ha : a.formula = .ok f) :
      Demands (.apply (.connective .implies) [a, b]) b
  | among {h : Head} {us : List Expression} {fs : List Formula} (e : Expression)
      (ws : List Expression) (hh : h.commutes = true) (hus : formulas us = .ok fs) :
      Demands (.apply h (us ++ e :: ws)) e

/-- reading the first expression arrives at the second -/
inductive Reaches : Expression → Expression → Prop
  | refl (e : Expression) : Reaches e e
  | step {e c d : Expression} (h : Demands e c) (hrest : Reaches c d) : Reaches e d

theorem formulas_of_error {us : List Expression} {e : Expression} {fs : List Formula}
    {fault : Fault} (hus : formulas us = .ok fs) (he : e.formula = .error fault)
    (ws : List Expression) : formulas (us ++ e :: ws) = .error fault := by
  induction us generalizing fs with
  | nil =>
    rw [List.nil_append, formulas_cons, he]
    rfl
  | cons u us ih =>
    rw [formulas_cons] at hus
    obtain ⟨f, hf, hus⟩ := Sorting.eq_ok_of_bind hus
    obtain ⟨gs, hgs, _⟩ := Sorting.eq_ok_of_bind hus
    rw [List.cons_append, formulas_cons, hf, ih hgs]
    rfl

/-- a fault in what is asked for is a fault of the whole -/
theorem formula_of_demands {e d : Expression} (h : e.Demands d) {fault : Fault}
    (hd : d.formula = .error fault) : e.formula = .error fault := by
  cases h with
  | not es =>
    rw [formula_not, hd]
    rfl
  | left b =>
    rw [formula_implies, hd]
    rfl
  | right ha =>
    rw [formula_implies, ha, hd]
    rfl
  | @among h us fs _ ws hh hus =>
    have hall := formulas_of_error hus hd ws
    rcases h with _ | j | _ | _
    · exact absurd hh Bool.false_ne_true
    · rw [formula_junction, hall]
      rfl
    · exact absurd hh Bool.false_ne_true
    · rw [formula_equivalent, hall]
      rfl

theorem formula_of_reaches {e d : Expression} (h : e.Reaches d) {fault : Fault}
    (hd : d.formula = .error fault) : e.formula = .error fault := by
  induction h with
  | refl _ => exact hd
  | step h _ ih => exact formula_of_demands h (ih hd)

theorem reaches_of_foreigns {e : Expression} (he : e.IsTree) {text : String} {texts : List String}
    (h : e.foreigns = text :: texts) : e.Reaches (.foreign text) := by
  induction he generalizing texts with
  | constant b => exact nomatch h
  | symbol hs => exact nomatch h
  | foreign t =>
    obtain ⟨rfl, _⟩ := List.cons.inj h
    exact .refl _
  | not _ ih =>
    rw [foreigns_apply, List.flatMap_singleton] at h
    exact .step (.not _ []) (ih h)
  | @implies a b ha _ iha ihb =>
    rw [foreigns_apply, List.flatMap_cons, List.flatMap_singleton] at h
    cases hleft : a.foreigns with
    | nil =>
      rw [hleft] at h
      obtain ⟨f, hf⟩ := exists_reads_of_isTree ha hleft
      exact .step (.right hf.formula) (ihb h)
    | cons t ts =>
      rw [hleft] at h
      obtain ⟨rfl, _⟩ := List.cons.inj h
      exact .step (.left a b) (iha hleft)
  | many hh _ hes ih =>
    rw [foreigns_apply] at h
    obtain ⟨us, e, ws, ts, rfl, hus, he⟩ := exists_of_flatMap_eq_cons h
    have hreads : ∀ u ∈ us, ∃ g, Reads u g := fun u hu =>
      exists_reads_of_isTree (hes u (List.mem_append_left _ hu))
        (List.flatMap_eq_nil_iff.mp hus u hu)
    obtain ⟨gs, hgs⟩ := exists_readsAll hreads
    have hmem : e ∈ us ++ e :: ws := List.mem_append_right us List.mem_cons_self
    exact .step (.among e ws hh hgs.formulas) (ih e hmem he)

/-! ## the whole -/

/-- **Reading expressions**: a tree without foreign terms is read as a formula with its symbols,
which has the value of the tree under every mapping that gives values to them.  Any expression is
refused where reading arrives at a foreign term, and in a tree it arrives at the leftmost one. -/
theorem formula_of_tree (e : Expression) :
    (e.IsTree → e.foreigns = [] →
        ∃ g, e.formula = .ok g ∧ (∀ s, s ∈ g.names.map Name.text ↔ s ∈ e.symbols)
          ∧ ∀ (v : String → Bool) (m : Valuation), (∀ s ∈ e.symbols, m s = some (v s)) →
            g.evaluate m = .ok (e.value v))
      ∧ (∀ text, e.Reaches (.foreign text) →
          ∃ fault, e.formula = .error fault ∧ fault.kind = .value
            ∧ fault.message = text ++ " is not a propositional expression")
      ∧ (e.IsTree → ∀ text texts, e.foreigns = text :: texts → e.Reaches (.foreign text)) := by
  refine ⟨fun he hforeign => ?_, fun text h => ?_, fun he text texts h => ?_⟩
  · obtain ⟨g, hg⟩ := exists_reads_of_isTree he hforeign
    have hkept := symbols_subset_occurrences he hg.formula
    have hnames (s : String) : s ∈ g.names.map Name.text ↔ s ∈ g.occurrences.map Name.text := by
      simp only [List.mem_map, Formula.mem_names]
    refine ⟨g, hg.formula, fun s => ?_, fun v m hm => ?_⟩
    · rw [hnames]
      exact ⟨fun hs => hg.symbols hs, fun hs => hkept hs⟩
    · rw [← hg.value]
      refine Formula.evaluate_of_agrees fun n hn => hm n.text (hg.symbols ?_)
      exact (hnames n.text).mp (List.mem_map_of_mem hn)
  · exact ⟨_, formula_of_reaches h rfl, rfl, rfl⟩
  · exact reaches_of_foreigns he h

/-- three arguments of one equivalence are read, and beside them the first of two foreign terms is
refused -/
theorem formula_of_tree_of_equivalent :
    let x : Expression := .symbol "X"
    let y : Expression := .symbol "Y"
    let e : Expression := .apply (.connective .equivalent) [x, .apply .not [y], .constant true]
    let d : Expression := .apply (.connective (.junction .or)) [e, .foreign "a + b", .foreign "c"]
    e.IsTree ∧ e.foreigns = []
      ∧ (∃ g, e.formula = .ok g ∧ g.evaluate (fun k => some (k == "X")) = .ok true)
      ∧ d.IsTree ∧ d.foreigns = ["a + b", "c"] ∧ d.Reaches (.foreign "a + b")
      ∧ ∃ fault, d.formula = .error fault ∧ fault.kind = .value
        ∧ fault.message = "a + b" ++ " is not a propositional expression" := by
  intro x y e d
  have hx : x.IsTree := .symbol (by decide)
  have hy : y.IsTree := .symbol (by decide)
  have he : e.IsTree := by
    refine .many rfl (by decide) ?_
    simp only [List.forall_mem_cons]
    exact ⟨hx, .not hy, .constant true, nofun⟩
  have hd : d.IsTree := by
    refine .many rfl (by decide) ?_
    simp only [List.forall_mem_cons]
    exact ⟨he, .foreign _, .foreign _, nofun⟩
  obtain ⟨g, hg, _, hvalue⟩ := (formula_of_tree e).1 he rfl
  have hreaches : d.Reaches (.foreign "a + b") := (formula_of_tree d).2.2 hd _ ["c"] rfl
  refine ⟨he, rfl, ⟨g, hg, ?_⟩, hd, rfl, hreaches, (formula_of_tree d).2.1 _ hreaches⟩
  exact hvalue (fun k => k == "X") _ fun _ _ => rfl

end Expression

end Sentential
