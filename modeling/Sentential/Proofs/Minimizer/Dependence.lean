import Sentential.Proofs.Minimizer.Minimal
import Sentential.Proofs.Minimizer.Order
import Sentential.Proofs.Semantics.Equivalence

/-!
# The symbols of the minimal formula

A formula depends on a symbol if a change of that symbol alone can change its value.  These are the
symbols that the minimal formula has: a prime implicant fixes a cell only where this is needed, and
where the value changes with a cell, that cell is fixed in each implicant that covers the side on
which the formula is true.

* `PrimeImplicant.exists_flip`, `Implicant.fixed_of_flip`   the two arguments, on rows;
* `mem_occurrences_literalsOver_iff`   the symbols of a row are those of its fixed cells;
* `Formula.DependsOn f n`   said by evaluation under total assignments, and `dependsOn_iff` by lists
                            of values;
* `request_keeps_dependent_symbols`    the answer of a session.
-/

namespace Sentential

/-! ## cells that matter -/

theorem exists_split {α : Type} (as : List α) (k l : Nat) (h : as.length = k + (l + 1)) :
    ∃ us a ws, as = us ++ a :: ws ∧ us.length = k ∧ ws.length = l := by
  induction k generalizing as with
  | zero =>
    cases as with
    | nil => exact absurd h (by rw [List.length_nil]; omega)
    | cons a as =>
      rw [List.length_cons] at h
      exact ⟨[], a, as, rfl, rfl, by omega⟩
  | succ k ih =>
    cases as with
    | nil => exact absurd h (by rw [List.length_nil]; omega)
    | cons b as =>
      rw [List.length_cons] at h
      obtain ⟨us, a, ws, rfl, hus, hws⟩ := ih as (by omega)
      exact ⟨b :: us, a, ws, rfl, by rw [List.length_cons, hus], hws⟩

namespace Row

theorem covers_append_cons (u w : Row) (c : Cell) (ps qs : List Bool) (b : Bool)
    (h : u.length = ps.length) :
    covers (u ++ c :: w) (ps ++ b :: qs) = (covers u ps && (c.admits b && covers w qs)) := by
  induction u generalizing ps with
  | nil =>
    rw [List.eq_nil_of_length_eq_zero h.symm]
    rfl
  | cons d u ih =>
    cases ps with
    | nil => exact nomatch h
    | cons p ps =>
      rw [List.cons_append, List.cons_append, covers_cons, covers_cons, ih ps (Nat.succ.inj h),
        Bool.and_assoc]

/-- the symbols of the literals are those of the fixed cells -/
theorem mem_occurrences_literalsOver_iff (x : Row) (ns : List Name) (n : Name) :
    n ∈ (x.literalsOver ns).flatMap Formula.occurrences
      ↔ ∃ (u : Row) (b : Bool) (w : Row) (us ws : List Name),
        x = u ++ .ofBool b :: w ∧ ns = us ++ n :: ws ∧ u.length = us.length := by
  constructor
  · intro h
    induction x generalizing ns with
    | nil => exact absurd h List.not_mem_nil
    | cons c x ih =>
      cases ns with
      | nil => exact absurd h List.not_mem_nil
      | cons m ns =>
        rw [literalsOver, List.flatMap_append] at h
        rcases List.mem_append.mp h with h | h
        · have hc : c ≠ .free := by
            rintro rfl
            exact List.not_mem_nil h
          obtain ⟨b, rfl⟩ := Cell.eq_ofBool_of_ne_free hc
          have hn : n = m := by
            cases b with
            | true => exact List.mem_singleton.mp h
            | false => exact List.mem_singleton.mp h
          exact ⟨[], b, x, [], ns, rfl, by rw [hn]; rfl, rfl⟩
        · obtain ⟨u, b, w, us, ws, rfl, rfl, hl⟩ := ih ns h
          exact ⟨c :: u, b, w, m :: us, ws, rfl, rfl, by rw [List.length_cons, hl]; rfl⟩
  · rintro ⟨u, b, w, us, ws, rfl, rfl, hl⟩
    induction u generalizing us with
    | nil =>
      rw [List.eq_nil_of_length_eq_zero hl.symm, List.nil_append, List.nil_append, literalsOver,
        List.flatMap_append]
      refine List.mem_append_left _ ?_
      cases b with
      | true => exact List.mem_singleton.mpr rfl
      | false => exact List.mem_singleton.mpr rfl
    | cons c u ih =>
      cases us with
      | nil => exact absurd hl (Nat.succ_ne_zero _)
      | cons m us =>
        rw [List.cons_append, List.cons_append, literalsOver, List.flatMap_append]
        exact List.mem_append_right _ (ih us (Nat.succ.inj hl))

end Row

section
variable {P : List Bool → Prop} {n : Nat} {u w : Row}

/-- a fixed cell of a prime implicant is needed: turned round it leaves `P` somewhere -/
theorem PrimeImplicant.exists_flip {b : Bool} (h : PrimeImplicant P n (u ++ .ofBool b :: w)) :
    ∃ ps qs, ps.length = u.length ∧ qs.length = w.length ∧ P (ps ++ b :: qs)
      ∧ ¬ P (ps ++ (!b) :: qs) := by
  have hl : (u ++ .free :: w).length = n :=
    (Row.FreesTo.append_free u w _).length_eq.symm.trans h.1.1
  have hne : u ++ .free :: w ≠ u ++ .ofBool b :: w := by
    intro e
    exact Cell.ofBool_ne_free b (List.cons.inj (List.append_cancel_left e)).1.symm
  have hnot := h.2 _ (.append_free u w _) hne
  obtain ⟨vs, hvs, hcovers, hP⟩ :
      ∃ vs : List Bool, vs.length = n ∧ Row.covers (u ++ .free :: w) vs = true ∧ ¬ P vs := by
    simpa [Implicant, hl] using hnot
  rw [List.length_append, List.length_cons] at hl
  obtain ⟨ps, v, qs, rfl, hps, hqs⟩ := exists_split vs u.length w.length (hvs.trans hl.symm)
  rw [Row.covers_append_cons u w _ ps qs v hps.symm] at hcovers
  have hfix : Row.covers (u ++ .ofBool b :: w) (ps ++ b :: qs) = true := by
    rw [Row.covers_append_cons u w _ ps qs b hps.symm, Cell.admits_ofBool, BEq.rfl]
    exact hcovers
  have htrue : P (ps ++ b :: qs) := by
    refine h.1.2 _ ?_ hfix
    rw [← hvs, List.length_append, List.length_append]
    rfl
  have hv : v = !b := by
    cases v <;> cases b <;> first | rfl | exact absurd htrue hP
  exact ⟨ps, qs, hps, hqs, htrue, hv ▸ hP⟩

/-- a free cell of an implicant that covers values can be turned round -/
theorem Implicant.fixed_of_flip {c : Cell} {ps qs : List Bool} {v : Bool}
    (h : Implicant P n (u ++ c :: w)) (hps : ps.length = u.length) (hqs : qs.length = w.length)
    (hcovers : Row.covers (u ++ c :: w) (ps ++ v :: qs) = true) (hP : ¬ P (ps ++ (!v) :: qs)) :
    c ≠ .free := by
  rintro rfl
  refine hP (h.2 _ ?_ ?_)
  · rw [← h.1, List.length_append, List.length_append, List.length_cons, List.length_cons, hps, hqs]
  · rw [Row.covers_append_cons u w _ ps qs v hps.symm] at hcovers
    rw [Row.covers_append_cons u w _ ps qs _ hps.symm]
    exact hcovers

end

namespace Formula

/-! ## dependence -/

/-- two total assignments that differ in this symbol alone give different values -/
def DependsOn (f : Formula) (n : Name) : Prop :=
  ∃ a b : Assignment, a.IsTotalFor f ∧ b.IsTotalFor f ∧ (∀ k, k ≠ n.text → a.get? k = b.get? k)
    ∧ f.evaluate a.valuation ≠ f.evaluate b.valuation

/-- values are found under a name whatever stands under another one -/
theorem lookup_zip_append_cons (us ws : List Name) (n : Name) (ps qs : List Bool) (b b' : Bool)
    (hl : ps.length = us.length) (k : String) (hk : k ≠ n.text) :
    (((us ++ n :: ws).map Name.text).zip (ps ++ b :: qs)).lookup k
      = (((us ++ n :: ws).map Name.text).zip (ps ++ b' :: qs)).lookup k := by
  induction us generalizing ps with
  | nil =>
    rw [List.eq_nil_of_length_eq_zero hl, List.nil_append, List.nil_append, List.nil_append,
      List.map_cons, List.zip_cons_cons, List.zip_cons_cons, List.lookup_cons, List.lookup_cons,
      beq_false_of_ne hk]
  | cons m us ih =>
    cases ps with
    | nil => exact nomatch hl
    | cons p ps =>
      rw [List.cons_append, List.cons_append, List.cons_append, List.map_cons, List.zip_cons_cons,
        List.zip_cons_cons, List.lookup_cons, List.lookup_cons, ih ps (Nat.succ.inj hl)]

section
variable (f : Formula) (n : Name) (us ws : List Name) (ps qs : List Bool)
  (hnames : f.names = us ++ n :: ws) (hps : ps.length = us.length) (hqs : qs.length = ws.length)
include hnames hps hqs

theorem length_values_append_cons (b : Bool) : (ps ++ b :: qs).length = f.names.length := by
  rw [hnames, List.length_append, List.length_append, List.length_cons, List.length_cons, hps, hqs]

theorem dependsOn_of_valueAt (h : f.valueAt (ps ++ true :: qs) ≠ f.valueAt (ps ++ false :: qs)) :
    f.DependsOn n := by
  have hlength (b : Bool) := f.length_values_append_cons n us ws ps qs hnames hps hqs b
  have htotal (b : Bool) : (f.row (ps ++ b :: qs)).IsTotalFor f := isTotalFor_row _ (hlength b)
  refine ⟨_, _, htotal true, htotal false, fun k hk => ?_, ?_⟩
  · show ((f.names.map Name.text).zip _).lookup k = ((f.names.map Name.text).zip _).lookup k
    rw [hnames]
    exact lookup_zip_append_cons us ws n ps qs true false hps k hk
  · rw [evaluate_of_isTotalFor (htotal true), evaluate_of_isTotalFor (htotal false),
      f.values_row _ (hlength true), f.values_row _ (hlength false)]
    exact fun e => h (Except.ok.inj e)

end

theorem exists_valueAt_of_dependsOn (f : Formula) (n : Name) (h : f.DependsOn n) :
    ∃ (us ws : List Name) (ps qs : List Bool), f.names = us ++ n :: ws ∧ ps.length = us.length
      ∧ qs.length = ws.length ∧ f.valueAt (ps ++ true :: qs) ≠ f.valueAt (ps ++ false :: qs) := by
  obtain ⟨a, b, ha, hb, hab, hne⟩ := h
  let value (k : Name) : Bool := b.total k.text
  have hsame (ks : List Name) (hks : n ∉ ks) :
      (ks.map fun k => a.total k.text) = ks.map value := by
    refine List.map_congr_left fun k hk => ?_
    have hkn : k.text ≠ n.text := fun e => hks (Name.text_injective e ▸ hk)
    show (a.get? k.text).getD false = (b.get? k.text).getD false
    rw [hab k.text hkn]
  have hvalues : f.valueAt a.values ≠ f.valueAt b.values := by
    intro e
    rw [evaluate_of_isTotalFor ha, evaluate_of_isTotalFor hb, e] at hne
    exact hne rfl
  rw [values_of_isTotalFor ha, values_of_isTotalFor hb] at hvalues
  have hn : n ∈ f.names := Decidable.not_not.mp fun hn => hvalues (by rw [hsame f.names hn])
  obtain ⟨us, ws, hnames⟩ := List.append_of_mem hn
  have hdistinct := Name.nodup_of_ascending f.ascending_names
  rw [hnames] at hdistinct hvalues
  have hrest : n ∉ us ++ ws := (List.nodup_cons.mp (List.perm_middle.nodup_iff.mp hdistinct)).1
  rw [List.map_append, List.map_append, List.map_cons, List.map_cons,
    hsame us fun h => hrest (List.mem_append_left _ h),
    hsame ws fun h => hrest (List.mem_append_right _ h)] at hvalues
  refine ⟨us, ws, us.map value, ws.map value, hnames, List.length_map .., List.length_map .., ?_⟩
  cases hna : a.total n.text <;> cases hnb : b.total n.text <;> rw [hna, hnb] at hvalues
  · exact absurd rfl hvalues
  · exact hvalues.symm
  · exact hvalues
  · exact absurd rfl hvalues

theorem mem_names_of_dependsOn (f : Formula) (n : Name) (h : f.DependsOn n) : n ∈ f.names := by
  obtain ⟨us, ws, _, _, hnames, _⟩ := f.exists_valueAt_of_dependsOn n h
  rw [hnames]
  exact List.mem_append_right _ (List.mem_cons_self ..)

/-! ## symbols of the minimal formula -/

theorem mem_names_primesFormula_iff (f : Formula) (n : Name) :
    n ∈ f.primesFormula.names
      ↔ ∃ x ∈ primeImplicants (Minimizer.trueRows f),
        n ∈ (x.literalsOver f.names).flatMap occurrences := by
  rw [mem_names, primesFormula, occurrences_rowsFormula, List.mem_flatMap]

/-- a symbol of the minimal formula stands for a fixed cell of a prime implicant, which is needed -/
theorem dependsOn_of_mem_names (f : Formula) (hf : f.names ≠ []) (n : Name)
    (h : n ∈ f.primesFormula.names) : f.DependsOn n := by
  obtain ⟨x, hx, hn⟩ := (f.mem_names_primesFormula_iff n).mp h
  obtain ⟨u, b, w, us, ws, rfl, hnames, hl⟩ := (x.mem_occurrences_literalsOver_iff _ n).mp hn
  have hprime := (f.isPrime_iff _).mp ((Minimizer.mem_primeImplicants_trueRows f hf _).mp hx)
  have hlength := hprime.1.1
  rw [hnames, List.length_append, List.length_append, List.length_cons, List.length_cons] at hlength
  obtain ⟨ps, qs, hps, hqs, htrue, hfalse⟩ := hprime.exists_flip
  refine f.dependsOn_of_valueAt n us ws ps qs hnames (hps.trans hl) (by omega) fun e => hfalse ?_
  show f.valueAt _ = true
  cases b with
  | true => exact e.symm.trans htrue
  | false => exact e.trans htrue

/-- where the values change with a symbol, a prime implicant covers the true side and has its cell
fixed -/
theorem mem_names_of_valueAt (f : Formula) (n : Name) (us ws : List Name) (ps qs : List Bool)
    (v : Bool) (hnames : f.names = us ++ n :: ws) (hps : ps.length = us.length)
    (hqs : qs.length = ws.length) (htrue : f.valueAt (ps ++ v :: qs) = true)
    (hfalse : f.valueAt (ps ++ (!v) :: qs) ≠ true) : n ∈ f.primesFormula.names := by
  have hf : f.names ≠ [] := by
    rw [hnames]
    exact List.append_ne_nil_of_right_ne_nil _ (List.cons_ne_nil _ _)
  have hlength := f.length_values_append_cons n us ws ps qs hnames hps hqs v
  have hcovered := covers_primeImplicants hf _ hlength
  rw [htrue, List.any_eq_true] at hcovered
  obtain ⟨x, hx, hcovers⟩ := hcovered
  have hprime := (f.isPrime_iff x).mp ((Minimizer.mem_primeImplicants_trueRows f hf x).mp hx)
  have hl := hprime.1.1
  rw [hnames, List.length_append, List.length_cons] at hl
  obtain ⟨u, c, w, rfl, hu, hw⟩ := exists_split x us.length ws.length hl
  have hc := hprime.1.fixed_of_flip (hps.trans hu.symm) (hqs.trans hw.symm) hcovers hfalse
  obtain ⟨b, rfl⟩ := Cell.eq_ofBool_of_ne_free hc
  refine (f.mem_names_primesFormula_iff n).mpr ⟨_, hx, ?_⟩
  exact (Row.mem_occurrences_literalsOver_iff _ _ n).mpr ⟨u, b, w, us, ws, rfl, hnames, hu⟩

theorem mem_names_primesFormula (f : Formula) (n : Name) :
    n ∈ f.primesFormula.names ↔ f.DependsOn n := by
  constructor
  · intro h
    by_cases hf : f.names = []
    · obtain ⟨x, hx, _⟩ := (f.mem_names_primesFormula_iff n).mp h
      rw [Minimizer.primeImplicants_eq_nil f hf] at hx
      exact absurd hx List.not_mem_nil
    · exact f.dependsOn_of_mem_names hf n h
  · intro h
    obtain ⟨us, ws, ps, qs, hnames, hps, hqs, hne⟩ := f.exists_valueAt_of_dependsOn n h
    cases htrue : f.valueAt (ps ++ true :: qs) with
    | true =>
      refine f.mem_names_of_valueAt n us ws ps qs true hnames hps hqs htrue fun hfalse => hne ?_
      exact htrue.trans hfalse.symm
    | false =>
      cases hfalse : f.valueAt (ps ++ false :: qs) with
      | true =>
        refine f.mem_names_of_valueAt n us ws ps qs false hnames hps hqs hfalse fun h => hne ?_
        exact h.trans hfalse.symm
      | false => exact absurd (htrue.trans hfalse.symm) hne

theorem equivalentTo_primesFormula_iff (f : Formula) :
    f.equivalentTo f.primesFormula = true ↔ ∀ n ∈ f.names, f.DependsOn n := by
  rw [equivalentTo_iff_valueAt]
  constructor
  · rintro ⟨hnames, _⟩ n hn
    exact (f.mem_names_primesFormula n).mp (hnames ▸ hn)
  · intro h
    have hnames : f.names = f.primesFormula.names := by
      refine Name.eq_of_ascending f.ascending_names (ascending_names _) fun n => ?_
      rw [mem_names_primesFormula]
      exact ⟨h n, f.mem_names_of_dependsOn n⟩
    refine ⟨hnames, ?_⟩
    by_cases hf : f.names = []
    · exact .inl hf
    · refine .inr fun vs _ => ?_
      rw [valueAt, valueAt, ← row_eq_of_names_eq f _ hnames, value_primesFormula hf]

end Formula

/-! ## the answer of a session -/

namespace Minimizer

/-- the answer of the session to `f`, over the symbols that it then remembers, is the formula `g` -/
def Minimizes (m : Minimizer) (f g : Formula) : Prop :=
  ∃ rows ns, (m.request (.formula f) []).answer = .ok rows
    ∧ (m.request (.formula f) []).state.symbols = some ns
    ∧ implicantsFormula rows (ns.map Name.datum) = .ok g

theorem minimizes_primesFormula (m : Minimizer) (f : Formula) : m.Minimizes f f.primesFormula := by
  refine ⟨_, _, answer_request m f, symbols_request m f, ?_⟩
  by_cases hf : f.names = []
  · rw [Formula.primesFormula, primeImplicants_eq_nil f hf]
    rfl
  · exact Formula.implicantsFormula_primeImplicants hf

/-- **The minimal formula has the symbols that matter**: those on which the formula depends and no
others.  So it is equivalent to the formula just if the formula depends on all of its symbols. -/
theorem request_keeps_dependent_symbols (m : Minimizer) (f : Formula) :
    ∃ g, m.Minimizes f g ∧ (∀ n, n ∈ g.names ↔ f.DependsOn n)
      ∧ (f.equivalentTo g = true ↔ ∀ n ∈ f.names, f.DependsOn n) :=
  ⟨f.primesFormula, minimizes_primesFormula m f, f.mem_names_primesFormula,
    f.equivalentTo_primesFormula_iff⟩

end Minimizer

end Sentential
