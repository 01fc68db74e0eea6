import Sentential.Proofs.Implicant.Generation
import Sentential.Proofs.Implicant.Order
import Sentential.Proofs.Implicant.Product

/-!
# Columns that no row fixes

Rows that are free in some columns are rows over the other columns.  A list `ks` of Booleans tells
which columns are kept.

* `select ks as`       the entries of the kept columns;
* `Row.Widened ks y x` `x` is `y` with a free cell put in for each column that is dropped.  What is
                       said of `x` holds of `y` over the kept columns: which values are covered,
                       which literals there are, what it frees to, and the order;
* `exists_widened`     a row whose literals all stand in kept columns is a widened one;
* `primeImplicant_widened`   where the values in `P` are told by the kept columns, a widened row is
                       a prime implicant iff the row itself is one over these columns.
-/

namespace Sentential

/-! ## kept columns -/

section
variable {α β : Type}

/-- the entries of the kept columns -/
def select : List Bool → List α → List α
  | true :: ks, a :: as => a :: select ks as
  | false :: ks, _ :: as => select ks as
  | _, _ => []

theorem select_nil (ks : List Bool) : select ks ([] : List α) = [] := by
  cases ks with
  | nil => rfl
  | cons k ks => cases k <;> rfl

theorem map_select (f : α → β) (ks : List Bool) (as : List α) :
    (select ks as).map f = select ks (as.map f) := by
  induction ks generalizing as with
  | nil => rfl
  | cons k ks ih =>
    cases as with
    | nil => rw [select_nil, List.map_nil, select_nil]
    | cons a as =>
      cases k with
      | true => rw [select, List.map_cons, List.map_cons, select, ih]
      | false => rw [select, List.map_cons, select, ih]

theorem select_map_eq_filter (p : α → Bool) (as : List α) : select (as.map p) as = as.filter p := by
  induction as with
  | nil => rfl
  | cons a as ih =>
    rw [List.map_cons]
    cases hp : p a with
    | true => rw [select, List.filter_cons_of_pos hp, ih]
    | false => rw [select, List.filter_cons_of_neg (by rw [hp]; decide), ih]

theorem length_select (ks : List Bool) (as : List α) (h : as.length = ks.length) :
    (select ks as).length = ks.count true := by
  induction ks generalizing as with
  | nil => rfl
  | cons k ks ih =>
    cases as with
    | nil => exact nomatch h
    | cons a as =>
      have hrest := ih as (Nat.succ.inj h)
      cases k with
      | true => rw [select, List.length_cons, List.count_cons_self, hrest]
      | false => rw [select, List.count_cons_of_ne (by decide), hrest]

theorem exists_select (ks : List Bool) (as : List α) (a : α) (h : as.length = ks.count true) :
    ∃ bs : List α, bs.length = ks.length ∧ select ks bs = as := by
  induction ks generalizing as with
  | nil => exact ⟨[], rfl, (List.eq_nil_of_length_eq_zero h).symm⟩
  | cons k ks ih =>
    cases k with
    | true =>
      rw [List.count_cons_self] at h
      cases as with
      | nil => exact nomatch h
      | cons b as =>
        obtain ⟨bs, hl, hbs⟩ := ih as (Nat.succ.inj h)
        exact ⟨b :: bs, by rw [List.length_cons, hl]; rfl, by rw [select, hbs]⟩
    | false =>
      rw [List.count_cons_of_ne (by decide)] at h
      obtain ⟨bs, hl, hbs⟩ := ih as h
      exact ⟨a :: bs, by rw [List.length_cons, hl]; rfl, hbs⟩

end

namespace Row

/-! ## rows put into more columns -/

/-- `x` is `y` with a free cell put in for each column that is dropped -/
inductive Widened : List Bool → Row → Row → Prop where
  | nil : Widened [] [] []
  | keep (c : Cell) {ks : List Bool} {y x : Row} (h : Widened ks y x) :
      Widened (true :: ks) (c :: y) (c :: x)
  | drop {ks : List Bool} {y x : Row} (h : Widened ks y x) :
      Widened (false :: ks) y (.free :: x)

def widen : List Bool → Row → Row
  | true :: ks, c :: y => c :: widen ks y
  | false :: ks, y => .free :: widen ks y
  | _, _ => []

theorem widened_widen (ks : List Bool) (y : Row) (h : y.length = ks.count true) :
    Widened ks y (widen ks y) := by
  induction ks generalizing y with
  | nil =>
    rw [List.eq_nil_of_length_eq_zero h]
    exact .nil
  | cons k ks ih =>
    cases k with
    | true =>
      rw [List.count_cons_self] at h
      cases y with
      | nil => exact nomatch h
      | cons c y => exact .keep c (ih y (Nat.succ.inj h))
    | false =>
      rw [List.count_cons_of_ne (by decide)] at h
      exact .drop (ih y h)

namespace Widened
variable {ks : List Bool} {y x y' x' : Row}

theorem eq_widen (h : Widened ks y x) : x = widen ks y := by
  induction h with
  | nil => rfl
  | keep c _ ih => rw [widen, ← ih]
  | drop _ ih => rw [widen, ← ih]

theorem injective (h : Widened ks y x) (h' : Widened ks y' x) : y = y' := by
  induction h generalizing y' with
  | nil => cases h' with | nil => rfl
  | keep c _ ih => cases h' with | keep _ h' => rw [ih h']
  | drop _ ih => cases h' with | drop h' => exact ih h'

theorem length_eq (h : Widened ks y x) : x.length = ks.length := by
  induction h with
  | nil => rfl
  | keep c _ ih => rw [List.length_cons, List.length_cons, ih]
  | drop _ ih => rw [List.length_cons, List.length_cons, ih]

theorem length_kept (h : Widened ks y x) : y.length = ks.count true := by
  induction h with
  | nil => rfl
  | keep c _ ih => rw [List.length_cons, List.count_cons_self, ih]
  | drop _ ih => rw [List.count_cons_of_ne (by decide), ih]

theorem covers (h : Widened ks y x) (vs : List Bool) : x.covers vs = y.covers (select ks vs) := by
  induction h generalizing vs with
  | nil => rfl
  | @keep c ks y x _ ih =>
    cases vs with
    | nil => rfl
    | cons v vs => rw [select, covers_cons, covers_cons, ih]
  | @drop ks y x _ ih =>
    cases vs with
    | nil => cases y <;> rfl
    | cons v vs => rw [select, covers_cons, ih]; rfl

theorem literalsOver (h : Widened ks y x) (ns : List Name) :
    x.literalsOver ns = y.literalsOver (select ks ns) := by
  induction h generalizing ns with
  | nil => rfl
  | @keep c ks y x _ ih =>
    cases ns with
    | nil => rfl
    | cons n ns => rw [select, Row.literalsOver, Row.literalsOver, ih]
  | @drop ks y x _ ih =>
    cases ns with
    | nil => cases y <;> rfl
    | cons n ns => rw [select, Row.literalsOver, ih]; rfl

/-! ## freed cells and order -/

theorem freesTo (h : Widened ks y x) (h' : Widened ks y' x') (hy : FreesTo y y') :
    FreesTo x x' := by
  induction h generalizing y' x' with
  | nil => cases h' with | nil => exact .nil
  | keep c _ ih =>
    cases h' with
    | keep d h' =>
      cases hy with
      | keep _ hy => exact .keep c (ih h' hy)
      | free _ hy => exact .free c (ih h' hy)
  | drop _ ih => cases h' with | drop h' => exact .keep _ (ih h' hy)

theorem exists_of_freesTo (h : Widened ks y x) (hx : FreesTo x x') :
    ∃ y', Widened ks y' x' ∧ FreesTo y y' := by
  induction h generalizing x' with
  | nil => cases hx with | nil => exact ⟨[], .nil, .nil⟩
  | keep c _ ih =>
    cases hx with
    | keep _ hx =>
      obtain ⟨y', h', hy⟩ := ih hx
      exact ⟨c :: y', .keep c h', .keep c hy⟩
    | free _ hx =>
      obtain ⟨y', h', hy⟩ := ih hx
      exact ⟨.free :: y', .keep _ h', .free c hy⟩
  | drop _ ih =>
    cases hx with
    | keep _ hx =>
      obtain ⟨y', h', hy⟩ := ih hx
      exact ⟨y', .drop h', hy⟩
    | free _ hx =>
      obtain ⟨y', h', hy⟩ := ih hx
      exact ⟨y', .drop h', hy⟩

theorem freed_eq (h : Widened ks y x) : x.freed = y.freed + ks.count false := by
  induction h with
  | nil => rfl
  | keep c _ ih =>
    rw [freed_cons, freed_cons, List.count_cons_of_ne (by decide), ih]
    omega
  | drop _ ih =>
    rw [freed_cons, List.count_cons_self, ih, if_pos rfl]
    omega

theorem index_lt_and_eq (h : Widened ks y x) (h' : Widened ks y' x') :
    (index y < index y' → index x < index x') ∧ (index y = index y' → index x = index x') := by
  induction h generalizing y' x' with
  | nil => cases h' with | nil => exact ⟨id, id⟩
  | @keep c ks y x h ih =>
    cases h' with
    | @keep d _ y' x' h' =>
      obtain ⟨hlt, heq⟩ := ih h'
      have hl : y.length = y'.length := h.length_kept.trans h'.length_kept.symm
      have hl' : x.length = x'.length := h.length_eq.trans h'.length_eq.symm
      rw [index_cons_lt_iff c d hl, index_cons_lt_iff c d hl', index_cons_eq_iff c d hl,
        index_cons_eq_iff c d hl']
      exact ⟨Or.imp_right (And.imp_right hlt), And.imp_right heq⟩
  | drop _ ih =>
    cases h' with
    | drop h' =>
      rw [index_free_cons, index_free_cons]
      exact ih h'

theorem mask_lt_and_eq (h : Widened ks y x) (h' : Widened ks y' x') :
    (mask y < mask y' → mask x < mask x') ∧ (mask y = mask y' → mask x = mask x') := by
  induction h generalizing y' x' with
  | nil => cases h' with | nil => exact ⟨id, id⟩
  | @keep c ks y x h ih =>
    cases h' with
    | @keep d _ y' x' h' =>
      obtain ⟨hlt, heq⟩ := ih h'
      rw [mask_cons_lt_iff, mask_cons_lt_iff, mask_cons_eq_iff, mask_cons_eq_iff]
      exact ⟨Or.imp hlt (And.imp_left heq), And.imp_right heq⟩
  | drop _ ih =>
    cases h' with
    | drop h' =>
      obtain ⟨hlt, heq⟩ := ih h'
      rw [mask_cons, mask_cons]
      omega

theorem before (h : Widened ks y x) (h' : Widened ks y' x') (hy : Before y y') : Before x x' := by
  have hindex := h.index_lt_and_eq h'
  have hmask := h'.mask_lt_and_eq h
  unfold Before at hy ⊢
  rw [h.freed_eq, h'.freed_eq]
  omega

end Widened

/-! ## rows that are widened -/

/-- a row whose literals all stand in kept columns is a widened one -/
theorem exists_widened (p : Name → Bool) (x : Row) (ns : List Name) (hl : x.length = ns.length)
    (h : ∀ n ∈ (x.literalsOver ns).flatMap Formula.occurrences, p n = true) :
    ∃ y, Widened (ns.map p) y x := by
  induction x generalizing ns with
  | nil =>
    rw [List.eq_nil_of_length_eq_zero hl.symm]
    exact ⟨[], .nil⟩
  | cons c x ih =>
    cases ns with
    | nil => exact nomatch hl
    | cons n ns =>
      rw [literalsOver, List.flatMap_append] at h
      obtain ⟨y, hy⟩ := ih ns (Nat.succ.inj hl) fun k hk => h k (List.mem_append_right _ hk)
      rw [List.map_cons]
      cases hp : p n with
      | true => exact ⟨c :: y, .keep c hy⟩
      | false =>
        have hc : c = .free := by
          refine Decidable.not_not.mp fun hc => ?_
          have hn : n ∈ (c.literalOver n).flatMap Formula.occurrences := by
            cases c with
            | on => exact List.mem_singleton.mpr rfl
            | off => exact List.mem_singleton.mpr rfl
            | free => exact absurd rfl hc
          exact absurd ((h n (List.mem_append_left _ hn)).symm.trans hp) (by decide)
        exact ⟨y, hc ▸ .drop hy⟩

end Row

/-! ## implicants -/

section
variable {P Q : List Bool → Prop} {ks : List Bool} {y x : Row}
  (hPQ : ∀ vs : List Bool, vs.length = ks.length → (P vs ↔ Q (select ks vs)))
include hPQ

theorem implicant_widened (h : Row.Widened ks y x) :
    Implicant P ks.length x ↔ Implicant Q (ks.count true) y := by
  refine ⟨fun hx => ⟨h.length_kept, fun us hl hcovers => ?_⟩, fun hy => ⟨h.length_eq, ?_⟩⟩
  · obtain ⟨vs, hvs, rfl⟩ := exists_select ks us true hl
    exact (hPQ vs hvs).mp (hx.2 vs hvs (by rw [h.covers]; exact hcovers))
  · intro vs hvs hcovers
    rw [h.covers] at hcovers
    exact (hPQ vs hvs).mpr (hy.2 _ (length_select ks vs hvs) hcovers)

theorem primeImplicant_widened (h : Row.Widened ks y x) :
    PrimeImplicant P ks.length x ↔ PrimeImplicant Q (ks.count true) y := by
  refine and_congr (implicant_widened hPQ h) ⟨fun hx z hyz hne hz => ?_, fun hy z hxz hne hz => ?_⟩
  · -- the row that frees more of `y` is widened to one that frees more of `x`
    have hw := Row.widened_widen ks z (hyz.length_eq.symm.trans h.length_kept)
    refine hx _ (h.freesTo hw hyz) (fun e => hne ?_) ((implicant_widened hPQ hw).mpr hz)
    exact (e ▸ hw).injective h
  · obtain ⟨y', hw, hyy'⟩ := h.exists_of_freesTo hxz
    refine hy y' hyy' (fun e => hne ?_) ((implicant_widened hPQ hw).mp hz)
    exact hw.eq_widen.trans (e ▸ h.eq_widen.symm)

end

end Sentential
