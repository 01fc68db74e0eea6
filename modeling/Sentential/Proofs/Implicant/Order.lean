import Mathlib.Algebra.Group.Nat.Defs
import Sentential.Proofs.Implicant.Adjacency

/-!
# An order on rows

Rows of one length are ordered by three numbers: first the fewer free cells, then the smaller
`index`, then the larger `mask`.

* `Row.index x`      the place of `x` in the truth table, if its free cells are read as on;
* `Row.mask x`       the number whose binary digits tell the free cells, the last cell the highest.
                     `exists_split_of_mask_lt` says what a larger mask is: at the last place where
                     only one of the rows is free, the row with the larger mask is;
* `Row.Before x y`   the order.  It is strict, and total among rows of one length, so a list in
                     order is told by which rows it has (`eq_of_sorted`);
* `Row.parents x`    the two rows that merge to `x` in its first free cell, the earlier row first;
* `pairBefore_parents`   of two rows with equally many free cells, the earlier one has the earlier
                     parents;
* `parents_le_of_merge`  of all pairs that merge to a row its parents are the earliest.
-/

namespace Sentential.Row

/-! ## index and mask -/

def index : Row → Nat
  | [] => 0
  | c :: x => (if c = .off then 2 ^ x.length else 0) + index x

def mask : Row → Nat
  | [] => 0
  | c :: x => (if c = .free then 1 else 0) + 2 * mask x

theorem index_cons (c : Cell) (x : Row) :
    index (c :: x) = (if c = .off then 2 ^ x.length else 0) + index x := rfl
theorem mask_cons (c : Cell) (x : Row) :
    mask (c :: x) = (if c = .free then 1 else 0) + 2 * mask x := rfl

theorem index_free_cons (x : Row) : index (.free :: x) = index x := Nat.zero_add _

theorem index_lt (x : Row) : index x < 2 ^ x.length := by
  induction x with
  | nil => exact Nat.one_pos
  | cons c x ih =>
    rw [index_cons, List.length_cons, Nat.pow_succ]
    split <;> omega

section
variable (c d : Cell) {x y : Row} (hl : x.length = y.length)
include hl

/-- the first cell outweighs the others -/
theorem index_cons_lt_iff :
    index (c :: x) < index (d :: y)
      ↔ c ≠ .off ∧ d = .off ∨ (c = .off ↔ d = .off) ∧ index x < index y := by
  have hx : index x < 2 ^ y.length := hl ▸ index_lt x
  have hy := index_lt y
  rw [index_cons, index_cons, hl]
  by_cases hc : c = .off <;> by_cases hd : d = .off <;> grind

theorem index_cons_eq_iff :
    index (c :: x) = index (d :: y) ↔ (c = .off ↔ d = .off) ∧ index x = index y := by
  have hlt := index_cons_lt_iff c d hl
  have hgt := index_cons_lt_iff d c hl.symm
  grind

end

theorem mask_lt (x : Row) : mask x < 2 ^ x.length := by
  induction x with
  | nil => exact Nat.one_pos
  | cons c x ih =>
    rw [mask_cons, List.length_cons, Nat.pow_succ]
    split <;> omega

/-- the other cells outweigh the first one -/
theorem mask_cons_lt_iff (c d : Cell) (x y : Row) :
    mask (c :: x) < mask (d :: y)
      ↔ mask x < mask y ∨ mask x = mask y ∧ c ≠ .free ∧ d = .free := by
  rw [mask_cons, mask_cons]
  by_cases hc : c = .free <;> by_cases hd : d = .free <;> grind

theorem mask_cons_eq_iff (c d : Cell) (x y : Row) :
    mask (c :: x) = mask (d :: y) ↔ (c = .free ↔ d = .free) ∧ mask x = mask y := by
  rw [mask_cons, mask_cons]
  by_cases hc : c = .free <;> by_cases hd : d = .free <;> grind

theorem index_append (u w : Row) : index (u ++ w) = index u * 2 ^ w.length + index w := by
  induction u with
  | nil => rw [List.nil_append, index, Nat.zero_mul, Nat.zero_add]
  | cons c u ih =>
    rw [List.cons_append, index_cons, index_cons, ih, List.length_append, Nat.pow_add, Nat.add_mul]
    split
    · omega
    · omega

theorem mask_append (u w : Row) : mask (u ++ w) = mask u + 2 ^ u.length * mask w := by
  induction u with
  | nil => rw [List.nil_append, mask, List.length_nil, Nat.pow_zero, Nat.one_mul, Nat.zero_add]
  | cons c u ih =>
    rw [List.cons_append, mask_cons, mask_cons, ih, List.length_cons, Nat.pow_succ,
      Nat.mul_comm _ 2, Nat.mul_assoc]
    omega

theorem freed_append (u w : Row) : freed (u ++ w) = freed u + freed w := List.countP_append ..

theorem mask_eq_zero (x : Row) (h : x.freed = 0) : mask x = 0 := by
  induction x with
  | nil => rfl
  | cons c x ih =>
    obtain ⟨hc, hx⟩ := (freed_cons_eq_zero_iff c x).mp h
    rw [mask_cons, if_neg hc, ih hx]

theorem freed_eq_of_mask_eq (x y : Row) (hl : x.length = y.length) (h : mask x = mask y) :
    x.freed = y.freed := by
  induction x generalizing y with
  | nil => rw [List.eq_nil_of_length_eq_zero hl.symm]
  | cons c x ih =>
    cases y with
    | nil => exact nomatch hl
    | cons d y =>
      obtain ⟨hcd, hxy⟩ := (mask_cons_eq_iff c d x y).mp h
      rw [freed_cons, freed_cons, ih y (Nat.succ.inj hl) hxy]
      simp only [hcd]

/-- index and mask tell a row -/
theorem eq_of_index_mask (x y : Row) (hl : x.length = y.length) (hi : index x = index y)
    (hm : mask x = mask y) : x = y := by
  induction x generalizing y with
  | nil => exact (List.eq_nil_of_length_eq_zero hl.symm).symm
  | cons c x ih =>
    cases y with
    | nil => exact nomatch hl
    | cons d y =>
      have hl' : x.length = y.length := Nat.succ.inj hl
      obtain ⟨hoff, hi⟩ := (index_cons_eq_iff c d hl').mp hi
      obtain ⟨hfree, hm⟩ := (mask_cons_eq_iff c d x y).mp hm
      have hcd : c = d := by
        cases c <;> cases d <;> simp at hoff hfree ⊢
      rw [hcd, ih y hl' hi hm]

/-- the last place where only one of two rows is free belongs to the row with the larger mask -/
theorem exists_split_of_mask_lt (x y : Row) (hl : x.length = y.length) (h : mask x < mask y) :
    ∃ (a : Row) (c : Cell) (t a' t' : Row), x = a ++ c :: t ∧ y = a' ++ .free :: t'
      ∧ a.length = a'.length ∧ c ≠ .free ∧ mask t = mask t' := by
  induction x generalizing y with
  | nil =>
    rw [List.eq_nil_of_length_eq_zero hl.symm] at h
    exact absurd h (Nat.lt_irrefl _)
  | cons c x ih =>
    cases y with
    | nil => exact nomatch hl
    | cons d y =>
      rcases (mask_cons_lt_iff c d x y).mp h with hxy | ⟨hxy, hc, hd⟩
      · obtain ⟨a, e, t, a', t', rfl, rfl, hlen, he, ht⟩ := ih y (Nat.succ.inj hl) hxy
        exact ⟨c :: a, e, t, d :: a', t', rfl, rfl, by rw [List.length_cons, hlen]; rfl, he, ht⟩
      · exact ⟨[], c, x, [], y, rfl, by rw [hd]; rfl, rfl, hc, hxy⟩

/-! ## the order -/

def Before (x y : Row) : Prop :=
  x.freed < y.freed ∨ x.freed = y.freed
    ∧ (x.index < y.index ∨ x.index = y.index ∧ y.mask < x.mask)

instance (x y : Row) : Decidable (Before x y) :=
  inferInstanceAs (Decidable (_ ∨ _ ∧ (_ ∨ _ ∧ _)))

section
variable {x y z : Row}

theorem before_irrefl (x : Row) : ¬ Before x x := by
  unfold Before
  omega

theorem Before.trans (h : Before x y) (h' : Before y z) : Before x z := by
  unfold Before at h h' ⊢
  omega

theorem Before.asymm (h : Before x y) : ¬ Before y x := fun h' => before_irrefl x (h.trans h')

theorem before_trichotomy (hl : x.length = y.length) : Before x y ∨ x = y ∨ Before y x := by
  by_cases h : x.index = y.index ∧ x.mask = y.mask
  · exact .inr (.inl (eq_of_index_mask x y hl h.1 h.2))
  · unfold Before
    omega

/-- rows in order are told by which rows there are -/
theorem eq_of_sorted {xs ys : List Row} (hx : xs.Pairwise Before) (hy : ys.Pairwise Before)
    (h : ∀ z, z ∈ xs ↔ z ∈ ys) : xs = ys := by
  have distinct (zs : List Row) (hz : zs.Pairwise Before) : zs.Nodup := by
    refine hz.imp ?_
    rintro z _ hlt rfl
    exact before_irrefl z hlt
  have hperm := (List.perm_ext_iff_of_nodup (distinct xs hx) (distinct ys hy)).mpr h
  exact hperm.eq_of_pairwise (fun _ _ _ _ hlt hgt => absurd hgt hlt.asymm) hx hy

end

/-! ## the first free cell -/

/-- the row with its first free cell fixed -/
def fixFirst (b : Bool) : Row → Row
  | [] => []
  | c :: x => if c = .free then .ofBool b :: x else c :: fixFirst b x

section
variable (b : Bool) (u w : Row)

theorem exists_first_free (x : Row) (h : 0 < x.freed) :
    ∃ u w : Row, x = u ++ .free :: w ∧ u.freed = 0 := by
  induction x with
  | nil => exact absurd h (Nat.lt_irrefl _)
  | cons c x ih =>
    by_cases hc : c = .free
    · exact ⟨[], x, by rw [hc]; rfl, rfl⟩
    · rw [freed_cons, if_neg hc] at h
      obtain ⟨u, w, rfl, hu⟩ := ih h
      exact ⟨c :: u, w, rfl, by rw [freed_cons, if_neg hc, hu]⟩

theorem fixFirst_of_freed_eq_zero (hu : u.freed = 0) :
    fixFirst b (u ++ .free :: w) = u ++ .ofBool b :: w := by
  induction u with
  | nil => exact if_pos rfl
  | cons c u ih =>
    obtain ⟨hc, hu⟩ := (freed_cons_eq_zero_iff c u).mp hu
    rw [List.cons_append, fixFirst, if_neg hc, ih hu]
    rfl

theorem fixFirst_of_freed_pos (hu : 0 < u.freed) : fixFirst b (u ++ w) = fixFirst b u ++ w := by
  obtain ⟨p, q, rfl, hp⟩ := exists_first_free u hu
  rw [List.append_assoc, List.cons_append, fixFirst_of_freed_eq_zero b p _ hp,
    fixFirst_of_freed_eq_zero b p q hp, List.append_assoc]
  rfl

theorem fixFirst_eq_self (x : Row) (h : x.freed = 0) : fixFirst b x = x := by
  induction x with
  | nil => rfl
  | cons c x ih =>
    obtain ⟨hc, hx⟩ := (freed_cons_eq_zero_iff c x).mp h
    rw [fixFirst, if_neg hc, ih hx]

theorem length_fixFirst (x : Row) : (fixFirst b x).length = x.length := by
  induction x with
  | nil => rfl
  | cons c x ih =>
    rw [fixFirst]
    split
    · rfl
    · rw [List.length_cons, List.length_cons, ih]

theorem freed_fixFirst (x : Row) (h : 0 < x.freed) : (fixFirst b x).freed + 1 = x.freed := by
  obtain ⟨u, w, rfl, hu⟩ := exists_first_free x h
  rw [fixFirst_of_freed_eq_zero b u w hu, freed_fixed, freed_free]

theorem index_free : index (u ++ .free :: w) = index (u ++ .on :: w) := by
  rw [index_append, index_append]
  rfl

theorem index_off : index (u ++ .off :: w) = index (u ++ .free :: w) + 2 ^ w.length := by
  rw [index_append, index_append, index_cons, index_cons, if_pos rfl, if_neg (by decide)]
  show index u * 2 ^ (w.length + 1) + _ = index u * 2 ^ (w.length + 1) + _ + _
  omega

theorem index_fixFirst_true (x : Row) : index (fixFirst true x) = index x := by
  by_cases h : x.freed = 0
  · rw [fixFirst_eq_self true x h]
  · obtain ⟨u, w, rfl, hu⟩ := exists_first_free x (Nat.pos_of_ne_zero h)
    rw [fixFirst_of_freed_eq_zero true u w hu]
    exact (index_free u w).symm

end

/-! ## parents -/

/-- pairs of rows, by the first row and then by the second -/
def PairBefore (p q : Row × Row) : Prop := Before p.1 q.1 ∨ p.1 = q.1 ∧ Before p.2 q.2

theorem pairBefore_irrefl (p : Row × Row) : ¬ PairBefore p p := by
  rintro (h | ⟨_, h⟩)
  · exact before_irrefl _ h
  · exact before_irrefl _ h

theorem PairBefore.asymm {p q : Row × Row} (h : PairBefore p q) : ¬ PairBefore q p := by
  rintro (h' | ⟨e', h'⟩)
  · rcases h with h | ⟨e, _⟩
    · exact h.asymm h'
    · exact before_irrefl _ (e ▸ h')
  · rcases h with h | ⟨_, h⟩
    · exact before_irrefl _ (e' ▸ h)
    · exact h.asymm h'

def parents (x : Row) : Row × Row := (x.fixFirst true, x.fixFirst false)

theorem parents_of_freed_eq_zero (u w : Row) (hu : u.freed = 0) :
    parents (u ++ .free :: w) = (u ++ .on :: w, u ++ .off :: w) := by
  rw [parents, fixFirst_of_freed_eq_zero true u w hu, fixFirst_of_freed_eq_zero false u w hu]
  rfl

theorem before_flip (u w : Row) : Before (u ++ .on :: w) (u ++ .off :: w) := by
  refine .inr ⟨(freed_fixed u w true).trans (freed_fixed u w false).symm, .inl ?_⟩
  rw [index_off, index_free]
  exact Nat.lt_add_of_pos_right (Nat.two_pow_pos _)

/-- the parents come first among the pairs that merge to a row -/
theorem parents_le_of_merge (u w : Row) :
    parents (u ++ .free :: w) = (u ++ .on :: w, u ++ .off :: w)
      ∨ PairBefore (parents (u ++ .free :: w)) (u ++ .on :: w, u ++ .off :: w) := by
  by_cases hu : u.freed = 0
  · exact .inl (parents_of_freed_eq_zero u w hu)
  · have hpos : 0 < u.freed := Nat.pos_of_ne_zero hu
    have hfreed := freed_fixFirst true u hpos
    have hlength := length_fixFirst true u
    have hmask := mask_lt u
    refine .inr (.inl ?_)
    show Before (fixFirst true (u ++ .free :: w)) (u ++ .on :: w)
    rw [fixFirst_of_freed_pos true u _ hpos]
    refine .inr ⟨?_, .inr ⟨?_, ?_⟩⟩
    · have hfixed : freed (u ++ .on :: w) = freed (u ++ w) := freed_fixed u w true
      rw [freed_free, freed_append, hfixed, freed_append]
      omega
    · rw [index_free, index_append, index_append, index_fixFirst_true]
    · -- the free cell after `u` outweighs all that `u` can lose
      rw [mask_append, mask_append, mask_cons, mask_cons, if_pos rfl, if_neg (by decide), hlength,
        Nat.mul_add, Nat.mul_add]
      omega

/-! ## the order of parents -/

section
variable {x y a t a' t' : Row} {c : Cell} (hx : x = a' ++ .free :: t') (hy : y = a ++ c :: t)
  (hc : c ≠ .free) (hlen : a.length = a'.length) (ht : mask t = mask t') (ha : 0 < a.freed)

include hx hy hlen ha

/-- `y` has a free cell in an earlier place than `x` -/
theorem second_parent_before (ha' : a'.freed = 0) (hl : x.length = y.length)
    (hfreed : x.freed = y.freed) (hi : x.index = y.index) :
    Before (fixFirst false x) (fixFirst false y) := by
  have hfreedx := freed_fixFirst false x (by rw [hx, freed_free]; omega)
  have hfreedy := freed_fixFirst false y (by rw [hy, freed_append]; omega)
  obtain ⟨p, q, rfl, hp⟩ := exists_first_free a ha
  have hy' : y = p ++ .free :: (q ++ c :: t) := by rw [hy, List.append_assoc]; rfl
  refine .inr ⟨by omega, .inl ?_⟩
  rw [hx, hy', List.length_append, List.length_append, List.length_cons, List.length_cons] at hl
  rw [List.length_append, List.length_cons] at hlen
  have hpow : 2 ^ t'.length < 2 ^ (q ++ c :: t).length := by
    refine Nat.pow_lt_pow_right (by decide) ?_
    omega
  show index (fixFirst false x) < index (fixFirst false y)
  rw [hx, hy'] at hi ⊢
  rw [fixFirst_of_freed_eq_zero false a' t' ha', fixFirst_of_freed_eq_zero false p _ hp]
  show index (a' ++ .off :: t') < index (p ++ .off :: (q ++ c :: t))
  rw [index_off, index_off]
  omega

include hc ht

/-- the last cell that only `x` has free stays free if there is a free cell before it -/
theorem mask_first_parent_lt (ha' : 0 < a'.freed) :
    mask (fixFirst true y) < mask (fixFirst true x) := by
  have hmask := mask_lt (fixFirst true a)
  rw [length_fixFirst, hlen] at hmask
  rw [hx, hy, fixFirst_of_freed_pos true a _ ha, fixFirst_of_freed_pos true a' _ ha', mask_append,
    mask_append, mask_cons, mask_cons, if_pos rfl, if_neg hc, length_fixFirst, length_fixFirst,
    hlen, ht, Nat.mul_add, Nat.mul_add]
  omega

theorem mask_first_parent_eq (ha' : a'.freed = 0) (hone : a.freed = 1) :
    mask (fixFirst true y) = mask (fixFirst true x) := by
  have hfreed := freed_fixFirst true a ha
  rw [hx, hy, fixFirst_of_freed_pos true a _ ha, fixFirst_of_freed_eq_zero true a' _ ha',
    mask_append, mask_append, mask_cons, mask_cons, if_neg hc, if_neg (Cell.ofBool_ne_free true),
    length_fixFirst, hlen, ht, mask_eq_zero a' ha', mask_eq_zero (fixFirst true a) (by omega)]

end

/-- the earlier row has the earlier parents -/
theorem pairBefore_parents {x y : Row} (hl : x.length = y.length) (hpos : 0 < x.freed)
    (hfreed : x.freed = y.freed) (h : Before x y) : PairBefore (parents x) (parents y) := by
  have hfreedx := freed_fixFirst true x hpos
  have hfreedy := freed_fixFirst true y (hfreed ▸ hpos)
  have hfirst : (fixFirst true x).freed = (fixFirst true y).freed := by omega
  have hindexx : (fixFirst true x).index = x.index := index_fixFirst_true x
  have hindexy : (fixFirst true y).index = y.index := index_fixFirst_true y
  rcases h with h | ⟨_, h | ⟨hi, hm⟩⟩
  · omega
  · refine .inl (.inr ⟨hfirst, .inl ?_⟩)
    rw [← hindexx, ← hindexy] at h
    exact h
  · have hsame := (hindexx.trans hi).trans hindexy.symm
    obtain ⟨a, c, t, a', t', hy, hx, hlen, hc, ht⟩ := exists_split_of_mask_lt y x hl.symm hm
    have hlengths := hl
    rw [hx, hy, List.length_append, List.length_append, List.length_cons, List.length_cons]
      at hlengths
    have htail := freed_eq_of_mask_eq t t' (by omega) ht
    -- so `a` has one free cell more than `a'`
    have hcells := hfreed
    rw [hx, hy, freed_free, freed_append, freed_append_cons, if_neg hc, freed_append] at hcells
    have ha : 0 < a.freed := by omega
    by_cases ha' : a'.freed = 0
    · have hmask := mask_first_parent_eq hx hy hc hlen ht ha ha' (by omega)
      refine .inr ⟨eq_of_index_mask _ _ ?_ hsame hmask.symm,
        second_parent_before hx hy hlen ha ha' hl hfreed hi⟩
      exact (length_fixFirst true x).trans (hl.trans (length_fixFirst true y).symm)
    · have hmask := mask_first_parent_lt hx hy hc hlen ht ha (Nat.pos_of_ne_zero ha')
      exact .inl (.inr ⟨hfirst, .inr ⟨hsame, hmask⟩⟩)

end Sentential.Row
