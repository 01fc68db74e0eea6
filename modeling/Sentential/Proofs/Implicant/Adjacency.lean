import Sentential.Implicant.Row

/-!
# Adjacent rows and freed cells

Two rows of one length are adjacent exactly if one fixed cell is turned round between them.  So the
statements about merging are statements about rows `u ++ c :: w` with the cell `c` in one place.

* `exists_flip_of_adjacent`   adjacent rows are `u ++ ofBool b :: w` and `u ++ ofBool !b :: w`;
* `merge_flip`, `covers_free` their merger is `u ++ .free :: w`, and it covers what they cover;
* `Row.freed x`               the number of free cells;
* `Row.FreesTo x y`           `y` is `x` with some cells freed.  Then `y` covers what `x` covers;
* `FreesTo.exists_first`      where `y` is not `x`, the cells can be freed one after the other.
-/

namespace Sentential

theorem Cell.eq_ofBool_of_ne_free {c : Cell} (h : c ≠ .free) : ∃ b, c = ofBool b := by
  cases c with
  | on => exact ⟨true, rfl⟩
  | off => exact ⟨false, rfl⟩
  | free => exact absurd rfl h

theorem Cell.ofBool_ne_free (b : Bool) : ofBool b ≠ .free := by cases b <;> decide

theorem Cell.ofBool_ne_not (b : Bool) : ofBool b ≠ ofBool !b := by cases b <;> decide

/-- different cells that are free together are both fixed -/
theorem Cell.exists_flip {a c : Cell} (hne : a ≠ c) (h : a.isFree = c.isFree) :
    ∃ b, a = ofBool b ∧ c = ofBool !b := by
  cases a with
  | on =>
    cases c with
    | on => exact absurd rfl hne
    | off => exact ⟨true, rfl, rfl⟩
    | free => exact nomatch h
  | off =>
    cases c with
    | on => exact ⟨false, rfl, rfl⟩
    | off => exact absurd rfl hne
    | free => exact nomatch h
  | free =>
    cases c with
    | on => exact nomatch h
    | off => exact nomatch h
    | free => exact absurd rfl hne

namespace Row

/-! ## symmetry -/

theorem comparable_comm (x y : Row) : comparable x y = comparable y x := by
  induction x generalizing y with
  | nil => cases y <;> rfl
  | cons a x ih =>
    cases y with
    | nil => rfl
    | cons b y => rw [comparable_cons, comparable_cons, ih, BEq.comm]

theorem distance_comm (x y : Row) : distance x y = distance y x := by
  induction x generalizing y with
  | nil => rw [distance_nil_left, distance_nil_right]
  | cons a x ih =>
    cases y with
    | nil => rfl
    | cons b y =>
      rw [distance_cons, distance_cons, ih]
      simp only [eq_comm]

theorem merge_comm (x y : Row) : merge x y = merge y x := by
  induction x generalizing y with
  | nil => rw [merge_nil_left, merge_nil_right]
  | cons a x ih =>
    cases y with
    | nil => rfl
    | cons b y =>
      have hab : a.join b = b.join a := by cases a <;> cases b <;> rfl
      rw [merge_cons, merge_cons, ih, hab]

theorem adjacent_comm (x y : Row) : adjacent x y = adjacent y x := by
  rw [adjacent, adjacent, comparable_comm, distance_comm]

theorem comparable_self (x : Row) : comparable x x = true := by
  induction x with
  | nil => rfl
  | cons a x ih => rw [comparable_cons, ih, BEq.rfl, Bool.true_and]

theorem distance_self (x : Row) : distance x x = 0 := by
  induction x with
  | nil => rfl
  | cons a x ih => rw [distance_cons, ih, if_pos rfl]

theorem merge_self (x : Row) : merge x x = x := by
  induction x with
  | nil => rfl
  | cons a x ih => rw [merge_cons, ih, Cell.join, if_pos rfl]

theorem not_adjacent_self (x : Row) : adjacent x x = false := by
  rw [adjacent, distance_self, Bool.and_eq_false_iff]
  exact .inr rfl

theorem eq_of_distance_eq_zero (x y : Row) (hl : x.length = y.length) (h : distance x y = 0) :
    x = y := by
  induction x generalizing y with
  | nil => exact (List.eq_nil_of_length_eq_zero hl.symm).symm
  | cons a x ih =>
    cases y with
    | nil => exact nomatch hl
    | cons b y =>
      rw [distance_cons] at h
      by_cases hab : a = b
      · rw [hab, ih y (Nat.succ.inj hl) (by omega)]
      · rw [if_neg hab] at h
        omega

/-! ## one cell turned round -/

section
variable (u w : Row) (b : Bool)

theorem adjacent_flip : adjacent (u ++ .ofBool b :: w) (u ++ .ofBool (!b) :: w) = true := by
  rw [adjacent_iff]
  induction u with
  | nil =>
    rw [List.nil_append, List.nil_append, comparable_cons, distance_cons, comparable_self,
      distance_self, if_neg (Cell.ofBool_ne_not b)]
    cases b <;> exact ⟨rfl, rfl⟩
  | cons c u ih =>
    rw [List.cons_append, List.cons_append, comparable_cons, distance_cons, BEq.rfl, if_pos rfl]
    exact ih

theorem merge_flip : merge (u ++ .ofBool b :: w) (u ++ .ofBool (!b) :: w) = u ++ .free :: w := by
  induction u with
  | nil =>
    rw [List.nil_append, List.nil_append, merge_cons, merge_self, Cell.join,
      if_neg (Cell.ofBool_ne_not b)]
    rfl
  | cons c u ih =>
    rw [List.cons_append, List.cons_append, merge_cons, ih, Cell.join, if_pos rfl]
    rfl

/-- a free cell covers what the two fixed cells in its place cover -/
theorem covers_free (vs : List Bool) :
    covers (u ++ .free :: w) vs
      = (covers (u ++ .ofBool b :: w) vs || covers (u ++ .ofBool (!b) :: w) vs) := by
  induction u generalizing vs with
  | nil =>
    cases vs with
    | nil => rfl
    | cons v vs =>
      rw [List.nil_append, List.nil_append, List.nil_append, covers_cons, covers_cons, covers_cons,
        Cell.admits_ofBool, Cell.admits_ofBool]
      cases b <;> cases v <;> simp [Cell.admits, Cell.isFree]
  | cons c u ih =>
    cases vs with
    | nil => rfl
    | cons v vs =>
      rw [List.cons_append, List.cons_append, List.cons_append, covers_cons, covers_cons,
        covers_cons, ih, Bool.and_or_distrib_left]

end

/-- adjacent rows of one length differ in one fixed cell -/
theorem exists_flip_of_adjacent (x y : Row) (hl : x.length = y.length)
    (h : x.adjacent y = true) :
    ∃ u w b, x = u ++ .ofBool b :: w ∧ y = u ++ .ofBool (!b) :: w := by
  rw [adjacent_iff] at h
  induction x generalizing y with
  | nil => exact absurd h.2 (by rw [distance_nil_left]; decide)
  | cons a x ih =>
    cases y with
    | nil => exact absurd hl (Nat.succ_ne_zero _)
    | cons c y =>
      obtain ⟨hcomp, hdist⟩ := h
      rw [comparable_cons, Bool.and_eq_true] at hcomp
      rw [distance_cons] at hdist
      by_cases hac : a = c
      · rw [if_pos hac] at hdist
        obtain ⟨u, w, b, hx, hy⟩ := ih y (Nat.succ.inj hl) ⟨hcomp.2, hdist⟩
        exact ⟨a :: u, w, b, by rw [hx]; rfl, by rw [hy, hac]; rfl⟩
      · rw [if_neg hac] at hdist
        have hxy := eq_of_distance_eq_zero x y (Nat.succ.inj hl) (by omega)
        obtain ⟨b, ha, hc⟩ := Cell.exists_flip hac (beq_iff_eq.mp hcomp.1)
        exact ⟨[], x, b, by rw [ha]; rfl, by rw [hc, hxy]; rfl⟩

/-! ## free cells -/

/-- the number of free cells -/
def freed (x : Row) : Nat := x.countP Cell.isFree

theorem freed_cons (c : Cell) (x : Row) :
    freed (c :: x) = freed x + if c = .free then 1 else 0 := by
  rw [freed, freed, List.countP_cons]
  cases c <;> rfl

theorem freed_cons_eq_zero_iff (c : Cell) (x : Row) :
    freed (c :: x) = 0 ↔ c ≠ .free ∧ freed x = 0 := by
  rw [freed_cons]
  by_cases hc : c = .free
  · rw [if_pos hc]
    exact iff_of_false (Nat.succ_ne_zero _) fun h => h.1 hc
  · rw [if_neg hc]
    exact (and_iff_right hc).symm

theorem freed_append_cons (u w : Row) (c : Cell) :
    freed (u ++ c :: w) = freed (u ++ w) + if c = .free then 1 else 0 := by
  induction u with
  | nil => exact freed_cons c w
  | cons d u ih =>
    rw [List.cons_append, List.cons_append, freed_cons, freed_cons, ih]
    omega

theorem freed_fixed (u w : Row) (b : Bool) : freed (u ++ .ofBool b :: w) = freed (u ++ w) := by
  rw [freed_append_cons, if_neg (Cell.ofBool_ne_free b), Nat.add_zero]

theorem freed_free (u w : Row) : freed (u ++ .free :: w) = freed (u ++ w) + 1 := by
  rw [freed_append_cons, if_pos rfl]

theorem freed_merge (x y : Row) (hl : x.length = y.length) (h : x.adjacent y = true) :
    (x.merge y).freed = x.freed + 1 := by
  obtain ⟨u, w, b, rfl, rfl⟩ := exists_flip_of_adjacent x y hl h
  rw [merge_flip, freed_free, freed_fixed]

theorem freed_le_length (x : Row) : x.freed ≤ x.length := List.countP_le_length

theorem exists_free_of_freed_pos (x : Row) (h : 0 < x.freed) : ∃ u w, x = u ++ .free :: w := by
  obtain ⟨c, hc, hfree⟩ := List.countP_pos_iff.mp h
  have hc' : c = .free := of_decide_eq_true hfree
  subst hc'
  exact List.append_of_mem hc

/-! ## rows without free cells -/

theorem length_ofValues (vs : List Bool) : (ofValues vs).length = vs.length := List.length_map ..

theorem freed_ofValues (vs : List Bool) : (ofValues vs).freed = 0 := by
  induction vs with
  | nil => rfl
  | cons v vs ih =>
    show freed (.ofBool v :: ofValues vs) = 0
    rw [freed_cons, ih, if_neg (Cell.ofBool_ne_free v)]

theorem exists_ofValues_of_freed_eq_zero (x : Row) (h : x.freed = 0) : ∃ vs, x = ofValues vs := by
  induction x with
  | nil => exact ⟨[], rfl⟩
  | cons c x ih =>
    obtain ⟨hc, hx⟩ := (freed_cons_eq_zero_iff c x).mp h
    obtain ⟨v, rfl⟩ := Cell.eq_ofBool_of_ne_free hc
    obtain ⟨vs, rfl⟩ := ih hx
    exact ⟨v :: vs, rfl⟩

theorem covers_ofValues_iff (vs ws : List Bool) (hl : vs.length = ws.length) :
    (ofValues vs).covers ws = true ↔ vs = ws := by
  induction vs generalizing ws with
  | nil =>
    have hws := List.eq_nil_of_length_eq_zero hl.symm
    rw [hws]
    exact iff_of_true rfl rfl
  | cons v vs ih =>
    cases ws with
    | nil => exact nomatch hl
    | cons w ws =>
      show covers (.ofBool v :: ofValues vs) (w :: ws) = true ↔ _
      rw [covers_cons, Bool.and_eq_true, Cell.admits_ofBool, ih ws (Nat.succ.inj hl), beq_iff_eq,
        List.cons.injEq]

/-! ## freeing cells -/

/-- `y` is `x` with some of its cells freed -/
inductive FreesTo : Row → Row → Prop where
  | nil : FreesTo [] []
  | keep (c : Cell) {x y : Row} (h : FreesTo x y) : FreesTo (c :: x) (c :: y)
  | free (c : Cell) {x y : Row} (h : FreesTo x y) : FreesTo (c :: x) (.free :: y)

namespace FreesTo
variable {x y z : Row}

theorem refl (x : Row) : FreesTo x x := by
  induction x with
  | nil => exact .nil
  | cons c x ih => exact .keep c ih

theorem append_free (u w : Row) (c : Cell) : FreesTo (u ++ c :: w) (u ++ .free :: w) := by
  induction u with
  | nil => exact .free c (refl w)
  | cons d u ih => exact .keep d ih

theorem trans (h : FreesTo x y) (h' : FreesTo y z) : FreesTo x z := by
  induction h generalizing z with
  | nil => exact h'
  | keep c _ ih =>
    cases h' with
    | keep _ h' => exact .keep c (ih h')
    | free _ h' => exact .free c (ih h')
  | free c _ ih =>
    cases h' with
    | keep _ h' => exact .free c (ih h')
    | free _ h' => exact .free c (ih h')

theorem length_eq (h : FreesTo x y) : x.length = y.length := by
  induction h with
  | nil => rfl
  | keep c _ ih => rw [List.length_cons, List.length_cons, ih]
  | free c _ ih => rw [List.length_cons, List.length_cons, ih]

theorem covers (h : FreesTo x y) (vs : List Bool) (hx : x.covers vs = true) :
    y.covers vs = true := by
  induction h generalizing vs with
  | nil => rfl
  | keep c _ ih =>
    cases vs with
    | nil => rfl
    | cons v vs =>
      rw [covers_cons, Bool.and_eq_true] at hx ⊢
      exact ⟨hx.1, ih vs hx.2⟩
  | free c _ ih =>
    cases vs with
    | nil => rfl
    | cons v vs =>
      rw [covers_cons, Bool.and_eq_true] at hx ⊢
      exact ⟨rfl, ih vs hx.2⟩

/-- the cells can be freed one after the other: here is the first -/
theorem exists_first (h : FreesTo x y) (hne : y ≠ x) :
    ∃ u w b, x = u ++ .ofBool b :: w ∧ FreesTo (u ++ .free :: w) y := by
  induction h with
  | nil => exact absurd rfl hne
  | @keep c x y _ ih =>
    obtain ⟨u, w, b, hx, hy⟩ := ih fun e => hne (by rw [e])
    exact ⟨c :: u, w, b, by rw [hx]; rfl, .keep c hy⟩
  | @free c x y h ih =>
    by_cases hc : c = .free
    · subst hc
      obtain ⟨u, w, b, hx, hy⟩ := ih fun e => hne (by rw [e])
      exact ⟨.free :: u, w, b, by rw [hx]; rfl, .keep .free hy⟩
    · obtain ⟨b, hb⟩ := Cell.eq_ofBool_of_ne_free hc
      exact ⟨[], x, b, by rw [hb]; rfl, .keep .free h⟩

theorem freed_le (h : FreesTo x y) : x.freed ≤ y.freed := by
  induction h with
  | nil => exact Nat.le_refl _
  | keep c _ ih =>
    rw [freed_cons, freed_cons]
    omega
  | free c _ ih =>
    rw [freed_cons, freed_cons, if_pos rfl]
    split <;> omega

theorem freed_lt (h : FreesTo x y) (hne : y ≠ x) : x.freed < y.freed := by
  obtain ⟨u, w, b, hx, hy⟩ := h.exists_first hne
  have hle := hy.freed_le
  rw [freed_free] at hle
  rw [hx, freed_fixed]
  omega

theorem eq_of_freed_eq (h : FreesTo x y) (hfreed : x.freed = y.freed) : x = y := by
  by_cases hne : y = x
  · exact hne.symm
  · have := h.freed_lt hne
    omega

end FreesTo

end Row

end Sentential
