import Sentential.Implicant.Prime
import Sentential.Proofs.Implicant.Adjacency

/-!
# The generations are the implicants

An implicant of a set `P` of values is a row that covers only values in `P`; it is prime if none of
its cells can be freed.

* `Implicant P n x`, `PrimeImplicant P n x`   rows of `n` cells;
* `Generation P n k rows`   the invariant: `rows` are the implicants with `k` free cells, each once;
* `generation_following`    one step keeps it, with `k + 1` for `k`: both ways to fix a free cell of
                            an implicant give implicants, which are adjacent;
* `mem_unmerged_iff`        what a generation leaves over are its prime implicants;
* `mem_flatMap_unmerged`    the whole run, by induction on the generations;
* `mem_primeImplicants`     the run that starts from the values themselves.
-/

namespace Sentential

section
variable (P : List Bool → Prop) (n : Nat)

/-- a row of `n` cells that covers only values in `P` -/
def Implicant (x : Row) : Prop :=
  x.length = n ∧ ∀ vs : List Bool, vs.length = n → x.covers vs = true → P vs

/-- an implicant none of whose cells can be freed -/
def PrimeImplicant (x : Row) : Prop :=
  Implicant P n x ∧ ∀ y, x.FreesTo y → y ≠ x → ¬ Implicant P n y

/-- the implicants with `k` free cells, each once -/
structure Generation (k : Nat) (rows : List Row) : Prop where
  nodup : rows.Nodup
  mem_iff : ∀ x, x ∈ rows ↔ Implicant P n x ∧ x.freed = k

end

/-! ## implicants -/

section
variable {P : List Bool → Prop} {n : Nat}

theorem Implicant.of_freesTo {x y : Row} (h : x.FreesTo y) (hy : Implicant P n y) :
    Implicant P n x := by
  refine ⟨h.length_eq.trans hy.1, fun vs hl hx => ?_⟩
  exact hy.2 vs hl (h.covers vs hx)

/-- a cell can be freed if it can be fixed both ways -/
theorem implicant_free_iff (u w : Row) (b : Bool) :
    Implicant P n (u ++ .free :: w)
      ↔ Implicant P n (u ++ .ofBool b :: w) ∧ Implicant P n (u ++ .ofBool (!b) :: w) := by
  constructor
  · intro h
    exact ⟨h.of_freesTo (.append_free u w _), h.of_freesTo (.append_free u w _)⟩
  · rintro ⟨⟨hl, hb⟩, ⟨_, hb'⟩⟩
    refine ⟨by rw [← hl]; simp, fun vs hvs h => ?_⟩
    rw [Row.covers_free u w b, Bool.or_eq_true] at h
    rcases h with h | h
    · exact hb vs hvs h
    · exact hb' vs hvs h

theorem implicant_merge {x y : Row} (hx : Implicant P n x) (hy : Implicant P n y)
    (h : x.adjacent y = true) :
    Implicant P n (x.merge y) ∧ (x.merge y).freed = x.freed + 1
      ∧ x.FreesTo (x.merge y) ∧ x.merge y ≠ x := by
  have hfreed := Row.freed_merge x y (hx.1.trans hy.1.symm) h
  obtain ⟨u, w, b, rfl, rfl⟩ := Row.exists_flip_of_adjacent x y (hx.1.trans hy.1.symm) h
  refine ⟨?_, hfreed, ?_, fun e => ?_⟩
  · rw [Row.merge_flip]
    exact (implicant_free_iff u w b).mpr ⟨hx, hy⟩
  · rw [Row.merge_flip]
    exact .append_free u w _
  · rw [e] at hfreed
    omega

/-- the implicants without free cells are the values themselves -/
theorem implicant_fixed_iff (x : Row) :
    Implicant P n x ∧ x.freed = 0 ↔ ∃ vs, vs.length = n ∧ P vs ∧ x = Row.ofValues vs := by
  constructor
  · rintro ⟨⟨hl, hx⟩, hfixed⟩
    obtain ⟨vs, rfl⟩ := Row.exists_ofValues_of_freed_eq_zero x hfixed
    rw [Row.length_ofValues] at hl
    exact ⟨vs, hl, hx vs hl ((Row.covers_ofValues_iff vs vs rfl).mpr rfl), rfl⟩
  · rintro ⟨vs, hl, hvs, rfl⟩
    refine ⟨⟨(Row.length_ofValues vs).trans hl, fun ws hws h => ?_⟩, Row.freed_ofValues vs⟩
    rwa [← (Row.covers_ofValues_iff vs ws (hl.trans hws.symm)).mp h]

/-- every implicant lies below a prime one -/
theorem exists_primeImplicant (x : Row) (hx : Implicant P n x) :
    ∃ y, PrimeImplicant P n y ∧ x.FreesTo y := by
  by_cases hmore : ∃ y, x.FreesTo y ∧ y ≠ x ∧ Implicant P n y
  · obtain ⟨y, hxy, hne, hy⟩ := hmore
    have hlt := hxy.freed_lt hne
    have hle : y.freed ≤ n := hy.1 ▸ y.freed_le_length
    obtain ⟨z, hz, hyz⟩ := exists_primeImplicant y hy
    exact ⟨z, hz, hxy.trans hyz⟩
  · exact ⟨x, ⟨hx, fun y hxy hne hy => hmore ⟨y, hxy, hne, hy⟩⟩, .refl x⟩
termination_by n - x.freed

end

/-! ## mergers -/

theorem mem_mergers_of_adjacent (rows : List Row) (x y : Row) (hx : x ∈ rows) (hy : y ∈ rows)
    (h : x.adjacent y = true) : x.merge y ∈ mergers rows := by
  induction rows with
  | nil => exact absurd hx List.not_mem_nil
  | cons z later ih =>
    rw [mergers, List.mem_append]
    rcases List.mem_cons.mp hx with rfl | hx'
    · rcases List.mem_cons.mp hy with rfl | hy'
      · exact absurd h (by rw [Row.not_adjacent_self]; decide)
      · exact .inl (List.mem_map.mpr ⟨y, List.mem_filter.mpr ⟨hy', h⟩, rfl⟩)
    · rcases List.mem_cons.mp hy with rfl | hy'
      · rw [Row.adjacent_comm] at h
        rw [Row.merge_comm]
        exact .inl (List.mem_map.mpr ⟨x, List.mem_filter.mpr ⟨hx', h⟩, rfl⟩)
      · exact .inr (ih hx' hy')

/-- each row is compared with later rows only, but no pair is missed: adjacency and merging do not
ask which row comes first -/
theorem mem_mergers_iff (rows : List Row) (z : Row) :
    z ∈ mergers rows ↔ ∃ x ∈ rows, ∃ y ∈ rows, x.adjacent y = true ∧ z = x.merge y := by
  constructor
  · exact mem_mergers rows z
  · rintro ⟨x, hx, y, hy, hadj, rfl⟩
    exact mem_mergers_of_adjacent rows x y hx hy hadj

theorem mem_following_iff (rows : List Row) (z : Row) :
    z ∈ following rows ↔ ∃ x ∈ rows, ∃ y ∈ rows, x.adjacent y = true ∧ z = x.merge y := by
  rw [following, List.mem_eraseDups, mem_mergers_iff]

/-- the row takes part in a merger -/
def Merges (rows : List Row) (x : Row) : Prop := x ∈ rows ∧ ∃ y ∈ rows, x.adjacent y = true

instance (rows : List Row) (x : Row) : Decidable (Merges rows x) :=
  inferInstanceAs (Decidable (x ∈ rows ∧ ∃ y ∈ rows, x.adjacent y = true))

/-- to drop each row together with the later rows adjacent to it loses no merger -/
theorem merges_cons_iff (x : Row) (later : List Row) (u : Row) :
    Merges (x :: later) u
      ↔ (later.filter x.adjacent ≠ [] ∧ u ∈ x :: later.filter x.adjacent) ∨ Merges later u := by
  constructor
  · rintro ⟨hu, y, hy, h⟩
    rcases List.mem_cons.mp hu with rfl | hu'
    · rcases List.mem_cons.mp hy with rfl | hy'
      · exact absurd h (by rw [Row.not_adjacent_self]; decide)
      · exact .inl ⟨List.ne_nil_of_mem (List.mem_filter.mpr ⟨hy', h⟩), List.mem_cons_self ..⟩
    · rcases List.mem_cons.mp hy with rfl | hy'
      · have hmem := List.mem_filter.mpr ⟨hu', (Row.adjacent_comm y u).trans h⟩
        exact .inl ⟨List.ne_nil_of_mem hmem, List.mem_cons_of_mem _ hmem⟩
      · exact .inr ⟨hu', y, hy', h⟩
  · rintro (⟨hne, hu⟩ | ⟨hu, y, hy, h⟩)
    · rcases List.mem_cons.mp hu with rfl | hu
      · obtain ⟨y, hy⟩ := List.exists_mem_of_ne_nil _ hne
        obtain ⟨hy, h⟩ := List.mem_filter.mp hy
        exact ⟨List.mem_cons_self .., y, List.mem_cons_of_mem _ hy, h⟩
      · obtain ⟨hu, h⟩ := List.mem_filter.mp hu
        exact ⟨List.mem_cons_of_mem _ hu, x, List.mem_cons_self .., (Row.adjacent_comm u x).trans h⟩
    · exact ⟨List.mem_cons_of_mem _ hu, y, List.mem_cons_of_mem _ hy, h⟩

theorem dropMerged_eq (left rows : List Row) :
    dropMerged left rows = left.filter fun u => !decide (Merges rows u) := by
  induction rows generalizing left with
  | nil =>
    refine (List.filter_eq_self.mpr fun u _ => ?_).symm
    rw [decide_eq_false fun h : Merges [] u => List.not_mem_nil h.1]
    rfl
  | cons x later ih =>
    rw [dropMerged, ih]
    by_cases hys : later.filter x.adjacent = []
    · rw [hys, List.isEmpty_nil, if_pos rfl]
      refine List.filter_congr fun u _ => ?_
      have hiff : Merges later u ↔ Merges (x :: later) u := by
        rw [merges_cons_iff, hys]
        exact ⟨.inr, fun h => h.elim (fun h => absurd rfl h.1) id⟩
      rw [decide_eq_decide.mpr hiff]
    · rw [List.isEmpty_eq_false_iff.mpr hys, if_neg Bool.false_ne_true, List.filter_filter]
      refine List.filter_congr fun u _ => ?_
      have hiff : Merges (x :: later) u ↔ Merges later u ∨ u ∈ x :: later.filter x.adjacent := by
        rw [merges_cons_iff, or_comm]
        exact or_congr_right (and_iff_right hys)
      rw [decide_eq_decide.mpr hiff, Bool.decide_or, Bool.not_or, List.contains_eq_mem]

theorem unmerged_eq (rows : List Row) :
    unmerged rows = rows.filter fun u => !decide (Merges rows u) := dropMerged_eq rows rows

theorem mem_unmerged (rows : List Row) (x : Row) :
    x ∈ unmerged rows ↔ x ∈ rows ∧ ¬Merges rows x := by
  rw [unmerged_eq, List.mem_filter, Bool.not_eq_true', decide_eq_false_iff_not]

/-! ## one step -/

theorem nodup_eraseDups {α : Type} [BEq α] [LawfulBEq α] (xs : List α) : xs.eraseDups.Nodup := by
  cases xs with
  | nil => exact List.nodup_nil
  | cons x xs =>
    rw [List.eraseDups_cons, List.nodup_cons, List.mem_eraseDups]
    refine ⟨fun h => ?_, nodup_eraseDups (xs.filter fun y => !y == x)⟩
    have hx := (List.mem_filter.mp h).2
    simp at hx
termination_by xs.length
decreasing_by
  have := List.length_filter_le (fun y => !y == x) xs
  rw [List.length_cons]
  omega

section
variable {P : List Bool → Prop} {n k : Nat} {rows : List Row}

/-- what is left over of a generation is prime -/
theorem mem_unmerged_iff (h : Generation P n k rows) (x : Row) :
    x ∈ unmerged rows ↔ PrimeImplicant P n x ∧ x.freed = k := by
  rw [mem_unmerged, h.mem_iff]
  constructor
  · rintro ⟨⟨hx, hk⟩, hm⟩
    refine ⟨⟨hx, fun y hxy hne hy => hm ?_⟩, hk⟩
    -- the cell that `y` frees first, turned round, gives a partner of the same generation
    obtain ⟨u, w, b, rfl, hfree⟩ := hxy.exists_first hne
    have hflip := ((implicant_free_iff u w b).mp (hy.of_freesTo hfree)).2
    rw [Row.freed_fixed] at hk
    refine ⟨(h.mem_iff _).mpr ⟨hx, ?_⟩, _, (h.mem_iff _).mpr ⟨hflip, ?_⟩, Row.adjacent_flip u w b⟩
    · rw [Row.freed_fixed, hk]
    · rw [Row.freed_fixed, hk]
  · rintro ⟨⟨hx, hprime⟩, hk⟩
    refine ⟨⟨hx, hk⟩, ?_⟩
    rintro ⟨_, y, hy, hadj⟩
    obtain ⟨hmerge, _, hfree, hne⟩ := implicant_merge hx ((h.mem_iff y).mp hy).1 hadj
    exact hprime _ hfree hne hmerge

theorem generation_following (h : Generation P n k rows) :
    Generation P n (k + 1) (following rows) := by
  refine ⟨nodup_eraseDups _, fun z => ?_⟩
  rw [mem_following_iff]
  constructor
  · rintro ⟨x, hx, y, hy, hadj, rfl⟩
    obtain ⟨hx, hk⟩ := (h.mem_iff x).mp hx
    obtain ⟨hmerge, hfreed, _⟩ := implicant_merge hx ((h.mem_iff y).mp hy).1 hadj
    exact ⟨hmerge, by rw [hfreed, hk]⟩
  · rintro ⟨hz, hk⟩
    obtain ⟨u, w, rfl⟩ := Row.exists_free_of_freed_pos z (by omega)
    obtain ⟨hon, hoff⟩ := (implicant_free_iff u w true).mp hz
    rw [Row.freed_free] at hk
    have hfixed (b : Bool) : Row.freed (u ++ .ofBool b :: w) = k := by
      rw [Row.freed_fixed]
      omega
    exact ⟨_, (h.mem_iff _).mpr ⟨hon, hfixed true⟩, _, (h.mem_iff _).mpr ⟨hoff, hfixed false⟩,
      Row.adjacent_flip u w true, (Row.merge_flip u w true).symm⟩

/-! ## all steps -/

/-- nothing follows an empty generation: implicants with more free cells would lead down to it -/
theorem Generation.freed_lt (h : Generation P n k []) (x : Row) (hx : Implicant P n x) :
    x.freed < k := by
  rcases Nat.lt_trichotomy x.freed k with hlt | heq | hgt
  · exact hlt
  · exact absurd ((h.mem_iff x).mpr ⟨hx, heq⟩) List.not_mem_nil
  · obtain ⟨u, w, hfree⟩ := Row.exists_free_of_freed_pos x (by omega)
    have hon := ((implicant_free_iff u w true).mp (hfree ▸ hx)).1
    have hless := h.freed_lt _ hon
    rw [Row.freed_fixed] at hless
    rw [hfree, Row.freed_free] at hgt ⊢
    omega
termination_by x.freed
decreasing_by
  rw [hfree, Row.freed_fixed, Row.freed_free]
  omega

theorem mem_flatMap_unmerged (h : Generation P n k rows) (x : Row) :
    x ∈ (generations rows).flatMap unmerged ↔ PrimeImplicant P n x ∧ k ≤ x.freed := by
  induction rows using generations.induct generalizing k with
  | case1 =>
    rw [generations_nil]
    refine ⟨fun hx => absurd hx List.not_mem_nil, ?_⟩
    rintro ⟨hx, hk⟩
    have := h.freed_lt x hx.1
    omega
  | case2 y rows ih =>
    rw [generations_cons, List.flatMap_cons, List.mem_append, mem_unmerged_iff h,
      ih (generation_following h), ← and_or_left]
    exact and_congr_right fun _ => by omega

end

/-! ## prime implicants -/

theorem nodup_primeImplicants (rows : List Row) : (primeImplicants rows).Nodup := nodup_eraseDups _

section
variable {P : List Bool → Prop} {n : Nat} {rows : List Row}
  (h : ∀ x, x ∈ rows ↔ Implicant P n x ∧ x.freed = 0)
include h

theorem generation_eraseDups : Generation P n 0 rows.eraseDups := by
  refine ⟨nodup_eraseDups rows, fun y => ?_⟩
  rw [List.mem_eraseDups, h]

/-- the run that starts from the values in `P` ends with the prime implicants of `P` -/
theorem mem_primeImplicants (x : Row) : x ∈ primeImplicants rows ↔ PrimeImplicant P n x := by
  rw [primeImplicants, leftOver, history, List.mem_eraseDups,
    mem_flatMap_unmerged (generation_eraseDups h)]
  exact and_iff_left (Nat.zero_le _)

end

end Sentential
