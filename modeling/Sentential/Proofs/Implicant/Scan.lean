import Sentential.Proofs.Implicant.Generation
import Sentential.Proofs.Implicant.Order

/-!
# The order of the prime implicants

Each generation is in the order `Row.Before`.

A generation is scanned for pairs of adjacent rows: a row, then the later rows adjacent to it.  If
the generation is in order, then so is the list of its pairs.  The next generation keeps the first
pair of each merger, and the first pair of a row is its parents.  So the mergers follow one another
as their parents do, and that is their own order.

* `pairs rows`             the pairs that the scan finds, and their order;
* `pairwise_eraseDups_map` a list of images, each once, has the order of the first preimages;
* `sorted_following`       one step keeps the order;
* `sorted_flatMap_unmerged`  the whole run;
* `sorted_primeImplicants` the run that starts from values in order.
-/

namespace Sentential

/-! ## pairs -/

/-- the pairs of adjacent rows, in the order of the scan -/
def pairs : List Row → List (Row × Row)
  | [] => []
  | x :: later => (later.filter x.adjacent).map (x, ·) ++ pairs later

def merged (p : Row × Row) : Row := p.1.merge p.2

theorem mergers_eq (rows : List Row) : mergers rows = (pairs rows).map merged := by
  induction rows with
  | nil => rfl
  | cons x later ih =>
    rw [mergers, pairs, List.map_append, List.map_map, ih]
    rfl

theorem mem_of_mem_pairs (rows : List Row) (p : Row × Row) (h : p ∈ pairs rows) :
    p.1 ∈ rows ∧ p.2 ∈ rows ∧ p.1.adjacent p.2 = true := by
  induction rows with
  | nil => exact absurd h List.not_mem_nil
  | cons x later ih =>
    rcases List.mem_append.mp h with h | h
    · obtain ⟨y, hy, rfl⟩ := List.mem_map.mp h
      obtain ⟨hy, hadj⟩ := List.mem_filter.mp hy
      exact ⟨List.mem_cons_self .., List.mem_cons_of_mem _ hy, hadj⟩
    · obtain ⟨hx, hy, hadj⟩ := ih h
      exact ⟨List.mem_cons_of_mem _ hx, List.mem_cons_of_mem _ hy, hadj⟩

section
variable {rows : List Row} (hrows : rows.Pairwise Row.Before)
include hrows

theorem before_of_mem_pairs (p : Row × Row) (h : p ∈ pairs rows) : p.1.Before p.2 := by
  induction rows with
  | nil => exact absurd h List.not_mem_nil
  | cons x later ih =>
    obtain ⟨hx, hlater⟩ := List.pairwise_cons.mp hrows
    rcases List.mem_append.mp h with h | h
    · obtain ⟨y, hy, rfl⟩ := List.mem_map.mp h
      exact hx y (List.mem_filter.mp hy).1
    · exact ih hlater h

theorem mem_pairs (x y : Row) (hx : x ∈ rows) (hy : y ∈ rows) (hadj : x.adjacent y = true)
    (hxy : x.Before y) : (x, y) ∈ pairs rows := by
  induction rows with
  | nil => exact absurd hx List.not_mem_nil
  | cons z later ih =>
    obtain ⟨hz, hlater⟩ := List.pairwise_cons.mp hrows
    rw [pairs, List.mem_append]
    have hy' : y ∈ later := by
      rcases List.mem_cons.mp hy with rfl | hy'
      · rcases List.mem_cons.mp hx with rfl | hx'
        · exact absurd hxy (Row.before_irrefl x)
        · exact absurd hxy (hz x hx').asymm
      · exact hy'
    rcases List.mem_cons.mp hx with rfl | hx'
    · exact .inl (List.mem_map.mpr ⟨y, List.mem_filter.mpr ⟨hy', hadj⟩, rfl⟩)
    · exact .inr (ih hlater hx' hy')

theorem sorted_pairs : (pairs rows).Pairwise Row.PairBefore := by
  induction rows with
  | nil => exact .nil
  | cons x later ih =>
    obtain ⟨hx, hlater⟩ := List.pairwise_cons.mp hrows
    refine List.pairwise_append.mpr ⟨?_, ih hlater, fun p hp q hq => ?_⟩
    · refine List.pairwise_map.mpr ((hlater.filter x.adjacent).imp ?_)
      exact fun hyz => .inr ⟨rfl, hyz⟩
    · obtain ⟨y, _, rfl⟩ := List.mem_map.mp hp
      exact .inl (hx q.1 (mem_of_mem_pairs later q hq).1)

end

/-! ## images, each once -/

/-- if `g z` is the first preimage of each image `z`, then the images, each once, have the order of
these preimages -/
theorem pairwise_eraseDups_map {α β : Type} [BEq β] [LawfulBEq β] {lt : α → α → Prop} (f : α → β)
    (g : β → α) (xs : List α) (hxs : xs.Pairwise lt)
    (hg : ∀ x ∈ xs, g (f x) ∈ xs ∧ f (g (f x)) = f x ∧ ¬ lt x (g (f x))) :
    (xs.map f).eraseDups.Pairwise fun z z' => lt (g z) (g z') := by
  match xs with
  | [] => exact .nil
  | x :: xs =>
    obtain ⟨hx, hrest⟩ := List.pairwise_cons.mp hxs
    rw [List.map_cons, List.eraseDups_cons, List.filter_map, List.pairwise_cons]
    have hself : g (f x) = x := by
      obtain ⟨hmem, _, hlt⟩ := hg x (List.mem_cons_self ..)
      rcases List.mem_cons.mp hmem with heq | hmem
      · exact heq
      · exact absurd (hx _ hmem) hlt
    -- the first preimage of another image is not dropped
    have hkept (y : α) (hy : y ∈ xs) (hne : f y ≠ f x) : g (f y) ∈ xs := by
      obtain ⟨hmem, himage, _⟩ := hg y (List.mem_cons_of_mem _ hy)
      rcases List.mem_cons.mp hmem with heq | hmem
      · exact absurd (heq ▸ himage).symm hne
      · exact hmem
    have hne (y : α) : ((fun z => !z == f x) ∘ f) y = true ↔ f y ≠ f x := by simp
    constructor
    · intro z hz
      obtain ⟨y, hy, rfl⟩ := List.mem_map.mp (List.mem_eraseDups.mp hz)
      obtain ⟨hy, hyx⟩ := List.mem_filter.mp hy
      rw [hself]
      exact hx _ (hkept y hy ((hne y).mp hyx))
    · refine pairwise_eraseDups_map f g _ (hrest.filter _) fun y hy => ?_
      obtain ⟨hy, hyx⟩ := List.mem_filter.mp hy
      obtain ⟨_, himage, hlt⟩ := hg y (List.mem_cons_of_mem _ hy)
      refine ⟨List.mem_filter.mpr ⟨hkept y hy ((hne y).mp hyx), ?_⟩, himage, hlt⟩
      rw [hne, himage]
      exact (hne y).mp hyx
termination_by xs.length
decreasing_by exact Nat.lt_succ_of_le (List.length_filter_le ..)

theorem sorted_eraseDups (rows : List Row) (h : rows.Pairwise Row.Before) :
    rows.eraseDups.Pairwise Row.Before := by
  have hid := pairwise_eraseDups_map id id rows h fun x hx => ⟨hx, rfl, Row.before_irrefl x⟩
  rwa [List.map_id] at hid

/-! ## one step -/

section
variable {P : List Bool → Prop} {n k : Nat} {rows : List Row}

/-- the parents of an implicant are one of the pairs that merge to it -/
theorem parents_mem_pairs (h : Generation P n k rows) (hrows : rows.Pairwise Row.Before)
    (z : Row) (hz : Implicant P n z) (hk : z.freed = k + 1) :
    z.parents ∈ pairs rows ∧ merged z.parents = z := by
  obtain ⟨u, w, rfl, hu⟩ := Row.exists_first_free z (by omega)
  obtain ⟨hon, hoff⟩ := (implicant_free_iff u w true).mp hz
  rw [Row.freed_free] at hk
  have hfreed (b : Bool) : Row.freed (u ++ .ofBool b :: w) = k := by
    rw [Row.freed_fixed]
    omega
  rw [Row.parents_of_freed_eq_zero u w hu]
  refine ⟨mem_pairs hrows _ _ ?_ ?_ (Row.adjacent_flip u w true) (Row.before_flip u w),
    Row.merge_flip u w true⟩
  · exact (h.mem_iff _).mpr ⟨hon, hfreed true⟩
  · exact (h.mem_iff _).mpr ⟨hoff, hfreed false⟩

theorem not_pairBefore_parents (h : Generation P n k rows) (hrows : rows.Pairwise Row.Before)
    (p : Row × Row) (hp : p ∈ pairs rows) : ¬ Row.PairBefore p (merged p).parents := by
  obtain ⟨x, y⟩ := p
  obtain ⟨hx, hy, hadj⟩ := mem_of_mem_pairs rows (x, y) hp
  have hbefore : x.Before y := before_of_mem_pairs hrows (x, y) hp
  have hl : x.length = n := ((h.mem_iff x).mp hx).1.1
  have hl' : y.length = n := ((h.mem_iff y).mp hy).1.1
  obtain ⟨u, w, b, rfl, rfl⟩ := Row.exists_flip_of_adjacent x y (hl.trans hl'.symm) hadj
  cases b with
  | false => exact absurd hbefore (Row.before_flip u w).asymm
  | true =>
    have hmerge : merged (u ++ .ofBool true :: w, u ++ .ofBool (!true) :: w) = u ++ .free :: w :=
      Row.merge_flip u w true
    rw [hmerge]
    rcases Row.parents_le_of_merge u w with heq | hlt
    · rw [heq]
      exact Row.pairBefore_irrefl _
    · exact hlt.asymm

theorem sorted_following (h : Generation P n k rows) (hrows : rows.Pairwise Row.Before) :
    (following rows).Pairwise Row.Before := by
  have hnext := generation_following h
  have hparents : (following rows).Pairwise fun z z' => Row.PairBefore z.parents z'.parents := by
    rw [following, mergers_eq]
    refine pairwise_eraseDups_map merged Row.parents _ (sorted_pairs hrows) fun p hp => ?_
    have hmem : merged p ∈ following rows := by
      rw [following, mergers_eq, List.mem_eraseDups]
      exact List.mem_map.mpr ⟨p, hp, rfl⟩
    obtain ⟨hz, hk⟩ := (hnext.mem_iff _).mp hmem
    obtain ⟨hpair, hmerged⟩ := parents_mem_pairs h hrows _ hz hk
    exact ⟨hpair, hmerged, not_pairBefore_parents h hrows p hp⟩
  refine hparents.imp_of_mem fun {z z'} hz hz' hlt => ?_
  obtain ⟨hz, hk⟩ := (hnext.mem_iff z).mp hz
  obtain ⟨hz', hk'⟩ := (hnext.mem_iff z').mp hz'
  have hl : z.length = z'.length := hz.1.trans hz'.1.symm
  rcases Row.before_trichotomy hl with hlt' | heq | hgt
  · exact hlt'
  · exact absurd (heq ▸ hlt) (Row.pairBefore_irrefl _)
  · have hback := Row.pairBefore_parents hl.symm (by omega) (hk'.trans hk.symm) hgt
    exact absurd hlt hback.asymm

/-! ## all steps -/

theorem sorted_flatMap_unmerged (h : Generation P n k rows) (hrows : rows.Pairwise Row.Before) :
    ((generations rows).flatMap unmerged).Pairwise Row.Before := by
  induction rows using generations.induct generalizing k with
  | case1 =>
    rw [generations_nil]
    exact .nil
  | case2 y rows ih =>
    have hnext := generation_following h
    rw [generations_cons, List.flatMap_cons]
    refine List.pairwise_append.mpr ⟨?_, ih hnext (sorted_following h hrows), fun x hx z hz => ?_⟩
    · rw [unmerged_eq]
      exact hrows.filter _
    · -- what is left over later has more free cells
      have hk := ((mem_unmerged_iff h x).mp hx).2
      have hk' := ((mem_flatMap_unmerged hnext z).mp hz).2
      exact .inl (by omega)

end

/-! ## prime implicants -/

theorem sorted_primeImplicants {P : List Bool → Prop} {n : Nat} {rows : List Row}
    (h : ∀ x, x ∈ rows ↔ Implicant P n x ∧ x.freed = 0) (hrows : rows.Pairwise Row.Before) :
    (primeImplicants rows).Pairwise Row.Before := by
  have hstart := sorted_eraseDups rows hrows
  exact sorted_eraseDups _ (sorted_flatMap_unmerged (generation_eraseDups h) hstart)

end Sentential
