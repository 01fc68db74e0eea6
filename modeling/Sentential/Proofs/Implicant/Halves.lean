import Sentential.Proofs.Implicant.Coverage

/-!
# Halves of a row

Two adjacent rows merge to a row that covers what they cover together.  The other way round, a row
falls into two halves at each of its free cells: the cell is fixed one way in one half and the other
way in the other.  Nothing else is a half, if a half is any row that has one free cell less and
covers only what the whole row covers.

Rows are over `n` names here, with a cell for each of them.

* `Row.freesTo_of_covers`  a row that covers only what another one covers is that row with some of
                           its cells fixed;
* `Row.merge_cancel`       a row has at most one partner for each merger;
* `Assignment.exists_values`   any values are those of an assignment;
* `Row.IsHalf x n z`       `x` is a half of `z`, said by assignments;
* `IsHalf.merge_eq`, `IsHalf.exists_partner`   adjacent halves merge to the whole row, and each half
                           has such a partner;
* `halves_of_merge`        what the rows are that adjacent rows merge to.
-/

namespace Sentential

namespace Cell

theorem exists_admits (c : Cell) : ∃ v, c.admits v = true := by
  cases c with
  | on => exact ⟨true, rfl⟩
  | off => exact ⟨false, rfl⟩
  | free => exact ⟨true, rfl⟩

theorem eq_or_free (c d : Cell) (h : ∀ v, c.admits v = true → d.admits v = true) :
    d = c ∨ d = .free := by
  revert h
  cases c <;> cases d <;> decide

theorem join_cancel (a b c : Cell) (hb : a.isFree = b.isFree) (hc : a.isFree = c.isFree)
    (h : a.join b = a.join c) : b = c := by
  revert hb hc h
  cases a <;> cases b <;> cases c <;> decide

end Cell

namespace Row

/-! ## rows by what they cover -/

theorem exists_covered (x : Row) : ∃ vs : List Bool, vs.length = x.length ∧ x.covers vs = true := by
  induction x with
  | nil => exact ⟨[], rfl, rfl⟩
  | cons c x ih =>
    obtain ⟨v, hv⟩ := c.exists_admits
    obtain ⟨vs, hl, hvs⟩ := ih
    refine ⟨v :: vs, ?_, ?_⟩
    · rw [List.length_cons, List.length_cons, hl]
    · rw [covers_cons, hv, hvs]
      rfl

theorem freesTo_of_covers (x y : Row) (hl : x.length = y.length)
    (h : ∀ vs : List Bool, vs.length = x.length → x.covers vs = true → y.covers vs = true) :
    x.FreesTo y := by
  induction x generalizing y with
  | nil =>
    rw [List.eq_nil_of_length_eq_zero hl.symm]
    exact .nil
  | cons c x ih =>
    cases y with
    | nil => exact nomatch hl
    | cons d y =>
      obtain ⟨v, hv⟩ := c.exists_admits
      obtain ⟨vs, hvs, hx⟩ := exists_covered x
      have hboth (w : Bool) (ws : List Bool) (hws : ws.length = x.length)
          (hw : c.admits w = true) (hxs : covers x ws = true) :
          d.admits w = true ∧ covers y ws = true := by
        have hcons : covers (c :: x) (w :: ws) = true := by
          rw [covers_cons, hw, hxs]
          rfl
        have hy := h (w :: ws) (by rw [List.length_cons, List.length_cons, hws]) hcons
        rwa [covers_cons, Bool.and_eq_true] at hy
      have htail : FreesTo x y :=
        ih y (Nat.succ.inj hl) fun ws hws hxs => (hboth v ws hws hv hxs).2
      rcases Cell.eq_or_free c d fun w hw => (hboth w vs hvs hw hx).1 with rfl | rfl
      · exact .keep d htail
      · exact .free c htail

/-! ## partners -/

theorem merge_cancel (x y z : Row) (hy : x.length = y.length) (hz : x.length = z.length)
    (hxy : x.comparable y = true) (hxz : x.comparable z = true) (h : x.merge y = x.merge z) :
    y = z := by
  induction x generalizing y z with
  | nil => rw [List.eq_nil_of_length_eq_zero hy.symm, List.eq_nil_of_length_eq_zero hz.symm]
  | cons a x ih =>
    cases y with
    | nil => exact nomatch hy
    | cons b y =>
      cases z with
      | nil => exact nomatch hz
      | cons c z =>
        rw [comparable_cons, Bool.and_eq_true, beq_iff_eq] at hxy hxz
        rw [merge_cons, merge_cons, List.cons.injEq] at h
        rw [Cell.join_cancel a b c hxy.1 hxz.1 h.1,
          ih y z (Nat.succ.inj hy) (Nat.succ.inj hz) hxy.2 hxz.2 h.2]

end Row

/-! ## values of assignments -/

/-- keys after any given text for the values, each a longer text than the one before -/
theorem exists_ascending (k : String) (vs : List Bool) :
    ∃ es : List (String × Bool), Ascending es ∧ (∀ e ∈ es, k < e.1) ∧ es.map Prod.snd = vs := by
  induction vs generalizing k with
  | nil => exact ⟨[], .nil, List.forall_mem_nil _, rfl⟩
  | cons v vs ih =>
    have hk : k < k.push 'x' := by
      have hlonger : k.toList ++ [] < k.toList ++ ['x'] :=
        List.append_left_lt (List.nil_lt_cons 'x' [])
      rwa [List.append_nil, ← String.toList_push, ← String.lt_iff] at hlonger
    obtain ⟨es, hes, hlater, hvalues⟩ := ih (k.push 'x')
    refine ⟨(k.push 'x', v) :: es, List.pairwise_cons.mpr ⟨hlater, hes⟩, ?_, ?_⟩
    · exact List.forall_mem_cons.mpr ⟨hk, fun e he => String.lt_trans hk (hlater e he)⟩
    · rw [List.map_cons, hvalues]

theorem Assignment.exists_values (vs : List Bool) :
    ∃ a : Assignment, a.keys.length = vs.length ∧ a.values = vs := by
  obtain ⟨es, hes, _, hvalues⟩ := exists_ascending "" vs
  refine ⟨⟨es, hes⟩, ?_, hvalues⟩
  rw [← hvalues, keys, List.length_map, List.length_map]

namespace Row

/-! ## halves -/

/-- a row over `n` names that has one free cell less than `z` and covers only what `z` covers -/
structure IsHalf (x : Row) (n : Nat) (z : Row) : Prop where
  length_eq : x.length = n
  freed_eq : x.freed + 1 = z.freed
  covered : ∀ a : Assignment, a.keys.length = n → x.covers a.values = true →
    z.covers a.values = true

section
variable {n : Nat} {z : Row} (hz : z.length = n)
include hz

theorem isHalf_of_freesTo {x : Row} (h : x.FreesTo z) (hfreed : x.freed + 1 = z.freed) :
    x.IsHalf n z :=
  ⟨h.length_eq.trans hz, hfreed, fun a _ hx => h.covers a.values hx⟩

namespace IsHalf
variable {x y : Row} (hx : x.IsHalf n z)
include hx

theorem freesTo : x.FreesTo z := by
  refine freesTo_of_covers x z (hx.length_eq.trans hz.symm) fun vs hvs hcovers => ?_
  obtain ⟨a, hkeys, rfl⟩ := Assignment.exists_values vs
  exact hx.covered a (hkeys.trans (hvs.trans hx.length_eq)) hcovers

/-- the merger covers only what the whole row covers, and it has as many free cells -/
theorem merge_eq (hy : y.IsHalf n z) (h : x.adjacent y = true) : x.merge y = z := by
  have hl : x.length = y.length := hx.length_eq.trans hy.length_eq.symm
  have hlength : (x.merge y).length = z.length := by
    rw [length_merge, ← hl, Nat.min_self, hx.length_eq, hz]
  have hfrees : (x.merge y).FreesTo z := by
    refine freesTo_of_covers _ z hlength fun vs _ hcovers => ?_
    rw [covers_merge x y hl h, Bool.or_eq_true] at hcovers
    rcases hcovers with hcovers | hcovers
    · exact (hx.freesTo hz).covers vs hcovers
    · exact (hy.freesTo hz).covers vs hcovers
  exact hfrees.eq_of_freed_eq ((freed_merge x y hl h).trans hx.freed_eq)

/-- the partner has the one cell turned round that is free in the whole row -/
theorem exists_partner : ∃ y, y.IsHalf n z ∧ x.adjacent y = true := by
  have hfrees := hx.freesTo hz
  have hne : z ≠ x := by
    rintro rfl
    exact absurd hx.freed_eq (Nat.succ_ne_self _)
  obtain ⟨u, w, b, rfl, hfirst⟩ := hfrees.exists_first hne
  have hfreed := hx.freed_eq
  rw [freed_fixed, ← freed_free] at hfreed
  obtain rfl := hfirst.eq_of_freed_eq hfreed
  refine ⟨u ++ .ofBool (!b) :: w, ?_, adjacent_flip u w b⟩
  refine isHalf_of_freesTo hz (.append_free u w _) ?_
  rw [freed_fixed, freed_free]

end IsHalf

end

/-- **What a merger is.**  Two comparable rows over `n` names with one difference merge to a row
that covers what one of them covers and nothing else, in whichever order they are merged, and that
has one free cell more.  Each half of this row has exactly one other half that is comparable with it
and differs from it in one cell, and the two merge to the same row. -/
theorem halves_of_merge (n : Nat) (x y : Row) (hx : x.length = n) (hy : y.length = n)
    (hcomp : x.comparable y = true) (hdist : x.distance y = 1) :
    (∀ a : Assignment, (x.merge y).covers a.values = true
        ↔ x.covers a.values = true ∨ y.covers a.values = true)
      ∧ x.merge y = y.merge x
      ∧ (x.merge y).freed = x.freed + 1
      ∧ ∀ z : Row, z.IsHalf n (x.merge y) →
        ∃ w : Row, w.IsHalf n (x.merge y) ∧ w ≠ z
          ∧ z.comparable w = true ∧ z.distance w = 1 ∧ z.merge w = x.merge y
          ∧ ∀ w' : Row, w'.IsHalf n (x.merge y) → z.comparable w' = true → z.distance w' = 1 →
            w' = w := by
  have hl : x.length = y.length := hx.trans hy.symm
  have hadj : x.adjacent y = true := (adjacent_iff x y).mpr ⟨hcomp, hdist⟩
  have hlength : (x.merge y).length = n := by rw [length_merge, ← hl, Nat.min_self, hx]
  refine ⟨fun a => ?_, merge_comm x y, freed_merge x y hl hadj, fun z hz => ?_⟩
  · rw [covers_merge x y hl hadj, Bool.or_eq_true]
  · obtain ⟨w, hw, hzw⟩ := hz.exists_partner hlength
    have hmerge := hz.merge_eq hlength hw hzw
    obtain ⟨hcomp', hdist'⟩ := (adjacent_iff z w).mp hzw
    refine ⟨w, hw, ?_, hcomp', hdist', hmerge, fun w' hw' hc hd => ?_⟩
    · rintro rfl
      rw [distance_self] at hdist'
      exact absurd hdist' Nat.zero_ne_one
    · -- both partners merge with `z` to the whole row
      have hmerge' := hz.merge_eq hlength hw' ((adjacent_iff z w').mpr ⟨hc, hd⟩)
      exact merge_cancel z w' w (hz.length_eq.trans hw'.length_eq.symm)
        (hz.length_eq.trans hw.length_eq.symm) hc hcomp' (hmerge'.trans hmerge.symm)

/-- a half of the merger that is neither of the two rows -/
theorem halves_of_merge_of_last_cell :
    let x : Row := [.on, .off, .free]
    let y : Row := [.on, .on, .free]
    let z : Row := [.on, .free, .off]
    x.length = 3 ∧ y.length = 3 ∧ x.comparable y = true ∧ x.distance y = 1
      ∧ z.IsHalf 3 (x.merge y)
      ∧ ∃ w : Row, w.IsHalf 3 (x.merge y) ∧ w ≠ z ∧ z.comparable w = true ∧ z.distance w = 1
        ∧ z.merge w = x.merge y := by
  intro x y z
  have hz : z.IsHalf 3 (x.merge y) :=
    isHalf_of_freesTo rfl (.append_free [.on, .free] [] .off) rfl
  obtain ⟨_, _, _, halves⟩ := halves_of_merge 3 x y rfl rfl rfl rfl
  obtain ⟨w, hw, hne, hcomp, hdist, hmerge, _⟩ := halves z hz
  exact ⟨rfl, rfl, rfl, rfl, hz, w, hw, hne, hcomp, hdist, hmerge⟩

end Row

end Sentential
