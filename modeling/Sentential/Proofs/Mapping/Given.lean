import Mathlib.Data.List.Find
import Mathlib.Data.List.Nodup
import Sentential.Assignment

/-!
# What counts of the pairs that are given

Pairs of names and data are put into a roster one after the other, and then the roster is checked in
its own order.  What comes of it can be said of the pairs as they were given.

* `lastUnder k ps`         the datum that was given last under a name;
* `firstRefused? ps`       the first name under which that datum is no truth value;
* `view_foldl`             what any store shows after pairs have been put into it;
* `find?_keys_putAll`      names stand in a roster in the order in which they were given first;
* `ofRoster_of_refused`, `exists_ofRoster`
                           the two ways in which the check ends.
-/

namespace Sentential

/-! ## stores -/

/-- a key that is there already is not found behind the others -/
theorem find?_append_cons_of_mem {κ : Type} (p : κ → Bool) (k : κ) (ks js : List κ) (h : k ∈ ks) :
    (ks ++ k :: js).find? p = (ks ++ js).find? p := by
  rw [List.find?_append, List.find?_append]
  cases hfind : ks.find? p with
  | some j => rfl
  | none =>
    have hk : ¬ p k = true := List.find?_eq_none.mp hfind k h
    rw [List.find?_cons_of_neg hk]

section
variable {κ α : Type} [DecidableEq κ]

/-- under different keys it does not matter which pair is the last -/
theorem lookup_reverse_eq_some_iff_mem (es : List (κ × α)) (h : (es.map Prod.fst).Nodup) (k : κ)
    (v : α) : es.reverse.lookup k = some v ↔ (k, v) ∈ es := by
  have hreverse : (es.reverse.map Prod.fst).Nodup := by
    rw [List.map_reverse, List.nodup_reverse]
    exact h
  rw [lookup_eq_some_iff_mem _ hreverse, List.mem_reverse]

/-- of the pairs that were put under a key the last one is seen, or what was there before -/
theorem view_foldl {σ : Type} (view : σ → κ → Option α) (put : σ → κ → α → σ)
    (hput : ∀ s k v j, view (put s k v) j = if j = k then some v else view s j)
    (ps : List (κ × α)) (s : σ) (j : κ) :
    view (ps.foldl (fun s p => put s p.1 p.2) s) j = (ps.reverse.lookup j).or (view s j) := by
  induction ps generalizing s with
  | nil => rfl
  | cons p ps ih =>
    rw [List.foldl_cons, ih, hput, List.reverse_cons, List.lookup_append, Option.or_assoc,
      lookup_cons_ite]
    by_cases hj : j = p.1
    · rw [if_pos hj, if_pos hj]
      rfl
    · rw [if_neg hj, if_neg hj]
      rfl

theorem Roster.get?_ofPairs (ps : List (κ × α)) (k : κ) :
    (Roster.ofPairs ps).get? k = ps.reverse.lookup k := by
  have hview := view_foldl Roster.get? Roster.put (fun r k v j => r.get?_put k j v) ps .empty k
  exact hview.trans (Option.or_none ..)

/-- a new key comes last -/
theorem keys_putEntry (k : κ) (v : α) (es : List (κ × α)) :
    (putEntry k v es).map Prod.fst
      = if k ∈ es.map Prod.fst then es.map Prod.fst else es.map Prod.fst ++ [k] := by
  induction es with
  | nil => rfl
  | cons e es ih =>
    obtain ⟨j, w⟩ := e
    unfold putEntry
    by_cases hk : k = j
    · rw [if_pos hk, hk, List.map_cons, List.map_cons, if_pos List.mem_cons_self]
    · have hmem : k ∈ ((j, w) :: es).map Prod.fst ↔ k ∈ es.map Prod.fst := by
        rw [List.map_cons, List.mem_cons, or_iff_right hk]
      simp only [if_neg hk, hmem]
      rw [List.map_cons, ih]
      split
      · rfl
      · rfl

/-- the first key with a property is the one that was given first -/
theorem Roster.find?_keys_putAll (p : κ → Bool) (ps : List (κ × α)) (r : Roster κ α) :
    (r.putAll ps).keys.find? p = (r.keys ++ ps.map Prod.fst).find? p := by
  induction ps generalizing r with
  | nil => rw [List.map_nil, List.append_nil]; rfl
  | cons e ps ih =>
    have hkeys : (r.put e.1 e.2).keys = if e.1 ∈ r.keys then r.keys else r.keys ++ [e.1] :=
      keys_putEntry e.1 e.2 r.entries
    show ((r.put e.1 e.2).putAll ps).keys.find? p = _
    rw [ih, hkeys, List.map_cons]
    by_cases he : e.1 ∈ r.keys
    · rw [if_pos he, find?_append_cons_of_mem p e.1 r.keys _ he]
    · rw [if_neg he, List.append_assoc]
      rfl

theorem Roster.find?_keys_ofPairs (p : κ → Bool) (ps : List (κ × α)) :
    (Roster.ofPairs ps).keys.find? p = (ps.map Prod.fst).find? p :=
  Roster.find?_keys_putAll p ps .empty

end

/-! ## pairs of names and data -/

/-- the datum that was given last under a name -/
def lastUnder (k : String) (ps : List (String × Datum)) : Option Datum := ps.reverse.lookup k

/-- the first name under which the last datum is no truth value -/
def firstRefused? (ps : List (String × Datum)) : Option String :=
  (ps.map Prod.fst).find? fun k => ((lastUnder k ps).bind Datum.bool?).isNone

/-- a name is refused for what it was given last, and only a refused name comes first -/
example :
    let ps : List (String × Datum) := [("X", .int 1), ("Y", .nothing), ("X", .bool true)]
    firstRefused? ps = some "Y" ∧ firstRefused? (ps.filter fun e => e.1 ≠ "Y") = none := by decide

theorem exists_lastUnder_iff (k : String) (ps : List (String × Datum)) :
    (∃ d, lastUnder k ps = some d) ↔ k ∈ ps.map Prod.fst := by
  rw [← Option.isSome_iff_exists, lastUnder, List.lookup_isSome_iff, List.mem_map]
  refine exists_congr fun e => and_congr List.mem_reverse ?_
  rw [beq_iff_eq, eq_comm]

theorem firstRefused?_eq_none_iff (ps : List (String × Datum)) :
    firstRefused? ps = none ↔ ∀ k d, lastUnder k ps = some d → ∃ b, d = .bool b := by
  rw [firstRefused?, List.find?_eq_none]
  constructor
  · intro h k d hd
    have hk := h k ((exists_lastUnder_iff k ps).mp ⟨d, hd⟩)
    rw [hd, Option.bind_some, Option.isNone_iff_eq_none] at hk
    obtain ⟨b, hb⟩ := Option.ne_none_iff_exists'.mp hk
    exact ⟨b, (d.bool?_eq_some_iff b).mp hb⟩
  · intro h k hk
    obtain ⟨d, hd⟩ := (exists_lastUnder_iff k ps).mpr hk
    obtain ⟨b, rfl⟩ := h k d hd
    rw [hd]
    exact Bool.false_ne_true

/-! ## the check -/

namespace Assignment

/-- a name can always be written -/
theorem refusal_text (k : String) (d : Datum) :
    refusal (.text k) d = .naming d (.notTruthValue d (.text k)) := by
  rw [refusal, Fault.naming_text]

theorem checkEntries_eq {κ : Type} (key : κ → Datum) (es : List (κ × Datum)) :
    checkEntries key es
      = (es.find? fun e => e.2.bool?.isNone).elim (.ok (es.map fun e => (e.1, e.2.holds)))
        fun e => .error (refusal (key e.1) e.2) := by
  induction es with
  | nil => rfl
  | cons e es ih =>
    obtain ⟨k, d⟩ := e
    rw [checkEntries, ih]
    cases d with
    | bool b =>
      rw [List.find?_cons_of_neg Bool.false_ne_true]
      cases es.find? fun e => e.2.bool?.isNone <;> rfl
    | _ => rfl

/-- what passes the check keeps its keys and has the truth values that the data are -/
theorem eq_of_checkEntries {κ : Type} {key : κ → Datum} {es : List (κ × Datum)}
    {bs : List (κ × Bool)} (h : checkEntries key es = .ok bs) :
    bs = es.map fun e => (e.1, e.2.holds) := by
  rw [checkEntries_eq] at h
  cases hfind : es.find? fun e => e.2.bool?.isNone with
  | none => exact (Except.ok.inj (hfind ▸ h)).symm
  | some e => exact nomatch hfind ▸ h

end Assignment

section
variable (ps : List (String × Datum))

theorem mem_entries_ofPairs (k : String) (d : Datum) :
    (k, d) ∈ (Roster.ofPairs ps).entries ↔ lastUnder k ps = some d := by
  rw [lastUnder, ← Roster.get?_ofPairs, Roster.mem_entries_iff]

/-- the first refused entry of the roster is under the first refused name -/
theorem map_find?_entries_ofPairs :
    ((Roster.ofPairs ps).entries.find? fun e => e.2.bool?.isNone).map Prod.fst
      = firstRefused? ps := by
  have hcongr : ∀ e ∈ (Roster.ofPairs ps).entries,
      e.2.bool?.isNone = ((lastUnder e.1 ps).bind Datum.bool?).isNone := by
    intro e he
    rw [(mem_entries_ofPairs ps e.1 e.2).mp he]
    rfl
  rw [firstRefused?, ← Roster.find?_keys_ofPairs, Roster.keys, List.find?_map]
  exact congrArg (Option.map Prod.fst) (List.find?_congr hcongr)

/-- the check fails for the first refused name and the last datum under it; it names the former
unless the latter is too long to be written -/
theorem ofRoster_of_refused {k : String} (h : firstRefused? ps = some k) :
    ∃ d, lastUnder k ps = some d ∧ d.bool? = none
      ∧ Assignment.ofRoster (.ofPairs ps) = .error (.naming d (.notTruthValue d (.text k))) := by
  rw [← map_find?_entries_ofPairs, Option.map_eq_some_iff] at h
  obtain ⟨e, hfind, rfl⟩ := h
  have hmem := List.mem_of_find?_eq_some hfind
  have hrefused := List.find?_some hfind
  refine ⟨e.2, (mem_entries_ofPairs ps e.1 e.2).mp hmem, Option.isNone_iff_eq_none.mp hrefused, ?_⟩
  rw [Assignment.ofRoster, Assignment.checkEntries_eq, hfind, ← Assignment.refusal_text]
  rfl

/-- where no name is refused, each has the value that it was given last -/
theorem exists_ofRoster (h : firstRefused? ps = none) :
    ∃ a, Assignment.ofRoster (.ofPairs ps) = .ok a
      ∧ ∀ k b, a.get? k = some b ↔ lastUnder k ps = some (.bool b) := by
  have hfind := h
  rw [← map_find?_entries_ofPairs, Option.map_eq_none_iff] at hfind
  let bs := (Roster.ofPairs ps).entries.map fun e => (e.1, e.2.holds)
  refine ⟨.ofList bs, ?_, fun k b => ?_⟩
  · rw [Assignment.ofRoster, Assignment.checkEntries_eq, hfind]
    rfl
  · have hkeys : bs.map Prod.fst = (Roster.ofPairs ps).keys := List.map_map ..
    have hdistinct : (bs.map Prod.fst).Nodup := hkeys ▸ (Roster.ofPairs ps).distinct
    have hview : (Assignment.ofList bs).get? k = bs.reverse.lookup k := by
      refine Eq.trans (view_foldl Assignment.get? Assignment.insert
        (fun a k v j => a.get?_insert k j v) bs .empty k) ?_
      exact Option.or_none ..
    rw [hview, lookup_reverse_eq_some_iff_mem bs hdistinct]
    have hbool := (firstRefused?_eq_none_iff ps).mp h
    constructor
    · intro hmem
      obtain ⟨e, he, heq⟩ := List.mem_map.mp hmem
      obtain ⟨rfl, rfl⟩ := Prod.mk.inj heq
      have hlast := (mem_entries_ofPairs ps e.1 e.2).mp he
      obtain ⟨b, hb⟩ := hbool _ _ hlast
      rw [hlast, hb]
      rfl
    · intro hlast
      exact List.mem_map.mpr ⟨(k, .bool b), (mem_entries_ofPairs ps k _).mpr hlast, rfl⟩

end

end Sentential
