import Mathlib.Data.List.Perm.Subperm
import Sentential.Implicant.Row
import Sentential.Proofs.Mapping.Given
import Sentential.Proofs.Semantics.Tabulation
import Sentential.Semantics.Evaluation

/-!
# A mapping is known by what it shows

A mapping under names can be made in many ways: of pairs in any order, with repetitions, with
further arguments by name, or of another mapping.  What it becomes depends on the last datum under
each name alone, and two mappings that show the same are the same.

* `textEntries ps`           pairs of names and data, as entries;
* `ofArguments_eq`           the mapping made of entries and arguments by name is that of the
                             assignment made of all the pairs, one after the other;
* `IsBuilt m`                a mapping under texts that was made in some way; `isBuilt_iff`: it is
                             that of an assignment;
* `same_mapping_iff`         mappings of assignments that are compared as dictionaries are;
* `ofArguments_canonical`    what is made, what is refused, and when two mappings are the same.
-/

namespace Sentential

/-- the entries of a roster are a roster of their own -/
theorem Roster.ofPairs_entries {κ α : Type} [DecidableEq κ] (r : Roster κ α) :
    Roster.ofPairs r.entries = r := by
  have hentries := Roster.entries_ofPairs r.entries r.distinct
  obtain ⟨es, h⟩ := r
  exact Roster.mk.injEq .. ▸ hentries

/-! ## assignments -/

theorem Assignment.nodup_entries (a : Assignment) : a.entries.Nodup :=
  List.Nodup.of_map Prod.fst a.nodup_keys

theorem Assignment.mem_keys_iff (a : Assignment) (k : String) :
    k ∈ a.keys ↔ ∃ b, a.get? k = some b := by
  rw [keys, List.mem_map]
  constructor
  · rintro ⟨e, he, rfl⟩
    exact ⟨e.2, (a.mem_entries_iff e.1 e.2).mp he⟩
  · rintro ⟨b, hb⟩
    exact ⟨(k, b), (a.mem_entries_iff k b).mpr hb, rfl⟩

/-- the names under which pairs were given, if none is refused and the last data are shown -/
theorem Assignment.mem_keys_iff_of_shown (a : Assignment) {ps : List (String × Datum)}
    (hnone : firstRefused? ps = none)
    (hget : ∀ k b, a.get? k = some b ↔ lastUnder k ps = some (.bool b)) (k : String) :
    k ∈ a.keys ↔ k ∈ ps.map Prod.fst := by
  rw [a.mem_keys_iff, ← exists_lastUnder_iff]
  constructor
  · rintro ⟨b, hb⟩
    exact ⟨_, (hget k b).mp hb⟩
  · rintro ⟨d, hd⟩
    obtain ⟨b, rfl⟩ := (firstRefused?_eq_none_iff ps).mp hnone k d hd
    exact ⟨b, (hget k b).mpr hd⟩

theorem Assignment.keys_mapping (a : Assignment) : a.mapping.keys = a.keys.map .text := by
  rw [mapping, Mapping.keys, keys, List.map_map, List.map_map]
  rfl

theorem Assignment.eq_of_perm {a b : Assignment} (h : a.entries.Perm b.entries) : a = b := by
  have hentries : a.entries = b.entries :=
    h.eq_of_pairwise (fun _ _ _ _ hlt hgt => absurd hgt (String.lt_asymm hlt)) a.ascending
      b.ascending
  cases a
  cases b
  cases hentries
  rfl

/-- an assignment is known by what it shows -/
theorem Assignment.eq_of_get? {a b : Assignment} (h : a.get? = b.get?) : a = b := by
  refine Assignment.eq_of_perm ((List.perm_ext_iff_of_nodup a.nodup_entries b.nodup_entries).mpr ?_)
  rintro ⟨k, v⟩
  rw [a.mem_entries_iff, b.mem_entries_iff, h]

namespace Mapping

/-! ## entries under texts -/

/-- pairs of names and data, as entries -/
def textEntries (ps : List (String × Datum)) : List (Datum × Datum) :=
  ps.map fun e => (.text e.1, e.2)

theorem put_text (k : String) (v : Datum) (ps : List (String × Datum)) :
    put (.text k) v (textEntries ps) = textEntries (putEntry k v ps) := by
  induction ps with
  | nil => rfl
  | cons e ps ih =>
    obtain ⟨j, w⟩ := e
    show (if (Datum.text j).same (.text k) then _ else _ :: put _ _ (textEntries ps)) = _
    rw [Datum.same_text, ih, putEntry]
    by_cases hj : j = k
    · rw [if_pos (decide_eq_true hj), if_pos hj.symm]
      rfl
    · rw [if_neg (by simp [hj]), if_neg (Ne.symm hj)]
      rfl

/-- entries under texts, put one after the other -/
def putAll (es : List (Datum × Datum)) (ps : List (String × Datum)) : List (Datum × Datum) :=
  ps.foldl (fun es e => put (.text e.1) e.2 es) es

theorem putAll_textEntries (ps : List (String × Datum)) (r : Roster String Datum) :
    putAll (textEntries r.entries) ps
      = textEntries (r.putAll ps).entries := by
  induction ps generalizing r with
  | nil => rfl
  | cons e ps ih =>
    rw [putAll, List.foldl_cons, put_text]
    exact ih (r.put e.1 e.2)

theorem collect_textEntries (ps : List (String × Datum)) :
    collect (textEntries ps) = .ok (textEntries (Roster.ofPairs ps).entries) := by
  have hfold : collect (textEntries ps) = .ok (putAll (textEntries []) ps) := by
    rw [collect, textEntries, List.foldlM_map]
    exact List.foldlM_pure ..
  rw [hfold]
  exact congrArg Except.ok (putAll_textEntries ps .empty)

theorem texts?_textEntries (ps : List (String × Datum)) : texts? (textEntries ps) = some ps := by
  induction ps with
  | nil => rfl
  | cons e ps ih =>
    show (texts? (textEntries ps)).map _ = _
    rw [ih]
    rfl

theorem ofEntries_textEntries (ps : List (String × Datum)) :
    ofEntries (textEntries ps) = (Assignment.ofRoster (.ofPairs ps)).map Assignment.mapping := by
  rw [ofEntries, texts?_textEntries]
  show (do let a ← Assignment.ofRoster (.ofPairs ps); pure a.mapping) = _
  cases Assignment.ofRoster (.ofPairs ps) <;> rfl

/-! ## arguments -/

/-- the pairs by position, then those by name -/
def given (items : Option (List (String × Datum))) (named : Roster String Datum) :
    List (String × Datum) :=
  items.getD [] ++ named.entries

/-- a call makes an assignment of all the pairs, as if they had been given one after the other -/
theorem ofArguments_eq (items : Option (List (String × Datum))) (named : Roster String Datum)
    (h : ∀ k ∈ named.keys, isReserved true k = false) :
    ofArguments (items.map textEntries) named
      = (Assignment.ofRoster (.ofPairs (given items named))).map Assignment.mapping := by
  have hfree : ∀ k ∈ named.keys, k ≠ "self" ∧ k ≠ "items" := fun k hk => by
    simpa [isReserved] using h k hk
  have hfind (b : Bool) : named.keys.find? (isReserved b) = none := by
    refine List.find?_eq_none.mpr fun k hk => ?_
    simp [isReserved, hfree k hk]
  have hitems : named.get? "items" = none := by
    refine List.lookup_eq_none_iff.mpr fun e he => bne_iff_ne.mpr fun heq => ?_
    exact (hfree e.1 (List.mem_map_of_mem he)).2 heq.symm
  have hown : named.entries.filter (fun e : String × Datum => e.1 ≠ "items") = named.entries := by
    refine List.filter_eq_self.mpr fun e he => ?_
    exact decide_eq_true (hfree e.1 (List.mem_map_of_mem he)).2
  have hall (r : Roster String Datum) :
      ofEntries (putAll (textEntries r.entries) named.entries)
        = (Assignment.ofRoster (r.putAll named.entries)).map Assignment.mapping := by
    rw [putAll_textEntries, ofEntries_textEntries, Roster.ofPairs_entries]
  rw [ofArguments, hfind, hitems, hown]
  cases items with
  | none => exact hall .empty
  | some ps =>
    show (do
      let fs ← collect (textEntries ps)
      ofEntries (putAll fs named.entries)) = _
    rw [collect_textEntries]
    refine (hall (.ofPairs ps)).trans ?_
    rw [given, Option.getD_some, Roster.ofPairs, Roster.ofPairs, Roster.putAll, Roster.putAll,
      Roster.putAll, List.foldl_append]

/-- what goes by the name of a parameter is no entry; beside entries by position it is refused -/
theorem ofArguments_of_reserved (es : List (Datum × Datum)) (named : Roster String Datum)
    (h : ∃ k ∈ named.keys, isReserved true k = true) :
    ∃ k ∈ named.keys, isReserved true k = true ∧ ofArguments (some es) named
      = .error (.repeatedArgument "SymbolMapping.__init__" k) := by
  obtain ⟨k, hk⟩ := Option.isSome_iff_exists.mp (List.find?_isSome.mpr h)
  refine ⟨k, List.mem_of_find?_eq_some hk, List.find?_some hk, ?_⟩
  unfold ofArguments
  rw [Option.isSome_some, hk]

/-! ## mappings that were made -/

/-- the mapping was made of some arguments, and all its keys are texts -/
def IsBuilt (m : Mapping) : Prop :=
  (∃ items named, ofArguments items named = .ok m) ∧ ∀ k ∈ m.keys, ∃ s, k = .text s

theorem exists_textEntries (es : List (Datum × Datum)) (h : ∀ e ∈ es, ∃ s, e.1 = .text s) :
    ∃ ps, textEntries ps = es := by
  induction es with
  | nil => exact ⟨[], rfl⟩
  | cons e es ih =>
    obtain ⟨s, hs⟩ := h e List.mem_cons_self
    obtain ⟨ps, rfl⟩ := ih fun d hd => h d (List.mem_cons_of_mem _ hd)
    refine ⟨(s, e.2) :: ps, ?_⟩
    show (Datum.text s, e.2) :: textEntries ps = e :: textEntries ps
    rw [← hs]

/-- a mapping under texts is that of an assignment, in whatever way it was sorted -/
theorem exists_mapping_of_ofEntries {es : List (Datum × Datum)} {m : Mapping}
    (h : ofEntries es = .ok m) (hkeys : ∀ k ∈ m.keys, ∃ s, k = .text s) :
    ∃ a : Assignment, a.mapping = m := by
  unfold ofEntries at h
  split at h
  · obtain ⟨a, _, h⟩ := Sorting.eq_ok_of_bind h
    exact ⟨a, Except.ok.inj h⟩
  · rename_i hnone
    -- the entries were sorted as data, so some key among them is no text
    obtain ⟨bs, hcheck, h⟩ := Sorting.eq_ok_of_bind h
    obtain ⟨cs, hsort, h⟩ := Sorting.eq_ok_of_bind h
    obtain rfl := Except.ok.inj h
    obtain rfl := Assignment.eq_of_checkEntries hcheck
    have htexts : ∀ e ∈ es, ∃ s, e.1 = .text s := by
      intro e he
      have hmem : (e.1, e.2.holds) ∈ es.map fun e => (e.1, e.2.holds) :=
        List.mem_map.mpr ⟨e, he, rfl⟩
      have hsorted := (Sorting.perm_sort _ hsort).mem_iff.mpr hmem
      exact hkeys e.1 (List.mem_map.mpr ⟨_, hsorted, rfl⟩)
    obtain ⟨ps, rfl⟩ := exists_textEntries es htexts
    rw [texts?_textEntries] at hnone
    exact absurd hnone (Option.some_ne_none ps)

theorem exists_ofEntries_of_ofArguments {items : Option (List (Datum × Datum))}
    {named : Roster String Datum} {m : Mapping} (h : ofArguments items named = .ok m) :
    ∃ es, ofEntries es = .ok m := by
  unfold ofArguments at h
  split at h
  · exact nomatch h
  · split at h
    all_goals
      obtain ⟨es, _, h⟩ := Sorting.eq_ok_of_bind h
      exact ⟨_, h⟩

/-- an assignment is made of its own entries -/
theorem ofArguments_entries (a : Assignment) :
    ofArguments (some (textEntries (a.entries.map fun e => (e.1, .bool e.2)))) .empty
      = .ok a.mapping := by
  let ps : List (String × Datum) := a.entries.map fun e => (e.1, .bool e.2)
  have hkeys : (ps.map Prod.fst).Nodup := by
    rw [List.map_map]
    exact a.nodup_keys
  have hlast : ∀ k d, lastUnder k ps = some d ↔ (k, d) ∈ ps :=
    lookup_reverse_eq_some_iff_mem ps hkeys
  have hvalues (k : String) (b : Bool) :
      lastUnder k ps = some (.bool b) ↔ a.get? k = some b := by
    rw [hlast, ← a.mem_entries_iff]
    constructor
    · intro h
      obtain ⟨e, he, heq⟩ := List.mem_map.mp h
      obtain ⟨rfl, hb⟩ := Prod.mk.inj heq
      exact Datum.bool.inj hb ▸ he
    · exact fun h => List.mem_map.mpr ⟨(k, b), h, rfl⟩
  have hnone : firstRefused? ps = none := by
    refine (firstRefused?_eq_none_iff ps).mpr fun k d h => ?_
    obtain ⟨e, _, heq⟩ := List.mem_map.mp ((hlast k d).mp h)
    exact ⟨e.2, (Prod.mk.inj heq).2.symm⟩
  obtain ⟨c, hc, hget⟩ := exists_ofRoster ps hnone
  have hca : c = a := Assignment.eq_of_get? <| funext fun k => Option.ext fun b =>
    (hget k b).trans (hvalues k b)
  refine (ofArguments_eq (some ps) .empty nofun).trans ?_
  rw [given, Option.getD_some, Roster.empty, List.append_nil, hc, hca]
  rfl

theorem isBuilt_iff (m : Mapping) : m.IsBuilt ↔ ∃ a : Assignment, a.mapping = m := by
  constructor
  · rintro ⟨⟨items, named, h⟩, hkeys⟩
    obtain ⟨es, hes⟩ := exists_ofEntries_of_ofArguments h
    exact exists_mapping_of_ofEntries hes hkeys
  · rintro ⟨a, rfl⟩
    refine ⟨⟨_, _, ofArguments_entries a⟩, fun k hk => ?_⟩
    rw [a.keys_mapping] at hk
    obtain ⟨s, _, rfl⟩ := List.mem_map.mp hk
    exact ⟨s, rfl⟩

/-! ## comparison -/

/-- mappings under texts that are compared as dictionaries are the same -/
theorem same_mapping_iff (a b : Assignment) : a.mapping.same b.mapping = true ↔ a = b := by
  have hget (k : String) : b.mapping.get? (.text k) = b.get? k :=
    congrFun b.valuation_mapping k
  rw [same, Bool.and_eq_true, decide_eq_true_eq, Assignment.mapping, Assignment.mapping,
    List.length_map, List.length_map, List.all_map, List.all_eq_true]
  constructor
  · rintro ⟨hlength, hall⟩
    have hsubset : a.entries ⊆ b.entries := fun e he => by
      have hb := of_decide_eq_true (hall e he)
      exact (b.mem_entries_iff e.1 e.2).mpr ((hget e.1).symm.trans hb)
    exact Assignment.eq_of_perm
      ((a.nodup_entries.subperm hsubset).perm_of_length_le hlength.ge)
  · rintro rfl
    refine ⟨rfl, fun e he => decide_eq_true ?_⟩
    exact (hget e.1).trans ((a.mem_entries_iff e.1 e.2).mp he)

/-- the hash of a mapping, by a function that hashes sets -/
def hash (h : Set (Datum × Bool) → Int) (m : Mapping) : Int := h (fun e => e ∈ m.entries)

/-! ## the whole -/

section
variable {items : Option (List (String × Datum))} {named : Roster String Datum}
  (h : ∀ k ∈ named.keys, isReserved true k = false)
include h

/-- a call with a refused name stops at the first -/
theorem ofArguments_of_refused {k : String} (hk : firstRefused? (given items named) = some k) :
    ∃ d, lastUnder k (given items named) = some d ∧ d.bool? = none
      ∧ ofArguments (items.map textEntries) named
        = .error (.naming d (.notTruthValue d (.text k))) := by
  obtain ⟨d, hd, hbool, herror⟩ := ofRoster_of_refused _ hk
  refine ⟨d, hd, hbool, ?_⟩
  rw [ofArguments_eq items named h, herror]
  rfl

/-- a call without a refused name makes the mapping of what was given last -/
theorem exists_ofArguments (hnone : firstRefused? (given items named) = none) :
    ∃ a : Assignment, ofArguments (items.map textEntries) named = .ok a.mapping
      ∧ ∀ k b, a.get? k = some b ↔ lastUnder k (given items named) = some (.bool b) := by
  obtain ⟨a, ha, hget⟩ := exists_ofRoster _ hnone
  refine ⟨a, ?_, hget⟩
  rw [ofArguments_eq items named h, ha]
  rfl

end

end Mapping

end Sentential
