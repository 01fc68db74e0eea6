import Mathlib.Algebra.Group.Nat.Defs
import Mathlib.Data.List.Nodup
import Sentential.Proofs.Semantics.Equivalence

/-!
# How a truth table is made

`Formula.truthTable` says what the table of a formula is.  Here it is made row by row: the names are
paired with values, the pairs are checked and put in order, the formula is evaluated, and the value
is put under the assignment.  Each of these steps could fail, and a row could replace one before it.
Neither happens, for the names stand in ascending order and no two rows have the same values.

* `Formula.tabulate`        the table, row by row; `addRow` is one more row;
* `Roster.entries_putAll`   pairs with new keys are appended in their order;
* `ofRoster_row`            names in ascending order, paired with values, are an assignment as they
                            stand;
* `tabulate_eq`             the table is made and is `truthTable`, by induction on the rows;
* `getElem?_valueRows`      the row at an index is written in the bits of the index;
* `truthTable_lists`        what the table of any formula lists, and in which order.
-/

namespace Sentential

/-! ## entries with new keys -/

section
variable {κ α : Type} [DecidableEq κ]

theorem putEntry_of_not_mem (k : κ) (v : α) (es : List (κ × α)) (h : k ∉ es.map Prod.fst) :
    putEntry k v es = es ++ [(k, v)] := by
  induction es with
  | nil => rfl
  | cons e es ih =>
    rw [List.map_cons, List.mem_cons, not_or] at h
    rw [putEntry, if_neg h.1, ih h.2, List.cons_append]

theorem Roster.entries_putAll (r : Roster κ α) (ps : List (κ × α))
    (h : (r.entries ++ ps |>.map Prod.fst).Nodup) : (r.putAll ps).entries = r.entries ++ ps := by
  induction ps generalizing r with
  | nil => exact (List.append_nil _).symm
  | cons p ps ih =>
    have hnew : p.1 ∉ r.entries.map Prod.fst := by
      rw [List.map_append, List.map_cons] at h
      exact fun hp => List.disjoint_of_nodup_append h hp List.mem_cons_self
    have hput : (r.put p.1 p.2).entries = r.entries ++ [p] := putEntry_of_not_mem p.1 p.2 _ hnew
    have hentries : r.entries ++ p :: ps = (r.put p.1 p.2).entries ++ ps := by
      rw [hput, List.append_assoc, List.singleton_append]
    rw [hentries] at h ⊢
    exact ih (r.put p.1 p.2) h

theorem Roster.entries_ofPairs (ps : List (κ × α)) (h : (ps.map Prod.fst).Nodup) :
    (Roster.ofPairs ps).entries = ps :=
  Roster.entries_putAll .empty ps h

end

/-! ## assignments of ascending pairs -/

theorem insertEntry_of_lt (k : String) (v : Bool) (es : List (String × Bool))
    (h : ∀ e ∈ es, e.1 < k) : insertEntry k v es = es ++ [(k, v)] := by
  induction es with
  | nil => rfl
  | cons e es ih =>
    have he : e.1 < k := h e List.mem_cons_self
    rw [insertEntry, if_neg (String.lt_asymm he), if_neg (String.ne_of_lt he).symm,
      ih fun d hd => h d (List.mem_cons_of_mem _ hd), List.cons_append]

namespace Assignment

theorem entries_foldl_insert (a : Assignment) (ps : List (String × Bool))
    (h : Ascending (a.entries ++ ps)) :
    (ps.foldl (fun a p => a.insert p.1 p.2) a).entries = a.entries ++ ps := by
  induction ps generalizing a with
  | nil => exact (List.append_nil _).symm
  | cons p ps ih =>
    have hlast : ∀ e ∈ a.entries, e.1 < p.1 := fun e he =>
      (List.pairwise_append.mp h).2.2 e he p List.mem_cons_self
    have hinsert : (a.insert p.1 p.2).entries = a.entries ++ [p] := insertEntry_of_lt _ _ _ hlast
    have hentries : a.entries ++ p :: ps = (a.insert p.1 p.2).entries ++ ps := by
      rw [hinsert, List.append_assoc, List.singleton_append]
    rw [hentries] at h ⊢
    exact ih (a.insert p.1 p.2) h

theorem entries_ofList (ps : List (String × Bool)) (h : Ascending ps) : (ofList ps).entries = ps :=
  entries_foldl_insert empty ps h

theorem checkEntries_bool {κ : Type} (key : κ → Datum) (ks : List κ) (vs : List Bool) :
    checkEntries key (ks.zip (vs.map Datum.bool)) = .ok (ks.zip vs) := by
  induction ks generalizing vs with
  | nil => rfl
  | cons k ks ih =>
    cases vs with
    | nil => rfl
    | cons v vs =>
      show (do
        let bs ← checkEntries key (ks.zip (vs.map Datum.bool))
        return (k, v) :: bs) = _
      rw [ih vs]
      rfl

end Assignment

namespace Formula

/-! ## row by row -/

/-- one more row: what the symbols are paired with is checked before the formula is evaluated -/
def addRow (f : Formula) (t : TruthTable) (vs : List Bool) : Except Fault TruthTable := do
  let a ← Assignment.ofRoster (.ofPairs ((f.names.map Name.text).zip (vs.map Datum.bool)))
  let b ← f.evaluate a.valuation
  return t.put a b

def tabulate (f : Formula) : Except Fault TruthTable :=
  if f.names.isEmpty then .ok .empty else (valueRows f.names.length).foldlM f.addRow .empty

theorem nodup_texts (f : Formula) : (f.names.map Name.text).Nodup :=
  List.pairwise_map.mpr (f.ascending_names.imp String.ne_of_lt)

theorem ofRoster_row (f : Formula) (vs : List Bool) (h : vs.length = f.names.length) :
    Assignment.ofRoster (.ofPairs ((f.names.map Name.text).zip (vs.map Datum.bool)))
      = .ok (f.row vs) := by
  have hkeys : (((f.names.map Name.text).zip (vs.map Datum.bool)).map Prod.fst).Nodup := by
    rw [List.map_fst_zip (Nat.le_of_eq (by rw [List.length_map, List.length_map, h]))]
    exact f.nodup_texts
  have hrow : Assignment.ofList ((f.names.map Name.text).zip vs) = f.row vs :=
    Assignment.mk.injEq .. ▸ Assignment.entries_ofList _ (f.row vs).ascending
  rw [Assignment.ofRoster, Roster.entries_ofPairs _ hkeys, Assignment.checkEntries_bool, ← hrow]
  rfl

theorem addRow_eq (f : Formula) (t : TruthTable) (vs : List Bool)
    (h : vs.length = f.names.length) :
    f.addRow t vs = .ok (t.put (f.row vs) (f.valueAt vs)) := by
  rw [addRow, ofRoster_row f vs h]
  show (do
    let b ← f.evaluate (f.row vs).valuation
    return t.put (f.row vs) b) = _
  rw [evaluate_of_isTotalFor (isTotalFor_row vs h), values_row f vs h]
  rfl

/-- rows are put one after the other, and none of them fails -/
theorem foldlM_addRow (f : Formula) (t : TruthTable) (vss : List (List Bool))
    (h : ∀ vs ∈ vss, vs.length = f.names.length) :
    vss.foldlM f.addRow t = .ok (t.putAll (vss.map fun vs => (f.row vs, f.valueAt vs))) := by
  induction vss generalizing t with
  | nil => rfl
  | cons vs vss ih =>
    rw [List.foldlM_cons, f.addRow_eq t vs (h vs List.mem_cons_self)]
    exact ih (t.put (f.row vs) (f.valueAt vs)) fun ws hws => h ws (List.mem_cons_of_mem _ hws)

theorem tabulate_eq (f : Formula) : f.tabulate = .ok f.truthTable := by
  have ext (t : TruthTable) (h : t.entries = f.truthTable.entries) : t = f.truthTable :=
    Roster.mk.injEq .. ▸ h
  by_cases hf : f.names = []
  · rw [tabulate, hf]
    refine congrArg Except.ok (ext _ ?_)
    rw [entries_truthTable, f.rows_eq_nil hf]
    rfl
  · have hentries : f.truthTable.entries
        = (valueRows f.names.length).map fun vs => (f.row vs, f.valueAt vs) := by
      rw [entries_truthTable, f.rows_eq hf, List.map_map]
      rfl
    rw [tabulate, List.isEmpty_eq_false_iff.mpr hf, if_neg Bool.false_ne_true,
      foldlM_addRow f .empty _ (length_of_mem_valueRows f.names.length), ← hentries]
    exact congrArg Except.ok (ext _ (Roster.entries_ofPairs _ f.truthTable.distinct))

end Formula

/-! ## the bits of an index -/

/-- the values at an index, where zero stands for true and the first value is the highest bit -/
def valuesAt (n i : Nat) : List Bool := (List.range n).map fun j => !i.testBit (n - 1 - j)

theorem valuesAt_succ (n i : Nat) :
    valuesAt (n + 1) i = (!i.testBit n) :: (List.range n).map fun j => !i.testBit (n - 1 - j) := by
  rw [valuesAt, List.range_succ_eq_map, List.map_cons, List.map_map]
  refine congrArg _ (List.map_congr_left fun j _ => ?_)
  show (!i.testBit (n - (j + 1))) = _
  rw [Nat.add_comm, Nat.sub_add_eq]

theorem getElem?_valueRows (n i : Nat) (h : i < 2 ^ n) :
    (valueRows n)[i]? = some (valuesAt n i) := by
  induction n generalizing i with
  | zero =>
    obtain rfl : i = 0 := Nat.lt_one_iff.mp h
    rfl
  | succ n ih =>
    have hlength : ((valueRows n).map (true :: ·)).length = 2 ^ n := by
      rw [List.length_map]
      exact length_valueRows n
    rw [valueRows, valuesAt_succ]
    by_cases hi : i < 2 ^ n
    · rw [List.getElem?_append_left (by rw [hlength]; exact hi), List.getElem?_map, ih i hi,
        Nat.testBit_lt_two_pow hi]
      rfl
    · -- in the second half the highest bit is one, and the others are those of the first half
      obtain ⟨k, rfl⟩ := Nat.exists_eq_add_of_le (Nat.le_of_not_lt hi)
      have hk : k < 2 ^ n := by
        rw [Nat.pow_succ] at h
        omega
      have hlow :
          (List.range n).map (fun j => !(2 ^ n + k).testBit (n - 1 - j)) = valuesAt n k := by
        refine List.map_congr_left fun j hj => ?_
        have := List.mem_range.mp hj
        rw [Nat.testBit_two_pow_add_gt (by omega)]
      rw [List.getElem?_append_right (by rw [hlength]; omega), hlength, Nat.add_sub_cancel_left,
        List.getElem?_map, ih k hk, Nat.testBit_two_pow_add_eq, Nat.testBit_lt_two_pow hk, hlow]
      rfl

theorem getElem?_valuesAt (n i j : Nat) (h : j < n) :
    (valuesAt n i)[j]? = some (!i.testBit (n - 1 - j)) := by
  rw [valuesAt, List.getElem?_map, List.getElem?_range h]
  rfl

namespace Formula

/-! ## what a table lists -/

section
variable (f : Formula)

theorem get?_row (vs : List Bool) (j : Nat) (n : Name) (v : Bool) (hn : f.names[j]? = some n)
    (hv : vs[j]? = some v) : (f.row vs).get? n.text = some v := by
  have hentry : (f.row vs).entries[j]? = some (n.text, v) :=
    List.getElem?_zip_eq_some.mpr ⟨by rw [List.getElem?_map, hn]; rfl, hv⟩
  exact ((f.row vs).mem_entries_iff n.text v).mp (List.mem_of_getElem? hentry)

theorem length_entries_truthTable (hf : f.names ≠ []) :
    f.truthTable.entries.length = 2 ^ f.names.length := by
  rw [entries_truthTable, List.length_map, f.rows_eq hf, List.length_map]
  exact length_valueRows f.names.length

theorem getElem?_entries_truthTable (hf : f.names ≠ []) (i : Nat) (h : i < 2 ^ f.names.length) :
    f.truthTable.entries[i]?
      = some (f.row (valuesAt f.names.length i), f.valueAt (valuesAt f.names.length i)) := by
  rw [entries_truthTable, f.rows_eq hf, List.getElem?_map, List.getElem?_map,
    getElem?_valueRows _ i h]
  rfl

theorem evaluate_of_mem_truthTable (e : Assignment × Bool) (he : e ∈ f.truthTable.entries) :
    f.evaluate e.1.valuation = .ok e.2 := by
  obtain ⟨a, ha, rfl⟩ := List.mem_map.mp he
  have htotal : a.IsTotalFor f := f.keys_of_mem_rows a ha
  rw [evaluate_of_isTotalFor htotal, valueAt, ← eq_row_of_isTotalFor htotal]

/-- **The rows of a truth table.**  The table is always made, row by row, without a fault.  It is
empty for a formula without symbols.  For `n` symbols, which stand in ascending order, it has
`2 ^ n` rows under the total assignments of the formula, each of them once, and evaluation under the
assignment of a row gives its value.  In the row with index `i` a symbol is true exactly if its bit
of `i` is zero; the first symbol has the highest bit. -/
theorem truthTable_lists :
    f.tabulate = .ok f.truthTable ∧ (f.names = [] → f.truthTable.entries = [])
      ∧ (∀ e ∈ f.truthTable.entries, f.evaluate e.1.valuation = .ok e.2)
      ∧ Name.Ascending f.names ∧ (∀ n, n ∈ f.names ↔ n ∈ f.occurrences)
      ∧ (f.names ≠ [] → f.truthTable.entries.length = 2 ^ f.names.length
        ∧ f.truthTable.keys.Nodup ∧ (∀ a, a ∈ f.truthTable.keys ↔ a.IsTotalFor f)
        ∧ ∀ i < 2 ^ f.names.length, ∃ e, f.truthTable.entries[i]? = some e
          ∧ ∀ j n, f.names[j]? = some n →
            e.1.get? n.text = some (!i.testBit (f.names.length - 1 - j))) := by
  refine ⟨f.tabulate_eq, fun hnames => ?_, f.evaluate_of_mem_truthTable, f.ascending_names,
    f.mem_names, fun hf => ?_⟩
  · rw [entries_truthTable, f.rows_eq_nil hnames]
    rfl
  · refine ⟨f.length_entries_truthTable hf, f.truthTable.distinct, fun a => ?_, fun i hi => ?_⟩
    · rw [keys_truthTable, f.mem_rows_iff hf]
    · refine ⟨_, f.getElem?_entries_truthTable hf i hi, fun j n hn => ?_⟩
      have hj : j < f.names.length := (List.getElem?_eq_some_iff.mp hn).1
      exact f.get?_row _ j n _ hn (getElem?_valuesAt _ i j hj)

end

/-- of the names `Y` and `X`, which come up in this order, `X` has the higher bit, so in the row
with index one only `X` is true -/
theorem truthTable_lists_of_implies :
    let f : Formula := .implies (.symbol ⟨"Y", by decide⟩) (.symbol ⟨"X", by decide⟩)
    f.tabulate = .ok f.truthTable ∧ f.names ≠ [] ∧ f.truthTable.entries.length = 4
      ∧ ∃ e, f.truthTable.entries[1]? = some e
        ∧ e.1.get? "X" = some true ∧ e.1.get? "Y" = some false := by
  intro f
  have hf : f.names ≠ [] := by decide
  obtain ⟨hmade, _, _, _, _, hlists⟩ := truthTable_lists f
  obtain ⟨hlength, _, _, hrow⟩ := hlists hf
  obtain ⟨e, he, hget⟩ := hrow 1 (by decide)
  have hbits : some (!Nat.testBit 1 1) = some true ∧ some (!Nat.testBit 1 0) = some false := by
    decide
  have hx := hget 0 ⟨"X", by decide⟩ rfl
  have hy := hget 1 ⟨"Y", by decide⟩ rfl
  exact ⟨hmade, hf, hlength, e, he, hx.trans hbits.1, hy.trans hbits.2⟩

end Formula

end Sentential
