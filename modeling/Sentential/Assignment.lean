import Sentential.Fault
import Sentential.Roster

/-!
# Assignments

An `Assignment` gives truth values to finitely many texts, the names of symbols among them.  Its
entries stand in ascending order of the texts, each text once, so two assignments that agree
everywhere are equal.

`Assignment.ofRoster` checks what a caller hands over: the first entry in order of arrival that is
no truth value is refused.  `Assignment.get?` is the view; `get?_insert` says what it shows after a
value has been put.
-/

namespace Sentential

/-! ## ascending entries -/

def Ascending (es : List (String × Bool)) : Prop := es.Pairwise fun a b => a.1 < b.1

/-- put a value into ascending entries -/
def insertEntry (k : String) (v : Bool) : List (String × Bool) → List (String × Bool)
  | [] => [(k, v)]
  | (k', v') :: es =>
    if k < k' then (k, v) :: (k', v') :: es
    else if k = k' then (k, v) :: es
    else (k', v') :: insertEntry k v es

theorem mem_insertEntry (k : String) (v : Bool) (es : List (String × Bool)) (e : String × Bool)
    (h : e ∈ insertEntry k v es) : e = (k, v) ∨ e ∈ es := by
  induction es with
  | nil => simpa [insertEntry] using h
  | cons d es ih =>
    obtain ⟨k', v'⟩ := d
    unfold insertEntry at h
    split at h
    · rcases List.mem_cons.mp h with h | h
      · exact .inl h
      · exact .inr h
    · split at h
      · rcases List.mem_cons.mp h with h | h
        · exact .inl h
        · exact .inr (List.mem_cons_of_mem _ h)
      · rcases List.mem_cons.mp h with h | h
        · exact .inr (h ▸ List.mem_cons_self ..)
        · rcases ih h with h | h
          · exact .inl h
          · exact .inr (List.mem_cons_of_mem _ h)

theorem ascending_insertEntry (k : String) (v : Bool) (es : List (String × Bool))
    (h : Ascending es) : Ascending (insertEntry k v es) := by
  induction es with
  | nil => exact List.pairwise_singleton _ _
  | cons d es ih =>
    obtain ⟨k', v'⟩ := d
    have hd := List.pairwise_cons.mp h
    unfold insertEntry
    split
    · rename_i hlt
      refine List.pairwise_cons.mpr ⟨fun e he => ?_, h⟩
      rcases List.mem_cons.mp he with rfl | he
      · exact hlt
      · exact String.lt_trans hlt (hd.1 e he)
    · split
      · rename_i _ heq
        subst heq
        exact List.pairwise_cons.mpr hd
      · rename_i hlt hne
        refine List.pairwise_cons.mpr ⟨fun e he => ?_, ih hd.2⟩
        rcases mem_insertEntry k v es e he with rfl | he
        · rcases Std.lt_trichotomy k k' with h | h | h
          · exact absurd h hlt
          · exact absurd h hne
          · exact h
        · exact hd.1 e he

theorem lookup_insertEntry (k j : String) (v : Bool) (es : List (String × Bool))
    (h : Ascending es) :
    (insertEntry k v es).lookup j = if j = k then some v else es.lookup j := by
  induction es with
  | nil => exact lookup_cons_ite k j v []
  | cons d es ih =>
    obtain ⟨k', v'⟩ := d
    have hd := List.pairwise_cons.mp h
    unfold insertEntry
    split
    · exact lookup_cons_ite k j v _
    · split
      · rename_i _ heq
        rw [lookup_cons_ite, lookup_cons_ite, ← heq]
        by_cases hj : j = k
        · rw [if_pos hj, if_pos hj]
        · rw [if_neg hj, if_neg hj, if_neg hj]
      · rename_i _ hne
        rw [lookup_cons_ite, lookup_cons_ite, ih hd.2]
        by_cases hj : j = k'
        · have hn : ¬ j = k := fun e => hne (e.symm.trans hj)
          rw [if_pos hj, if_neg hn, if_pos hj]
        · rw [if_neg hj, if_neg hj]

/-! ## assignments -/

structure Assignment where
  entries : List (String × Bool)
  ascending : Ascending entries
deriving DecidableEq

namespace Assignment

def empty : Assignment := ⟨[], List.Pairwise.nil⟩

def insert (a : Assignment) (k : String) (v : Bool) : Assignment :=
  ⟨insertEntry k v a.entries, ascending_insertEntry k v a.entries a.ascending⟩

def get? (a : Assignment) (k : String) : Option Bool := a.entries.lookup k

/-- the pairs of a list put one after the other: of two values for one text the later stays -/
def ofList (ps : List (String × Bool)) : Assignment :=
  ps.foldl (fun a p => a.insert p.1 p.2) empty

theorem get?_empty (k : String) : empty.get? k = none := rfl

theorem get?_insert (a : Assignment) (k j : String) (v : Bool) :
    (a.insert k v).get? j = if j = k then some v else a.get? j :=
  lookup_insertEntry k j v a.entries a.ascending

theorem nodup_keys (a : Assignment) : (a.entries.map Prod.fst).Nodup :=
  List.pairwise_map.mpr (a.ascending.imp String.ne_of_lt)

theorem mem_entries_iff (a : Assignment) (k : String) (v : Bool) :
    (k, v) ∈ a.entries ↔ a.get? k = some v :=
  (lookup_eq_some_iff_mem a.entries a.nodup_keys k v).symm

def keys (a : Assignment) : List String := a.entries.map Prod.fst

def values (a : Assignment) : List Bool := a.entries.map Prod.snd

/-! ## what callers hand over -/

/-- the fault for a datum that is no truth value; it names the key, if both can be written -/
def refusal (key d : Datum) : Fault := .naming d (.naming key (.notTruthValue d key))

/-- read entries as truth values, up to the first that is none -/
def checkEntries {κ : Type} (key : κ → Datum) :
    List (κ × Datum) → Except Fault (List (κ × Bool))
  | [] => .ok []
  | (k, d) :: es => do
    match d.bool? with
    | some b => do
      let bs ← checkEntries key es
      return (k, b) :: bs
    | none => throw (refusal (key k) d)

def ofRoster (r : Roster String Datum) : Except Fault Assignment := do
  let bs ← checkEntries .text r.entries
  return ofList bs

end Assignment

end Sentential
