/-!
# Rosters

A roster keeps values under keys in the order in which the keys first arrived.  A value put under a
key that is there replaces the old value and moves nothing.  `Roster.distinct` is the invariant: no
key stands twice.

`Roster.get?` is the view: `get?_put` says what it shows after a value has been put, and
`Roster.agrees` compares two rosters by it, whatever their orders.
-/

namespace Sentential

/-- put a value under a key of a list of entries -/
def putEntry {κ α : Type} [DecidableEq κ] (k : κ) (v : α) : List (κ × α) → List (κ × α)
  | [] => [(k, v)]
  | (k', v') :: es => if k = k' then (k', v) :: es else (k', v') :: putEntry k v es

section
variable {κ α : Type} [DecidableEq κ]

theorem lookup_cons_ite (k j : κ) (v : α) (es : List (κ × α)) :
    ((k, v) :: es).lookup j = if j = k then some v else es.lookup j := by
  rw [List.lookup_cons]
  by_cases hj : j = k
  · rw [if_pos hj, beq_iff_eq.mpr hj]
  · rw [if_neg hj, beq_false_of_ne hj]

/-- under different keys, to look up is to be a member -/
theorem lookup_eq_some_iff_mem (es : List (κ × α)) (h : (es.map Prod.fst).Nodup) (k : κ) (v : α) :
    es.lookup k = some v ↔ (k, v) ∈ es := by
  induction es with
  | nil => exact iff_of_false nofun List.not_mem_nil
  | cons e es ih =>
    obtain ⟨j, w⟩ := e
    obtain ⟨hj, hes⟩ := List.nodup_cons.mp h
    rw [lookup_cons_ite, List.mem_cons, Prod.mk.injEq]
    by_cases hk : k = j
    · have hrest : (k, v) ∉ es := fun hmem => hj (List.mem_map.mpr ⟨(k, v), hmem, hk⟩)
      rw [if_pos hk, Option.some.injEq]
      exact ⟨fun hw => .inl ⟨hk, hw.symm⟩, fun h => (h.resolve_right hrest).2.symm⟩
    · rw [if_neg hk, ih hes]
      exact ⟨.inr, fun h => h.resolve_left fun h => hk h.1⟩

theorem mem_keys_putEntry (k j : κ) (v : α) (es : List (κ × α)) :
    j ∈ (putEntry k v es).map Prod.fst ↔ j = k ∨ j ∈ es.map Prod.fst := by
  induction es with
  | nil => simp [putEntry]
  | cons e es ih =>
    obtain ⟨k', v'⟩ := e
    unfold putEntry
    by_cases h : k = k'
    · rw [if_pos h, h]
      simp
    · rw [if_neg h, List.map_cons, List.mem_cons, ih, List.map_cons, List.mem_cons]
      exact or_left_comm

theorem nodup_putEntry (k : κ) (v : α) (es : List (κ × α)) (h : (es.map Prod.fst).Nodup) :
    ((putEntry k v es).map Prod.fst).Nodup := by
  induction es with
  | nil => simp [putEntry]
  | cons e es ih =>
    obtain ⟨k', v'⟩ := e
    rw [List.map_cons, List.nodup_cons] at h
    unfold putEntry
    by_cases hk : k = k'
    · rw [if_pos hk, List.map_cons, List.nodup_cons]
      exact h
    · rw [if_neg hk, List.map_cons, List.nodup_cons]
      refine ⟨fun hm => ?_, ih h.2⟩
      rcases (mem_keys_putEntry k k' v es).mp hm with e | e
      · exact hk e.symm
      · exact h.1 e

theorem lookup_putEntry (k j : κ) (v : α) (es : List (κ × α)) :
    (putEntry k v es).lookup j = if j = k then some v else es.lookup j := by
  induction es with
  | nil => exact lookup_cons_ite k j v []
  | cons e es ih =>
    obtain ⟨k', v'⟩ := e
    unfold putEntry
    by_cases hk : k = k'
    · rw [if_pos hk, lookup_cons_ite, lookup_cons_ite, ← hk]
      by_cases hj : j = k
      · rw [if_pos hj, if_pos hj]
      · rw [if_neg hj, if_neg hj, if_neg hj]
    · rw [if_neg hk, lookup_cons_ite, lookup_cons_ite, ih]
      by_cases hj : j = k'
      · have hn : ¬ j = k := fun e => hk (e.symm.trans hj)
        rw [if_pos hj, if_neg hn, if_pos hj]
      · rw [if_neg hj, if_neg hj]

end

structure Roster (κ α : Type) where
  entries : List (κ × α)
  distinct : (entries.map Prod.fst).Nodup

namespace Roster

section
variable {κ α : Type}

def empty : Roster κ α := ⟨[], List.nodup_nil⟩

def keys (r : Roster κ α) : List κ := r.entries.map Prod.fst

variable [DecidableEq κ]

def get? (r : Roster κ α) (k : κ) : Option α := r.entries.lookup k

def put (r : Roster κ α) (k : κ) (v : α) : Roster κ α :=
  ⟨putEntry k v r.entries, nodup_putEntry k v r.entries r.distinct⟩

/-- put the pairs of a list, one after the other -/
def putAll (r : Roster κ α) (ps : List (κ × α)) : Roster κ α :=
  ps.foldl (fun s p => s.put p.1 p.2) r

def ofPairs (ps : List (κ × α)) : Roster κ α := empty.putAll ps

theorem get?_empty (k : κ) : (empty : Roster κ α).get? k = none := rfl

theorem get?_put (r : Roster κ α) (k j : κ) (v : α) :
    (r.put k v).get? j = if j = k then some v else r.get? j :=
  lookup_putEntry k j v r.entries

theorem mem_keys_put (r : Roster κ α) (k j : κ) (v : α) :
    j ∈ (r.put k v).keys ↔ j = k ∨ j ∈ r.keys :=
  mem_keys_putEntry k j v r.entries

theorem mem_entries_iff (r : Roster κ α) (k : κ) (v : α) :
    (k, v) ∈ r.entries ↔ r.get? k = some v :=
  (lookup_eq_some_iff_mem r.entries r.distinct k v).symm

def agrees [DecidableEq α] (r s : Roster κ α) : Bool :=
  r.entries.length = s.entries.length && r.entries.all fun e => s.get? e.1 = some e.2

end

end Roster

end Sentential
