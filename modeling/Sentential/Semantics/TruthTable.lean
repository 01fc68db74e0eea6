import Sentential.Form
import Sentential.Formula.Construction
import Sentential.Semantics.Evaluation
import Sentential.Semantics.Table

/-!
# Truth tables

A `TruthTable` is a roster of truth values under assignments.  `Formula.truthTable` lists all
assignments to the symbols of a formula, the first symbol varying slowest and true before false,
each with the value of the formula.  A formula without symbols has the empty table, so the tables of
the truth values do not differ.

`Formula.equivalentTo` compares tables.  It compares their entries one by one, in order;
`equivalentTo_eq_agrees` says that this is to compare the tables by what they show.  The symbols
take part: a tautology in one symbol is not equivalent to a tautology in none.

`TruthTable.formula` turns a table into a disjunction, with one conjunction of literals for each row
that is true; it does so by way of the `Table` that callers could have handed over.
-/

namespace Sentential

abbrev TruthTable := Roster Assignment Bool

/-! ## rows -/

/-- all rows of `n` truth values, true before false -/
def valueRows : Nat → List (List Bool)
  | 0 => [[]]
  | n + 1 => (valueRows n).map (true :: ·) ++ (valueRows n).map (false :: ·)

theorem length_valueRows (n : Nat) : (valueRows n).length = Nat.pow 2 n := by
  induction n with
  | zero => rfl
  | succ n ih =>
    rw [valueRows, List.length_append, List.length_map, List.length_map, ih]
    exact (Nat.mul_two _).symm

theorem length_of_mem_valueRows (n : Nat) (vs : List Bool) (h : vs ∈ valueRows n) :
    vs.length = n := by
  induction n generalizing vs with
  | zero => rw [List.mem_singleton.mp h]; rfl
  | succ n ih =>
    rcases List.mem_append.mp h with h | h
    · obtain ⟨ws, hw, rfl⟩ := List.mem_map.mp h
      rw [List.length_cons, ih ws hw]
    · obtain ⟨ws, hw, rfl⟩ := List.mem_map.mp h
      rw [List.length_cons, ih ws hw]

theorem mem_valueRows (vs : List Bool) : vs ∈ valueRows vs.length := by
  induction vs with
  | nil => exact List.mem_singleton.mpr rfl
  | cons v vs ih =>
    cases v with
    | true => exact List.mem_append.mpr (.inl (List.mem_map.mpr ⟨vs, ih, rfl⟩))
    | false => exact List.mem_append.mpr (.inr (List.mem_map.mpr ⟨vs, ih, rfl⟩))

theorem nodup_valueRows (n : Nat) : (valueRows n).Nodup := by
  induction n with
  | zero => exact List.pairwise_singleton _ _
  | succ n ih =>
    have cons_injective (b : Bool) (vs ws : List Bool) (h : vs ≠ ws) : b :: vs ≠ b :: ws :=
      fun e => h (List.cons.inj e).2
    refine List.pairwise_append.mpr ⟨?_, ?_, fun vs hv ws hw => ?_⟩
    · exact List.pairwise_map.mpr (ih.imp (cons_injective true _ _))
    · exact List.pairwise_map.mpr (ih.imp (cons_injective false _ _))
    · obtain ⟨_, _, rfl⟩ := List.mem_map.mp hv
      obtain ⟨_, _, rfl⟩ := List.mem_map.mp hw
      exact fun e => Bool.noConfusion (List.cons.inj e).1

theorem ascending_zip (ns : List Name) (vs : List Bool) (h : Name.Ascending ns) :
    Ascending ((ns.map Name.text).zip vs) := by
  induction ns generalizing vs with
  | nil => exact List.Pairwise.nil
  | cons n ns ih =>
    cases vs with
    | nil => exact List.Pairwise.nil
    | cons v vs =>
      have hn := List.pairwise_cons.mp h
      refine List.pairwise_cons.mpr ⟨fun e he => ?_, ih vs hn.2⟩
      obtain ⟨m, hm, e1⟩ := List.mem_map.mp (List.of_mem_zip he).1
      exact e1 ▸ hn.1 m hm

/-- texts without a value count as false -/
def Assignment.total (a : Assignment) : String → Bool := Formula.valueOrFalse a.valuation

/-! ## tables -/

namespace Formula

/-- the symbols of the formula with these truth values -/
def row (f : Formula) (vs : List Bool) : Assignment :=
  ⟨(f.names.map Name.text).zip vs, ascending_zip f.names vs f.ascending_names⟩

def rows (f : Formula) : List Assignment :=
  if f.names.isEmpty then [] else (valueRows f.names.length).map f.row

theorem values_row (f : Formula) (vs : List Bool) (h : vs.length = f.names.length) :
    (f.row vs).values = vs :=
  List.map_snd_zip (Nat.le_of_eq (by rw [List.length_map, h]))

theorem keys_row (f : Formula) (vs : List Bool) (h : vs.length = f.names.length) :
    (f.row vs).keys = f.names.map Name.text :=
  List.map_fst_zip (Nat.le_of_eq (by rw [List.length_map, h]))

theorem nodup_rows (f : Formula) : f.rows.Nodup := by
  unfold rows
  split
  · exact List.nodup_nil
  · refine List.pairwise_map.mpr ((nodup_valueRows f.names.length).imp_of_mem ?_)
    intro vs ws hv hw hne e
    refine hne ?_
    rw [← values_row f vs (length_of_mem_valueRows _ vs hv), e,
      values_row f ws (length_of_mem_valueRows _ ws hw)]

def truthTable (f : Formula) : TruthTable where
  entries := f.rows.map fun a => (a, f.value a.total)
  distinct := by
    rw [List.map_map]
    exact (List.map_id f.rows).symm ▸ f.nodup_rows

theorem entries_truthTable (f : Formula) :
    f.truthTable.entries = f.rows.map fun a => (a, f.value a.total) := rfl

/-- two tables are the same if they have the same rows, since each lists them in one order -/
def equivalentTo (f g : Formula) : Bool := f.truthTable.entries = g.truthTable.entries

theorem lookup_map_pair {α β : Type} [DecidableEq α] (v : α → β) (as : List α) (a : α) :
    (as.map fun b => (b, v b)).lookup a = if a ∈ as then some (v a) else none := by
  induction as with
  | nil => rfl
  | cons b as ih =>
    rw [List.map_cons, lookup_cons_ite, ih]
    by_cases h : a = b
    · rw [if_pos h, h, if_pos List.mem_cons_self]
    · rw [if_neg h]
      simp [h]

theorem get?_truthTable (f : Formula) (a : Assignment) :
    f.truthTable.get? a = if a ∈ f.rows then some (f.value a.total) else none :=
  lookup_map_pair (fun b : Assignment => f.value b.total) f.rows a

theorem keys_of_mem_rows (f : Formula) (a : Assignment) (h : a ∈ f.rows) :
    a.keys = f.names.map Name.text := by
  unfold rows at h
  split at h
  · exact absurd h List.not_mem_nil
  · obtain ⟨vs, hv, rfl⟩ := List.mem_map.mp h
    exact f.keys_row vs (length_of_mem_valueRows _ vs hv)

theorem row_eq_of_names_eq (f g : Formula) (h : f.names = g.names) : f.row = g.row := by
  funext vs
  unfold row
  congr 2
  rw [h]

theorem rows_eq_of_names_eq (f g : Formula) (h : f.names = g.names) : f.rows = g.rows := by
  rw [rows, rows, h, row_eq_of_names_eq f g h]

/-- to compare the entries in order is to compare the tables by what they show -/
theorem equivalentTo_eq_agrees (f g : Formula) :
    f.equivalentTo g = f.truthTable.agrees g.truthTable := by
  rw [Bool.eq_iff_iff, equivalentTo, Roster.agrees, Bool.and_eq_true, decide_eq_true_iff,
    decide_eq_true_iff, List.all_eq_true]
  constructor
  · intro h
    refine ⟨congrArg List.length h, fun e he => ?_⟩
    obtain ⟨a, ha, rfl⟩ := List.mem_map.mp (h ▸ he)
    rw [get?_truthTable, if_pos ha]
    exact decide_eq_true rfl
  · rintro ⟨hl, hall⟩
    have shown (a : Assignment) (ha : a ∈ f.rows) :
        a ∈ g.rows ∧ g.value a.total = f.value a.total := by
      have hs := of_decide_eq_true (hall _ (List.mem_map.mpr ⟨a, ha, rfl⟩))
      rw [get?_truthTable] at hs
      split at hs
      · rename_i hg
        exact ⟨hg, Option.some.inj hs⟩
      · exact nomatch hs
    cases hr : f.rows with
    | nil =>
      have hf : f.truthTable.entries = [] := by rw [entries_truthTable, hr]; rfl
      rw [hf] at hl ⊢
      exact (List.eq_nil_of_length_eq_zero hl.symm).symm
    | cons a _ =>
      have ha : a ∈ f.rows := by rw [hr]; exact List.mem_cons_self ..
      have hk := (f.keys_of_mem_rows a ha).symm.trans (g.keys_of_mem_rows a (shown a ha).1)
      have hn : f.names = g.names := List.map_inj_right (fun _ _ => Name.text_injective) |>.mp hk
      rw [entries_truthTable, entries_truthTable, ← rows_eq_of_names_eq f g hn]
      exact List.map_congr_left fun b hb => by rw [(shown b hb).2]

end Formula

/-- the rows that are true, in the order of the table -/
def TruthTable.trueRows (t : TruthTable) : List Assignment :=
  (t.entries.filter Prod.snd).map Prod.fst

/-! ## from tables to formulas -/

namespace TruthTable

/-- the table that is handed over -/
def table (t : TruthTable) : Table := t.entries.map fun e => (e.1.mapping, e.2)

def formula (t : TruthTable) : Except Fault Formula := t.table.formula

theorem trueRows_table (t : TruthTable) : t.table.trueRows = t.trueRows.map Assignment.mapping := by
  rw [Table.trueRows, table, trueRows, List.filter_map, List.map_map, List.map_map]
  rfl

theorem formula_eq (t : TruthTable) :
    t.formula = (do
      let ps ← t.trueRows.mapM fun a => a.mapping.product
      return Formula.disjunction ps) := by
  rw [formula, Table.formula, trueRows_table, List.mapM_map]
  rfl

end TruthTable

end Sentential
