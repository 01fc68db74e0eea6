import Sentential.Semantics.TruthTable

/-!
# What a formula means

The meaning of a formula is its value under every valuation together with its symbols.

* `Valuation.Binds m f`       `m` gives a value to every symbol of `f`;
* `Formula.Leftmost m f n`    `n` is the leftmost symbol of `f` without a value;
* `evaluate_of_binds`, `evaluate_of_leftmost`   evaluation is the recursive value where the symbols
                              are bound, and names the leftmost unbound symbol where they are not;
* `Formula.SameMeaning f g`   the same values and the same symbols.  It passes through connectives
                              (`SameMeaning.not`, `SameMeaning.binary`) and through sweeps with a
                              rule that keeps the meaning (`SameMeaning.sweep`);
* `SameMeaning.names_eq`, `SameMeaning.truthTable_eq`   such formulas list the same symbols and
                              have the same truth table, so they are equivalent.
-/

namespace Sentential

/-- every symbol of the formula has a value -/
def Valuation.Binds (m : Valuation) (f : Formula) : Prop := ∀ n ∈ f.names, (m n.text).isSome = true

/-! ## ascending names -/

theorem Name.nodup_of_ascending {ns : List Name} (h : Name.Ascending ns) : ns.Nodup :=
  h.imp fun hlt e => absurd (e ▸ hlt) (String.lt_irrefl _)

/-- a set of names has one ascending list -/
theorem Name.eq_of_ascending {ms ns : List Name} (hm : Name.Ascending ms)
    (hn : Name.Ascending ns) (h : ∀ n, n ∈ ms ↔ n ∈ ns) : ms = ns := by
  have hperm : ms.Perm ns :=
    (List.perm_ext_iff_of_nodup (nodup_of_ascending hm) (nodup_of_ascending hn)).mpr h
  refine hperm.eq_of_pairwise (fun m n _ _ hmn hnm => ?_) hm hn
  exact absurd (String.lt_trans hmn hnm) (String.lt_irrefl _)

namespace Formula

/-! ## evaluation -/

/-- `n` has no value, and every symbol further left has one -/
def Leftmost (m : Valuation) (f : Formula) (n : Name) : Prop :=
  ∃ us ws, f.occurrences = us ++ n :: ws ∧ (∀ k ∈ us, m k.text ≠ none) ∧ m n.text = none

section
variable (m : Valuation) (f : Formula)

theorem firstUnbound?_eq_none_iff : f.firstUnbound? m = none ↔ m.Binds f := by
  rw [firstUnbound?, List.find?_eq_none]
  constructor
  · intro h n hn
    have hs := h n ((mem_names f n).mp hn)
    rwa [Option.isNone_iff_eq_none, ← ne_eq, ← Option.isSome_iff_ne_none] at hs
  · intro h n hn
    have hs := h n ((mem_names f n).mpr hn)
    rwa [Option.isNone_iff_eq_none, ← ne_eq, ← Option.isSome_iff_ne_none]

theorem evaluate_of_binds (h : m.Binds f) : f.evaluate m = .ok (f.value (valueOrFalse m)) := by
  rw [evaluate_eq_match, (firstUnbound?_eq_none_iff m f).mpr h]

theorem firstUnbound?_eq_some_iff (n : Name) : f.firstUnbound? m = some n ↔ f.Leftmost m n := by
  rw [firstUnbound?, List.find?_eq_some_iff_append, Option.isNone_iff_eq_none]
  constructor
  · rintro ⟨hn, us, ws, hocc, hus⟩
    refine ⟨us, ws, hocc, fun k hk hnone => ?_, hn⟩
    have hbound := hus k hk
    rw [hnone] at hbound
    exact absurd hbound (by decide)
  · rintro ⟨us, ws, hocc, hus, hn⟩
    refine ⟨hn, us, ws, hocc, fun k hk => ?_⟩
    cases hvalue : m k.text with
    | none => exact absurd hvalue (hus k hk)
    | some b => rfl

theorem exists_leftmost (h : ¬ m.Binds f) : ∃ n, f.Leftmost m n := by
  cases hfirst : f.firstUnbound? m with
  | some n => exact ⟨n, (firstUnbound?_eq_some_iff m f n).mp hfirst⟩
  | none => exact absurd ((firstUnbound?_eq_none_iff m f).mp hfirst) h

theorem evaluate_of_leftmost (n : Name) (h : f.Leftmost m n) :
    f.evaluate m = .error (.unbound n.datum) := by
  rw [evaluate_eq_match, (firstUnbound?_eq_some_iff m f n).mpr h]
  rfl

theorem evaluate_of_not_binds (h : ¬ m.Binds f) :
    ∃ n ∈ f.names, m n.text = none ∧ f.evaluate m = .error (.unbound n.datum) := by
  obtain ⟨n, hn⟩ := exists_leftmost m f h
  have hfault := evaluate_of_leftmost m f n hn
  obtain ⟨us, ws, hocc, _, hnone⟩ := hn
  have hmem : n ∈ f.occurrences := hocc ▸ List.mem_append_right us (List.mem_cons_self ..)
  exact ⟨n, (mem_names f n).mpr hmem, hnone, hfault⟩

end

/-- only the symbols of the formula matter -/
theorem value_congr (f : Formula) (v w : String → Bool)
    (h : ∀ n ∈ f.occurrences, v n.text = w n.text) : f.value v = f.value w := by
  induction f with
  | top => rfl
  | bottom => rfl
  | symbol n => exact h n (List.mem_singleton.mpr rfl)
  | not f ih => rw [value, value, ih h]
  | binary op l r ihl ihr =>
    have hl := ihl fun n hn => h n (List.mem_append_left _ hn)
    have hr := ihr fun n hn => h n (List.mem_append_right _ hn)
    rw [value, value, hl, hr]

/-! ## the same meaning -/

structure SameMeaning (f g : Formula) : Prop where
  value : ∀ v, f.value v = g.value v
  symbols : ∀ n, n ∈ f.occurrences ↔ n ∈ g.occurrences

namespace SameMeaning

section
variable {f g k l r l' r' : Formula}

theorem refl (f : Formula) : SameMeaning f f := ⟨fun _ => rfl, fun _ => Iff.rfl⟩

theorem symm (h : SameMeaning f g) : SameMeaning g f :=
  ⟨fun v => (h.value v).symm, fun n => (h.symbols n).symm⟩

theorem trans (h : SameMeaning f g) (h' : SameMeaning g k) : SameMeaning f k :=
  ⟨fun v => (h.value v).trans (h'.value v), fun n => (h.symbols n).trans (h'.symbols n)⟩

theorem not (h : SameMeaning f g) : SameMeaning (.not f) (.not g) := by
  refine ⟨fun v => ?_, h.symbols⟩
  rw [Formula.value, Formula.value, h.value]

theorem binary (op : Connective) (hl : SameMeaning l l') (hr : SameMeaning r r') :
    SameMeaning (.binary op l r) (.binary op l' r') := by
  refine ⟨fun v => ?_, fun n => ?_⟩
  · rw [Formula.value, Formula.value, hl.value, hr.value]
  · rw [occurrences, occurrences, List.mem_append, List.mem_append, hl.symbols, hr.symbols]

/-- a sweep keeps the meaning if its rule does -/
theorem sweep (rule : Formula → Formula) (h : ∀ g, SameMeaning (rule g) g) (f : Formula) :
    SameMeaning (f.sweep rule) f := by
  induction f with
  | top => rw [sweep_top]; exact h .top
  | bottom => rw [sweep_bottom]; exact h .bottom
  | symbol n => rw [sweep_symbol]; exact h (.symbol n)
  | not f ih =>
    rw [sweep_not]
    exact (h _).trans ih.not
  | binary op l r ihl ihr =>
    rw [sweep_binary]
    exact (h _).trans (ihl.binary op ihr)

/-! ## names and tables -/

theorem names_eq (h : SameMeaning f g) : f.names = g.names := by
  refine Name.eq_of_ascending f.ascending_names g.ascending_names fun n => ?_
  rw [mem_names, mem_names, h.symbols]

theorem truthTable_eq (h : SameMeaning f g) : f.truthTable = g.truthTable := by
  have hentries : f.truthTable.entries = g.truthTable.entries := by
    rw [entries_truthTable, entries_truthTable, rows_eq_of_names_eq f g h.names_eq]
    exact List.map_congr_left fun a _ => by rw [h.value]
  exact (Roster.mk.injEq ..).mpr hentries

theorem equivalentTo (h : SameMeaning f g) : f.equivalentTo g = true :=
  decide_eq_true (congrArg Roster.entries h.truthTable_eq)

theorem binds_iff (h : SameMeaning f g) (m : Valuation) : m.Binds f ↔ m.Binds g := by
  rw [Valuation.Binds, Valuation.Binds, h.names_eq]

end

end SameMeaning

end Formula

end Sentential
