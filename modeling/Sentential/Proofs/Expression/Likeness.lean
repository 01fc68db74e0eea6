import Sentential.Proofs.Expression.Meaning

/-!
# Expressions that are the same

`Expression.same` compares the arguments of a commuting operator in one direction only, and their
number.  That is enough if the arguments of the first expression are different from each other: then
none of the second expression's arguments is left over.

* `Expression.Tidy`         truth values and symbols under operators with as many arguments as they
                            take, where commuting operators have different arguments;
* `exists_of_cover`         the reason why none is left over;
* `Tidy.same_trans`, `Tidy.same_symm`, `Tidy.same_value`
                            what is said to be the same as a tidy expression: it is passed on, goes
                            both ways, and is about the value.
-/

namespace Sentential

/-- A list covers another one of at most its length if its members are related to members of the
other list, and no two of them to the same. -/
theorem exists_of_cover {α β : Type} {r : α → β → Prop} {xs : List α} {ys : List β}
    (hlength : ys.length ≤ xs.length) (hcover : ∀ x ∈ xs, ∃ y ∈ ys, r x y)
    (honce : xs.Pairwise fun x x' => ∀ y, r x y → ¬ r x' y) : ∀ y ∈ ys, ∃ x ∈ xs, r x y := by
  induction xs generalizing ys with
  | nil =>
    intro y hy
    rw [List.eq_nil_of_length_eq_zero (Nat.le_zero.mp hlength)] at hy
    exact nomatch hy
  | cons x xs ih =>
    obtain ⟨hx, hxs⟩ := List.pairwise_cons.mp honce
    obtain ⟨y, hy, hxy⟩ := hcover x (List.mem_cons_self ..)
    obtain ⟨us, ws, rfl⟩ := List.append_of_mem hy
    -- the other members are related to members of `us ++ ws`
    have hrest : ∀ x' ∈ xs, ∃ y' ∈ us ++ ws, r x' y' := by
      intro x' hx'
      obtain ⟨y', hy', hr⟩ := hcover x' (List.mem_cons_of_mem _ hx')
      rcases List.mem_append.mp hy' with h | h
      · exact ⟨y', List.mem_append_left _ h, hr⟩
      · rcases List.mem_cons.mp h with rfl | h
        · exact absurd hr (hx x' hx' y' hxy)
        · exact ⟨y', List.mem_append_right _ h, hr⟩
    have hshort : (us ++ ws).length ≤ xs.length := by
      simp only [List.length_append, List.length_cons] at hlength ⊢
      omega
    have htail := ih hshort hrest hxs
    have hthere (y' : β) (h : y' ∈ us ++ ws) : ∃ x' ∈ x :: xs, r x' y' := by
      obtain ⟨x', hx', hr⟩ := htail y' h
      exact ⟨x', List.mem_cons_of_mem _ hx', hr⟩
    intro y' hy'
    rcases List.mem_append.mp hy' with h | h
    · exact hthere y' (List.mem_append_left _ h)
    · rcases List.mem_cons.mp h with rfl | h
      · exact ⟨x, List.mem_cons_self .., hxy⟩
      · exact hthere y' (List.mem_append_right _ h)

namespace Expression

/-! ## what is compared -/

section
variable {h : Head} {es fs : List Expression} {f : Expression}

theorem same_constant_iff {b : Bool} : (constant b).same f = true ↔ constant b = f := by
  cases f with
  | constant c => exact beq_iff_eq.trans (constant.injEq b c).to_iff.symm
  | _ => exact iff_of_false nofun nofun

theorem same_symbol_iff {s : String} : (symbol s).same f = true ↔ symbol s = f := by
  cases f with
  | symbol t => exact beq_iff_eq.trans (symbol.injEq s t).to_iff.symm
  | _ => exact iff_of_false nofun nofun

theorem sameSet_iff : sameSet es fs = true ↔ ∀ e ∈ es, ∃ f ∈ fs, e.same f = true := by
  induction es with
  | nil => exact iff_of_true (sameSet_nil fs) nofun
  | cons e es ih => rw [sameSet_cons, Bool.and_eq_true, List.any_eq_true, ih, List.forall_mem_cons]

theorem sameList_iff :
    sameList es fs = true ↔ es.length = fs.length ∧
      ∀ i (he : i < es.length) (hf : i < fs.length), es[i].same fs[i] = true := by
  induction es generalizing fs with
  | nil =>
    cases fs with
    | nil => exact iff_of_true rfl ⟨rfl, nofun⟩
    | cons f fs => exact iff_of_false nofun nofun
  | cons e es ih =>
    cases fs with
    | nil => exact iff_of_false nofun nofun
    | cons f fs =>
      rw [sameList_cons_cons, Bool.and_eq_true, ih]
      constructor
      · rintro ⟨hf, hlength, hfs⟩
        refine ⟨congrArg Nat.succ hlength, fun i hi hi' => ?_⟩
        cases i with
        | zero => exact hf
        | succ i => exact hfs i (Nat.lt_of_succ_lt_succ hi) (Nat.lt_of_succ_lt_succ hi')
      · rintro ⟨hlength, hfs⟩
        exact ⟨hfs 0 (Nat.succ_pos _) (Nat.succ_pos _), Nat.succ.inj hlength,
          fun i hi hi' => hfs (i + 1) (Nat.succ_lt_succ hi) (Nat.succ_lt_succ hi')⟩

theorem exists_of_same_apply (hf : (apply h es).same f = true) : ∃ fs, f = .apply h fs := by
  cases f with
  | apply k fs =>
    simp only [same_apply, Bool.and_eq_true, decide_eq_true_eq] at hf
    obtain ⟨⟨rfl, _⟩, _⟩ := hf
    exact ⟨fs, rfl⟩
  | _ => exact nomatch hf

theorem same_apply_iff_of_commutes (hh : h.commutes = true) :
    (apply h es).same (.apply h fs) = true
      ↔ es.length = fs.length ∧ ∀ e ∈ es, ∃ f ∈ fs, e.same f = true := by
  simp [same_apply, hh, sameSet_iff]

theorem same_apply_iff_of_not_commutes (hh : h.commutes = false) :
    (apply h es).same (.apply h fs) = true
      ↔ es.length = fs.length ∧
        ∀ i (he : i < es.length) (hf : i < fs.length), es[i].same fs[i] = true := by
  simp [same_apply, hh, sameList_iff]

end

/-! ## tidy expressions -/

/-- commuting operators have arguments that are different from each other -/
inductive Tidy : Expression → Prop
  | constant (b : Bool) : Tidy (.constant b)
  | symbol (s : String) : Tidy (.symbol s)
  | apply {h : Head} {es : List Expression} (htakes : h.Takes es.length)
      (hes : ∀ e ∈ es, Tidy e)
      (hdifferent : h.commutes = true → es.Pairwise fun e f => e.same f = false) :
      Tidy (.apply h es)

namespace Tidy

theorem isBoolean {e : Expression} (he : e.Tidy) : e.IsBoolean := by
  induction he with
  | constant b => exact .constant b
  | symbol s => exact .symbol s
  | apply htakes _ _ ih => exact .apply htakes ih

theorem arguments {h : Head} {es : List Expression} (he : (Expression.apply h es).Tidy) :
    ∀ e ∈ es, e.Tidy := by
  cases he with
  | apply _ hes _ => exact hes

theorem same_trans {e : Expression} (he : e.Tidy) {f g : Expression} (hf : e.same f = true)
    (hg : f.same g = true) : e.same g = true := by
  induction he generalizing f g with
  | constant b =>
    rw [same_constant_iff] at hf
    rwa [← hf] at hg
  | symbol s =>
    rw [same_symbol_iff] at hf
    rwa [← hf] at hg
  | @apply h es _ _ _ ih =>
    obtain ⟨fs, rfl⟩ := exists_of_same_apply hf
    obtain ⟨gs, rfl⟩ := exists_of_same_apply hg
    cases hh : h.commutes with
    | true =>
      rw [same_apply_iff_of_commutes hh] at hf hg ⊢
      refine ⟨hf.1.trans hg.1, fun e he => ?_⟩
      obtain ⟨f, hfs, hef⟩ := hf.2 e he
      obtain ⟨g, hgs, hfg⟩ := hg.2 f hfs
      exact ⟨g, hgs, ih e he hef hfg⟩
    | false =>
      rw [same_apply_iff_of_not_commutes hh] at hf hg ⊢
      refine ⟨hf.1.trans hg.1, fun i hi hi' => ?_⟩
      have hif : i < fs.length := hf.1 ▸ hi
      exact ih _ (List.getElem_mem hi) (hf.2 i hi hif) (hg.2 i hif hi')

/-- of two lists of one length, none of the second list's members is left over -/
theorem exists_same {es fs : List Expression} (hes : ∀ e ∈ es, e.Tidy)
    (hdifferent : es.Pairwise fun e f => e.same f = false) (hlength : es.length = fs.length)
    (hsymm : ∀ e ∈ es, ∀ f, e.same f = true → f.same e = true)
    (hcover : ∀ e ∈ es, ∃ f ∈ fs, e.same f = true) : ∀ f ∈ fs, ∃ e ∈ es, e.same f = true := by
  refine exists_of_cover (Nat.le_of_eq hlength.symm) hcover (hdifferent.imp_of_mem ?_)
  intro e e' he he' hne f hf hf'
  have hsame := (hes e he).same_trans hf (hsymm e' he' f hf')
  exact Bool.false_ne_true (hne.symm.trans hsame)

theorem same_symm {e : Expression} (he : e.Tidy) {f : Expression} (hf : e.same f = true) :
    f.same e = true := by
  induction he generalizing f with
  | constant b =>
    rw [same_constant_iff] at hf
    rw [← hf, same_constant_iff]
  | symbol s =>
    rw [same_symbol_iff] at hf
    rw [← hf, same_symbol_iff]
  | @apply h es _ hes hdifferent ih =>
    obtain ⟨fs, rfl⟩ := exists_of_same_apply hf
    cases hh : h.commutes with
    | true =>
      rw [same_apply_iff_of_commutes hh] at hf ⊢
      refine ⟨hf.1.symm, fun f hfs => ?_⟩
      obtain ⟨e, he, hef⟩ :=
        exists_same hes (hdifferent hh) hf.1 (fun e he _ => ih e he) hf.2 f hfs
      exact ⟨e, he, ih e he hef⟩
    | false =>
      rw [same_apply_iff_of_not_commutes hh] at hf ⊢
      exact ⟨hf.1.symm, fun i hi hi' => ih _ (List.getElem_mem hi') (hf.2 i hi' hi)⟩

theorem same_value {e : Expression} (he : e.Tidy) {f : Expression} (hf : e.same f = true)
    (v : String → Bool) : e.value v = f.value v := by
  induction he generalizing f with
  | constant b => rw [same_constant_iff.mp hf]
  | symbol s => rw [same_symbol_iff.mp hf]
  | @apply h es _ hes hdifferent ih =>
    obtain ⟨fs, rfl⟩ := exists_of_same_apply hf
    rw [value_apply, value_apply]
    cases hh : h.commutes with
    | true =>
      rw [same_apply_iff_of_commutes hh] at hf
      have hback := exists_same hes (hdifferent hh) hf.1
        (fun e he _ => (hes e he).same_symm) hf.2
      refine Head.value_congr hh fun b => ?_
      rw [List.mem_map, List.mem_map]
      constructor
      · rintro ⟨e, he, rfl⟩
        obtain ⟨f, hfs, hef⟩ := hf.2 e he
        exact ⟨f, hfs, (ih e he hef).symm⟩
      · rintro ⟨f, hfs, rfl⟩
        obtain ⟨e, he, hef⟩ := hback f hfs
        exact ⟨e, he, ih e he hef⟩
    | false =>
      rw [same_apply_iff_of_not_commutes hh] at hf
      have hvalues : es.map (value v) = fs.map (value v) := by
        refine List.ext_getElem (by simpa using hf.1) fun i hi hi' => ?_
        rw [List.getElem_map, List.getElem_map]
        rw [List.length_map] at hi hi'
        exact ih _ (List.getElem_mem hi) (hf.2 i hi hi')
      rw [hvalues]

end Tidy

end Expression

end Sentential
