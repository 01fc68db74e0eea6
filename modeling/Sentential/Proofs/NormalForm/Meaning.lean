import Sentential.NormalForm.Pass
import Sentential.Proofs.NormalForm.Distribution
import Sentential.Proofs.Semantics.Meaning

/-!
# Normal forms keep the meaning

Each rule keeps the values and the symbols of every formula it is applied to, so each pass does, and
so does each chain of passes.  Nothing is asked of the form of the formula.

* `SameMeaning.unfoldArrow`, `SameMeaning.deMorgan`, `SameMeaning.doubleNegation`,
  `SameMeaning.distribute`   the rules;
* `Stage.sameMeaning_apply`  all passes and chains;
* `Stage.apply_keeps_meaning`   the same said of evaluation: the same symbols, the same value where
                                all of them are bound, a fault in both where one is not.
-/

namespace Sentential

namespace Formula.SameMeaning

/-! ## rules -/

theorem unfoldArrow (f : Formula) : SameMeaning f.unfoldArrow f := by
  cases f with
  | binary op l r =>
    rcases op with j | _ | _
    · exact refl _
    · exact ⟨fun _ => rfl, fun _ => Iff.rfl⟩
    · refine ⟨fun v => ?_, fun n => ?_⟩
      · show ((!l.value v || r.value v) && (!r.value v || l.value v)) = (l.value v == r.value v)
        cases l.value v <;> cases r.value v <;> rfl
      · simp only [Formula.unfoldArrow, occurrences, List.mem_append]
        exact ⟨fun h => h.elim id Or.symm, Or.inl⟩
  | top => exact refl _
  | bottom => exact refl _
  | symbol n => exact refl _
  | not f => exact refl _

theorem pushNot (f : Formula) : SameMeaning f.pushNot (.not f) := by
  induction f with
  | binary op l r ihl ihr =>
    rcases op with j | _ | _
    · rw [pushNot_join]
      refine (ihl.binary (.junction j.dual) ihr).trans ⟨fun v => ?_, fun n => Iff.rfl⟩
      cases j with
      | and => exact (Bool.not_and _ _).symm
      | or => exact (Bool.not_or _ _).symm
    · exact refl _
    · exact refl _
  | top => exact refl _
  | bottom => exact refl _
  | symbol n => exact refl _
  | not f => exact refl _

theorem deMorgan (f : Formula) : SameMeaning f.deMorgan f := by
  cases f with
  | not f => exact pushNot f
  | top => exact refl _
  | bottom => exact refl _
  | symbol n => exact refl _
  | binary op l r => exact refl _

theorem doubleNegation (f : Formula) : SameMeaning f.doubleNegation f := by
  cases f with
  | not g =>
    cases g with
    | not h =>
      refine ⟨fun v => ?_, fun n => Iff.rfl⟩
      exact (Bool.not_not (h.value v)).symm
    | top => exact refl _
    | bottom => exact refl _
    | symbol n => exact refl _
    | binary op l r => exact refl _
  | top => exact refl _
  | bottom => exact refl _
  | symbol n => exact refl _
  | binary op l r => exact refl _

/-! ## distribution -/

section
variable (j : Junction)

theorem swap (l r : Formula) : SameMeaning (.join j r l) (.join j l r) := by
  refine ⟨fun v => ?_, fun n => ?_⟩
  · cases j with
    | and => exact Bool.and_comm _ _
    | or => exact Bool.or_comm _ _
  · rw [occurrences, occurrences, List.mem_append, List.mem_append]
    exact or_comm

theorem parts (a b r : Formula) :
    SameMeaning (.join j.dual (.join j a r) (.join j b r)) (.join j (.join j.dual a b) r) := by
  refine ⟨fun v => ?_, fun n => ?_⟩
  · cases j with
    | and => exact (Bool.and_or_distrib_right _ _ _).symm
    | or => exact (Bool.or_and_distrib_right _ _ _).symm
  · simp only [occurrences, List.mem_append]
    exact or_or_distrib_right.symm

theorem distributeOver (r l : Formula) : SameMeaning (distributeOver j r l) (.join j l r) := by
  refine distributeOver_induction (P := fun l r x => SameMeaning x (.join j l r)) ?_ ?_ ?_ r l
  · exact fun l r _ _ => refl _
  · intro a b r x y hx hy
    exact (hx.binary (.junction j.dual) hy).trans (parts j a b r)
  · intro l r x _ _ hx
    exact hx.trans (swap j l r)

theorem distribute (f : Formula) : SameMeaning (distribute j f) f := by
  cases f with
  | binary op l r =>
    by_cases hop : op = .junction j
    · subst hop
      rw [distribute_join]
      exact distributeOver j r l
    · rw [distribute_binary_of_ne j op l r hop]
      exact refl _
  | top => exact refl _
  | bottom => exact refl _
  | symbol n => exact refl _
  | not f => exact refl _

end

end Formula.SameMeaning

/-! ## passes -/

namespace Stage
open Formula

theorem sameMeaning_apply (s : Stage) (f : Formula) : SameMeaning (s.apply f) f := by
  have normal (g : Formula) : SameMeaning g.mkNormal g := .sweep _ .unfoldArrow g
  have nnf (g : Formula) : SameMeaning g.mkNnf g :=
    (SameMeaning.sweep _ .doubleNegation _).trans (.sweep _ .deMorgan g)
  have cnf (g : Formula) : SameMeaning g.mkCnf g := .sweep _ (.distribute .or) g
  have dnf (g : Formula) : SameMeaning g.mkDnf g := .sweep _ (.distribute .and) g
  have chain : SameMeaning f.toNnf f := (nnf f.mkNormal).trans (normal f)
  cases s with
  | mkNormal => exact normal f
  | mkNnf => exact nnf f
  | mkCnf => exact cnf f
  | mkDnf => exact dnf f
  | toNormal => exact normal f
  | toNnf => exact chain
  | toCnf => exact (cnf f.toNnf).trans chain
  | toDnf => exact (dnf f.toNnf).trans chain

/-- **Every pass keeps the meaning**: the same symbols, an equal truth table, and under every
valuation the same value, or a fault on both sides where a symbol has no value. -/
theorem apply_keeps_meaning (s : Stage) (f : Formula) :
    (s.apply f).names = f.names ∧ f.equivalentTo (s.apply f) = true ∧
      ∀ m : Valuation,
        (m.Binds f → ∃ b, f.evaluate m = .ok b ∧ (s.apply f).evaluate m = .ok b) ∧
        (¬ m.Binds f →
          (∃ n ∈ f.names, m n.text = none ∧ f.evaluate m = .error (.unbound n.datum)) ∧
          ∃ n ∈ f.names, m n.text = none ∧ (s.apply f).evaluate m = .error (.unbound n.datum)) := by
  have same := sameMeaning_apply s f
  refine ⟨same.names_eq, same.symm.equivalentTo, fun m => ⟨fun hm => ?_, fun hm => ?_⟩⟩
  · refine ⟨f.value (valueOrFalse m), evaluate_of_binds m f hm, ?_⟩
    rw [evaluate_of_binds m _ ((same.binds_iff m).mpr hm), same.value]
  · refine ⟨evaluate_of_not_binds m f hm, ?_⟩
    rw [← same.names_eq]
    exact evaluate_of_not_binds m _ fun h => hm ((same.binds_iff m).mp h)

theorem toCnf_keeps_meaning_of_equivalent :
    let f : Formula := .equivalent (.symbol ⟨"X", by decide⟩) (.symbol ⟨"Y", by decide⟩)
    (∃ b, f.evaluate (fun _ => some true) = .ok b ∧ f.toCnf.evaluate (fun _ => some true) = .ok b) ∧
      ∃ n ∈ f.names, f.toCnf.evaluate (fun _ => none) = .error (.unbound n.datum) := by
  intro f
  obtain ⟨_, _, keeps⟩ := apply_keeps_meaning .toCnf f
  have unbound : ¬ Valuation.Binds (fun _ => none) f := by
    intro h
    have hx := h ⟨"X", by decide⟩ ((mem_names f _).mpr (List.mem_cons_self ..))
    exact nomatch hx
  obtain ⟨_, n, hn, _, herror⟩ := (keeps fun _ => none).2 unbound
  exact ⟨(keeps fun _ => some true).1 fun _ _ => rfl, n, hn, herror⟩

end Stage

end Sentential
