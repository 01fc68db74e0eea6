import Sentential.Proofs.Implicant.Scan
import Sentential.Proofs.Minimizer.Primes

/-!
# The prime implicants of a formula are in order

The rows of a truth table have no free cells, so their order is that of their places in the table,
and that is how the table lists them.

* `sorted_valueRows`          all values, in the order of the table;
* `sorted_primesOf`           what the minimizer finds, in the order `Row.Before`.
-/

namespace Sentential

theorem primeImplicants_nil : primeImplicants [] = [] := by
  rw [primeImplicants, history, List.eraseDups_nil, generations_nil]
  rfl

/-! ## the rows of a truth table -/

theorem index_ofValues_cons (v : Bool) (vs : List Bool) :
    (Row.ofValues (v :: vs)).index
      = (if v = true then 0 else 2 ^ vs.length) + (Row.ofValues vs).index := by
  show Row.index (.ofBool v :: Row.ofValues vs) = _
  rw [Row.index_cons, Row.length_ofValues]
  cases v <;> rfl

theorem sorted_valueRows (n : Nat) :
    (valueRows n).Pairwise fun vs ws => (Row.ofValues vs).index < (Row.ofValues ws).index := by
  induction n with
  | zero => exact List.pairwise_singleton _ _
  | succ n ih =>
    have hcons (v : Bool) (vs : List Bool) (hvs : vs ∈ valueRows n) :
        (Row.ofValues (v :: vs)).index
          = (if v = true then 0 else 2 ^ n) + (Row.ofValues vs).index := by
      rw [index_ofValues_cons, length_of_mem_valueRows n vs hvs]
    have hhalf (v : Bool) :
        ((valueRows n).map (v :: ·)).Pairwise
          fun vs ws => (Row.ofValues vs).index < (Row.ofValues ws).index := by
      refine List.pairwise_map.mpr (ih.imp_of_mem fun {vs ws} hvs hws hlt => ?_)
      rw [hcons v vs hvs, hcons v ws hws]
      exact Nat.add_lt_add_left hlt _
    refine List.pairwise_append.mpr ⟨hhalf true, hhalf false, fun x hx y hy => ?_⟩
    obtain ⟨vs, hvs, rfl⟩ := List.mem_map.mp hx
    obtain ⟨ws, hws, rfl⟩ := List.mem_map.mp hy
    have hlt := (Row.ofValues vs).index_lt
    rw [Row.length_ofValues, length_of_mem_valueRows n vs hvs] at hlt
    rw [hcons true vs hvs, hcons false ws hws, if_pos rfl, if_neg Bool.false_ne_true]
    omega

namespace Minimizer

theorem trueRows_eq_nil (f : Formula) (hf : f.names = []) : trueRows f = [] := by
  rw [trueRows, Formula.trueRows_truthTable, f.rows_eq_nil hf]
  rfl

theorem sorted_trueRows (f : Formula) (hf : f.names ≠ []) :
    (trueRows f).Pairwise Row.Before := by
  rw [trueRows_eq f hf]
  refine List.pairwise_map.mpr (((sorted_valueRows _).filter _).imp fun {vs ws} hlt => ?_)
  exact .inr ⟨(Row.freed_ofValues vs).trans (Row.freed_ofValues ws).symm, .inl hlt⟩

theorem primeImplicants_eq_nil (f : Formula) (hf : f.names = []) :
    primeImplicants (trueRows f) = [] := by
  rw [trueRows_eq_nil f hf, primeImplicants_nil]

theorem length_of_mem_primeImplicants (f : Formula) (r : Row)
    (h : r ∈ primeImplicants (trueRows f)) : r.length = f.names.length := by
  by_cases hf : f.names = []
  · rw [primeImplicants_eq_nil f hf] at h
    exact absurd h List.not_mem_nil
  · exact ((mem_primeImplicants_trueRows f hf r).mp h).1.1

theorem sorted_primesOf (f : Formula) : (primeImplicants (trueRows f)).Pairwise Row.Before := by
  by_cases hf : f.names = []
  · rw [primeImplicants_eq_nil f hf]
    exact .nil
  · exact sorted_primeImplicants (mem_trueRows_iff_implicant f hf) (sorted_trueRows f hf)

end Minimizer

end Sentential
