import Sentential.Proofs.Minimizer.Steps

/-!
# The level of the channel around a call

A call whose options are accepted saves the effective level and sets it again at its end, also when
it fails.  So what the channel lets through is the same before and after.  The level itself is the
same unless it was not set: a level that counts as zero is replaced by 30, which stood in for it.

* `Options.IsRefused kvs`    options under which no attempt is made;
* `level_call`               the end of a call, read off its steps for every end of the attempt;
* `request_keeps_level_iff`  when a request leaves the level as it was.
-/

namespace Sentential

theorem Level.effective_eq_self_iff (l : Level) : l.effective = l ↔ l.value ≠ 0 := by
  constructor
  · intro h hzero
    rw [effective, if_pos hzero] at h
    rw [← h] at hzero
    exact absurd hzero (by decide)
  · intro h
    exact if_neg h

/-- options under which no attempt is made: a name is taken, or they are not valid -/
def Options.IsRefused (kvs : List (String × Datum)) : Prop :=
  (∃ e, checkNames kvs = .error e) ∨ ∃ e, ofPairs kvs = .error e

theorem Options.exists_of_not_isRefused (kvs : List (String × Datum)) (h : ¬IsRefused kvs) :
    checkNames kvs = .ok () ∧ ∃ o, ofPairs kvs = .ok o := by
  obtain ⟨hnames, hvalid⟩ := not_or.mp h
  constructor
  · cases hk : checkNames kvs with
    | error e => exact absurd ⟨e, hk⟩ hnames
    | ok u => rfl
  · cases ho : ofPairs kvs with
    | error e => exact absurd ⟨e, ho⟩ hvalid
    | ok o => exact ⟨o, rfl⟩

namespace Minimizer

/-- whether the attempt succeeds or fails, its end is the effective level from before the call -/
theorem level_call (m : Minimizer) (x : Operand) (kvs : List (String × Datum)) (o : Options)
    (ho : Options.ofPairs kvs = .ok o) :
    (m.call x kvs).state.level = m.level.effective := by
  have hcall := observe_steps_eq_call x kvs m []
  cases hr : (attempt x o).observe ⟨m.begun o, []⟩ with
  | mk r c =>
    cases r with
    | error e =>
      rw [observe_steps_of_error x kvs o m c.minimizer [] c.printed ho e hr] at hcall
      have hstate := congrArg (fun result => result.2.minimizer.level) hcall
      exact hstate.symm
    | ok primes =>
      rw [observe_steps_of_ok x kvs o m c.minimizer [] c.printed ho primes hr] at hcall
      have hstate := congrArg (fun result => result.2.minimizer.level) hcall
      exact hstate.symm

theorem level_request_of_isRefused (m : Minimizer) (x : Operand) (kvs : List (String × Datum))
    (h : Options.IsRefused kvs) : (m.request x kvs).state.level = m.level := by
  cases hk : Options.checkNames kvs with
  | error e => rw [request_of_checkNames_error m x kvs e hk]
  | ok u =>
    rcases h with ⟨e, he⟩ | ⟨e, he⟩
    · rw [hk] at he
      exact nomatch he
    · rw [request_of_checkNames m x kvs hk, call, he]
      rfl

theorem level_request (m : Minimizer) (x : Operand) (kvs : List (String × Datum))
    (h : ¬Options.IsRefused kvs) : (m.request x kvs).state.level = m.level.effective := by
  obtain ⟨hk, o, ho⟩ := Options.exists_of_not_isRefused kvs h
  rw [request_of_checkNames m x kvs hk]
  exact level_call m x kvs o ho

/-- **The level after a request.**  What the channel lets through is the same as before, whatever
the formula and the options are.  The level itself is the same exactly if it did not count as zero
or no attempt was made. -/
theorem request_keeps_level_iff (m : Minimizer) (x : Operand) (kvs : List (String × Datum)) :
    (m.request x kvs).state.level.effective = m.level.effective
      ∧ ((m.request x kvs).state.level = m.level
        ↔ m.level.value ≠ 0 ∨ Options.IsRefused kvs) := by
  by_cases h : Options.IsRefused kvs
  · rw [level_request_of_isRefused m x kvs h]
    exact ⟨rfl, iff_of_true rfl (Or.inr h)⟩
  · rw [level_request m x kvs h]
    exact ⟨m.level.effective_effective,
      m.level.effective_eq_self_iff.trans (or_iff_left h).symm⟩

/-- the minimization of a single symbol sets a level that was not set -/
theorem request_sets_unset_level :
    let f : Formula := .symbol ⟨"X", by decide⟩
    ((fresh 0).request (.formula f) []).state.level ≠ (fresh 0).level := by
  intro f
  rw [request_nil]
  exact (by decide : Level.effective 0 ≠ 0)

end Minimizer

end Sentential
