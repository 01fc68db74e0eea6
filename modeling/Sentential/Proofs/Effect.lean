import Sentential.Fault

/-!
# Computations that are watched

* `Effect σ ε`         computations with a state `σ` and failures `ε`.  The state outlives a
                       failure;
* `Effect.observe x s` the result or the failure of `x` from the state `s`, and the state that is
                       left;
* `observe_bind_ok`, `observe_bind_error` one computation after the other;
* `observe_tryFinally` a closing step is taken after a result and after a failure alike.
-/

namespace Sentential

abbrev Effect (σ ε : Type) := ExceptT ε (StateM σ)

namespace Effect
variable {σ ε α β : Type}

/-- the library's own faults, among failures of other kinds -/
instance : MonadLift (Except Fault) (Effect σ (Fault ⊕ ε)) :=
  ⟨fun x => ExceptT.mk (pure (x.mapError Sum.inl))⟩

/-- the result or the failure from a state, and the state that is left -/
def observe (x : Effect σ ε α) (s : σ) : Except ε α × σ := Id.run (x.run.run s)

theorem observe_bind_ok (x : Effect σ ε α) (k : α → Effect σ ε β) (s t : σ) (a : α)
    (h : x.observe s = (.ok a, t)) : (x >>= k).observe s = (k a).observe t := by
  show observe (ExceptT.mk (ExceptT.bindCont k (x.observe s).1)) (x.observe s).2 = _
  rw [h]
  rfl

theorem observe_bind_error (x : Effect σ ε α) (k : α → Effect σ ε β) (s t : σ) (e : ε)
    (h : x.observe s = (.error e, t)) : (x >>= k).observe s = (.error e, t) := by
  show observe (ExceptT.mk (ExceptT.bindCont k (x.observe s).1)) (x.observe s).2 = _
  rw [h]
  rfl

theorem observe_tryFinally (x : Effect σ ε α) (y : Effect σ ε Unit) (s t u : σ)
    (r : Except ε α) (hx : x.observe s = (r, t)) (hy : y.observe t = (.ok (), u)) :
    (tryFinally x y).observe s = (r, u) := by
  simp only [observe, Id.run, ExceptT.run, StateT.run] at hx hy ⊢
  simp only [tryFinally, Functor.map, tryFinally', ExceptT.map, ExceptT.mk, StateT.bind, bind, pure]
  rw [hx]
  cases r with
  | error e =>
    simp only [hy]
    rfl
  | ok a =>
    simp only [hy]
    rfl

end Effect

end Sentential
