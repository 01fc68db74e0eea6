import Sentential.Proofs.Formula.Calls

/-!
# The calls of a fold

A fold hands over the nodes of a formula as they stand there, so its calls are known before the run.

* `Formula.visits f`    the nodes in the order of a fold: those of the right argument, those of the
                        left argument, the node itself;
* `Visit.nodes v`       the nodes that a pending step hands over;
* `visitM_eq_foldlM`    the invariant of the loop: it hands over the nodes of its pending steps, one
                        after the other, and passes the value on;
* `foldRecM_eq_foldlM`  the recursion hands over `visits f`;
* `noted fn`            `fn`, with the node of each of its calls written down before it is made;
* `foldM_calls`         loop and recursion agree in everything, and the calls are at `visits f`, up
                        to the first failure;
* `size_eq_fold`, `names_eq_fold`   size and symbols as folds.
-/

namespace Sentential

universe u v

namespace Formula

/-- all nodes, each after its arguments and these from right to left -/
def visits : Formula → List Formula
  | .not f => f.visits ++ [.not f]
  | .binary op l r => r.visits ++ (l.visits ++ [.binary op l r])
  | f => [f]

/-- each node is met once: the order differs from the other walk in the arguments alone -/
theorem perm_visits (f : Formula) : f.visits.Perm f.postorder := by
  induction f with
  | top => exact List.Perm.refl _
  | bottom => exact List.Perm.refl _
  | symbol n => exact List.Perm.refl _
  | not f ih => exact ih.append_right _
  | binary op l r ihl ihr =>
    rw [visits, postorder, ← List.append_assoc, ← List.append_assoc]
    exact ((ihr.append ihl).trans List.perm_append_comm).append_right _

theorem length_visits (f : Formula) : f.visits.length = f.size :=
  f.perm_visits.length_eq.trans f.length_postorder

/-- the nodes that a pending step hands over -/
def Visit.nodes : Visit → List Formula
  | .enter f => f.visits
  | .leave f => [f]

section
variable {m : Type u → Type v} [Monad m] {α : Type u} (fn : Formula → α → m α)

/-- the loop hands over the nodes of its pending steps, one after the other -/
theorem visitM_eq_foldlM (acc : α) (k : List Visit) :
    visitM fn acc k = (k.flatMap Visit.nodes).foldlM (fun a g => fn g a) acc := by
  -- a node that is left or has no arguments is handed over; any other step only lays its node back
  induction acc, k using visitM.induct with
  | case1 acc => rw [visitM]; rfl
  | case2 acc f k ih => rw [visitM]; exact bind_congr ih
  | case3 acc k ih => rw [visitM]; exact bind_congr ih
  | case4 acc k ih => rw [visitM]; exact bind_congr ih
  | case5 acc n k ih => rw [visitM]; exact bind_congr ih
  | case6 acc f k ih =>
    rw [visitM, ih]
    simp only [List.flatMap_cons, Visit.nodes, visits, List.append_assoc]
  | case7 acc op l r k ih =>
    rw [visitM, ih]
    simp only [List.flatMap_cons, Visit.nodes, visits, List.append_assoc]

theorem foldM_eq_foldlM (seed : α) (f : Formula) :
    foldM fn seed f = f.visits.foldlM (fun a g => fn g a) seed := by
  rw [foldM, visitM_eq_foldlM, List.flatMap_singleton]
  rfl

theorem foldRecM_eq_foldlM [LawfulMonad m] (seed : α) (f : Formula) :
    foldRecM fn seed f = f.visits.foldlM (fun a g => fn g a) seed := by
  induction f generalizing seed with
  | top => exact (bind_pure _).symm
  | bottom => exact (bind_pure _).symm
  | symbol n => exact (bind_pure _).symm
  | not f ih =>
    simp only [foldRecM, visits, ih, List.foldlM_append, List.foldlM_cons, List.foldlM_nil,
      bind_pure]
  | binary op l r ihl ihr =>
    simp only [foldRecM, visits, ihl, ihr, List.foldlM_append, List.foldlM_cons, List.foldlM_nil,
      bind_pure]

end

/-! ## calls written down -/

section
variable {σ ε α : Type}

/-- the function `fn`, with the node of each of its calls written down before it is made -/
def noted (fn : Formula → α → Effect σ ε α) (g : Formula) (a : α) :
    Effect (List Formula × σ) ε α :=
  ExceptT.mk fun (calls, s) =>
    let (r, t) := (fn g a).observe s
    (r, calls ++ [g], t)

/-- to hand over a list of nodes is to call `fn` on each of them, up to the first failure -/
theorem observe_foldlM_noted (fn : Formula → α → Effect σ ε α) (gs : List Formula) (a : α)
    (calls : List Formula) (s : σ) :
    ∃ more, (gs.foldlM (fun a g => noted fn g a) a).observe (calls, s)
        = (((gs.foldlM (fun a g => fn g a) a).observe s).1, calls ++ more,
          ((gs.foldlM (fun a g => fn g a) a).observe s).2)
      ∧ more <+: gs
      ∧ ∀ x, ((gs.foldlM (fun a g => fn g a) a).observe s).1 = .ok x → more = gs := by
  induction gs generalizing a calls s with
  | nil => exact ⟨[], by rw [List.append_nil]; rfl, List.prefix_rfl, fun _ _ => rfl⟩
  | cons g gs ih =>
    rw [List.foldlM_cons, List.foldlM_cons]
    have hnoted : (noted fn g a).observe (calls, s)
        = (((fn g a).observe s).1, calls ++ [g], ((fn g a).observe s).2) := rfl
    cases hg : (fn g a).observe s with
    | mk r t =>
      rw [hg] at hnoted
      cases r with
      | error e =>
        rw [Effect.observe_bind_error _ _ s t e hg, Effect.observe_bind_error _ _ _ _ e hnoted]
        exact ⟨[g], rfl, ⟨gs, rfl⟩, fun x hx => nomatch hx⟩
      | ok b =>
        obtain ⟨more, hobserve, hpre, hall⟩ := ih b (calls ++ [g]) t
        rw [Effect.observe_bind_ok _ _ s t b hg, Effect.observe_bind_ok _ _ _ _ b hnoted]
        refine ⟨g :: more, ?_, ?_, fun x hx => ?_⟩
        · rw [hobserve, List.append_assoc]
          rfl
        · exact List.cons_prefix_cons.mpr ⟨rfl, hpre⟩
        · rw [hall x hx]

/-- **The calls of a fold.**  Whatever a function does, the loop gives what the recursion gives: the
result or the first failure, and the state.  It calls the function at every node once, those of the
right argument first, then those of the left argument, then the node itself, up to the first
failure, and each call takes the value that the one before has returned. -/
theorem foldM_calls (fn : Formula → α → Effect σ ε α) (seed : α) (f : Formula) :
    foldM fn seed f = foldRecM fn seed f
      ∧ foldM fn seed f = f.visits.foldlM (fun a g => fn g a) seed
      ∧ f.visits.Perm f.postorder
      ∧ f.visits.length = f.size
      ∧ ∀ s, ∃ calls,
          (foldM (noted fn) seed f).observe ([], s)
              = (((foldM fn seed f).observe s).1, calls, ((foldM fn seed f).observe s).2)
            ∧ calls <+: f.visits
            ∧ ∀ x, ((foldM fn seed f).observe s).1 = .ok x → calls = f.visits := by
  refine ⟨foldM_eq_foldRecM fn seed f, foldM_eq_foldlM fn seed f, f.perm_visits, f.length_visits,
    fun s => ?_⟩
  obtain ⟨calls, hobserve, hpre, hall⟩ := observe_foldlM_noted fn f.visits seed [] s
  rw [foldM_eq_foldlM, foldM_eq_foldlM]
  exact ⟨calls, hobserve, hpre, hall⟩

-- the symbol on the right is met first, and after a failure there is no further call
example (x y : Name) :
    let fail : Formula → Nat → Effect Unit String Nat := fun _ _ => throw "no"
    (foldM (noted fail) 0 (.and (.symbol x) (.symbol y))).observe ([], ())
      = (.error "no", [.symbol y], ()) := by
  intro fail
  rw [foldM_eq_foldlM]
  rfl

end

/-! ## folds that cannot fail -/

theorem fold_eq_foldl {α : Type} (fn : Formula → α → α) (seed : α) (f : Formula) :
    f.fold fn seed = f.visits.foldl (fun a g => fn g a) seed := by
  rw [fold, foldM_eq_foldlM]
  exact List.idRun_foldlM ..

theorem size_eq_fold (f : Formula) : f.size = f.fold (fun _ n => n + 1) 0 := by
  rw [fold_eq_foldl, List.foldl_add_const, length_visits, Nat.one_mul, Nat.zero_add]

/-- the fold goes from right to left, so it puts the leftmost symbol last -/
theorem names_eq_fold (f : Formula) :
    f.names = f.fold (fun g ns => match g with
      | .symbol n => Name.insert n ns
      | _ => ns) [] := by
  rw [fold_eq_foldl, names]
  generalize ([] : List Name) = ns
  induction f generalizing ns with
  | top => rfl
  | bottom => rfl
  | symbol n => rfl
  | not f ih =>
    rw [visits, List.foldl_append, ← ih]
    rfl
  | binary op l r ihl ihr =>
    rw [visits, List.foldl_append, List.foldl_append, ← ihr, ← ihl, ← List.foldr_append]
    rfl

end Formula

end Sentential
