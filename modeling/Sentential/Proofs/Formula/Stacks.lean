import Mathlib.Data.List.DropRight
import Sentential.Formula.Construction

/-!
# Climbing with two stacks

A climb can be driven by a loop over two stacks: the visits that are pending, and the results that
are finished.  An atom is handed over at once.  Any other node is laid back to be left later, with
its arguments on top of it, and when it is left its results are the last finished ones.

* `Formula.layer? f xs`           the node over results for its arguments;
* `Formula.runStacksM alg k done` the loop.  It would end without results if a node were left with
                                  too few of them on the stack;
* `runStacksM_enter`              the simulation: to enter a formula is to finish, on top of what is
                                  there, the one result that the recursion gives;
* `climbStacksM_eq_climbRecM`     so the loop ends with that result and is never stuck;
* `stackTransformM_eq`            the same for functions whose results may be any operands.

All this holds in every lawful monad, so the result, the first failure, the state and the order of
calls are those of the recursion.
-/

namespace Sentential.Formula

universe u v

/-! ## the loop -/

/-- the node over results for its arguments, if there is one result for each -/
def layer? {β : Type u} : Formula → List β → Option (Layer β)
  | .top, [] => some .top
  | .bottom, [] => some .bottom
  | .symbol n, [] => some (.symbol n)
  | .not _, [x] => some (.not x)
  | .binary op _ _, [x, y] => some (.binary op x y)
  | _, _ => none

theorem length_eq_of_layer? {β : Type u} (f : Formula) (xs : List β) (node : Layer β)
    (h : f.layer? xs = some node) : xs.length = f.arguments.length := by
  unfold layer? at h
  split at h
  · rfl
  · rfl
  · rfl
  · rfl
  · rfl
  · exact nomatch h

/-- lay visits on a stack, one after the other -/
def Visit.push (pending vs : List Visit) : List Visit := vs.reverse ++ pending

/-- what is pending when a node has been laid back: its arguments, the first one on top -/
def Visit.expand (f : Formula) (pending : List Visit) : List Visit :=
  Visit.push (.leave f :: pending) (f.arguments.reverse.map .enter)

theorem Visit.load_expand (f : Formula) (pending : List Visit) :
    load (expand f pending) < load (.enter f :: pending) := by
  cases f with
  | top => simp [expand, push, arguments, load, size]
  | bottom => simp [expand, push, arguments, load, size]
  | symbol n => simp [expand, push, arguments, load, size]
  | not f =>
    simp only [expand, push, arguments, load, size, List.reverse_singleton, List.map_cons,
      List.map_nil, List.singleton_append]
    omega
  | binary op l r =>
    simp only [expand, push, arguments, load, size, List.reverse_cons, List.reverse_nil,
      List.nil_append, List.map_cons, List.map_nil, List.cons_append]
    omega

section
variable {m : Type u → Type v} [Monad m] {β : Type u}

def runStacksM (alg : Layer β → m β) : List Visit → List β → m (List β)
  | [], done => pure done
  | .enter f :: pending, done =>
    match f.layer? [] with
    | some leaf => do
      let x ← alg leaf
      runStacksM alg pending (done ++ [x])
    | none => runStacksM alg (Visit.expand f pending) done
  | .leave f :: pending, done =>
    match f.layer? (done.rtake f.arguments.length) with
    | some node => do
      let x ← alg node
      runStacksM alg pending (done.rdrop f.arguments.length ++ [x])
    | none => pure []
termination_by pending => Visit.load pending
decreasing_by
  · simp only [Visit.load]
    have := f.size_pos
    omega
  · exact Visit.load_expand f pending
  · simp only [Visit.load]
    omega

/-- the result that lies at the bottom when nothing is pending any more -/
def climbStacksM (alg : Layer β → m β) (f : Formula) : m (Option β) := do
  let done ← runStacksM alg [.enter f] []
  return done.head?

/-! ## the simulation -/

section
variable (alg : Layer β → m β) (pending : List Visit) (done : List β)

theorem runStacksM_leaf (f : Formula) (leaf : Layer β) (h : f.layer? ([] : List β) = some leaf) :
    runStacksM alg (.enter f :: pending) done = (do
      let x ← alg leaf
      runStacksM alg pending (done ++ [x])) := by
  rw [runStacksM, h]

theorem runStacksM_enter_not (f : Formula) :
    runStacksM alg (.enter (.not f) :: pending) done
      = runStacksM alg (.enter f :: .leave (.not f) :: pending) done := by
  rw [runStacksM]
  rfl

theorem runStacksM_enter_binary (op : Connective) (l r : Formula) :
    runStacksM alg (.enter (.binary op l r) :: pending) done
      = runStacksM alg (.enter l :: .enter r :: .leave (.binary op l r) :: pending) done := by
  rw [runStacksM]
  rfl

/-- to leave a node is to take its results off and to put the one of the node in their place -/
theorem runStacksM_leave (f : Formula) (xs : List β) (node : Layer β)
    (h : f.layer? xs = some node) :
    runStacksM alg (.leave f :: pending) (done ++ xs) = (do
      let x ← alg node
      runStacksM alg pending (done ++ [x])) := by
  have hl : f.arguments.length = xs.length := (length_eq_of_layer? f xs node h).symm
  have htake : (done ++ xs).rtake xs.length = xs := by
    rw [List.rtake, List.length_append, Nat.add_sub_cancel, List.drop_left]
  rw [runStacksM, hl, htake, List.rdrop_append_length, h]

end

variable [LawfulMonad m]

/-- to enter a formula is to finish the result of the recursion on top of the finished ones -/
theorem runStacksM_enter (alg : Layer β → m β) (f : Formula) (pending : List Visit)
    (done : List β) :
    runStacksM alg (.enter f :: pending) done
      = climbRecM alg f >>= fun x => runStacksM alg pending (done ++ [x]) := by
  induction f generalizing pending done with
  | top => exact runStacksM_leaf alg pending done .top .top rfl
  | bottom => exact runStacksM_leaf alg pending done .bottom .bottom rfl
  | symbol n => exact runStacksM_leaf alg pending done (.symbol n) (.symbol n) rfl
  | not f ih =>
    rw [runStacksM_enter_not, ih, climbRecM, bind_assoc]
    congr 1
    funext x
    exact runStacksM_leave alg pending done (.not f) [x] (.not x) rfl
  | binary op l r ihl ihr =>
    rw [runStacksM_enter_binary, ihl, climbRecM, bind_assoc]
    congr 1
    funext x
    rw [ihr, bind_assoc]
    congr 1
    funext y
    rw [List.append_assoc]
    exact runStacksM_leave alg pending done (.binary op l r) [x, y] (.binary op x y) rfl

theorem runStacksM_eq (alg : Layer β → m β) (f : Formula) :
    runStacksM alg [.enter f] [] = (fun x => [x]) <$> climbRecM alg f := by
  rw [runStacksM_enter, ← bind_pure_comp]
  congr 1
  funext x
  rw [runStacksM]
  rfl

theorem climbStacksM_eq_climbRecM (alg : Layer β → m β) (f : Formula) :
    climbStacksM alg f = some <$> climbRecM alg f := by
  rw [climbStacksM, runStacksM_eq, bind_map_left, ← bind_pure_comp]
  rfl

theorem climbStacksM_eq_climbM (alg : Layer β → m β) (f : Formula) :
    climbStacksM alg f = some <$> climbM alg f := by
  rw [climbStacksM_eq_climbRecM, climbM_eq_climbRecM]

end

/-! ## operands for results -/

section
variable {m : Type → Type} [Monad m] [MonadLiftT (Except Fault) m]

/-- rebuild each node from its finished arguments and hand it to `fn`, with two stacks -/
def stackTransformM (fn : Formula → m Operand) (f : Formula) : m (Option Operand) :=
  climbStacksM (rebuildM fn) f

theorem climbRecM_rebuildM (fn : Formula → m Operand) (f : Formula) :
    climbRecM (rebuildM fn) f = deepTransformRecM fn f := by
  induction f with
  | top => rfl
  | bottom => rfl
  | symbol n => rfl
  | not f ih => rw [climbRecM, ih]; rfl
  | binary op l r ihl ihr => rw [climbRecM, ihl, ihr]; rfl

variable [LawfulMonad m]

theorem deepTransformM_eq (fn : Formula → m Operand) (f : Formula) :
    deepTransformM fn f = deepTransformRecM fn f := by
  rw [deepTransformM, climbM_eq_climbRecM, climbRecM_rebuildM]

theorem stackTransformM_eq (fn : Formula → m Operand) (f : Formula) :
    stackTransformM fn f = some <$> deepTransformRecM fn f := by
  rw [stackTransformM, climbStacksM_eq_climbM, ← deepTransformM_eq, deepTransformM]

end

end Sentential.Formula
