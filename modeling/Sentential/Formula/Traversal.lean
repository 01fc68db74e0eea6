import Sentential.Formula.Basic

/-!
# Walks through a formula

Two walks reach every node of a formula once.  Both keep what is still to do in a list, so that the
depth of the formula costs no depth of calls, and both have a recursion beside them that says in
which order the nodes are met.

* `Formula.climbM alg f` replaces the arguments of each node by results, from left to right, and
  hands the node to `alg`.  A node with results for arguments is a `Layer`; a node that waits for
  results is a `Frame`.  `Formula.climbRecM` is the recursion, and `climbM_eq_climbRecM` says that
  the two agree in every lawful monad: result, first failure, state and order of calls.
* `Formula.foldM fn seed f` carries a value through the nodes: right argument, left argument, node.
  `Formula.foldRecM` is the recursion, and `foldM_eq_foldRecM` the agreement.

`Formula.sweep rule f` climbs with a rule on formulas: each node is rebuilt from its finished
arguments and handed to the rule once.
-/

namespace Sentential

universe u v

/-! ## layers and frames -/

inductive Layer (β : Type u) where
  | top
  | bottom
  | symbol (n : Name)
  | not (x : β)
  | binary (op : Connective) (x y : β)

/-- a layer of formulas is a formula -/
def Layer.build : Layer Formula → Formula
  | .top => .top
  | .bottom => .bottom
  | .symbol n => .symbol n
  | .not f => .not f
  | .binary op l r => .binary op l r

inductive Frame (β : Type u) where
  | not
  | left (op : Connective) (r : Formula)
  | right (op : Connective) (x : β)

/-- the work that the waiting nodes still hold -/
def weight {β : Type u} : List (Frame β) → Nat
  | [] => 0
  | .not :: k => weight k + 1
  | .left _ r :: k => weight k + (3 * r.size + 2)
  | .right _ _ :: k => weight k + 1

namespace Formula

/-! ## climbing -/

section
variable {m : Type u → Type v} [Monad m] {β : Type u}

mutual
/-- climb from a subformula below the frames `k` -/
@[specialize] def descend (alg : Layer β → m β) (k : List (Frame β)) : Formula → m β
  | .top => do ascend alg k (← alg .top)
  | .bottom => do ascend alg k (← alg .bottom)
  | .symbol n => do ascend alg k (← alg (.symbol n))
  | .not f => descend alg (.not :: k) f
  | .binary op l r => descend alg (.left op r :: k) l
termination_by f => weight k + 3 * f.size
decreasing_by all_goals (simp only [weight, size]; omega)
/-- hand a result to the nearest frame -/
@[specialize] def ascend (alg : Layer β → m β) (k : List (Frame β)) (x : β) : m β :=
  match k with
  | [] => pure x
  | .not :: k => do ascend alg k (← alg (.not x))
  | .left op r :: k => descend alg (.right op x :: k) r
  | .right op y :: k => do ascend alg k (← alg (.binary op y x))
termination_by weight k
decreasing_by all_goals (simp only [weight]; omega)
end

/-- the results of all nodes, from the atoms to the root -/
@[specialize] def climbM (alg : Layer β → m β) (f : Formula) : m β := descend alg [] f

def climbRecM (alg : Layer β → m β) : Formula → m β
  | .top => alg .top
  | .bottom => alg .bottom
  | .symbol n => alg (.symbol n)
  | .not f => do
    let x ← climbRecM alg f
    alg (.not x)
  | .binary op l r => do
    let x ← climbRecM alg l
    let y ← climbRecM alg r
    alg (.binary op x y)

theorem descend_eq [LawfulMonad m] (alg : Layer β → m β) (k : List (Frame β)) (f : Formula) :
    descend alg k f = climbRecM alg f >>= ascend alg k := by
  induction f generalizing k with
  | top => rw [descend]; rfl
  | bottom => rw [descend]; rfl
  | symbol n => rw [descend]; rfl
  | not f ih =>
    rw [descend, ih, climbRecM, bind_assoc]
    congr 1
    funext x
    rw [ascend]
  | binary op l r ihl ihr =>
    rw [descend, ihl, climbRecM, bind_assoc]
    congr 1
    funext x
    rw [ascend, ihr, bind_assoc]
    congr 1
    funext y
    rw [ascend]

theorem climbM_eq_climbRecM [LawfulMonad m] (alg : Layer β → m β) (f : Formula) :
    climbM alg f = climbRecM alg f := by
  rw [climbM, descend_eq]
  have h : ascend alg ([] : List (Frame β)) = pure := by
    funext x
    rw [ascend]
  rw [h, bind_pure]

end

/-- rebuild each node from its finished arguments and apply a rule that may fail -/
@[specialize] def sweepM {m : Type → Type v} [Monad m] (rule : Formula → m Formula)
    (f : Formula) : m Formula :=
  climbM (fun node => rule node.build) f

def sweep (rule : Formula → Formula) (f : Formula) : Formula :=
  Id.run (sweepM (fun g => pure (rule g)) f)

section
variable (rule : Formula → Formula)

theorem sweep_top : sweep rule .top = rule .top := by
  rw [sweep, sweepM, climbM_eq_climbRecM]; rfl
theorem sweep_bottom : sweep rule .bottom = rule .bottom := by
  rw [sweep, sweepM, climbM_eq_climbRecM]; rfl
theorem sweep_symbol (n : Name) : sweep rule (.symbol n) = rule (.symbol n) := by
  rw [sweep, sweepM, climbM_eq_climbRecM]; rfl
theorem sweep_of_isAtom (f : Formula) (h : f.isAtom = true) : sweep rule f = rule f := by
  cases f with
  | top => exact sweep_top rule
  | bottom => exact sweep_bottom rule
  | symbol n => exact sweep_symbol rule n
  | not f => exact nomatch h
  | binary op l r => exact nomatch h
theorem sweep_not (f : Formula) : sweep rule (.not f) = rule (.not (sweep rule f)) := by
  rw [sweep, sweep, sweepM, sweepM, climbM_eq_climbRecM, climbM_eq_climbRecM]; rfl
theorem sweep_binary (op : Connective) (l r : Formula) :
    sweep rule (.binary op l r) = rule (.binary op (sweep rule l) (sweep rule r)) := by
  rw [sweep, sweep, sweep, sweepM, sweepM, sweepM, climbM_eq_climbRecM, climbM_eq_climbRecM,
    climbM_eq_climbRecM]
  rfl

/-- a rule that leaves a connective alone is only applied below it -/
theorem sweep_binary_of_fixed (op : Connective) (l r : Formula)
    (h : ∀ x y, rule (.binary op x y) = .binary op x y) :
    sweep rule (.binary op l r) = .binary op (sweep rule l) (sweep rule r) := by
  rw [sweep_binary, h]

end

/-- the two arguments of a connective at the root -/
def sides? : Formula → Option (Formula × Formula)
  | .binary _ l r => some (l, r)
  | _ => none

/-! ## folding -/

/-- a step that a fold still has to take: enter a subformula, or leave a node -/
inductive Visit where
  | enter (f : Formula)
  | leave (f : Formula)

/-- the work that the steps still hold -/
def Visit.load : List Visit → Nat
  | [] => 0
  | .enter f :: k => load k + 2 * f.size
  | .leave _ :: k => load k + 1

section
variable {m : Type u → Type v} [Monad m] {α : Type u}

/-- take the remaining steps; the right argument is entered first -/
@[specialize] def visitM (fn : Formula → α → m α) (acc : α) : List Visit → m α
  | [] => pure acc
  | .leave f :: k => do visitM fn (← fn f acc) k
  | .enter .top :: k => do visitM fn (← fn .top acc) k
  | .enter .bottom :: k => do visitM fn (← fn .bottom acc) k
  | .enter (.symbol n) :: k => do visitM fn (← fn (.symbol n) acc) k
  | .enter (.not f) :: k => visitM fn acc (.enter f :: .leave (.not f) :: k)
  | .enter (.binary op l r) :: k =>
    visitM fn acc (.enter r :: .enter l :: .leave (.binary op l r) :: k)
termination_by k => Visit.load k
decreasing_by all_goals (simp only [Visit.load, size]; omega)

/-- carry a value through all nodes, from the atoms to the root -/
@[specialize] def foldM (fn : Formula → α → m α) (seed : α) (f : Formula) : m α :=
  visitM fn seed [.enter f]

def foldRecM (fn : Formula → α → m α) (seed : α) : Formula → m α
  | .not f => do
    let a ← foldRecM fn seed f
    fn (.not f) a
  | .binary op l r => do
    let a ← foldRecM fn seed r
    let b ← foldRecM fn a l
    fn (.binary op l r) b
  | f => fn f seed

theorem visitM_enter [LawfulMonad m] (fn : Formula → α → m α) (acc : α) (f : Formula)
    (k : List Visit) :
    visitM fn acc (.enter f :: k) = foldRecM fn acc f >>= fun a => visitM fn a k := by
  induction f generalizing acc k with
  | top => rw [visitM]; rfl
  | bottom => rw [visitM]; rfl
  | symbol n => rw [visitM]; rfl
  | not f ih =>
    rw [visitM, ih, foldRecM, bind_assoc]
    congr 1
    funext a
    rw [visitM]
  | binary op l r ihl ihr =>
    rw [visitM, ihr, foldRecM, bind_assoc]
    congr 1
    funext a
    rw [ihl, bind_assoc]
    congr 1
    funext b
    rw [visitM]

theorem foldM_eq_foldRecM [LawfulMonad m] (fn : Formula → α → m α) (seed : α) (f : Formula) :
    foldM fn seed f = foldRecM fn seed f := by
  rw [foldM, visitM_enter]
  have h : (fun a => visitM fn a []) = (pure : α → m α) := by
    funext a
    rw [visitM]
  rw [h, bind_pure]

end

/-- carry a value through all nodes by a function that cannot fail -/
def fold {α : Type} (fn : Formula → α → α) (seed : α) (f : Formula) : α :=
  Id.run (foldM (fun g a => pure (fn g a)) seed f)

end Formula

end Sentential
