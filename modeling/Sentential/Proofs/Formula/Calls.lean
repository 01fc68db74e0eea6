import Sentential.Proofs.Effect
import Sentential.Proofs.Formula.Stacks

/-!
# The calls of a bottom-up transformation

A function that is driven through a formula may fail on its own account and keep a state.  Its calls
are written down by a second function that keeps the list of them next to that state.

* `recorded fn`    `fn`, with each of its calls written down before it is made;
* `Records x y rs` `y` does what `x` does and writes calls down, whose roots are `rs`, or the first
                   ones of `rs` if `x` fails;
* `Records.bind`   one after the other.  The step of the induction;
* `records_deepTransformRecM` the calls are at the nodes in the order of `Formula.postorder`;
* `stackTransformM_calls` so are those of the loops, which agree with the recursion in everything.

Only the roots of the calls are known before the run: below the root stands what the earlier calls
have made of the arguments.
-/

namespace Sentential

namespace Formula

/-- a node without its arguments -/
def root : Formula → Layer Unit
  | .top => .top
  | .bottom => .bottom
  | .symbol n => .symbol n
  | .not _ => .not ()
  | .binary op _ _ => .binary op () ()

/-- all nodes, each after its arguments and these from left to right -/
def postorder : Formula → List Formula
  | .not f => f.postorder ++ [.not f]
  | .binary op l r => l.postorder ++ (r.postorder ++ [.binary op l r])
  | f => [f]

theorem length_postorder (f : Formula) : f.postorder.length = f.size := by
  induction f with
  | top => rfl
  | bottom => rfl
  | symbol n => rfl
  | not f ih => rw [postorder, List.length_append, ih]; rfl
  | binary op l r ihl ihr =>
    rw [postorder, List.length_append, List.length_append, ihl, ihr, size, Nat.add_assoc]
    rfl

theorem root_of_mkNot (x : Operand) (g : Formula) (h : mkNot x = .ok g) : g.root = .not () := by
  cases x with
  | formula f => cases h; rfl
  | datum d => exact nomatch h

theorem root_of_mkBinary (op : Connective) (x y : Operand) (g : Formula)
    (h : mkBinary op x y = .ok g) : g.root = .binary op () () := by
  cases x with
  | formula l =>
    cases y with
    | formula r => cases h; rfl
    | datum d => exact nomatch h
  | datum d => exact nomatch h

section
variable {σ ε α β : Type}

/-! ## calls written down -/

/-- the function `fn`, with each of its calls written down before it is made -/
def recorded (fn : Formula → Effect σ ε Operand) (g : Formula) :
    Effect (List Formula × σ) ε Operand :=
  ExceptT.mk fun (calls, s) =>
    let (r, t) := (fn g).observe s
    (r, calls ++ [g], t)

/-- `y` does what `x` does, and the calls that it writes down are at the nodes `rs` -/
def Records (x : Effect σ ε α) (y : Effect (List Formula × σ) ε α)
    (rs : List (Layer Unit)) : Prop :=
  ∀ calls s, ∃ more,
    y.observe (calls, s) = ((x.observe s).1, calls ++ more, (x.observe s).2)
      ∧ more.map root <+: rs
      ∧ ∀ a, (x.observe s).1 = .ok a → more.map root = rs

theorem records_recorded (fn : Formula → Effect σ ε Operand) (g : Formula) :
    Records (fn g) (recorded fn g) [g.root] := by
  intro calls s
  exact ⟨[g], rfl, List.prefix_rfl, fun _ _ => rfl⟩

theorem Records.bind {x : Effect σ ε α} {y : Effect (List Formula × σ) ε α}
    {k : α → Effect σ ε β} {l : α → Effect (List Formula × σ) ε β} {rs ss : List (Layer Unit)}
    (h : Records x y rs) (hk : ∀ a, Records (k a) (l a) ss) :
    Records (x >>= k) (y >>= l) (rs ++ ss) := by
  intro calls s
  obtain ⟨more, hy, hpre, hall⟩ := h calls s
  cases hx : x.observe s with
  | mk r t =>
    rw [hx] at hy hall
    cases r with
    | error e =>
      rw [Effect.observe_bind_error x k s t e hx, Effect.observe_bind_error y l _ _ e hy]
      exact ⟨more, rfl, hpre.trans (List.prefix_append rs ss), fun a ha => nomatch ha⟩
    | ok a =>
      have hrs : more.map root = rs := hall a rfl
      obtain ⟨last, hl, hlpre, hlall⟩ := hk a (calls ++ more) t
      rw [Effect.observe_bind_ok x k s t a hx, Effect.observe_bind_ok y l _ _ a hy]
      refine ⟨more ++ last, ?_, ?_, ?_⟩
      · rw [hl, List.append_assoc]
      · rw [List.map_append, hrs]
        exact (List.prefix_append_right_inj rs).2 hlpre
      · intro b hb
        rw [List.map_append, hrs, hlall b hb]

/-- a node that is rebuilt and handed over; one that cannot be rebuilt is not handed over -/
theorem records_rebuilt (fn : Formula → Effect σ (Fault ⊕ ε) Operand)
    (made : Except Fault Formula) (node : Layer Unit) (h : ∀ g, made = .ok g → g.root = node) :
    Records (do fn (← made) : Effect σ (Fault ⊕ ε) Operand) (do recorded fn (← made)) [node] := by
  cases made with
  | error e =>
    intro calls s
    refine ⟨[], ?_, List.nil_prefix, fun a ha => nomatch ha⟩
    rw [List.append_nil]
    rfl
  | ok g =>
    rw [← h g rfl]
    exact records_recorded fn g

/-- the calls of the recursion are at the nodes in postorder -/
theorem records_deepTransformRecM (fn : Formula → Effect σ (Fault ⊕ ε) Operand) (f : Formula) :
    Records (deepTransformRecM fn f) (deepTransformRecM (recorded fn) f)
      (f.postorder.map root) := by
  induction f with
  | top => exact records_recorded fn .top
  | bottom => exact records_recorded fn .bottom
  | symbol n => exact records_recorded fn (.symbol n)
  | not f ih =>
    rw [postorder, List.map_append]
    exact ih.bind fun x => records_rebuilt fn (mkNot x) (.not ()) (root_of_mkNot x)
  | binary op l r ihl ihr =>
    rw [postorder, List.map_append, List.map_append]
    exact ihl.bind fun x => ihr.bind fun y =>
      records_rebuilt fn (mkBinary op x y) (.binary op () ()) (root_of_mkBinary op x y)

/-- **Stacks and recursion.**  Whatever a function does, the loop over two stacks and the loop over
frames give what the recursion gives: the result or the first failure, the state, and the calls.
There is one call at each node in postorder, up to the first failure. -/
theorem stackTransformM_calls (fn : Formula → Effect σ (Fault ⊕ ε) Operand) (f : Formula) :
    stackTransformM fn f = some <$> deepTransformRecM fn f
      ∧ deepTransformM fn f = deepTransformRecM fn f
      ∧ stackTransformM (recorded fn) f = some <$> deepTransformRecM (recorded fn) f
      ∧ deepTransformM (recorded fn) f = deepTransformRecM (recorded fn) f
      ∧ ∀ s, ∃ calls,
          (deepTransformM (recorded fn) f).observe ([], s)
              = (((deepTransformM fn f).observe s).1, calls, ((deepTransformM fn f).observe s).2)
            ∧ calls.map root <+: f.postorder.map root
            ∧ ∀ x, ((deepTransformM fn f).observe s).1 = .ok x →
                calls.map root = f.postorder.map root ∧ calls.length = f.size := by
  refine ⟨stackTransformM_eq fn f, deepTransformM_eq fn f, stackTransformM_eq (recorded fn) f,
    deepTransformM_eq (recorded fn) f, ?_⟩
  intro s
  obtain ⟨calls, hy, hpre, hall⟩ := records_deepTransformRecM fn f [] s
  rw [List.nil_append] at hy
  rw [deepTransformM_eq, deepTransformM_eq]
  refine ⟨calls, hy, hpre, ?_⟩
  intro x hx
  have hroots : calls.map root = f.postorder.map root := hall x hx
  refine ⟨hroots, ?_⟩
  rw [← length_postorder f, ← List.length_map root, hroots, List.length_map]

-- a negation cannot be rebuilt above a datum, so it is not handed over
example (n : Name) :
    let drop : Formula → Effect Unit (Fault ⊕ Empty) Operand := fun _ => pure (.datum .nothing)
    (deepTransformM (recorded drop) (.not (.symbol n))).observe ([], ())
      = (.error (.inl (.notFormula .nothing)), [.symbol n], ()) := by
  intro drop
  rw [deepTransformM_eq]
  rfl

end

end Formula

end Sentential
