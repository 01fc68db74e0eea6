import Mathlib.Data.Multiset.Bind
import Sentential.NormalForm.Pass
import Sentential.Proofs.Form
import Sentential.Proofs.NormalForm.Distribution

/-!
# Clauses, counted

Distribution of a junction `j` over its dual loses no clause, makes none twice and mixes none up.
Clauses are multisets of literals, and a formula has a multiset of them.

* `Formula.members j f`      the maximal subformulas below the tree of junctions `j` at the root;
* `Formula.clauses j f`      read off a formula as it stands: the members of its tree of duals, and
                             of each of these the members of its tree of junctions `j`;
* `Formula.expansion j f`    computed from a formula that is not layered yet: a dual junction adds
                             up the clauses of its arguments, a junction `j` crosses them;
* `Formula.breadth j f`      how many clauses that makes, by sums and products;
* `clauses_distributeOver`   what holds of distribution at one node, whatever its arguments are;
* `clauses_sweep_distribute` what holds of the sweep, by induction on the formula.

`clauses_of_layering` says it of both passes: `.or` is the junction of conjunctive normal form, and
`.and` that of disjunctive normal form.
-/

namespace Sentential.Formula

/-- the maximal subformulas below the tree of junctions `j` at the root -/
def members (j : Junction) : Formula → Multiset Formula
  | .join k l r => if k = j then members j l + members j r else {.join k l r}
  | f => {f}

/-- the members of the tree of dual junctions, each read as the members of a tree of junctions -/
def clauses (j : Junction) (f : Formula) : Multiset (Multiset Formula) :=
  (f.members j.dual).map (members j)

/-- each clause of the one side together with each clause of the other -/
def crossed (cs ds : Multiset (Multiset Formula)) : Multiset (Multiset Formula) :=
  (cs ×ˢ ds).map fun p => p.1 + p.2

/-- the clauses that a formula has when all its junctions `j` are distributed -/
def expansion (j : Junction) : Formula → Multiset (Multiset Formula)
  | .join k l r =>
    if k = j then crossed (expansion j l) (expansion j r) else expansion j l + expansion j r
  | f => {{f}}

/-- how many clauses a formula has when all its junctions `j` are distributed -/
def breadth (j : Junction) : Formula → Nat
  | .join k l r => if k = j then breadth j l * breadth j r else breadth j l + breadth j r
  | _ => 1

/-! ## crossing -/

section
variable (bs cs ds : Multiset (Multiset Formula))

theorem crossed_comm : crossed cs ds = crossed ds cs := by
  have hswap : cs ×ˢ ds = (ds ×ˢ cs).map Prod.swap := (Multiset.map_swap_product ds cs).symm
  rw [crossed, crossed, hswap, Multiset.map_map]
  exact Multiset.map_congr rfl fun p _ => add_comm p.2 p.1

theorem add_crossed : crossed (bs + cs) ds = crossed bs ds + crossed cs ds := by
  rw [crossed, Multiset.add_product, Multiset.map_add]
  rfl

theorem card_crossed : (crossed cs ds).card = cs.card * ds.card := by
  rw [crossed, Multiset.card_map, Multiset.card_product]

theorem mem_crossed (c : Multiset Formula) :
    c ∈ crossed cs ds ↔ ∃ a ∈ cs, ∃ b ∈ ds, a + b = c := by
  rw [crossed, Multiset.mem_map]
  constructor
  · rintro ⟨⟨a, b⟩, hab, hc⟩
    obtain ⟨ha, hb⟩ := Multiset.mem_product.mp hab
    exact ⟨a, ha, b, hb, hc⟩
  · rintro ⟨a, ha, b, hb, hc⟩
    exact ⟨(a, b), Multiset.mem_product.mpr ⟨ha, hb⟩, hc⟩

theorem crossed_singleton (c d : Multiset Formula) : crossed {c} {d} = {c + d} := by
  rw [crossed, Multiset.product_singleton, Multiset.map_singleton]

end

/-! ## clauses, node by node -/

section
variable (j : Junction)

theorem members_join (l r : Formula) : members j (.join j l r) = members j l + members j r := by
  rw [members, if_pos rfl]

theorem members_of_not_isJoin (f : Formula) (h : f.isJoin j = false) : members j f = {f} := by
  cases f with
  | binary op l r =>
    rcases op with k | _ | _
    · have hk : ¬ k = j := fun e => of_decide_eq_false h (congrArg Connective.junction e)
      rw [members, if_neg hk]
    · rfl
    · rfl
  | top => rfl
  | bottom => rfl
  | symbol n => rfl
  | not f => rfl

theorem clauses_join_dual (l r : Formula) :
    clauses j (.join j.dual l r) = clauses j l + clauses j r := by
  rw [clauses, members_join, Multiset.map_add]
  rfl

/-- what is no dual junction is one clause -/
theorem clauses_of_not_isJoin (f : Formula) (h : f.isJoin j.dual = false) :
    clauses j f = {members j f} := by
  rw [clauses, members_of_not_isJoin j.dual f h, Multiset.map_singleton]

theorem isJoin_dual_join (l r : Formula) : isJoin j.dual (.join j l r) = false :=
  isJoin_binary_of_ne j.dual _ l r fun e => j.dual_ne (Connective.junction.inj e).symm

theorem clauses_of_isLiteral (f : Formula) (h : f.isLiteral = true) : clauses j f = {{f}} := by
  cases f with
  | binary op l r => exact nomatch h
  | top => rfl
  | bottom => rfl
  | symbol n => rfl
  | not f => rfl

/-! ## distribution -/

/-- one distribution crosses the clauses of its arguments -/
theorem clauses_distributeOver (r l : Formula) :
    clauses j (distributeOver j r l) = crossed (clauses j l) (clauses j r) := by
  refine distributeOver_induction
    (P := fun l r x => clauses j x = crossed (clauses j l) (clauses j r)) ?_ ?_ ?_ r l
  · intro l r hl hr
    have hboth := clauses_of_not_isJoin j (.join j l r) (isJoin_dual_join j l r)
    rw [hboth, members_join, clauses_of_not_isJoin j l hl, clauses_of_not_isJoin j r hr,
      crossed_singleton]
  · intro a b r x y hx hy
    rw [clauses_join_dual, clauses_join_dual, hx, hy, add_crossed]
  · intro l r x _ _ hx
    rw [hx, crossed_comm]

/-! ## expansion -/

theorem expansion_of_isLiteral (f : Formula) (h : f.isLiteral = true) : expansion j f = {{f}} := by
  cases f with
  | binary op l r => exact nomatch h
  | top => rfl
  | bottom => rfl
  | symbol n => rfl
  | not f => rfl

theorem expansion_join (l r : Formula) :
    expansion j (.join j l r) = crossed (expansion j l) (expansion j r) := by
  rw [expansion, if_pos rfl]

theorem expansion_join_dual (l r : Formula) :
    expansion j (.join j.dual l r) = expansion j l + expansion j r := by
  rw [expansion, if_neg j.dual_ne]

theorem card_expansion (f : Formula) : (expansion j f).card = breadth j f := by
  induction f with
  | binary op l r ihl ihr =>
    rcases op with k | _ | _
    · rw [expansion, breadth]
      split
      · rw [card_crossed, ihl, ihr]
      · rw [Multiset.card_add, ihl, ihr]
    · rfl
    · rfl
  | top => rfl
  | bottom => rfl
  | symbol n => rfl
  | not f => rfl

/-- the clauses of a formula in negation normal form hold literals only -/
theorem isLiteral_of_mem_expansion (f : Formula) (h : f.isNnf = true) :
    ∀ c ∈ expansion j f, ∀ x ∈ c, x.isLiteral = true := by
  refine isNnf_induction j
    (p := fun f => ∀ c ∈ expansion j f, ∀ x ∈ c, x.isLiteral = true) ?_ ?_ ?_ f h
  · intro f hf c hc x hx
    rw [expansion_of_isLiteral j f hf, Multiset.mem_singleton] at hc
    rw [hc, Multiset.mem_singleton] at hx
    rw [hx]
    exact hf
  · intro l r hl hr c hc x hx
    rw [expansion_join, mem_crossed] at hc
    obtain ⟨a, ha, b, hb, rfl⟩ := hc
    rcases Multiset.mem_add.mp hx with hx | hx
    · exact hl a ha x hx
    · exact hr b hb x hx
  · intro l r hl hr c hc
    rw [expansion_join_dual] at hc
    rcases Multiset.mem_add.mp hc with hc | hc
    · exact hl c hc
    · exact hr c hc

/-- the sweep makes the clauses that the formula expands to -/
theorem clauses_sweep_distribute (f : Formula) (h : f.isNnf = true) :
    clauses j (f.sweep (distribute j)) = expansion j f := by
  refine isNnf_induction j
    (p := fun f => clauses j (f.sweep (distribute j)) = expansion j f) ?_ ?_ ?_ f h
  · intro f hf
    rw [sweep_distribute_of_isLiteral j f hf, clauses_of_isLiteral j f hf,
      expansion_of_isLiteral j f hf]
  · intro l r hl hr
    rw [sweep_distribute_join, clauses_distributeOver, hl, hr, expansion_join]
  · intro l r hl hr
    rw [sweep_distribute_join_dual, clauses_join_dual, hl, hr, expansion_join_dual]

theorem card_members_sweep_distribute (f : Formula) (h : f.isNnf = true) :
    (members j.dual (f.sweep (distribute j))).card = breadth j f := by
  rw [← card_expansion, ← clauses_sweep_distribute j f h, clauses, Multiset.card_map]

end

/-- **No clause is lost, made twice or mixed up**: the conjunctive normal form of a formula in
negation normal form has the clauses that the formula expands to, each as often, and its disjunctive
normal form has the products.  They hold literals only, and sums and products count them. -/
theorem clauses_of_layering (f : Formula) (h : f.isNnf = true) :
    (f.mkCnf.clauses .or = f.expansion .or ∧ f.mkDnf.clauses .and = f.expansion .and)
      ∧ (∀ j, ∀ c ∈ f.expansion j, ∀ x ∈ c, x.isLiteral = true)
      ∧ (f.mkCnf.members .and).card = f.breadth .or
      ∧ (f.mkDnf.members .or).card = f.breadth .and := by
  have hcnf : f.mkCnf.clauses .or = f.expansion .or := clauses_sweep_distribute .or f h
  have hdnf : f.mkDnf.clauses .and = f.expansion .and := clauses_sweep_distribute .and f h
  have hliteral (j : Junction) := isLiteral_of_mem_expansion j f h
  refine ⟨⟨hcnf, hdnf⟩, hliteral, ?_, ?_⟩
  · exact card_members_sweep_distribute .or f h
  · exact card_members_sweep_distribute .and f h

/-- two equal conjunctions under a disjunction: four clauses, two of which are equal -/
theorem clauses_of_layering_of_or :
    let x : Formula := .symbol ⟨"X", by decide⟩
    let y : Formula := .symbol ⟨"Y", by decide⟩
    let f : Formula := .or (.and x y) (.and x y)
    f.isNnf = true ∧ f.mkCnf.clauses .or = {{x, x}, {x, y}, {y, x}, {y, y}}
      ∧ (f.mkCnf.members .and).card = 4 := by
  intro x y f
  have hnnf : f.isNnf = true := by decide
  obtain ⟨⟨hcnf, _⟩, _, hcard, _⟩ := clauses_of_layering f hnnf
  exact ⟨hnnf, hcnf.trans rfl, hcard⟩

end Sentential.Formula
