/-!
# Formulas of sentential logic

* `Name`        the name of a propositional variable: any text but the empty one,
* `Junction`    conjunction and disjunction, the two connectives that have a dual,
* `Connective`  the four binary connectives,
* `Formula`     a truth value, a symbol, a negation, or two formulas under a connective.

No flattening takes place: a chain of conjunctions is a tree, and `Formula.chain` nests it to the
right.  `Formula.join j l r` is `l` and `r` under a junction; the four connectives have pattern
names `Formula.and`, `Formula.or`, `Formula.implies`, `Formula.equivalent`.

`Formula.occurrences` lists the symbols from left to right, `Formula.names` lists them in the order
of their texts and without repetition.  Names are ordered by the code points of their texts.
-/

namespace Sentential

/-! ## names -/

structure Name where
  text : String
  nonempty : text ≠ ""
deriving DecidableEq

def Name.ofText? (s : String) : Option Name :=
  if h : s ≠ "" then some ⟨s, h⟩ else none

theorem Name.ofText?_text (n : Name) : Name.ofText? n.text = some n := by
  simp [Name.ofText?, n.nonempty]

theorem Name.text_injective {m n : Name} (h : m.text = n.text) : m = n := by
  cases m; cases n; cases h; rfl

/-- put a name into an ascending list, unless it is there -/
def Name.insert (n : Name) : List Name → List Name
  | [] => [n]
  | m :: ms =>
    if n.text < m.text then n :: m :: ms
    else if n = m then m :: ms
    else m :: Name.insert n ms

theorem Name.mem_insert (n k : Name) (ms : List Name) :
    k ∈ Name.insert n ms ↔ k = n ∨ k ∈ ms := by
  induction ms with
  | nil => simp [Name.insert]
  | cons m ms ih =>
    unfold Name.insert
    split
    · simp
    · split
      · rename_i h
        subst h
        simp
      · simp only [List.mem_cons, ih]
        exact or_left_comm

def Name.Ascending (ns : List Name) : Prop := ns.Pairwise fun m n => m.text < n.text

theorem Name.ascending_insert (n : Name) (ms : List Name) (h : Name.Ascending ms) :
    Name.Ascending (Name.insert n ms) := by
  induction ms with
  | nil => exact List.pairwise_singleton _ _
  | cons m ms ih =>
    have hm := List.pairwise_cons.mp h
    unfold Name.insert
    split
    · rename_i hlt
      refine List.pairwise_cons.mpr ⟨fun k hk => ?_, h⟩
      rcases List.mem_cons.mp hk with rfl | hk
      · exact hlt
      · exact String.lt_trans hlt (hm.1 k hk)
    · split
      · exact h
      · rename_i hlt hne
        refine List.pairwise_cons.mpr ⟨fun k hk => ?_, ih hm.2⟩
        rcases (Name.mem_insert n k ms).mp hk with rfl | hk
        · rcases Std.lt_trichotomy k.text m.text with h | h | h
          · exact absurd h hlt
          · exact absurd (Name.text_injective h) hne
          · exact h
        · exact hm.1 k hk

/-! ## connectives -/

inductive Junction where
  | and
  | or
deriving DecidableEq, Repr

def Junction.dual : Junction → Junction
  | .and => .or
  | .or => .and

@[simp] theorem Junction.dual_dual (j : Junction) : j.dual.dual = j := by cases j <;> rfl

theorem Junction.dual_ne (j : Junction) : j.dual ≠ j := by cases j <;> decide

inductive Connective where
  | junction (j : Junction)
  | implies
  | equivalent
deriving DecidableEq, Repr

/-- the word under which a connective builds a formula -/
def Connective.word : Connective → List Char
  | .junction .and => ['A', 'n', 'd']
  | .junction .or => ['O', 'r']
  | .implies => ['I', 'm', 'p', 'l', 'i', 'e', 's']
  | .equivalent => ['E', 'q', 'u', 'i', 'v', 'a', 'l', 'e', 'n', 't']

theorem Connective.word_injective {k op : Connective} (h : k.word = op.word) : k = op := by
  rcases k with (_ | _) | _ | _ <;> rcases op with (_ | _) | _ | _ <;> simp [word] at h ⊢

/-! ## formulas -/

inductive Formula where
  | top
  | bottom
  | symbol (n : Name)
  | not (f : Formula)
  | binary (op : Connective) (l r : Formula)
deriving DecidableEq

namespace Formula

@[match_pattern] abbrev join (j : Junction) (l r : Formula) : Formula := .binary (.junction j) l r
@[match_pattern] abbrev and (l r : Formula) : Formula := .binary (.junction .and) l r
@[match_pattern] abbrev or (l r : Formula) : Formula := .binary (.junction .or) l r
@[match_pattern] abbrev implies (l r : Formula) : Formula := .binary .implies l r
@[match_pattern] abbrev equivalent (l r : Formula) : Formula := .binary .equivalent l r

def ofBool (b : Bool) : Formula := if b then .top else .bottom

/-- the symbol with a given truth value: the symbol itself, or its negation -/
def literal (n : Name) (b : Bool) : Formula := if b then .symbol n else .not (.symbol n)

/-- truth values and symbols -/
def isAtom : Formula → Bool
  | .top | .bottom | .symbol _ => true
  | _ => false

def isTop : Formula → Bool
  | .top => true
  | _ => false

def isBottom : Formula → Bool
  | .bottom => true
  | _ => false

def isSymbol : Formula → Bool
  | .symbol _ => true
  | _ => false

def isNot : Formula → Bool
  | .not _ => true
  | _ => false

/-- the outermost operator is the connective `op` -/
def isBinary (op : Connective) : Formula → Bool
  | .binary k _ _ => k = op
  | _ => false

def isJoin (j : Junction) (f : Formula) : Bool := f.isBinary (.junction j)

/-- the name of the outermost operator -/
def operator : Formula → String
  | .top => "_T"
  | .bottom => "_F"
  | .symbol _ => "Symbol"
  | .not _ => "Not"
  | .binary op _ _ => String.ofList op.word

def arguments : Formula → List Formula
  | .not f => [f]
  | .binary _ l r => [l, r]
  | _ => []

/-- the longest way from the root to an atom -/
def depth : Formula → Nat
  | .not f => f.depth + 1
  | .binary _ l r => max l.depth r.depth + 1
  | _ => 0

def size : Formula → Nat
  | .not f => f.size + 1
  | .binary _ l r => l.size + r.size + 1
  | _ => 1

theorem size_pos (f : Formula) : 0 < f.size := by cases f <;> simp [size]

/-- some node of the formula, the root included, satisfies `p` -/
def anyNode (p : Formula → Bool) : Formula → Bool
  | .not f => p (.not f) || f.anyNode p
  | .binary op l r => p (.binary op l r) || l.anyNode p || r.anyNode p
  | f => p f

/-! ## symbols of a formula -/

/-- the symbols from left to right, once for each occurrence -/
def occurrences : Formula → List Name
  | .symbol n => [n]
  | .not f => f.occurrences
  | .binary _ l r => l.occurrences ++ r.occurrences
  | _ => []

def names (f : Formula) : List Name := f.occurrences.foldr Name.insert []

theorem mem_names (f : Formula) (n : Name) : n ∈ f.names ↔ n ∈ f.occurrences := by
  unfold names
  induction f.occurrences with
  | nil => simp
  | cons m ms ih => simp [Name.mem_insert, ih]

theorem ascending_names (f : Formula) : Name.Ascending f.names := by
  unfold names
  induction f.occurrences with
  | nil => exact List.Pairwise.nil
  | cons n ns ih => exact Name.ascending_insert n _ ih

/-! ## chains -/

/-- what an empty chain stands for -/
def neutral : Junction → Formula
  | .and => .top
  | .or => .bottom

def chain (j : Junction) : List Formula → Formula
  | [] => neutral j
  | [f] => f
  | f :: fs => .join j f (chain j fs)

@[simp] theorem chain_nil (j : Junction) : chain j [] = neutral j := rfl
@[simp] theorem chain_singleton (j : Junction) (f : Formula) : chain j [f] = f := rfl
@[simp] theorem chain_cons_cons (j : Junction) (f g : Formula) (fs : List Formula) :
    chain j (f :: g :: fs) = .join j f (chain j (g :: fs)) := rfl

def conjunction (fs : List Formula) : Formula := chain .and fs
def disjunction (fs : List Formula) : Formula := chain .or fs

end Formula

end Sentential
