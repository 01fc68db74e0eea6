import Sentential.Formula.Basic

/-!
# Expressions

An `Expression` is a Boolean term whose operators take any number of arguments.  Its leaves are
truth values, symbols, and foreign terms, of which only the text is known.

The arguments of conjunctions, disjunctions and equivalences count as a set.  `Expression.same`
compares two expressions up to that; it expects the arguments of one operator to be different from
each other.  `Expression.shown` lists such arguments in the order of their texts.
-/

namespace Sentential

inductive Head where
  | not
  | connective (op : Connective)
deriving DecidableEq

namespace Head

def label : Head → String
  | .not => "Not"
  | .connective op => String.ofList op.word

/-- the arguments count as a set -/
def commutes : Head → Bool
  | .not => false
  | .connective .implies => false
  | .connective _ => true

end Head

inductive Expression where
  | constant (b : Bool)
  | symbol (s : String)
  | apply (h : Head) (args : List Expression)
  | foreign (text : String)

/-- put a text into an ascending list; equal texts stay side by side -/
def insertText (s : String) : List String → List String
  | [] => [s]
  | t :: ts => if t < s then t :: insertText s ts else s :: t :: ts

namespace Expression

mutual
def shown : Expression → String
  | .constant b => if b then "true" else "false"
  | .symbol s => s
  | .apply h args =>
    let texts := shownAll args
    let texts := if h.commutes then texts.foldr insertText [] else texts
    h.label ++ "(" ++ ", ".intercalate texts ++ ")"
  | .foreign text => text
def shownAll : List Expression → List String
  | [] => []
  | e :: es => e.shown :: shownAll es
end

mutual
def same : Expression → Expression → Bool
  | .constant a, .constant b => a == b
  | .symbol s, .symbol t => s == t
  | .foreign s, .foreign t => s == t
  | .apply h es, .apply k fs =>
    h = k && es.length = fs.length && if h.commutes then sameSet es fs else sameList es fs
  | _, _ => false
/-- each of the first expressions is among the others -/
def sameSet : List Expression → List Expression → Bool
  | [], _ => true
  | e :: es, fs => fs.any e.same && sameSet es fs
def sameList : List Expression → List Expression → Bool
  | e :: es, f :: fs => e.same f && sameList es fs
  | [], [] => true
  | _, _ => false
end

section
variable (e f : Expression) (es fs : List Expression)

theorem same_apply (h k : Head) : (apply h es).same (apply k fs)
    = (h = k && es.length = fs.length && if h.commutes then sameSet es fs else sameList es fs) :=
  rfl

theorem sameSet_nil : sameSet [] fs = true := rfl

theorem sameSet_cons : sameSet (e :: es) fs = (fs.any e.same && sameSet es fs) := rfl

theorem sameList_cons_cons : sameList (e :: es) (f :: fs) = (e.same f && sameList es fs) := rfl

end

/-- each expression once, where it comes first -/
def distinct : List Expression → List Expression
  | [] => []
  | e :: es => e :: (distinct es).filter fun f => !e.same f

def isConstant (b : Bool) : Expression → Bool
  | .constant c => c = b
  | _ => false

end Expression

end Sentential
