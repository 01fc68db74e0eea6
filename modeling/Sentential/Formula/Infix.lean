import Sentential.Formula.Basic

/-!
# Formulas as readers write them

`Formula.shown` places a connective between its arguments and a negation in front of its argument.
Parentheses stand around an argument of a connective unless the argument binds stronger, so that
also a nested chain of one connective keeps its parentheses, and around an argument of a negation
that is weaker than a negation.

A `Style` holds the words and the space between them.  `Style.plain` is for terminals and
`Style.latex` for typesetting; the parentheses are decided before any style is chosen, by
`Connective.strength` and `Formula.strength` alone.
-/

namespace Sentential

/-! ## strength of binding -/

def Connective.strength : Connective → Nat
  | .junction _ => 50
  | .implies => 10
  | .equivalent => 10

def Formula.strength : Formula → Nat
  | .binary op _ _ => op.strength
  | _ => 99

/-! ## styles -/

structure Style where
  top : String
  bottom : String
  not : String
  connective : Connective → String
  space : String

def Style.plain : Style where
  top := "T"
  bottom := "F"
  not := "not"
  connective
    | .junction .and => "and"
    | .junction .or => "or"
    | .implies => "-->"
    | .equivalent => "<-->"
  space := " "

def Style.latex : Style where
  top := "\\top"
  bottom := "\\bot"
  not := "\\neg"
  connective
    | .junction .and => "\\wedge"
    | .junction .or => "\\vee"
    | .implies => "\\longrightarrow"
    | .equivalent => "\\longleftrightarrow"
  space := " \\, "

namespace Formula

/-- what `body` puts in front of a rest, between parentheses if `b` -/
def parenthesized (b : Bool) (body : List Char → List Char) (rest : List Char) : List Char :=
  if b then '(' :: body (')' :: rest) else body rest

/-- the formula in a style, in front of `rest` -/
def renderOnto (s : Style) : Formula → List Char → List Char
  | .top, rest => s.top.toList ++ rest
  | .bottom, rest => s.bottom.toList ++ rest
  | .symbol n, rest => n.text.toList ++ rest
  | .not f, rest =>
    s.not.toList ++ (s.space.toList ++ parenthesized (f.strength < 99) (renderOnto s f) rest)
  | .binary op l r, rest =>
    parenthesized (l.strength ≤ op.strength) (renderOnto s l)
      (s.space.toList ++ (s.connective op).toList ++ s.space.toList ++
        parenthesized (r.strength ≤ op.strength) (renderOnto s r) rest)

def render (s : Style) (f : Formula) : String := String.ofList (f.renderOnto s [])

def shown (f : Formula) : String := f.render .plain

def latex (f : Formula) : String := f.render .latex

def latexDisplay (f : Formula) : String := "$\\displaystyle " ++ f.latex ++ "$"

theorem render_toList (s : Style) (f : Formula) : (f.render s).toList = f.renderOnto s [] := by
  simp [render]

end Formula

end Sentential
