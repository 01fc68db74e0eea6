import Sentential.Formula.Basic
import Sentential.Text.Quoted

/-!
# The written form of a formula

`Formula.written` spells out how a formula is built: `T`, `F`, `Symbol('X')`, `Not(f)`, `And(f, g)`
and so on.  `Formula.writtenOnto` puts the same characters in front of a rest, which keeps the work
linear in the size of the formula, and `writtenOnto_append` says that the rest is left alone.
-/

namespace Sentential

/-- the word in front of a symbol's name -/
def symbolWord : List Char := ['S', 'y', 'm', 'b', 'o', 'l']

/-- the word in front of a negated formula -/
def notWord : List Char := ['N', 'o', 't']

/-- a symbol's written form, in front of `rest` -/
def Name.writtenOnto (n : Name) (rest : List Char) : List Char :=
  symbolWord ++ '(' :: Text.quoteOnto n.text.toList (')' :: rest)

theorem Name.writtenOnto_append (n : Name) (r t : List Char) :
    n.writtenOnto (r ++ t) = n.writtenOnto r ++ t := by
  have h := Text.quoteOnto_append n.text.toList (')' :: r) t
  simp only [List.cons_append] at h
  simp only [Name.writtenOnto, h, List.append_assoc, List.cons_append]

namespace Formula

def writtenOnto : Formula → List Char → List Char
  | .top, rest => 'T' :: rest
  | .bottom, rest => 'F' :: rest
  | .symbol n, rest => n.writtenOnto rest
  | .not f, rest => notWord ++ '(' :: f.writtenOnto (')' :: rest)
  | .binary op l r, rest =>
    op.word ++ '(' :: l.writtenOnto (',' :: ' ' :: r.writtenOnto (')' :: rest))

def written (f : Formula) : String := String.ofList (f.writtenOnto [])

theorem writtenOnto_append (f : Formula) (r t : List Char) :
    f.writtenOnto (r ++ t) = f.writtenOnto r ++ t := by
  induction f generalizing r with
  | top => rfl
  | bottom => rfl
  | symbol n => exact n.writtenOnto_append r t
  | not f ih =>
    have h := ih (')' :: r)
    simp only [List.cons_append] at h
    simp only [writtenOnto, h, List.append_assoc, List.cons_append]
  | binary op a b iha ihb =>
    have hb := ihb (')' :: r)
    have ha := iha (',' :: ' ' :: b.writtenOnto (')' :: r))
    simp only [List.cons_append] at ha hb
    simp only [writtenOnto, hb, ha, List.append_assoc, List.cons_append]

theorem written_toList (f : Formula) : f.written.toList = f.writtenOnto [] := by
  simp [written]

end Formula

end Sentential
