import Sentential.Fault
import Sentential.Formula.Written

/-!
# Layout of the written form

A printer that breaks lines takes the written form of a formula as a list of events: texts, places
where a line may be broken, and the beginning and end of groups.  A group begins with the name of an
operator and an opening parenthesis, and its lines are indented by the length of that text.

`Formula.layoutOnto` puts the events of a formula in front of a rest.
-/

namespace Sentential

inductive LayoutEvent where
  | text (s : String)
  | breakable
  | enter (indent : Nat) (s : String)
  | leave (indent : Nat) (s : String)
deriving DecidableEq

namespace Formula

/-- a group under the name of an operator; `body` puts its content in front of a rest -/
def groupOnto (word : List Char) (body : List LayoutEvent → List LayoutEvent)
    (rest : List LayoutEvent) : List LayoutEvent :=
  .enter (word.length + 1) (String.ofList (word ++ ['('])) ::
    body (.leave (word.length + 1) ")" :: rest)

def layoutOnto : Formula → List LayoutEvent → List LayoutEvent
  | .top, rest => .text "T" :: rest
  | .bottom, rest => .text "F" :: rest
  | .symbol n, rest => groupOnto symbolWord (.text (Text.quote n.text) :: ·) rest
  | .not f, rest => groupOnto notWord (layoutOnto f) rest
  | .binary op l r, rest =>
    groupOnto op.word (fun k => layoutOnto l (.text "," :: .breakable :: layoutOnto r k)) rest

/-- the events of a formula; one that is said to contain itself is refused -/
def layout (f : Formula) (cycle : Bool) : Except Fault (List LayoutEvent) :=
  if cycle then .error .cyclic else .ok (f.layoutOnto [])

end Formula

end Sentential
