import Sentential.Fault

/-!
# Diagnostics

A diagnostic is a fault on its way to the user: its kind and its text.  Faults of the caller are
printed in one line.  Other faults are passed on unchanged, except in an interactive session, where
only faults that are to be printed arrive.
-/

namespace Sentential

structure Diagnostic where
  kind : Kind
  text : String
deriving DecidableEq

namespace Diagnostic

def ofFault (e : Fault) : Diagnostic := ⟨e.kind, e.message⟩

def line (d : Diagnostic) : String := d.kind.label ++ ": " ++ d.text ++ "\n"

/-- what is printed, and what is passed on -/
structure Response where
  printed : String
  passedOn : List Diagnostic

def respond (d : Diagnostic) : Response :=
  if d.kind.isInput then ⟨d.line, []⟩ else ⟨"", [d]⟩

def respondInteractively (d : Diagnostic) : Response := ⟨d.line, []⟩

theorem respond_of_isInput (d : Diagnostic) (h : d.kind.isInput = true) :
    d.respond = d.respondInteractively := by
  rw [respond, if_pos h, respondInteractively]

end Diagnostic

end Sentential
