import Sentential.Formula.Written
import Sentential.Proofs.Written.Quotes

/-!
# The written form can be read back

A formula is read from its written form from left to right, one character after the other.  A
`Reading` keeps the parts whose arguments are still to come, the nearest first, and a `Focus`: what
stands at the place of reading.  A word is known by the parenthesis behind it, a name by its quotes,
and a formula ends with its own parenthesis, so no character has to be read twice.

* `Reading.step r c`        the reading after one more character, unless it does not fit;
* `Formula.ofWritten?`      the reader;
* `foldlM_writtenOnto`      the invariant: the characters that are written for a formula leave it at
                            the place of reading, whatever is around it;
* `ofWritten?_written`      the reader gives the formula back;
* `written_eq_iff`          so different formulas are written differently.
-/

namespace Sentential

def Connective.ofWritten? (w : List Char) : Option Connective :=
  [.junction .and, .junction .or, .implies, .equivalent].find? fun op => op.word = w

namespace Written

/-! ## reading -/

/-- a part of a formula with arguments still to come -/
inductive Part where
  | not
  | first (op : Connective)
  | second (op : Connective) (l : Formula)

/-- what stands at the place of reading -/
inductive Focus where
  /-- the letters of a word, or none where a formula begins -/
  | word (w : List Char)
  /-- the place of an opening quote -/
  | quote
  /-- a name between quotes `q` -/
  | name (q : Char) (u : Text.Unquoting)
  /-- a formula that has ended -/
  | formula (f : Formula)
  /-- the comma between two arguments -/
  | comma

structure Reading where
  parts : List Part
  focus : Focus

namespace Reading

/-- an opening parenthesis behind a word -/
def enter (k : List Part) (w : List Char) : Option Reading :=
  if w = symbolWord then some ⟨k, .quote⟩
  else if w = notWord then some ⟨.not :: k, .word []⟩
  else (Connective.ofWritten? w).map fun op => ⟨.first op :: k, .word []⟩

/-- a character behind a name: the parenthesis that ends a symbol -/
def endSymbol (k : List Part) (s : List Char) (c : Char) : Option Reading :=
  if c = ')' then (Name.ofText? (String.ofList s)).map fun n => ⟨k, .formula (.symbol n)⟩
  else none

/-- a character behind a formula, which is the last argument of the nearest part or its first -/
def endArgument : List Part → Formula → Char → Option Reading
  | .not :: k, f, ')' => some ⟨k, .formula (.not f)⟩
  | .first op :: k, l, ',' => some ⟨.second op l :: k, .comma⟩
  | .second op l :: k, r, ')' => some ⟨k, .formula (.binary op l r)⟩
  | _, _, _ => none

/-- the reading after one more character -/
def step : Reading → Char → Option Reading
  | ⟨k, .word w⟩, c =>
    if c = '(' then enter k w
    else if w = [] ∧ c = 'T' then some ⟨k, .formula .top⟩
    else if w = [] ∧ c = 'F' then some ⟨k, .formula .bottom⟩
    else some ⟨k, .word (w ++ [c])⟩
  | ⟨k, .quote⟩, c => if c = '\'' ∨ c = '"' then some ⟨k, .name c (.within [])⟩ else none
  | ⟨k, .name _ (.ended s)⟩, c => endSymbol k s c
  | ⟨k, .name q u⟩, c => (u.step q c).map fun u' => ⟨k, .name q u'⟩
  | ⟨k, .formula f⟩, c => endArgument k f c
  | ⟨k, .comma⟩, c => if c = ' ' then some ⟨k, .word []⟩ else none

/-- the formula that has been read, if no part has arguments to come -/
def formula? : Reading → Option Formula
  | ⟨[], .formula f⟩ => some f
  | _ => none

end Reading

end Written

/-- the formula that is written as `s` -/
def Formula.ofWritten? (s : String) : Option Formula := do
  let r ← s.toList.foldlM Written.Reading.step ⟨[], .word []⟩
  r.formula?

namespace Written

/-! ## names -/

section
variable (k : List Part)

/-- characters that are read as part of a quoted text are read as part of a name -/
theorem foldlM_name (q : Char) (cs : List Char) (u v : Text.Unquoting)
    (h : cs.foldlM (Text.Unquoting.step q) u = some v) :
    cs.foldlM Reading.step ⟨k, .name q u⟩ = some ⟨k, .name q v⟩ := by
  induction cs generalizing u with
  | nil => simp_all
  | cons c cs ih =>
    rw [List.foldlM_cons] at h ⊢
    obtain ⟨u', hstep, hrest⟩ := Option.bind_eq_some_iff.mp h
    have hname : Reading.step ⟨k, .name q u⟩ c = some ⟨k, .name q u'⟩ := by
      cases u with
      | ended s => exact nomatch hstep
      | within s => simp [Reading.step, hstep]
      | escaped s => simp [Reading.step, hstep]
      | digits s left value => simp [Reading.step, hstep]
    rw [hname]
    exact ih u' hrest

theorem foldlM_symbol (n : Name) (rest : List Char) :
    (n.writtenOnto rest).foldlM Reading.step ⟨k, .word []⟩
      = rest.foldlM Reading.step ⟨k, .formula (.symbol n)⟩ := by
  have hopening : Reading.step ⟨k, .quote⟩ (Text.quoteFor n.text.toList)
      = some ⟨k, .name (Text.quoteFor n.text.toList) (.within [])⟩ :=
    if_pos (Text.quoteFor_eq_or n.text.toList)
  have hquoted := foldlM_name k _ _ _ _ (Text.foldlM_quoted n.text.toList)
  have hclosing : Reading.step ⟨k, .name (Text.quoteFor n.text.toList) (.ended n.text.toList)⟩ ')'
      = some ⟨k, .formula (.symbol n)⟩ := by
    show Reading.endSymbol k n.text.toList ')' = _
    rw [Reading.endSymbol, if_pos rfl, String.ofList_toList, Name.ofText?_text]
    rfl
  have hwritten : Text.quoteOnto n.text.toList (')' :: rest)
      = Text.quoteFor n.text.toList
        :: ((n.text.toList.flatMap (Text.escape (Text.quoteFor n.text.toList))
          ++ [Text.quoteFor n.text.toList]) ++ ')' :: rest) := by
    simp [Text.quoteOnto]
  show (Text.quoteOnto n.text.toList (')' :: rest)).foldlM Reading.step ⟨k, .quote⟩ = _
  rw [hwritten, List.foldlM_cons, hopening]
  show List.foldlM Reading.step ⟨k, .name _ (.within [])⟩ (_ ++ ')' :: rest) = _
  rw [List.foldlM_append, hquoted]
  show List.foldlM Reading.step ⟨k, .name _ (.ended n.text.toList)⟩ (')' :: rest) = _
  rw [List.foldlM_cons, hclosing]
  rfl

end

/-! ## formulas -/

/-- whatever is around it, a written formula is read as the formula -/
theorem foldlM_writtenOnto (f : Formula) (k : List Part) (rest : List Char) :
    (f.writtenOnto rest).foldlM Reading.step ⟨k, .word []⟩
      = rest.foldlM Reading.step ⟨k, .formula f⟩ := by
  induction f generalizing k rest with
  | top => rfl
  | bottom => rfl
  | symbol n => exact foldlM_symbol k n rest
  | not f ih =>
    show (f.writtenOnto (')' :: rest)).foldlM Reading.step ⟨.not :: k, .word []⟩ = _
    rw [ih]
    rfl
  | binary op l r ihl ihr =>
    have hword (cs : List Char) : (op.word ++ '(' :: cs).foldlM Reading.step ⟨k, .word []⟩
        = cs.foldlM Reading.step ⟨.first op :: k, .word []⟩ := by
      rcases op with (_ | _) | _ | _ <;> rfl
    rw [Formula.writtenOnto, hword, ihl]
    show (r.writtenOnto (')' :: rest)).foldlM Reading.step ⟨.second op l :: k, .word []⟩ = _
    rw [ihr]
    rfl

end Written

/-! ## reading back -/

namespace Formula

theorem ofWritten?_written (f : Formula) : ofWritten? f.written = some f := by
  rw [ofWritten?, written_toList, Written.foldlM_writtenOnto]
  rfl

/-- a name with a quote of each kind; a conjunction that lacks an argument -/
example : ofWritten? "Not(Symbol('it\\'s \"so\"'))"
      = some (.not (.symbol ⟨"it's \"so\"", by decide⟩))
    ∧ ofWritten? "And(T)" = none := by decide

/-- **The written form is unambiguous**: whatever characters the names hold, two formulas are
written alike only if they are the same, and the reader gives each of them back. -/
theorem written_eq_iff (f g : Formula) :
    (f.written = g.written ↔ f = g) ∧ ofWritten? f.written = some f := by
  have hread := ofWritten?_written f
  refine ⟨⟨fun h => ?_, fun h => h ▸ rfl⟩, hread⟩
  rw [h, ofWritten?_written g] at hread
  exact (Option.some.inj hread).symm

end Formula

end Sentential
