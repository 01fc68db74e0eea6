import Mathlib.Data.List.SplitBy
import Sentential.Proofs.Infix.Reader

/-!
# The LaTeX form is the infix form, typeset

A text is typeset without being read as a formula: it falls apart into pieces, which are its words
and the single characters that end a word, and each piece becomes another or stays what it is.

* `pieces cs`            the pieces of a text, in order;
* `typesetting`          the pieces that become others: the space and the words of the infix form;
* `typeset_append`       texts are typeset one after the other, if no word runs across the border;
* `typeset_renderOnto`   the induction on the formula, with anything behind it that ends a word;
* `parentheses_typeset`  no text gains or loses parentheses when it is typeset;
* `latex_eq_typeset`     so the two forms say the same with the same parentheses.
-/

namespace Sentential

/-! ## pieces -/

/-- neighbours that belong to one word -/
def belong (c d : Char) : Bool := !isBreak c && !isBreak d

def pieces (cs : List Char) : List (List Char) := cs.splitBy belong

/-- no word runs across the border between the texts -/
def Apart (u v : List Char) : Prop := ∀ c ∈ u.getLast?, ∀ d ∈ v.head?, belong c d = false

theorem apart_of_isBreak {c : Char} (h : isBreak c = true) (v : List Char) : Apart [c] v := by
  intro c' hc d _
  obtain rfl : c = c' := Option.some.inj hc
  rw [belong, h]
  rfl

theorem apart_of_endsWord (u : List Char) {v : List Char} (h : EndsWord v) : Apart u v := by
  intro c _ d hd
  rw [belong, h d hd]
  exact Bool.and_false _

theorem pieces_append {u v : List Char} (h : Apart u v) : pieces (u ++ v) = pieces u ++ pieces v :=
  List.splitBy_append h

theorem pieces_word {w : List Char} (hne : w ≠ []) (hw : w.any isBreak = false) :
    pieces w = [w] := by
  refine List.splitBy_of_isChain hne ?_
  rw [List.any_eq_false] at hw
  refine List.Pairwise.isChain (List.pairwise_of_forall_mem_list fun c hc d hd => ?_)
  simp [belong, hw c hc, hw d hd]

/-! ## typesetting -/

/-- the pieces that become others -/
def typesetting : List (String × String) :=
  [(" ", " \\, "), ("T", "\\top"), ("F", "\\bot"), ("not", "\\neg"), ("and", "\\wedge"),
    ("or", "\\vee"), ("-->", "\\longrightarrow"), ("<-->", "\\longleftrightarrow")]

def typesetPiece (p : List Char) : List Char :=
  ((typesetting.lookup (String.ofList p)).getD (String.ofList p)).toList

def typeset (cs : List Char) : List Char := (pieces cs).flatMap typesetPiece

theorem typeset_append {u v : List Char} (h : Apart u v) :
    typeset (u ++ v) = typeset u ++ typeset v := by
  rw [typeset, pieces_append h, List.flatMap_append]
  rfl

/-- a character that ends a word is typeset by itself -/
theorem typeset_break (c : Char) (h : isBreak c = true) (cs : List Char) :
    typeset (c :: cs) = typesetPiece [c] ++ typeset cs := by
  have hpiece : typeset [c] = typesetPiece [c] := List.append_nil _
  rw [← hpiece]
  exact typeset_append (apart_of_isBreak h cs)

/-- a word is typeset as a whole -/
theorem typeset_word {w rest : List Char} (hne : w ≠ []) (hw : w.any isBreak = false)
    (h : EndsWord rest) : typeset (w ++ rest) = typesetPiece w ++ typeset rest := by
  have hpiece : typeset w = typesetPiece w := by
    rw [typeset, pieces_word hne hw, List.flatMap_singleton]
  rw [typeset_append (apart_of_endsWord w h), hpiece]

/-- a plain name is not among the pieces that become others -/
theorem typesetPiece_text (n : Name) (h : n.IsPlain) :
    typesetPiece n.text.toList = n.text.toList := by
  have hspace : n.text ≠ " " := by
    intro e
    have hword := h.1
    rw [Name.IsWord, e] at hword
    exact absurd hword (by decide)
  have hkeys : ∀ e ∈ typesetting, e.1 = " " ∨ e.1 ∈ Style.plain.words := by decide
  have hnone : typesetting.lookup n.text = none := by
    refine List.lookup_eq_none_iff.mpr fun e he => bne_iff_ne.mpr fun heq => ?_
    rcases hkeys e he with hkey | hkey
    · exact hspace (heq.trans hkey)
    · exact h.2 (heq ▸ hkey)
  rw [typesetPiece, String.ofList_toList, hnone]
  rfl

/-! ## formulas -/

namespace Formula

theorem typeset_parenthesized (b : Bool) (body body' : List Char → List Char)
    (hbody : ∀ rest, EndsWord rest → typeset (body rest) = body' (typeset rest))
    (rest : List Char) (h : EndsWord rest) :
    typeset (parenthesized b body rest) = parenthesized b body' (typeset rest) := by
  cases b with
  | false => exact hbody rest h
  | true =>
    show typeset ('(' :: body (')' :: rest)) = '(' :: body' (')' :: typeset rest)
    rw [typeset_break _ rfl, hbody _ (endsWord_cons rfl rest), typeset_break _ rfl]
    rfl

/-- a connective between spaces -/
theorem typeset_connective (op : Connective) (rest : List Char) :
    typeset (Style.plain.space.toList ++ (Style.plain.connective op).toList
        ++ Style.plain.space.toList ++ rest)
      = Style.latex.space.toList ++ (Style.latex.connective op).toList
        ++ Style.latex.space.toList ++ typeset rest := by
  have hword : typeset ((Style.plain.connective op).toList ++ ' ' :: rest)
      = typesetPiece (Style.plain.connective op).toList ++ typeset (' ' :: rest) := by
    refine typeset_word ?_ ?_ (endsWord_cons rfl rest)
    · rcases op with (_ | _) | _ | _ <;> decide
    · rcases op with (_ | _) | _ | _ <;> decide
  show typeset (' ' :: ((Style.plain.connective op).toList ++ [' '] ++ rest)) = _
  rw [typeset_break _ rfl, List.append_assoc, List.singleton_append, hword, typeset_break _ rfl]
  rcases op with (_ | _) | _ | _ <;> rfl

theorem typeset_renderOnto (f : Formula) (hf : ∀ n ∈ f.occurrences, n.IsPlain) (rest : List Char)
    (h : EndsWord rest) :
    typeset (f.renderOnto .plain rest) = f.renderOnto .latex (typeset rest) := by
  induction f generalizing rest with
  | top => exact typeset_word (by decide) rfl h
  | bottom => exact typeset_word (by decide) rfl h
  | symbol n =>
    have hn : n.IsPlain := hf n (List.mem_singleton.mpr rfl)
    have hne : n.text.toList ≠ [] := fun hempty => n.nonempty (String.toList_eq_nil_iff.mp hempty)
    rw [renderOnto, typeset_word hne hn.1 h, typesetPiece_text n hn]
    rfl
  | not f ih =>
    have hbody := typeset_parenthesized (f.strength < 99) _ _ (ih hf) rest h
    show typeset (Style.plain.not.toList
      ++ ' ' :: parenthesized (f.strength < 99) (renderOnto .plain f) rest) = _
    rw [typeset_word (by decide) rfl (endsWord_cons rfl _), typeset_break _ rfl, hbody]
    rfl
  | binary op l r ihl ihr =>
    have hl := ihl fun n hn => hf n (List.mem_append_left _ hn)
    have hr := ihr fun n hn => hf n (List.mem_append_right _ hn)
    have hspace (t : List Char) : EndsWord (Style.plain.space.toList
        ++ (Style.plain.connective op).toList ++ Style.plain.space.toList ++ t) :=
      endsWord_cons rfl _
    rw [renderOnto, typeset_parenthesized _ _ _ hl _ (hspace _), typeset_connective,
      typeset_parenthesized _ _ _ hr rest h, renderOnto]

end Formula

/-! ## parentheses -/

def isParenthesis (c : Char) : Bool := c = '(' || c = ')'

theorem parentheses_typesetPiece (p : List Char) :
    (typesetPiece p).filter isParenthesis = p.filter isParenthesis := by
  have hentries : ∀ e ∈ typesetting,
      e.2.toList.filter isParenthesis = e.1.toList.filter isParenthesis := by decide
  rw [typesetPiece]
  cases hlookup : typesetting.lookup (String.ofList p) with
  | none => rw [Option.getD_none, String.toList_ofList]
  | some t =>
    obtain ⟨before, after, htable, _⟩ := List.lookup_eq_some_iff.mp hlookup
    have hmem : (String.ofList p, t) ∈ typesetting :=
      htable ▸ List.mem_append_right before List.mem_cons_self
    rw [Option.getD_some, hentries _ hmem, String.toList_ofList]

theorem parentheses_typeset (cs : List Char) :
    (typeset cs).filter isParenthesis = cs.filter isParenthesis := by
  have hpieces : (pieces cs).flatten = cs := List.flatten_splitBy belong cs
  rw [typeset, List.filter_flatMap]
  simp only [parentheses_typesetPiece]
  rw [← List.filter_flatMap, List.flatMap_id', hpieces]

/-- what stands on both sides of a parenthesis is typeset apart -/
theorem typeset_around (u v : List Char) (c : Char) (h : isParenthesis c = true) :
    typeset (u ++ c :: v) = typeset u ++ c :: typeset v := by
  rw [isParenthesis, Bool.or_eq_true] at h
  rcases h with h | h
  · rw [of_decide_eq_true h, typeset_append (apart_of_endsWord u (endsWord_cons rfl v)),
      typeset_break _ rfl]
    rfl
  · rw [of_decide_eq_true h, typeset_append (apart_of_endsWord u (endsWord_cons rfl v)),
      typeset_break _ rfl]
    rfl

/-! ## the two forms -/

namespace Formula

/-- **The LaTeX form and the infix form never differ but in their words**: over plain names the one
is the other with its spaces and words replaced.  In particular they have the same parentheses, and
what stands before and behind one in the LaTeX form is what stands there in the infix form. -/
theorem latex_eq_typeset (f : Formula) (h : f.IsPlain) :
    f.latex.toList = typeset f.shown.toList
      ∧ f.latex.toList.filter isParenthesis = f.shown.toList.filter isParenthesis
      ∧ ∀ u c v, isParenthesis c = true → f.shown.toList = u ++ c :: v →
        f.latex.toList = typeset u ++ c :: typeset v := by
  have hplain (n : Name) (hn : n ∈ f.occurrences) : n.IsPlain := h n ((mem_names f n).mpr hn)
  have hlatex : f.latex.toList = typeset f.shown.toList := by
    rw [latex, shown, render_toList, render_toList, typeset_renderOnto f hplain [] endsWord_nil]
    rfl
  refine ⟨hlatex, ?_, fun u c v hc hshown => ?_⟩
  · rw [hlatex, parentheses_typeset]
  · rw [hlatex, hshown, typeset_around u v c hc]

/-- words inside names stay as they are -/
theorem latex_eq_typeset_of_not_or :
    let x : Formula := .symbol ⟨"Tor", by decide⟩
    let y : Formula := .symbol ⟨"a-->b", by decide⟩
    let f : Formula := .not (.or x (.implies y .top))
    f.IsPlain ∧ f.shown = "not (Tor or (a-->b --> T))"
      ∧ f.latex = "\\neg \\, (Tor \\, \\vee \\, (a-->b \\, \\longrightarrow \\, \\top))" := by
  intro x y f
  have hf : f.IsPlain := by decide
  have hshown : f.shown = "not (Tor or (a-->b --> T))" := by decide
  refine ⟨hf, hshown, ?_⟩
  obtain ⟨hlatex, _, _⟩ := latex_eq_typeset f hf
  rw [hshown] at hlatex
  exact String.toList_inj.mp (hlatex.trans (by decide))

end Formula

end Sentential
