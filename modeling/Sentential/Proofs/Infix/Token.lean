import Sentential.Formula.Infix

/-!
# Words and parentheses of the infix form

The infix form of a formula is a sequence of words and parentheses.  Spaces and parentheses end a
word; apart from that a space says nothing.

* `Token`             a word or a parenthesis;
* `scan w cs`         the tokens of a text, where the characters `w` of a word have been read;
* `Formula.tokens f`  the tokens of the infix form, with the parentheses where `renderOnto` has
                      them;
* `scan_shown`        the infix form is scanned to these, if no name contains the end of a word.
-/

namespace Sentential

/-- the characters that end a word -/
def isBreak (c : Char) : Bool := c = ' ' || c = '(' || c = ')'

/-- no character of the name ends a word -/
def Name.IsWord (n : Name) : Prop := n.text.toList.any isBreak = false

instance (n : Name) : Decidable n.IsWord :=
  inferInstanceAs (Decidable (n.text.toList.any isBreak = false))

inductive Token where
  | word (w : List Char)
  | enter
  | leave
deriving DecidableEq

/-! ## scanning -/

/-- a word comes to its end, unless it has not begun -/
def closeWord (w : List Char) (ts : List Token) : List Token :=
  if w = [] then ts else .word w :: ts

def scan (w : List Char) : List Char → List Token
  | [] => closeWord w []
  | c :: cs =>
    if c = ' ' then closeWord w (scan [] cs)
    else if c = '(' then closeWord w (.enter :: scan [] cs)
    else if c = ')' then closeWord w (.leave :: scan [] cs)
    else scan (w ++ [c]) cs

/-- what follows a word: nothing, or a character that ends it -/
def EndsWord (rest : List Char) : Prop := ∀ c ∈ rest.head?, isBreak c = true

theorem endsWord_nil : EndsWord [] := fun _ hc => nomatch hc
theorem endsWord_cons {c : Char} (h : isBreak c = true) (rest : List Char) : EndsWord (c :: rest) :=
  fun _ hd => Option.some.inj hd ▸ h

theorem scan_space (cs : List Char) : scan [] (' ' :: cs) = scan [] cs := rfl
theorem scan_enter (cs : List Char) : scan [] ('(' :: cs) = .enter :: scan [] cs := rfl
theorem scan_leave (cs : List Char) : scan [] (')' :: cs) = .leave :: scan [] cs := rfl

theorem scan_letter (w : List Char) (c : Char) (cs : List Char) (h : isBreak c = false) :
    scan w (c :: cs) = scan (w ++ [c]) cs := by
  rw [isBreak, Bool.or_eq_false_iff, Bool.or_eq_false_iff] at h
  obtain ⟨⟨hspace, henter⟩, hleave⟩ := h
  rw [scan, if_neg (of_decide_eq_false hspace), if_neg (of_decide_eq_false henter),
    if_neg (of_decide_eq_false hleave)]

theorem scan_letters (w v rest : List Char) (h : v.any isBreak = false) :
    scan w (v ++ rest) = scan (w ++ v) rest := by
  induction v generalizing w with
  | nil => rw [List.nil_append, List.append_nil]
  | cons c v ih =>
    rw [List.any_cons, Bool.or_eq_false_iff] at h
    rw [List.cons_append, scan_letter w c _ h.1, ih _ h.2, List.append_assoc]
    rfl

theorem scan_of_endsWord (w rest : List Char) (h : EndsWord rest) :
    scan w rest = closeWord w (scan [] rest) := by
  cases rest with
  | nil => rfl
  | cons c cs =>
    have hc : isBreak c = true := h c rfl
    rw [isBreak, Bool.or_eq_true, Bool.or_eq_true] at hc
    rcases hc with (hc | hc) | hc
    · rw [of_decide_eq_true hc]
      rfl
    · rw [of_decide_eq_true hc]
      rfl
    · rw [of_decide_eq_true hc]
      rfl

/-- a word is scanned as a whole -/
theorem scan_word (w rest : List Char) (hne : w ≠ []) (hw : w.any isBreak = false)
    (h : EndsWord rest) : scan [] (w ++ rest) = .word w :: scan [] rest := by
  rw [scan_letters [] w rest hw, List.nil_append, scan_of_endsWord w rest h, closeWord, if_neg hne]

/-! ## tokens of a formula -/

/-- tokens between parentheses, if `b` -/
def enclosed (b : Bool) (ts : List Token) : List Token :=
  if b then .enter :: (ts ++ [.leave]) else ts

namespace Formula

def tokens : Formula → List Token
  | .top => [.word Style.plain.top.toList]
  | .bottom => [.word Style.plain.bottom.toList]
  | .symbol n => [.word n.text.toList]
  | .not f => .word Style.plain.not.toList :: enclosed (f.strength < 99) f.tokens
  | .binary op l r =>
    enclosed (l.strength ≤ op.strength) l.tokens
      ++ .word (Style.plain.connective op).toList :: enclosed (r.strength ≤ op.strength) r.tokens

theorem scan_parenthesized (b : Bool) (body : List Char → List Char) (ts : List Token)
    (hbody : ∀ rest, EndsWord rest → scan [] (body rest) = ts ++ scan [] rest)
    (rest : List Char) (h : EndsWord rest) :
    scan [] (parenthesized b body rest) = enclosed b ts ++ scan [] rest := by
  cases b with
  | false => exact hbody rest h
  | true =>
    show scan [] ('(' :: body (')' :: rest)) = (.enter :: (ts ++ [.leave])) ++ scan [] rest
    rw [scan_enter, hbody _ (endsWord_cons rfl rest), scan_leave, List.cons_append,
      List.append_assoc]
    rfl

/-- a connective between spaces -/
theorem scan_connective (op : Connective) (rest : List Char) :
    scan [] (Style.plain.space.toList ++ (Style.plain.connective op).toList
        ++ Style.plain.space.toList ++ rest)
      = .word (Style.plain.connective op).toList :: scan [] rest := by
  rcases op with (_ | _) | _ | _ <;> rfl

theorem scan_renderOnto (f : Formula) (hf : ∀ n ∈ f.occurrences, n.IsWord) (rest : List Char)
    (h : EndsWord rest) : scan [] (f.renderOnto .plain rest) = f.tokens ++ scan [] rest := by
  induction f generalizing rest with
  | top => exact scan_word _ rest (by decide) rfl h
  | bottom => exact scan_word _ rest (by decide) rfl h
  | symbol n =>
    refine scan_word _ rest (fun hempty => n.nonempty ?_) (hf n (List.mem_singleton.mpr rfl)) h
    exact String.toList_eq_nil_iff.mp hempty
  | not f ih =>
    have hbody := scan_parenthesized (f.strength < 99) _ f.tokens (ih hf) rest h
    show scan [] (Style.plain.not.toList
      ++ ' ' :: parenthesized (f.strength < 99) (renderOnto .plain f) rest) = _
    rw [scan_word _ _ (by decide) rfl (endsWord_cons rfl _), scan_space, hbody]
    rfl
  | binary op l r ihl ihr =>
    have hl := ihl fun n hn => hf n (List.mem_append_left _ hn)
    have hr := ihr fun n hn => hf n (List.mem_append_right _ hn)
    have hspace (t : List Char) : EndsWord (Style.plain.space.toList
        ++ (Style.plain.connective op).toList ++ Style.plain.space.toList ++ t) :=
      endsWord_cons rfl _
    rw [renderOnto, scan_parenthesized _ _ l.tokens hl _ (hspace _), scan_connective,
      scan_parenthesized _ _ r.tokens hr rest h, tokens, List.append_assoc, List.cons_append]

theorem scan_shown (f : Formula) (hf : ∀ n ∈ f.occurrences, n.IsWord) :
    scan [] f.shown.toList = f.tokens := by
  rw [shown, render_toList, scan_renderOnto f hf [] endsWord_nil]
  exact List.append_nil _

end Formula

end Sentential
