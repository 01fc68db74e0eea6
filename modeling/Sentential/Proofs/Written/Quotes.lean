import Mathlib.Tactic.Ring
import Mathlib.Tactic.SplitIfs
import Sentential.Text.Quoted

/-!
# Quoted texts can be read back

A quoted text is read from left to right, one character after the other.  An `Unquoting` is what has
been read: the characters of the text so far, and where the reader stands.

* `Unquoting.step q u c`     the reading after one more character, between quotes `q`;
* `foldlM_hexDigits`         the digits of a code point, read one by one, add up to it;
* `foldlM_escape`            what is written for a character is read as this character;
* `foldlM_quoted`            so a quoted text is read as the text that was quoted, and no sooner.
-/

namespace Sentential.Text

/-! ## hexadecimal digits -/

def hexValue? (c : Char) : Option Nat := (List.range 16).find? fun n => hexDigit n = c

theorem hexValue?_hexDigit (n : Nat) (h : n < 16) : hexValue? (hexDigit n) = some n := by
  have hall : ∀ n : Fin 16, hexValue? (hexDigit n) = some n.val := by decide
  exact hall ⟨n, h⟩

/-! ## reading -/

inductive Unquoting where
  /-- between two characters of the text -/
  | within (s : List Char)
  /-- behind a backslash -/
  | escaped (s : List Char)
  /-- inside a code point; `left + 1` more digits are to come -/
  | digits (s : List Char) (left value : Nat)
  /-- behind the closing quote -/
  | ended (s : List Char)

namespace Unquoting

/-- a character behind a backslash -/
def unescape (s : List Char) : Char → Option Unquoting
  | 'n' => some (.within (s ++ ['\n']))
  | 'r' => some (.within (s ++ ['\r']))
  | 't' => some (.within (s ++ ['\t']))
  | 'x' => some (.digits s 1 0)
  | 'u' => some (.digits s 3 0)
  | 'U' => some (.digits s 7 0)
  | '\\' => some (.within (s ++ ['\\']))
  | '\'' => some (.within (s ++ ['\'']))
  | '"' => some (.within (s ++ ['"']))
  | _ => none

/-- a digit of a code point -/
def addDigit (s : List Char) (left value digit : Nat) : Unquoting :=
  match left with
  | 0 => .within (s ++ [Char.ofNat (16 * value + digit)])
  | left + 1 => .digits s left (16 * value + digit)

/-- the reading after one more character -/
def step (q : Char) : Unquoting → Char → Option Unquoting
  | .within s, c =>
    if c = q then some (.ended s)
    else if c = '\\' then some (.escaped s)
    else some (.within (s ++ [c]))
  | .escaped s, c => unescape s c
  | .digits s left value, c => (hexValue? c).map (addDigit s left value)
  | .ended _, _ => none

theorem foldlM_hexDigit (q : Char) (s : List Char) (left value d : Nat) (hd : d < 16) :
    [hexDigit d].foldlM (step q) (.digits s left value) = some (addDigit s left value d) := by
  rw [List.foldlM_cons, step, hexValue?_hexDigit d hd]
  rfl

end Unquoting

open Unquoting

/-! ## code points -/

section
variable (q : Char) (s : List Char)

/-- the digits of a number are put behind those of `value`; the last one may end the code point -/
theorem foldlM_hexDigits (w left value n : Nat) (h : n < 16 ^ (w + 1)) :
    (hexDigits (w + 1) n).foldlM (step q) (.digits s (w + left) value)
      = some (addDigit s left (16 ^ w * value + n / 16) (n % 16)) := by
  induction w generalizing left n with
  | zero =>
    have hn : n / 16 = 0 := by omega
    rw [hn, Nat.pow_zero, Nat.one_mul, Nat.add_zero, Nat.zero_add]
    exact foldlM_hexDigit q s left value _ (by omega)
  | succ w ih =>
    have hhead : n / 16 < 16 ^ (w + 1) := by
      rw [Nat.pow_succ] at h
      omega
    have hplace : w + 1 + left = w + (left + 1) := by omega
    have hsum : 16 * (16 ^ w * value + n / 16 / 16) + n / 16 % 16
        = 16 ^ (w + 1) * value + n / 16 := by
      have hpow : 16 ^ (w + 1) * value = 16 * (16 ^ w * value) := by ring
      omega
    rw [hexDigits_succ, List.foldlM_append, hplace, ih (left + 1) (n / 16) hhead, addDigit, hsum]
    exact foldlM_hexDigit q s left _ _ (by omega)

/-! ## characters -/

variable {q} (hq : q = '\'' ∨ q = '"')
include hq

theorem step_backslash : step q (.within s) '\\' = some (.escaped s) := by
  rcases hq with rfl | rfl <;> rfl

theorem foldlM_codePoint (c : Char) :
    (codePoint c).foldlM (step q) (.within s) = some (.within (s ++ [c])) := by
  have hdigits (w : Nat) (h : c.toNat < 16 ^ (w + 1)) :
      (hexDigits (w + 1) c.toNat).foldlM (step q) (.digits s w 0) = some (.within (s ++ [c])) := by
    have hsum : 16 * (16 ^ w * 0 + c.toNat / 16) + c.toNat % 16 = c.toNat := by omega
    have hfold := foldlM_hexDigits q s w 0 0 c.toNat h
    rwa [addDigit, hsum, Char.ofNat_toNat] at hfold
  unfold codePoint
  split_ifs with hshort hlong
  · rw [List.foldlM_cons, step_backslash s hq]
    exact hdigits 1 hshort
  · rw [List.foldlM_cons, step_backslash s hq]
    exact hdigits 3 hlong
  · rw [List.foldlM_cons, step_backslash s hq]
    exact hdigits 7 c.val.toNat_lt

theorem foldlM_escape (c : Char) :
    (escape q c).foldlM (step q) (.within s) = some (.within (s ++ [c])) := by
  have hpair (d : Char) (u : Unquoting) (hd : unescape s d = some u) :
      ['\\', d].foldlM (step q) (.within s) = some u := by
    rw [List.foldlM_cons, step_backslash s hq]
    show List.foldlM (step q) (.escaped s) [d] = some u
    rw [List.foldlM_cons, step, hd]
    rfl
  unfold escape
  split_ifs with hquote hbackslash hline hreturn htab hprintable
  · subst hquote
    rcases hq with rfl | rfl
    · exact hpair _ _ rfl
    · exact hpair _ _ rfl
  · subst hbackslash
    exact hpair _ _ rfl
  · subst hline
    exact hpair _ _ rfl
  · subst hreturn
    exact hpair _ _ rfl
  · subst htab
    exact hpair _ _ rfl
  · rw [List.foldlM_cons, step, if_neg hquote, if_neg hbackslash]
    rfl
  · exact foldlM_codePoint s hq c

theorem foldlM_flatMap_escape (t : List Char) :
    (t.flatMap (escape q)).foldlM (step q) (.within s) = some (.within (s ++ t)) := by
  induction t generalizing s with
  | nil => simp
  | cons c t ih =>
    rw [List.flatMap_cons, List.foldlM_append, foldlM_escape s hq]
    show List.foldlM (step q) (.within (s ++ [c])) (t.flatMap (escape q)) = _
    rw [ih]
    simp

end

/-! ## texts -/

theorem quoteFor_eq_or (s : List Char) : quoteFor s = '\'' ∨ quoteFor s = '"' := by
  unfold quoteFor
  split
  · exact .inr rfl
  · exact .inl rfl

/-- a quoted text behind its opening quote -/
theorem foldlM_quoted (s : List Char) :
    (s.flatMap (escape (quoteFor s)) ++ [quoteFor s]).foldlM (step (quoteFor s)) (.within [])
      = some (.ended s) := by
  rw [List.foldlM_append, foldlM_flatMap_escape [] (quoteFor_eq_or s)]
  show List.foldlM (step (quoteFor s)) (.within s) [quoteFor s] = _
  simp [step]

end Sentential.Text
