import Sentential.Text.Printable

/-!
# Quoted texts

The written form of a text stands between two quotes: apostrophes, or double quotes if the text
holds an apostrophe and no double quote.  The quote in use and the backslash are written behind a
backslash, and so are the letters `n`, `r`, `t` for the three control characters of line ends and
tabs.  A hidden character becomes its code point in hexadecimal digits, with two, four or eight of
them behind `\x`, `\u`, `\U`.  Every other character stands for itself.
-/

namespace Sentential.Text

/-! ## hexadecimal digits -/

def hexDigit (n : Nat) : Char :=
  if n < 10 then Char.ofNat (48 + n) else Char.ofNat (87 + n)

/-- the last `w` hexadecimal digits of `n` -/
def hexDigits : Nat → Nat → List Char
  | 0, _ => []
  | w + 1, n => hexDigits w (n / 16) ++ [hexDigit (n % 16)]

theorem hexDigits_zero (n : Nat) : hexDigits 0 n = [] := rfl
theorem hexDigits_succ (w n : Nat) :
    hexDigits (w + 1) n = hexDigits w (n / 16) ++ [hexDigit (n % 16)] := rfl

theorem length_hexDigits (w n : Nat) : (hexDigits w n).length = w := by
  induction w generalizing n with
  | zero => rfl
  | succ w ih => rw [hexDigits_succ, List.length_append, ih]; rfl

/-! ## the written form -/

def quoteFor (s : List Char) : Char :=
  if s.contains '\'' && !s.contains '"' then '"' else '\''

def codePoint (c : Char) : List Char :=
  if c.toNat < 0x100 then '\\' :: 'x' :: hexDigits 2 c.toNat
  else if c.toNat < 0x10000 then '\\' :: 'u' :: hexDigits 4 c.toNat
  else '\\' :: 'U' :: hexDigits 8 c.toNat

/-- one character between quotes `q` -/
def escape (q c : Char) : List Char :=
  if c = q then ['\\', q]
  else if c = '\\' then ['\\', '\\']
  else if c = '\n' then ['\\', 'n']
  else if c = '\r' then ['\\', 'r']
  else if c = '\t' then ['\\', 't']
  else if isPrintable c then [c]
  else codePoint c

/-- a text between quotes, in front of `rest` -/
def quoteOnto (s : List Char) (rest : List Char) : List Char :=
  quoteFor s :: s.flatMap (escape (quoteFor s)) ++ quoteFor s :: rest

theorem quoteOnto_append (s r t : List Char) : quoteOnto s (r ++ t) = quoteOnto s r ++ t := by
  simp [quoteOnto]

def quote (s : String) : String := String.ofList (quoteOnto s.toList [])

theorem quote_toList (s : String) : (quote s).toList = quoteOnto s.toList [] := by
  simp [quote]

theorem quoteOnto_eq (s rest : List Char) : quoteOnto s rest = quoteOnto s [] ++ rest := by
  rw [← quoteOnto_append]; rfl

end Sentential.Text
