import Sentential.Text.Printable

/-!
# Blank texts

The white-space characters: those with the property White_Space and the four information
separators U+001C to U+001F.  A text is blank if it holds nothing else.
-/

namespace Sentential.Text

def blankRanges : List (Nat × Nat) :=
  [(0x9, 0xD), (0x1C, 0x20), (0x85, 0x85), (0xA0, 0xA0), (0x1680, 0x1680), (0x2000, 0x200A),
   (0x2028, 0x2029), (0x202F, 0x202F), (0x205F, 0x205F), (0x3000, 0x3000)]

def isBlankChar (c : Char) : Bool := inRanges blankRanges c.toNat

def isBlank (s : String) : Bool := s.toList.all isBlankChar

theorem ascending_blank : ascending blankRanges = true := by decide

theorem isBlank_empty : isBlank "" = true := by decide

end Sentential.Text
