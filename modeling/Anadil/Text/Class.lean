import Anadil.Text.Category
import Anadil.Text.Glyph

/-! # Classes of characters

The classes that the language and its messages speak of, over all of Unicode. Characters of ASCII are
decided without the tables. -/

namespace Anadil.Text

def isLetter (c : Char) : Bool :=
  if c.toNat < 0x80 then c.isAlpha else letters.has c.toNat

def isDecimalDigit (c : Char) : Bool :=
  if c.toNat < 0x80 then c.isDigit else decimalDigits.has c.toNat

/-- A combining mark, with or without a width of its own. -/
def isMark (c : Char) : Bool :=
  if c.toNat < 0x80 then false else marks.has c.toNat

/-- Characters that take room and leave no ink: the white space of ASCII, U+0085, and the separators. -/
def spaces : Ranges := [
    (0x0009, 0x000D), (0x0020, 0x0020), (0x0085, 0x0085), (0x00A0, 0x00A0), (0x1680, 0x1680),
    (0x2000, 0x200A), (0x2028, 0x2029), (0x202F, 0x202F), (0x205F, 0x205F), (0x3000, 0x3000)]

def isSpace (c : Char) : Bool := spaces.has c.toNat

/-- A character that is shown as it is when a text is quoted. -/
def isPrintable (c : Char) : Bool := isLetter c || isMark c || printables.has c.toNat

/-- A text without white space at both ends. -/
def trim (t : Text) : Text :=
  trimEnd (fun g => isSpace g.seen) (t.dropWhile fun g => isSpace g.seen)

def isBlank (t : Text) : Bool := t.all fun g => isSpace g.seen

end Anadil.Text
