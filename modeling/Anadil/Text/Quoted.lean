import Anadil.Text.Class

/-! # Quoted texts

How messages show a text or a character so that every part of it can be seen: what has ink stands as
it is, and all else is escaped. -/

namespace Anadil.Text

/-- `n` in base sixteen, in at least `width` digits. -/
def hex (width n : Nat) : Text :=
  let digits := (Nat.toDigits 16 n).map Glyph.char
  List.replicate (width - digits.length) (.char '0') ++ digits

def letterEscape? : Char → Option Char
  | '\x07' => some 'a'
  | '\x08' => some 'b'
  | '\x0c' => some 'f'
  | '\n' => some 'n'
  | '\r' => some 'r'
  | '\t' => some 't'
  | '\x0b' => some 'v'
  | _ => none

/-- A character inside quotation marks `mark`. -/
def escapedChar (mark c : Char) : Text :=
  if c = mark ∨ c = '\\' then [.char '\\', .char c]
  else if isPrintable c then [.char c]
  else
    match letterEscape? c with
    | some e => [.char '\\', .char e]
    | none =>
      if c.toNat < 0x80 then "\\x" ++ hex 2 c.toNat
      else if c.toNat < 0x10000 then "\\u" ++ hex 4 c.toNat
      else "\\U" ++ hex 8 c.toNat

/-- A glyph inside quotation marks `mark`. -/
def escaped (mark : Char) : Glyph → Text
  | .char c => escapedChar mark c
  | .byte b => "\\x" ++ hex 2 b.toNat

/-- A text between double quotation marks. -/
def quoted (t : Text) : Text :=
  .char '"' :: t.flatMap (escaped '"') ++ [.char '"']

/-- A character between single quotation marks. -/
def quotedChar (c : Char) : Text :=
  .char '\'' :: escapedChar '\'' c ++ [.char '\'']

end Anadil.Text
