/-! # Text

A text is what was read from bytes: a list of glyphs, each a character or a byte that belongs to no
character. Nothing is lost by reading, so every text can be written back byte for byte, and a program
source with stray bytes is a text like any other.

`Text.ofBytes` reads UTF-8 and `Text.bytes` writes it. -/

namespace Anadil

/-- One element of a text. -/
inductive Glyph where
  /-- A character. -/
  | char (c : Char)
  /-- A byte that is part of no character. -/
  | byte (b : UInt8)
deriving DecidableEq, Repr, Inhabited

namespace Glyph

/-- The character that stands for a stray byte. -/
def replacement : Char := '\uFFFD'

/-- The character a reader sees: a stray byte is seen as U+FFFD. -/
def seen : Glyph → Char
  | char c => c
  | byte _ => replacement

def bytes : Glyph → List UInt8
  | char c => String.utf8EncodeChar c
  | byte b => [b]

def width : Glyph → Nat
  | char c => c.utf8Size
  | byte _ => 1

/-- Whether a glyph is the character `c`. -/
def is (c : Char) : Glyph → Bool
  | char d => c == d
  | byte _ => false

end Glyph

abbrev Text := List Glyph

namespace Text

def ofString (s : String) : Text := s.toList.map .char

instance : Coe String Text := ⟨ofString⟩

def ofChar (c : Char) : Text := [.char c]

def decimal (n : Nat) : Text := (Nat.toDigits 10 n).map .char

/-- An integer in decimal, with a minus sign below zero. -/
def integer : Int → Text
  | .ofNat n => decimal n
  | .negSucc n => .char '-' :: decimal (n + 1)

def chars (t : Text) : List Char := t.map Glyph.seen

def seen (t : Text) : String := String.ofList t.chars

def isClean (t : Text) : Bool :=
  t.all fun | .char _ => true | .byte _ => false

/-- A text with every stray byte replaced by U+FFFD. -/
def clean (t : Text) : Text := t.map fun g => .char g.seen

def width (t : Text) : Nat := t.foldr (fun g n => g.width + n) 0

def bytes (t : Text) : List UInt8 := t.flatMap Glyph.bytes

/-! ### Reading UTF-8 -/

/-- Whether a byte continues a character. -/
def isTail (b : UInt8) : Bool := 0x80 ≤ b && b ≤ 0xBF

/-- The payload of a continuation byte. -/
def tailBits (b : UInt8) : Nat := b.toNat - 0x80

/-- The character that starts with byte `a` and goes on with the bytes `rest`, and how many of them it
takes. None where no character is written so: stray or missing continuation bytes, longer forms than
needed, surrogates, and values above U+10FFFF. -/
def charAt? (a : UInt8) (rest : List UInt8) : Option (Char × Nat) :=
  let n := a.toNat
  if n < 0x80 then some (Char.ofNat n, 0)
  else if n < 0xC2 then none
  else if n < 0xE0 then
    match rest with
    | b :: _ =>
      if isTail b then some (Char.ofNat ((n - 0xC0) * 64 + tailBits b), 1) else none
    | _ => none
  else if n < 0xF0 then
    match rest with
    | b :: c :: _ =>
      let v := ((n - 0xE0) * 64 + tailBits b) * 64 + tailBits c
      if isTail b && isTail c && 0x800 ≤ v && !(0xD800 ≤ v && v < 0xE000) then
        some (Char.ofNat v, 2)
      else none
    | _ => none
  else if n < 0xF5 then
    match rest with
    | b :: c :: d :: _ =>
      let v := (((n - 0xF0) * 64 + tailBits b) * 64 + tailBits c) * 64 + tailBits d
      if isTail b && isTail c && isTail d && 0x10000 ≤ v && v < 0x110000 then
        some (Char.ofNat v, 3)
      else none
    | _ => none
  else none

/-- Reads bytes after the first `skip` of them, which belong to a character already read. -/
def ofBytesFrom : Nat → List UInt8 → Text
  | _, [] => []
  | skip + 1, _ :: rest => ofBytesFrom skip rest
  | 0, a :: rest =>
    match charAt? a rest with
    | some (c, n) => .char c :: ofBytesFrom n rest
    | none => .byte a :: ofBytesFrom 0 rest

def ofBytes (bytes : List UInt8) : Text := ofBytesFrom 0 bytes

/-! ### Parts of a text -/

/-- What follows the first `n` bytes of a text. Of a glyph that the cut divides, the bytes behind it are
left. -/
def dropBytes : Nat → Text → Text
  | 0, t => t
  | _ + 1, [] => []
  | n + 1, g :: t =>
    if g.width ≤ n + 1 then dropBytes (n + 1 - g.width) t else (g.bytes.drop (n + 1)).map .byte ++ t

/-- The first `n` bytes of a text. Of a glyph that the cut divides, the bytes in front of it are left. -/
def takeBytes : Nat → Text → Text
  | 0, _ => []
  | _ + 1, [] => []
  | n + 1, g :: t =>
    if g.width ≤ n + 1 then g :: takeBytes (n + 1 - g.width) t else (g.bytes.take (n + 1)).map .byte

/-- The part of a text from byte `start` up to byte `stop`. -/
def slice (t : Text) (start stop : Nat) : Text :=
  takeBytes (stop - start) (t.dropBytes start)

/-- Whether `p` starts `t`. -/
def startsWith (t p : Text) : Bool := p.isPrefixOf t

/-- `t` without `p` at its start, or `t` itself. -/
def dropStart (t p : Text) : Text :=
  if p.isPrefixOf t then t.drop p.length else t

/-- `t` without `p` at its end, or `t` itself. -/
def dropEnd (t p : Text) : Text :=
  if p.isSuffixOf t then t.take (t.length - p.length) else t

/-- The parts of a text between the glyphs equal to character `c`; always at least one. -/
def splitAt (c : Char) : Text → List Text
  | [] => [[]]
  | g :: t =>
    if g.is c then [] :: splitAt c t
    else
      match splitAt c t with
      | [] => [[g]]
      | part :: parts => (g :: part) :: parts

def join (sep : Text) : List Text → Text
  | [] => []
  | [t] => t
  | t :: ts => t ++ sep ++ join sep ts

/-- A text without the glyphs at its end that satisfy `p`. -/
def trimEnd (p : Glyph → Bool) (t : Text) : Text := (t.reverse.dropWhile p).reverse

/-- A text between two quotation marks, with nothing escaped. -/
def inQuotes (t : Text) : Text := .char '"' :: t ++ [.char '"']

def byteOrderMark : Text := [.char '\uFEFF']

def blanks (n : Nat) : Text := List.replicate n (.char ' ')

/-- A text followed by blanks up to `n` glyphs. -/
def padRight (n : Nat) (t : Text) : Text := t ++ blanks (n - t.length)

/-- A text behind blanks up to `n` glyphs. -/
def padLeft (n : Nat) (t : Text) : Text := blanks (n - t.length) ++ t

/-- Byte order of texts: `a` comes strictly before `b`. -/
def before (a b : Text) : Bool := decide (a.bytes < b.bytes)

/-- Puts a text into texts in order, unless it is among them. -/
def insert (t : Text) : List Text → List Text
  | [] => [t]
  | u :: us => if t = u then u :: us else if before t u then t :: u :: us else u :: insert t us

end Text

end Anadil
