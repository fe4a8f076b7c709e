import Anadil.Number.Integer
import Anadil.Token.Kind

/-! # Tokens

A token is a piece of the source with its kind, its text and its extent, and with the white space and
the comments that stand in front of it. -/

namespace Anadil

/-- A place in the source. Lines and columns count from one, a column counting characters; the offset
counts bytes from zero. -/
structure Place where
  line : Nat
  column : Nat
  offset : Nat
deriving DecidableEq, Repr, Inhabited

/-- Where a source starts. -/
def Place.first : Place := ⟨1, 1, 0⟩

/-- A stretch of the source: its first byte, the byte after its last, and the line and the column where
it starts. Trees need not come from a source, so any numbers will do. -/
structure Span where
  start : Int
  stop : Int
  line : Int
  column : Int
deriving DecidableEq, Repr, Inhabited

namespace Span

/-- No place in particular. -/
def none : Span := ⟨0, 0, 0, 0⟩

/-- From the start of `first` to the end of `last`. -/
def join (first last : Span) : Span := { first with stop := last.stop }

def text (s : Span) (source : Text) : Text := source.slice s.start.toNat s.stop.toNat

end Span

/-- A piece of the source. The text of a string literal leaves its quotation marks out, and that of a
name is in normal form C. -/
structure Lexeme where
  kind : Kind
  text : Text
  span : Span
deriving DecidableEq, Repr, Inhabited

namespace Lexeme

/-- The length in bytes, a number of 64 bits; below zero when the span is upside down. -/
def length (l : Lexeme) : Int := Number.wrap (l.span.stop - l.span.start)

/-- How a message says what it found. -/
def describe (l : Lexeme) : Text :=
  match l.kind with
  | .identifier => "identifier " ++ Text.inQuotes l.text
  | .number => "number " ++ l.text
  | .string => "string " ++ Text.inQuotes l.text
  | .endOfInput => "end of input"
  | k => Text.inQuotes k.spelling

end Lexeme

/-- A lexeme that means something, and the pieces between it and the one before. -/
structure Token extends Lexeme where
  trivia : List Lexeme
deriving DecidableEq, Repr, Inhabited

namespace Token

/-- Whether a token is of a kind. No token is of none. -/
def is (kind : Kind) : Option Token → Bool
  | none => false
  | some t => t.kind == kind

def isOneOf (kinds : List Kind) (t : Option Token) : Bool := kinds.any fun k => is k t

/-- How a message says what it found, if anything. -/
def found : Option Token → Text
  | none => "nothing"
  | some t => t.describe

end Token

end Anadil
