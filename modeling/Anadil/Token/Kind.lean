import Anadil.Text.Glyph

/-! # Kinds of tokens

A kind is named in messages by its spelling, and belongs to a class that tools use. -/

namespace Anadil

/-- What a token is. -/
inductive Kind where
  | leftParen
  | rightParen
  | leftBrace
  | rightBrace
  | comma
  | dot
  | semicolon
  | plus
  | minus
  | star
  | slash
  | percent
  | assign
  | equal
  | notEqual
  | less
  | lessEqual
  | greater
  | greaterEqual
  | bang
  | andAnd
  | orOr
  | ifWord
  | elseWord
  | whileWord
  | functionWord
  | returnWord
  | classWord
  | printWord
  | trueWord
  | falseWord
  | nullWord
  | andWord
  | orWord
  | notWord
  | thisWord
  | breakWord
  | continueWord
  | identifier
  | number
  | string
  | space
  | comment
  | endOfInput
  /-- A number that stands for no kind. -/
  | unknown (code : Int)
deriving DecidableEq, Repr, Inhabited

namespace Kind

/-- The kinds that a number from one up stands for, in order. -/
def all : List Kind := [
    leftParen, rightParen, leftBrace, rightBrace, comma, dot, semicolon, plus, minus, star, slash,
    percent, assign, equal, notEqual, less, lessEqual, greater, greaterEqual, bang, andAnd, orOr,
    ifWord, elseWord, whileWord, functionWord, returnWord, classWord, printWord, trueWord, falseWord,
    nullWord, andWord, orWord, notWord, thisWord, breakWord, continueWord, identifier, number, string,
    space, comment, endOfInput]

def ofCode (code : Int) : Kind :=
  if 1 ≤ code then (all[(code - 1).toNat]?).getD (unknown code) else unknown code

/-- The kind of a token that is no token of the language. -/
def none : Kind := unknown 0

/-- The spelling of a kind that has only one, and the name of any other. -/
def spelling : Kind → String
  | leftParen => "("
  | rightParen => ")"
  | leftBrace => "\x7b"
  | rightBrace => "\x7d"
  | comma => ","
  | dot => "."
  | semicolon => ";"
  | plus => "+"
  | minus => "-"
  | star => "*"
  | slash => "/"
  | percent => "%"
  | assign => "="
  | equal => "=="
  | notEqual => "!="
  | less => "<"
  | lessEqual => "<="
  | greater => ">"
  | greaterEqual => ">="
  | bang => "!"
  | andAnd => "&&"
  | orOr => "||"
  | ifWord => "eğer"
  | elseWord => "değilse"
  | whileWord => "döngü"
  | functionWord => "fonksiyon"
  | returnWord => "dön"
  | classWord => "sınıf"
  | printWord => "yazdır"
  | trueWord => "doğru"
  | falseWord => "yanlış"
  | nullWord => "boş"
  | andWord => "ve"
  | orWord => "veya"
  | notWord => "değil"
  | thisWord => "bu"
  | breakWord => "kır"
  | continueWord => "devam"
  | identifier => "identifier"
  | number => "number"
  | string => "string"
  | space => "space"
  | comment => "comment"
  | endOfInput => "end of input"
  | unknown _ => "UNKNOWN"

/-- The kind with a spelling; `Kind.none` where there is no such kind. -/
def ofSpelling (t : Text) : Kind :=
  (all.find? fun k => (k.spelling : Text) == t).getD none

/-- The classes that tools sort tokens into. -/
inductive Class where
  | keyword
  | identifier
  | stringLiteral
  | numberLiteral
  | operator
  | punctuation
  | comment
  | endOfInput
  | unknown
deriving DecidableEq, Repr

def Class.name : Class → String
  | keyword => "keyword"
  | identifier => "identifier"
  | stringLiteral => "string-literal"
  | numberLiteral => "number-literal"
  | operator => "operator"
  | punctuation => "punctuation"
  | comment => "comment"
  | endOfInput => "end-of-input"
  | unknown => "unknown"

/-- The class of a kind. White space has none. -/
def toClass : Kind → Class
  | leftParen | rightParen | leftBrace | rightBrace | comma | dot | semicolon => .punctuation
  | plus | minus | star | slash | percent | assign | equal | notEqual | less | lessEqual | greater
  | greaterEqual | bang | andAnd | orOr => .operator
  | ifWord | elseWord | whileWord | functionWord | returnWord | classWord | printWord | trueWord
  | falseWord | nullWord | andWord | orWord | notWord | thisWord | breakWord | continueWord => .keyword
  | identifier => .identifier
  | number => .numberLiteral
  | string => .stringLiteral
  | comment => .comment
  | endOfInput => .endOfInput
  | space | unknown _ => .unknown

def isKeyword (k : Kind) : Bool := k.toClass == .keyword

def keywords : List Kind := all.filter isKeyword

/-- The kind of a name: a reserved word's own kind, or `identifier`. -/
def ofName (t : Text) : Kind :=
  (keywords.find? fun k => (k.spelling : Text) == t).getD identifier

/-- Whether a kind is one of those that stand between tokens. -/
def isTrivia (k : Kind) : Bool := k == space || k == comment

def describe (k : Kind) : Text :=
  match k with
  | identifier | number | string | endOfInput => k.spelling
  | _ => Text.inQuotes k.spelling

end Kind

end Anadil
