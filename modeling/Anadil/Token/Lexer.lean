import Anadil.Log
import Anadil.Text.Normal
import Anadil.Text.Quoted
import Anadil.Token.Basic

/-! # From text to tokens

The source is first divided into cells: a glyph each, but a carriage return and a line feed together.
`munch` says what stands at the front of the cells, `next` passes white space and comments and gives
the first token, and `tokenize` gives all of them. `Scanner` hands tokens out one by one, and goes on
after a flaw. -/

namespace Anadil

/-- What the lexer sees as one character. -/
inductive Cell where
  | glyph (g : Glyph)
  /-- A carriage return with the line feed after it. -/
  | crlf
deriving DecidableEq, Repr, Inhabited

namespace Cell

def seen : Cell → Char
  | glyph g => g.seen
  | crlf => '\n'

def text : Cell → Text
  | glyph g => [g]
  | crlf => "\r\n"

def width : Cell → Nat
  | glyph g => g.width
  | crlf => 2

def ofText : Text → List Cell
  | [] => []
  | .char '\r' :: .char '\n' :: rest => crlf :: ofText rest
  | g :: rest => glyph g :: ofText rest

def join (cells : List Cell) : Text := cells.flatMap text

end Cell

/-- The place after a cell. A line feed starts a line. -/
def Place.after (p : Place) (c : Cell) : Place :=
  if c.seen = '\n' then ⟨p.line + 1, 1, p.offset + c.width⟩
  else ⟨p.line, p.column + 1, p.offset + c.width⟩

def Place.afterAll (p : Place) (cells : List Cell) : Place := cells.foldl Place.after p

namespace Lexer

/-! ### Classes of characters -/

/-- What may start a name: a letter of any script, or an underscore. -/
def isNameStart (c : Char) : Bool := c == '_' || Text.isLetter c

/-- What may stand in a name. Combining marks may, so that a letter and its accent make one name. -/
def isNamePart (c : Char) : Bool :=
  c == '_' || Text.isLetter c || Text.isDecimalDigit c || Text.isMark c

def isDigit (c : Char) : Bool := c.isDigit

def single? : Char → Option Kind
  | '(' => some .leftParen
  | ')' => some .rightParen
  | '\x7b' => some .leftBrace
  | '\x7d' => some .rightBrace
  | ',' => some .comma
  | '.' => some .dot
  | ';' => some .semicolon
  | '+' => some .plus
  | '-' => some .minus
  | '*' => some .star
  | '/' => some .slash
  | '%' => some .percent
  | '=' => some .assign
  | '!' => some .bang
  | '<' => some .less
  | '>' => some .greater
  | _ => none

def double? : Char → Char → Option Kind
  | '=', '=' => some .equal
  | '!', '=' => some .notEqual
  | '<', '=' => some .lessEqual
  | '>', '=' => some .greaterEqual
  | '&', '&' => some .andAnd
  | '|', '|' => some .orOr
  | _, _ => none

/-! ### The front of the source -/

/-- What stands at the front of the source. -/
inductive Munch where
  /-- A piece of some kind: the first cell and `more` after it. -/
  | piece (kind : Kind) (more : Nat)
  /-- A string literal that its line does not close, read up to the end of the line. -/
  | unclosed (more : Nat)
  /-- A character that starts nothing. -/
  | stray
deriving DecidableEq, Repr

/-- How many cells at the front satisfy `p`. -/
def run (p : Char → Bool) (cells : List Cell) : Nat := (cells.takeWhile fun c => p c.seen).length

/-- How many cells go on a number after its first digit: digits, and a point with digits after it. -/
def numberRun (cells : List Cell) : Nat :=
  let whole := run isDigit cells
  match cells.drop whole with
  | point :: digit :: rest =>
    if point.seen == '.' && isDigit digit.seen then whole + 2 + run isDigit rest else whole
  | _ => whole

def munch (c : Cell) (rest : List Cell) : Munch :=
  let ch := c.seen
  let ahead := (rest.head?).map Cell.seen
  if Text.isSpace ch then .piece .space (run Text.isSpace rest)
  else if ch == '/' && ahead == some '/' then .piece .comment (run (· != '\n') rest)
  else if isNameStart ch then .piece .identifier (run isNamePart rest)
  else if isDigit ch then .piece .number (numberRun rest)
  else if ch == '"' then
    let content := run (fun d => d != '"' && d != '\n') rest
    match rest.drop content with
    | quote :: _ => if quote.seen == '"' then .piece .string (content + 1) else .unclosed content
    | [] => .unclosed content
  else
    match ahead.bind (double? ch) with
    | some kind => .piece kind 1
    | none =>
      match single? ch with
      | some kind => .piece kind 0
      | none => .stray

/-! ### Flaws -/

/-- Why a source cannot be divided into tokens. -/
inductive Flaw where
  | unexpected (c : Char)
  | unterminated
  /-- A name that Python would read as another one, since it folds such characters. -/
  | compatibility (name : Text)
deriving DecidableEq, Repr

def Flaw.message : Flaw → Text
  | unexpected c => "unexpected character " ++ Text.quotedChar c
  | unterminated => "unterminated string literal"
  | compatibility name => "identifier " ++ Text.quoted name ++ " has a compatibility character"

/-- A flaw and the place of the piece that has it. -/
structure Refusal where
  place : Place
  flaw : Flaw
deriving DecidableEq, Repr

/-! ### One token -/

/-- The piece of `cells` that starts at a place. -/
def lexeme (kind : Kind) (place : Place) (cells : List Cell) : Lexeme where
  kind := kind
  text := Cell.join cells
  span := ⟨place.offset, (place.afterAll cells).offset, place.line, place.column⟩

/-- The token of a piece. A name is put in normal form and a reserved word gets its own kind; a string
literal loses its quotation marks. -/
def finish (piece : Lexeme) (trivia : List Lexeme) : Except Flaw Token :=
  match piece.kind with
  | .identifier =>
    let name := Text.normalize piece.text.chars
    let text : Text := name.map .char
    if Text.hasCompatibility name then .error (.compatibility text)
    else .ok { piece with text, kind := Kind.ofName text, trivia }
  | .string => .ok { piece with text := (piece.text.drop 1).dropLast, trivia }
  | _ => .ok { piece with trivia }

/-- The token after all others. It is empty, and keeps what stands behind the last one. -/
def endToken (place : Place) (trivia : List Lexeme) : Token where
  kind := .endOfInput
  text := []
  span := ⟨place.offset, place.offset, place.line, place.column⟩
  trivia := trivia

/-- A line of the log: the source's name, a place in it, and what is to be said. -/
def note (name : Text) (place : Place) (said : Text) : Text :=
  name ++ ":" ++ Text.decimal place.line ++ ":" ++ Text.decimal place.column ++ ": " ++ said

/-- What the log says of a piece. White space is passed in silence. -/
def trace (name : Text) (place : Place) (piece : Lexeme) : List Log.Record :=
  if piece.kind = .space then []
  else
    [Log.debug
      (note name place (Text.padRight 12 piece.kind.spelling ++ " " ++ Text.quoted piece.text)) []]

/-- What a look at the front of the source gives, and where the source goes on. -/
structure Step where
  outcome : Except Refusal Token
  log : List Log.Record
  place : Place
  rest : List Cell

def Step.behind (records : List Log.Record) (s : Step) : Step := { s with log := records ++ s.log }

/-- What is left behind a piece is shorter than what began with it. -/
theorem drop_length_lt (c : Cell) (cells : List Cell) (more : Nat) :
    (cells.drop more).length < (c :: cells).length := by
  simp only [List.length_drop, List.length_cons]
  omega

/-- The first token of the source from a place on, where `trivia` has been passed already. -/
def next (name : Text) (trivia : List Lexeme) (place : Place) : List Cell → Step
  | [] => ⟨.ok (endToken place trivia), [], place, []⟩
  | c :: cells =>
    match munch c cells with
    | .piece kind more =>
      let piece := lexeme kind place (c :: cells.take more)
      let log := trace name place piece
      let place' := place.afterAll (c :: cells.take more)
      if kind.isTrivia then
        (next name (trivia ++ [piece]) place' (cells.drop more)).behind log
      else
        ⟨(finish piece trivia).mapError (Refusal.mk place), log, place', cells.drop more⟩
    | .unclosed more =>
      ⟨.error ⟨place, .unterminated⟩, [Log.error (note name place Flaw.unterminated.message) []],
        place.afterAll (c :: cells.take more), cells.drop more⟩
    | .stray =>
      let flaw := Flaw.unexpected c.seen
      ⟨.error ⟨place, flaw⟩, [Log.error (note name place flaw.message) []], place, c :: cells⟩
termination_by cells => cells.length
decreasing_by exact drop_length_lt c cells more

/-- Looking for a token never lengthens the source, and a token that is not the last is taken from it. -/
theorem next_rest_length (name : Text) (trivia : List Lexeme) (place : Place) (cells : List Cell) :
    (next name trivia place cells).rest.length ≤ cells.length ∧
      ∀ t, (next name trivia place cells).outcome = .ok t → t.kind ≠ .endOfInput →
        (next name trivia place cells).rest.length < cells.length := by
  fun_induction next name trivia place cells with
  | case1 trivia place =>
    refine ⟨Nat.le_refl _, fun t h hk => ?_⟩
    cases h
    exact absurd rfl hk
  | case2 trivia place c cells kind more _ piece log place' _ ih =>
    have hlen := drop_length_lt c cells more
    exact ⟨Nat.le_trans ih.1 (Nat.le_of_lt hlen), fun t h hk => Nat.lt_trans (ih.2 t h hk) hlen⟩
  | case3 trivia place c cells kind more _ piece log place' _ =>
    exact ⟨Nat.le_of_lt (drop_length_lt c cells more), fun _ _ _ => drop_length_lt c cells more⟩
  | case4 trivia place c cells more _ =>
    exact ⟨Nat.le_of_lt (drop_length_lt c cells more), fun _ _ _ => drop_length_lt c cells more⟩
  | case5 trivia place c cells _ flaw =>
    exact ⟨Nat.le_refl _, fun t h _ => by simp at h⟩

/-! ### All tokens -/

/-- The tokens of the source from a place on, with the log of finding them. -/
def tokensFrom (name : Text) (place : Place) (cells : List Cell) :
    Except Refusal (List Token) × List Log.Record :=
  let s := next name [] place cells
  match h : s.outcome with
  | .error e => (.error e, s.log)
  | .ok t =>
    if hk : t.kind = .endOfInput then (.ok [t], s.log)
    else
      have : s.rest.length < cells.length := (next_rest_length name [] place cells).2 t h hk
      let more := tokensFrom name s.place s.rest
      (more.1.map (t :: ·), s.log ++ more.2)
termination_by cells.length

def scanAll (name source : Text) : Except Refusal (List Token) × List Log.Record :=
  tokensFrom name Place.first (Cell.ofText source)

end Lexer

/-- The tokens of a source. The last one, and no other, is the end of input. -/
def tokenize (source : Text) : Except Lexer.Refusal (List Token) := (Lexer.scanAll [] source).1

/-! ### One token at a time -/

/-- A source that is handed out token by token. -/
structure Scanner where
  name : Text
  place : Place
  rest : List Cell
  /-- The last token, once it has been handed out. -/
  finished : Option Token

namespace Scanner

def ofText (name source : Text) : Scanner := ⟨name, Place.first, Cell.ofText source, none⟩

/-- Hands out the next token, or says why there is none and goes on behind the flaw; a character that
starts nothing is met again. After the last token, that one is handed out for ever. -/
def scan (s : Scanner) : Except Lexer.Refusal Token × List Log.Record × Scanner :=
  match s.finished with
  | some t => (.ok t, [], s)
  | none =>
    let step := Lexer.next s.name [] s.place s.rest
    let finished :=
      match step.outcome with
      | .ok t => if t.kind = .endOfInput then some t else none
      | .error _ => none
    (step.outcome, step.log, { s with place := step.place, rest := step.rest, finished })

end Scanner

end Anadil
