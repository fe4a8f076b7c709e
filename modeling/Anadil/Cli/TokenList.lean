import Anadil.Cli.Session
import Anadil.Path

/-! # Listing tokens

A line for each token shows its place, its number, its kind and its text; the pieces in front of it can
have lines without numbers. `TokenList.program` lists the tokens of files. -/

namespace Anadil.Cli.TokenList

/-- What is listed. -/
structure Choice where
  keywordsOnly : Bool
  trivia : Bool

def choiceFlags : List Flag := [
  .switch "keywords" "print only keyword tokens",
  .switch "trivia" "print spaces and comments ahead of each token"]

def Choice.ofFlags (fs : Flags) : Choice := ⟨fs.switch "keywords", fs.switch "trivia"⟩

def line (file source number : Text) (l : Lexeme) : Text :=
  let place := file ++ ":" ++ Text.integer l.span.line ++ ":" ++ Text.integer l.span.column ++ ":"
  place.padRight 35 ++ " " ++ number.padLeft 5 ++ " " ++ Text.padRight 20 l.kind.spelling ++ " " ++
    Text.quoted (l.span.text source) ++ "\n"

def tokenLines (choice : Choice) (file source : Text) (number : Nat) (t : Token) : Text :=
  (if choice.trivia then t.trivia.flatMap (line file source []) else []) ++
    (if !choice.keywordsOnly || t.kind.isKeyword then
      line file source (Text.decimal number) t.toLexeme
    else [])

def lines (choice : Choice) (file source : Text) (ts : List Token) : Text :=
  ts.zipIdx.flatMap fun (t, n) => tokenLines choice file source (n + 1) t

/-- What came of listing a source token by token. -/
structure Listing where
  text : Text
  log : List Log.Record
  outcome : Except Lexer.Refusal Nat

/-- Lists a source until its end or its first flaw, at most `fuel` tokens. -/
def listFrom (choice : Choice) (source : Text) : Nat → Nat → Scanner → Listing
  | 0, n, _ => ⟨[], [], .ok n⟩
  | fuel + 1, n, s =>
    let (outcome, log, s') := s.scan
    match outcome with
    | .error r => ⟨[], log, .error r⟩
    | .ok t =>
      let text := tokenLines choice s.name source (n + 1) t
      if t.kind = .endOfInput then ⟨text, log, .ok (n + 1)⟩
      else
        let rest := listFrom choice source fuel (n + 1) s'
        ⟨text ++ rest.text, log ++ rest.log, rest.outcome⟩

/-- Lists the tokens of a file, and says how many there are or what went wrong. -/
def listFile (choice : Choice) (traced : Bool) (path : Text) : Run Unit := do
  let failed (f : Fault) : Run Unit := say (path ++ ": failed " ++ f.inline ++ "\n")
  match (← get).files.read path with
  | .error f => failed f
  | .ok source =>
    let listing := listFrom choice source (source.width + 1) 0 (.ofText (Path.base path) source)
    if traced then writeLog Log.Level.debug listing.log
    say listing.text
    match listing.outcome with
    | .ok n =>
      print [.text (path ++ ": " ++ Text.decimal n ++ " tokens in "), .elapsed, .text "\n"]
    | .error r => failed (Fault.ofLexer r)

def program : Program where
  root := .mk
    { use := "lexer <file>..."
      short := "print the tokens of source files"
      flags := .switch "debug" "log lexer traces" :: choiceFlags
      args := .atLeast 1
      deed := .run fun flags =>
        flags.args.forM (listFile (.ofFlags flags) (flags.switch "debug")) }
    []

end Anadil.Cli.TokenList
