import Anadil.Fault

/-! # Commands

A command is given as one text, and its words are found as a shell finds them: quotation marks and
backslashes keep blanks inside a word. -/

namespace Anadil.Command

/-- Why a command has no words. -/
inductive Flaw where
  | unterminatedSingle
  | unterminatedDouble
  | unterminatedEscape
deriving DecidableEq, Repr

def Flaw.message : Flaw → Text
  | unterminatedSingle => "Unterminated single-quoted string"
  | unterminatedDouble => "Unterminated double-quoted string"
  | unterminatedEscape => "Unterminated backslash-escape"

/-- Where in a word the reading stands. -/
inductive Mode where
  /-- Between words. -/
  | between
  /-- In a word, outside quotation marks. -/
  | plain
  /-- Behind a backslash. -/
  | escape (inWord : Bool)
  | single
  | double
  /-- Behind a backslash between double quotation marks. -/
  | doubleEscape
deriving DecidableEq, Repr

def isDivider (g : Glyph) : Bool := g.is ' ' || g.is '\n' || g.is '\t'

/-- What a backslash takes away the meaning of between double quotation marks. -/
def isEscapable (g : Glyph) : Bool := g.is '$' || g.is '\x60' || g.is '"' || g.is '\\'

/-- The words of a text. `word` holds what has been read of the present word, the last glyph first. -/
def wordsFrom : Mode → Text → Text → Except Flaw (List Text)
  | .between, _, [] => .ok []
  | .plain, word, [] => .ok [word.reverse]
  | .escape _, _, [] => .error .unterminatedEscape
  | .single, _, [] => .error .unterminatedSingle
  | .double, _, [] => .error .unterminatedDouble
  | .doubleEscape, _, [] => .error .unterminatedDouble
  | .between, word, g :: rest =>
    if isDivider g then wordsFrom .between word rest
    else if g.is '\'' then wordsFrom .single [] rest
    else if g.is '"' then wordsFrom .double [] rest
    else if g.is '\\' then wordsFrom (.escape false) [] rest
    else wordsFrom .plain [g] rest
  | .plain, word, g :: rest =>
    if isDivider g then (wordsFrom .between [] rest).map (word.reverse :: ·)
    else if g.is '\'' then wordsFrom .single word rest
    else if g.is '"' then wordsFrom .double word rest
    else if g.is '\\' then wordsFrom (.escape true) word rest
    else wordsFrom .plain (g :: word) rest
  | .escape inWord, word, g :: rest =>
    if g.is '\n' then wordsFrom (if inWord then .plain else .between) word rest
    else wordsFrom .plain (g :: word) rest
  | .single, word, g :: rest =>
    if g.is '\'' then wordsFrom .plain word rest else wordsFrom .single (g :: word) rest
  | .double, word, g :: rest =>
    if g.is '"' then wordsFrom .plain word rest
    else if g.is '\\' then wordsFrom .doubleEscape word rest
    else wordsFrom .double (g :: word) rest
  | .doubleEscape, word, g :: rest =>
    if g.is '\n' then wordsFrom .double word rest
    else if isEscapable g then wordsFrom .double (g :: word) rest
    else wordsFrom .double (g :: .char '\\' :: word) rest

def words (command : Text) : Except Flaw (List Text) := wordsFrom .between [] command

def ofText (command : Text) : Except Fault (List Text) :=
  match words command with
  | .error f =>
    .error (.behind ("runner: command " ++ Text.quoted command) (.outside f.message))
  | .ok [] =>
    .error (.hinted "set compiler.command in turkpy.toml" (.plain "runner: empty command"))
  | .ok ws => .ok ws

end Anadil.Command
