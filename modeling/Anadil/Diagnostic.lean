import Anadil.Compile

/-! # Diagnostics

What is wrong with a source, and where, for people and for editors. -/

namespace Anadil

/-- A complaint about a place in a source. -/
structure Diagnostic where
  severity : Log.Level
  /-- The stage that refused the source, or nothing. -/
  stage : Text
  message : Text
  line : Int
  column : Int
  notes : List Text
deriving DecidableEq, Repr

namespace Diagnostic

/-- The note on a construct that its source does not close. -/
def unclosed : Text := "input ended before the construct was closed"

def notesOn : Option Fault → List Text
  | some (.parse _ _ _ found) => if found = ("end of input" : Text) then [unclosed] else []
  | _ => []

/-- The complaint that a fault makes. A fault that is not of the source complains about its start. -/
def ofFault (f : Fault) : Diagnostic :=
  match f.staged with
  | .compile stage line column text cause =>
    ⟨Log.Level.error, stage, text, line, column, notesOn cause⟩
  | _ => ⟨Log.Level.error, [], f.message, 1, 1, []⟩

/-- A line of a source, counted from one, without its end and with a blank for each tab. -/
def sourceLine (source : Text) (n : Int) : Text :=
  if n < 1 then []
  else
    match (source.splitAt '\n')[(n - 1).toNat]? with
    | none => []
    | some line =>
      (Text.dropEnd line "\r").map fun g => if g.is '\t' then .char ' ' else g

/-- A name with its letters of ASCII in lower case. -/
def lowered (t : Text) : Text :=
  t.map fun
    | .char c => .char c.toLower
    | g => g

/-- A diagnostic as it is printed: what and where, the line, a caret below the column, and the notes. -/
def printed (d : Diagnostic) (filename source : Text) : Text :=
  let head :=
    filename ++ ":" ++ Text.integer d.line ++ ":" ++ Text.integer d.column ++ ": " ++
      lowered (Log.Level.name d.severity) ++ ": " ++ d.message ++ "\n"
  let line := "    " ++ sourceLine source d.line ++ "\n"
  let caret := "    " ++ Text.blanks (d.column - 1).toNat ++ "^\n"
  head ++ line ++ caret ++ d.notes.flatMap fun n => ("    note: " ++ n ++ "\n" : Text)

end Diagnostic

/-- What is wrong with a source: nothing, or the first fault of reading it or of writing it in Python
in the default style. -/
def check (source : Text) : List Diagnostic :=
  match (compileStages Python.Style.default source).1 with
  | .ok _ => []
  | .error f => [Diagnostic.ofFault f]

end Anadil
