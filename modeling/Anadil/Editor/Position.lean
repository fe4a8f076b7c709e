import Anadil.Diagnostic

/-! # Positions in an editor

Editors count lines from zero, and places in a line in sixteen-bit units, so a character outside the
basic plane counts twice. -/

namespace Anadil.Editor

/-- A place as an editor counts it. -/
structure Position where
  line : UInt32
  character : UInt32
deriving DecidableEq, Repr

/-- How many sixteen-bit units a character takes. -/
def units (c : Char) : Nat := if 0x10000 ≤ c.toNat then 2 else 1

/-- A line of a text, counted from one, without its end. -/
def lineAt (text : Text) (n : Nat) : Text :=
  Text.dropEnd (((text.splitAt '\n')[n - 1]?).getD []) "\r"

/-- A line as the checker sees it, without the byte order mark of the text, and the units that the
editor counts for what is left out. -/
def sourceLine (text : Text) (n : Nat) : Text × Nat :=
  let line := lineAt text n
  if n = 1 ∧ line.startsWith Text.byteOrderMark then (line.dropStart Text.byteOrderMark, 1)
  else (line, 0)

/-- The position of a line and a column that count from one. Every column behind the end of the line
counts one unit. -/
def position (text : Text) (line column : Int) : Position :=
  let line := (max line 1).toNat
  let passed := (max column 1).toNat - 1
  let (source, extra) := sourceLine text line
  let inLine := (source.take passed).foldr (fun g n => units g.seen + n) 0
  ⟨UInt32.ofNat (line - 1), UInt32.ofNat (extra + inLine + (passed - source.length))⟩

/-- A complaint as it is sent to an editor. -/
structure Complaint where
  start : Position
  stop : Position
  /-- One is the gravest. -/
  severity : Nat
  source : Text
  message : Text
deriving DecidableEq, Repr

/-- The name under which complaints are sent. -/
def sender : Text := "turkpy"

/-- The position behind the character at a column, or the position itself if there is none. -/
def endOfCharacter (text : Text) (line column : Int) (start : Position) : Position :=
  if 1 ≤ column then
    match (sourceLine text line.toNat).1[(column - 1).toNat]? with
    | some g => { start with character := start.character + UInt32.ofNat (units g.seen) }
    | none => start
  else start

/-- A diagnostic as a complaint about a text, with the notes below the message. -/
def complaint (text : Text) (d : Diagnostic) : Complaint :=
  let start := position text d.line d.column
  { start
    stop := endOfCharacter text d.line d.column start
    severity := 1
    source := sender
    message := d.message ++ d.notes.flatMap fun n => ("\n" ++ n : Text) }

def diagnose (text : Text) : List Complaint := (check text).map (complaint text)

end Anadil.Editor
