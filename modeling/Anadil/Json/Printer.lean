import Anadil.Json.Basic
import Anadil.Text.Quoted

/-! # Writing JSON

On one line without blanks, or with one field or item on each line. A number is written as it is
spelled; an empty spelling is a zero, and a spelling that is no number cannot be written
(`Json.firstBadNumber`). -/

namespace Anadil.Json

/-! ### Texts -/

/-- A character inside quotation marks. -/
def escapedChar (c : Char) : Text :=
  match c with
  | '"' => "\\\""
  | '\\' => "\\\\"
  | '\x08' => "\\b"
  | '\x0c' => "\\f"
  | '\n' => "\\n"
  | '\r' => "\\r"
  | '\t' => "\\t"
  | _ =>
    if c.toNat < 0x20 ∨ c = '\u2028' ∨ c = '\u2029' then "\\u" ++ Text.hex 4 c.toNat else [.char c]

/-- A text in quotation marks. A stray byte is written as U+FFFD. -/
def quoted (t : Text) : Text :=
  .char '"' :: t.flatMap (fun g => escapedChar g.seen) ++ [.char '"']

def spelled (n : Text) : Text := if n.isEmpty then "0" else n

/-! ### Layout -/

/-- How a document is laid out: on one line, or with each level indented by a unit. -/
inductive Layout where
  | compact
  | indented (unit : Text)
deriving DecidableEq, Repr

namespace Layout

/-- The layout for a unit; an empty one keeps the document on one line. -/
def ofUnit (unit : Text) : Layout := if unit.isEmpty then .compact else .indented unit

/-- What stands in front of an item at a depth. -/
def newLine : Layout → Nat → Text
  | .compact, _ => []
  | .indented unit, depth => .char '\n' :: (List.replicate depth unit).flatten

/-- What stands between a name and its value. -/
def colon : Layout → Text
  | .compact => ":"
  | .indented _ => ": "

def enclose (l : Layout) (depth : Nat) (opening closing : String) (parts : List Text) : Text :=
  if parts.isEmpty then opening ++ (closing : Text)
  else
    opening ++ Text.join "," (parts.map fun p => l.newLine (depth + 1) ++ p) ++ l.newLine depth ++
      (closing : Text)

end Layout

mutual

def written (l : Layout) (depth : Nat) : Json → Text
  | null => "null"
  | bool true => "true"
  | bool false => "false"
  | number n => spelled n
  | string s => quoted s
  | array items => l.enclose depth "[" "]" (writtenItems l (depth + 1) items)
  | object fields => l.enclose depth "\x7b" "\x7d" (writtenFields l (depth + 1) fields)

def writtenItems (l : Layout) (depth : Nat) : List Json → List Text
  | [] => []
  | v :: rest => v.written l depth :: writtenItems l depth rest

def writtenFields (l : Layout) (depth : Nat) : List (Text × Json) → List Text
  | [] => []
  | (n, v) :: rest => (quoted n ++ l.colon ++ v.written l depth) :: writtenFields l depth rest

end

/-- A document: a value and the end of its line. -/
def document (l : Layout) (v : Json) : Text := v.written l 0 ++ "\n"

mutual

def firstBadNumber : Json → Option Text
  | null | bool _ | string _ => none
  | number n => if n.isEmpty || isNumber n then none else some n
  | array items => firstBadItem items
  | object fields => firstBadField fields

def firstBadItem : List Json → Option Text
  | [] => none
  | v :: rest => v.firstBadNumber.or (firstBadItem rest)

def firstBadField : List (Text × Json) → Option Text
  | [] => none
  | (_, v) :: rest => v.firstBadNumber.or (firstBadField rest)

end

end Anadil.Json
