import Anadil.Fault
import Anadil.Json.Printer
import Anadil.Json.Reader
import Anadil.Text.Class

/-! # Corpora

A corpus is a text with one record on each line: what was asked, and a program with its output. -/

namespace Anadil

/-- One line of a corpus. -/
structure Record where
  instruction : Text
  input : Text
  output : Text
deriving DecidableEq, Repr

namespace Corpus

/-- What every record asks for, unless another instruction is given. -/
def defaultInstruction : Text :=
  "Aşağıdaki isteği Türkçe anahtar kelimeli programlama diliyle yerine getiren bir program yaz ve çıktısını göster."

/-- A program in a fenced block, and its output. -/
def formatOutput (code output : Text) : Text :=
  "```turkpy\n" ++ Text.trimEnd (·.is '\n') code ++ "\n```\n\nÇıktı:\n" ++ output

def record (instruction request code output : Text) : Record :=
  ⟨instruction, request, formatOutput code output⟩

/-! ### Writing -/

def toJson (r : Record) : Json :=
  .object [("instruction", .string r.instruction), ("input", .string r.input),
    ("output", .string r.output)]

/-- Records, each on a line. -/
def write (rs : List Record) : Text := rs.flatMap fun r => (toJson r).document .compact

/-! ### Reading -/

/-- A letter by which names of fields are compared: case does not count, and two letters count as the
ones they are forms of. -/
def fold (c : Char) : Char :=
  if c = '\u017F' then 's' else if c = '\u212A' then 'k' else c.toLower

def named (name : String) (field : Text) : Bool := field.chars.map fold == name.toList

/-- The text of the last field with a name: empty if there is none, or only null. -/
def textField (name : String) (fields : List (Text × Json)) : Except Fault Text :=
  fields.foldl (fun found (n, v) => do
    let t ← found
    if named name n then
      match v with
      | .string s => .ok s
      | .null => .ok t
      | _ => .error .jsonType
    else .ok t) (.ok [])

/-- The fields of an object; null has none. -/
def objectFields : Json → Except Fault (List (Text × Json))
  | .object fields => .ok fields
  | .null => .ok []
  | _ => .error .jsonType

def ofJson (v : Json) : Except Fault Record := do
  let fields ← objectFields v
  return ⟨← textField "instruction" fields, ← textField "input" fields, ← textField "output" fields⟩

def decode (t : Text) : Except Fault Json := (Json.readWhole t).mapError fun _ => .jsonSyntax

/-- The lines of a text. What follows the last line feed is a line unless it is empty. -/
def lines (t : Text) : List Text :=
  let ls := t.splitAt '\n'
  match ls.getLast? with
  | some last => if last.isEmpty then ls.dropLast else ls
  | none => ls

def longestLine : Nat := 16 * 1024 * 1024

/-- Reads lines counted from `n`. Stops at the first that is not a record, and gives those before. -/
def readLines : Nat → List Text → List Record × Option Fault
  | _, [] => ([], none)
  | n, l :: ls =>
    if longestLine ≤ l.width then ([], some (.outside "bufio.Scanner: token too long"))
    else
      let t := Text.trim l
      if t.isEmpty then readLines (n + 1) ls
      else
        match (decode t).bind ofJson with
        | .error f => ([], some (f.behind ("line " ++ Text.decimal n)))
        | .ok r =>
          let (rs, f) := readLines (n + 1) ls
          (r :: rs, f)

/-- Reads a corpus. Blank lines are passed over. -/
def read (t : Text) : List Record × Option Fault := readLines 1 (lines t)

end Corpus

end Anadil
