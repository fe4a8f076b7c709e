import Anadil.Config.Basic
import Anadil.Files
import Anadil.Text.Quoted

/-! # Writing settings -/

namespace Anadil.Config

/-- Whether a glyph cannot stand in a string in single quotes. -/
def needsEscape (g : Glyph) : Bool :=
  match g with
  | .char c => c == '\'' || (c.toNat < 0x20 && c != '\t') || c.toNat == 0x7F
  | .byte _ => false

/-- The escape of a glyph in a string in double quotes. -/
def escape (g : Glyph) : Text :=
  match g with
  | .char '\\' => "\\\\"
  | .char '"' => "\\\""
  | .char '\x08' => "\\b"
  | .char '\x0c' => "\\f"
  | .char '\n' => "\\n"
  | .char '\r' => "\\r"
  | .char '\t' => "\\t"
  | .char c =>
    if c.toNat < 0x20 ∨ c.toNat = 0x7F then
      let digits : Text := (Text.hex 2 c.toNat).map fun d => .char d.seen.toUpper
      "\\u00" ++ digits
    else [g]
  | .byte _ => [g]

/-- A string: in single quotes if it can be, else in double quotes with escapes. -/
def quote (t : Text) : Text :=
  if t.any needsEscape then "\"" ++ t.flatMap escape ++ "\"" else "'" ++ t ++ "'"

def line (key value : Text) : Text := key ++ " = " ++ value ++ "\n"

def part (name : Text) (lines : List Text) : Text := "[" ++ name ++ "]\n" ++ lines.flatten

def Program.lines (p : Program) : List Text :=
  [line "command" (quote p.command), line "timeout_seconds" (Text.integer p.timeoutSeconds)]

def text (c : Config) : Text :=
  Text.join "\n" [
    part "compiler" c.compiler.lines,
    part "python" c.python.lines,
    part "generator"
      [line "indent" (Text.integer c.generator.indent),
        line "constructor" (quote c.generator.constructor)],
    part "database" [line "path" (quote c.database.path)],
    part "dataset"
      [line "instruction" (quote c.dataset.instruction), line "output" (quote c.dataset.output)],
    part "watch"
      [line "debounce_ms" (Text.integer c.watch.debounceMs),
        line "extensions" ("[" ++ Text.join ", " (c.watch.extensions.map quote) ++ "]")]]

/-- Writes a settings file. One that is there is written over only by force. -/
def write (fs : Files) (path : Text) (c : Config) (force : Bool) : Except Fault Files :=
  if !force && (fs.entry? path).isSome then
    .error (.hinted "use --force to overwrite it" (.plain (Fault.guarded path ++ ": file exists")))
  else (fs.write path c.text).mapError (Fault.behind ("failed to write " ++ path))

end Anadil.Config
