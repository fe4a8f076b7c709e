import Anadil.Cli.Session
import Anadil.Compile

/-! # The compiler's front end

A program that writes one source in Python, or shows its tree as a document on one line. It ends with
status 1 when the source is at fault, and with 2 for any other fault. -/

namespace Anadil.Cli.Compiler

/-- Reports what is wrong with a source, and stops. -/
def refuse {α : Type} (path source : Text) (f : Fault) : Run α := do
  report path source f
  throw .reported

def compileSource (indent : Int) (path source : Text) : Run Unit := do
  match compile ⟨indent, Python.Style.default.constructor⟩ source with
  | .ok python => say python
  | .error f => refuse path source f

def showTree (positions : Bool) (path source : Text) : Run Unit := do
  match parseSource source with
  | .error f => refuse path source f
  | .ok tree => say (← settle ((Document.render ⟨[], positions⟩ tree).mapError (·.fault)))

def execute (flags : Flags) : Run Unit := do
  if flags.switch "version" then say (version.core ++ "\n")
  else
    match flags.args with
    | [path] =>
      let source ← readSource path
      if flags.switch "dump-ast" then showTree (!flags.switch "no-positions") path source
      else compileSource (flags.number "indent") path source
    | _ => stop "missing source file"

/-- The compiler's front end. -/
def program : Program where
  root := .mk
    { use := "turkc [--dump-ast] <file>"
      short := "reference compiler front end"
      flags := [
        .switch "dump-ast" "print the syntax tree as JSON",
        .number "indent" Python.Style.default.indent "spaces per level in the generated Python",
        .switch "no-positions" "leave line and column out of the tree",
        .switch "version" "show version"]
      args := .atMost 1
      showsFault := false
      deed := .run execute }
    []
  label := some "turkc"
  failure := 2
  remarks := false

end Anadil.Cli.Compiler
