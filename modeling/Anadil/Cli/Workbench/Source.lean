import Anadil.Cli.TokenList
import Anadil.Compile
import Anadil.Watch

/-! # Commands on sources -/

namespace Anadil.Cli.Workbench

/-- How much a record has to matter to be printed. -/
def leastLevel (flags : Flags) : Log.Level :=
  if flags.switch "debug" then Log.Level.debug
  else if flags.switch "quiet" then Log.Level.error
  else if flags.switch "verbose" then Log.Level.info
  else Log.Level.warn

def outputFlag (usage : String) : Flag := ⟨"output", some 'o', .text [], usage⟩

/-- Does something with each source and counts those that it fails for. A source that cannot be read
stops the run. -/
def countFailures (act : Text → Text → Run Bool) (paths : List Text) : Run Nat :=
  paths.foldlM (fun n path => do return if ← act path (← readSource path) then n else n + 1) 0

def ofAll (failed : Nat) (paths : List Text) : Text :=
  Text.decimal failed ++ " of " ++ Text.decimal paths.length ++ " files"

def needAll (paths : List Text) (failed : Nat) : Run Unit := do
  if failed ≠ 0 then stop (ofAll failed paths ++ " failed")

/-! ### Compiling -/

/-- Compiles a source, and saves the Python in a file, beside the source or nowhere. -/
def transpileSource (style : Python.Style) (flags : Flags) (path source : Text) : Run Bool := do
  let output := flags.text "output"
  let (outcome, log) := compileLogged style source
  writeLog (leastLevel flags) log
  match outcome with
  | .error f =>
    report path source f
    return false
  | .ok python =>
    if !output.isEmpty then save "compile.go:59" output python
    else if flags.switch "write" && path != ("-" : Text) then save "compile.go:65" (outputPath path) python
    else say python
    return true

def transpile (flags : Flags) : Run Unit := do
  if !(flags.text "output").isEmpty && (flags.switch "write" || flags.args.length != 1) then
    stop "--output needs exactly one file and no --write"
  let c ← settings flags
  needAll flags.args (← countFailures (transpileSource (styleOf c) flags) flags.args)

/-! ### Tokens, trees and faults -/

/-- Lists the tokens of sources. -/
def lex (flags : Flags) : Run Unit := do
  let failed ← countFailures (fun path source => do
    match tokenize source with
    | .ok tokens =>
      say (TokenList.lines (.ofFlags flags) path source tokens)
      return true
    | .error r =>
      report path source (Fault.ofLexer r)
      return false) flags.args
  needAll flags.args failed

def parseFile (flags : Flags) : Run Unit := do
  let path := flags.args.headD []
  let source ← readSource path
  match parseSource source with
  | .error f =>
    report path source f
    stop (path ++ ": parse failed")
  | .ok tree =>
    let style : Document.Style := ⟨Document.Style.default.unit, flags.switch "positions"⟩
    let document ← settle ((Document.render style tree).mapError (·.fault))
    let output := flags.text "output"
    if output.isEmpty then say document else save "compile.go:176" output document

def checkFiles (flags : Flags) : Run Unit := do
  let failed ← countFailures (fun path source => do
    let found := check source
    found.forM fun d => tell (d.printed path source)
    if found.isEmpty && !flags.switch "quiet" then display ("ok " ++ path ++ "\n")
    return found.isEmpty) flags.args
  if failed ≠ 0 then
    say ("  ERROR   " ++ ofAll failed flags.args ++ " have errors\n")
    stop "check failed"

def watchPaths (flags : Flags) : Run Unit := do
  let _ ← settings flags
  flags.args.forM fun path => do
    writeLog (leastLevel flags) (← settle (Watcher.add (← get).files path))
  say
    ("  INFO   watching " ++ Text.decimal flags.args.length ++ " paths, press Ctrl-C to stop\n")

/-! ### The commands -/

def sourceCommands : List (Command (Flags → Run Unit)) := [
  .mk
    { use := "transpile <file>..."
      short := "transpile source files to Python"
      long := "Transpile source files to Python. A file named \"-\" is read from stdin."
      flags := [
        outputFlag "save Python to file",
        ⟨"write", some 'w', .switch false,
          "write each result next to its source with a .py extension"⟩]
      args := .atLeast 1
      deed := .run transpile }
    [],
  .mk
    { use := "lex <file>..."
      short := "print the tokens of source files"
      flags := TokenList.choiceFlags
      args := .atLeast 1
      deed := .run lex }
    [],
  .mk
    { use := "parse <file>"
      short := "parse a source file and print its syntax tree as JSON"
      flags := [
        outputFlag "save parse to file",
        ⟨"positions", none, .switch true, "include line and column of every node"⟩]
      args := .exactly 1
      deed := .run parseFile }
    [],
  .mk
    { use := "check <file>..."
      short := "report lexer and parser errors without generating code"
      args := .atLeast 1
      deed := .run checkFiles }
    []]

def watchCommand : Command (Flags → Run Unit) :=
  .mk
    { use := "watch <path>..."
      short := "transpile source files whenever they change"
      args := .atLeast 1
      deed := .run watchPaths }
    []

end Anadil.Cli.Workbench
