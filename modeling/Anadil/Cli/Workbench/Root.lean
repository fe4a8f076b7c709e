import Anadil.Cli.Workbench.Samples
import Anadil.Config.Write

/-! # The workbench

The program by which people work: it compiles sources, keeps samples, and manages its settings. -/

namespace Anadil.Cli.Workbench

/-! ### Settings -/

def initSettings (flags : Flags) : Run Unit := do
  let path := flags.text "output"
  changeFiles fun fs => Config.write fs path Config.default (flags.switch "force")
  note "tools.go:142" (path ++ ": created")

def showSettings (flags : Flags) : Run Unit := do
  let c ← settings flags
  let rows : List (String × Text) := [
    ("compiler.command", Text.quoted c.compiler.command),
    ("compiler.timeout_seconds", Text.integer c.compiler.timeoutSeconds),
    ("python.command", Text.quoted c.python.command),
    ("python.timeout_seconds", Text.integer c.python.timeoutSeconds),
    ("generator.indent", Text.integer c.generator.indent),
    ("generator.constructor", Text.quoted c.generator.constructor),
    ("database.path", Text.quoted c.database.path),
    ("dataset.output", Text.quoted c.dataset.output),
    ("watch.debounce_ms", Text.integer c.watch.debounceMs),
    ("watch.extensions", "[" ++ Text.join " " (c.watch.extensions.map Text.quoted) ++ "]")]
  rows.forM fun (name, value) => say (Text.padRight 24 name ++ " " ++ value ++ "\n")

def showVersion (_ : Flags) : Run Unit := say (version.core ++ "\n")

/-- Starts the editor's server, which has nothing to do when its input is at the end. -/
def serveEditor (flags : Flags) : Run Unit :=
  writeLog (if flags.switch "debug" then Log.Level.debug else Log.Level.info)
    [Log.info "lsp" [("version", version.core)]]

def ownCommands : List (Command (Flags → Run Unit)) := [
  .mk
    { use := "lsp"
      short := "run the language server on stdin and stdout"
      args := .none
      deed := .run serveEditor }
    [],
  .mk
    { use := "config", short := "manage the configuration file", showsUsage := true, deed := .nothing }
    [ .mk
        { use := "init"
          short := "write a configuration file with the default settings"
          flags := [
            .switch "force" "overwrite an existing file",
            ⟨"output", some 'o', .text Config.fileName, "file to write"⟩]
          args := .none
          deed := .run initSettings }
        [],
      .mk { use := "show", short := "print the configuration in effect", args := .none,
            deed := .run showSettings } []],
  .mk
    { use := "version"
      short := "display the application's version number"
      flags := [.switch "build-info" "show build information"]
      showsUsage := true
      deed := .run showVersion }
    []]

/-! ### The program -/

def globalFlags : List Flag := [
  .text "config" "load configuration from file (default: search for turkpy.toml)",
  .switch "debug" "log debugging information",
  .switch "log-with-default-flags" "log with default flags",
  .switch "log-with-shortfile" "log with short file name",
  .switch "log-with-timestamp" "log with timestamp",
  .switch "quiet" "log less information",
  .switch "show-version" "show version",
  .switch "verbose" "log more information"]

/-- What the flags put in front of notes. The usual way is the date and the time, and nothing else. -/
def noteStyleOf (flags : Flags) : NoteStyle :=
  if flags.switch "log-with-default-flags" then ⟨some true, false⟩
  else
    ⟨if flags.switch "log-with-timestamp" then some false else none, flags.switch "log-with-shortfile"⟩

/-- Sets how notes are made, and prints the version in front of everything else if that is asked for. -/
def introduce (flags : Flags) : Run Unit := do
  modify fun s => { s with noteStyle := noteStyleOf flags }
  if flags.switch "show-version" then
    say ("turkpy: version " ++ Text.quoted version.core ++ "\n")

def program (user : Text) : Program where
  root := .mk
    { use := "turkpy"
      short := "Turkish-keyword to Python transpiler"
      long := "Transpile Turkish-keyword programs to Python and build the training dataset"
      globals := globalFlags
      showsUsage := true
      deed := .nothing }
    (sourceCommands ++ sampleCommands user ++ [watchCommand] ++ ownCommands)
  before := introduce

end Anadil.Cli.Workbench
