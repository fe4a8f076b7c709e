import Anadil.Cli.Compiler
import Anadil.Cli.Workbench.Root
import Anadil.Store.Snapshot

/-! # The command line

The outer layer: it reads the files that a command line can touch, carries the command line out on them,
and writes down what has changed. The name under which it was started decides which program it is. No
program outside is started from here, so to the workbench all of them are missing. -/

namespace Anadil.Main

def programFor (name : String) (user : Text) : Cli.Program :=
  match name with
  | "turkc" => Cli.Compiler.program
  | "lexer" => Cli.TokenList.program
  | _ => Cli.Workbench.program user

def variablePaths : List (List String) :=
  let parts : List (String × List String) :=
    [("compiler", ["command", "timeout_seconds"]), ("python", ["command", "timeout_seconds"]),
      ("generator", ["indent", "constructor"]), ("database", ["path"]),
      ("dataset", ["instruction", "output"]), ("watch", ["debounce_ms", "extensions"])]
  parts.flatMap fun (part, names) => [part] :: names.map fun n => [part, n]

/-- The paths that arguments can stand for: each of them, the value behind an equals sign, and the files
of expected outputs. -/
def candidates (args : List Text) : List Text :=
  args.flatMap fun a =>
    let value : Text := (a.dropWhile fun g => !g.is '=').drop 1
    [a, value, Path.withoutExt a ++ ".out"]

/-! ### Reading the world -/

def textOf (bytes : ByteArray) : Text := Text.ofBytes bytes.toList

def bytesOf (t : Text) : ByteArray := ⟨t.bytes.toArray⟩

/-- Adds what is really under a path, and the directories around it. -/
def load (fs : Files) (path : Text) : IO Files := do
  if path.isEmpty then return fs
  let here ← IO.currentDir
  let key := fs.key path
  let mut fs := fs
  for dir in key :: Files.around (key.length + 2) key do
    if ← (here / dir.seen).isDir then fs := { fs with directories := dir :: fs.directories }
  if ← (here / key.seen).isDir then return fs
  try
    return fs.put key (textOf (← IO.FS.readBinFile (here / key.seen)))
  catch _ => return fs

/-- The time, as a file shows it that is made now. -/
def clock : IO Instant := do
  let (_, path) ← IO.FS.createTempFile
  let made := (← path.metadata).modified.sec
  IO.FS.removeFile path
  return made

/-- The variables that are set. -/
def environment : IO Config.Environment := do
  let found ← variablePaths.mapM fun path => do
    let name := Config.variableName path
    return (← IO.getEnv name.seen).map fun v => (name, (v : Text))
  return found.filterMap id

def databasesAt (fs : Files) (path : Text) : List (Text × Store) :=
  let key := fs.key (Store.location path)
  match fs.at? key with
  | some t => ((Store.ofSnapshot? t).map fun store => (key, store)).toList
  | none => []

/-- The session in which a command line is carried out. -/
def openSession (p : Cli.Program) (args : List Text) : IO Cli.Session := do
  let start := Files.disk ((← IO.currentDir).toString : String)
  let above := start.workDir :: Files.around (start.workDir.length + 2) start.workDir
  let known := above.map fun d => Path.join [d, Config.fileName]
  let mut fs := start
  for path in known ++ candidates args do
    fs ← load fs path
  let environment ← environment
  let mut databases := []
  if let .run _ flags _ := Cli.dispatch p.root args then
    if let .ok c := Config.load fs environment (flags.text "config") then
      fs ← load fs c.database.path
      fs ← load fs (Store.location c.database.path)
      fs ← load fs c.dataset.output
      databases := databasesAt fs c.database.path
  let stdin ←
    if args.contains "-" then textOf <$> (← IO.getStdin).readBinToEnd else pure []
  return ⟨fs, databases, environment, ← clock, fun _ _ _ => .notFound, stdin, [], [], {}⟩

/-! ### Changing the world -/

/-- Writes down what a run has changed. -/
def keep (before after : Cli.Session) : IO Unit := do
  let here ← IO.currentDir
  for dir in after.files.directories do
    if !before.files.directories.contains dir then IO.FS.createDirAll (here / dir.seen)
  for (key, text) in after.files.files do
    let text := ((after.databases.find? fun (k, _) => k == key).map fun (_, store) =>
      store.snapshot).getD text
    if before.files.at? key != some text then IO.FS.writeBinFile (here / key.seen) (bytesOf text)

def shown (now : Instant) (milliseconds : Nat) : Cli.Piece → Text
  | .text t => t
  | .elapsed => Text.decimal milliseconds ++ "ms"
  | .clock => Time.text now 0
  | .stamp dated =>
    let t := Time.text now 0
    let day : Text := (t.take 10).map fun g => if g.is '-' then .char '/' else g
    let time := (t.drop 11).take 8
    if dated then day ++ " " ++ time else time

end Anadil.Main

open Anadil in
/-- Carries out a command line. -/
def main (args : List String) : IO UInt32 := do
  let started ← IO.monoMsNow
  let user := ((← IO.getEnv "USER").getD "" : String)
  let program := Main.programFor ((← IO.appPath).fileName.getD "") user
  let args := args.map Text.ofString
  let session ← Main.openSession program args
  let (status, after) := program.run args session
  Main.keep session after
  let took := (← IO.monoMsNow) - started
  let text (ps : List Cli.Piece) : Text := ps.flatMap (Main.shown session.now took)
  let out ← IO.getStdout
  out.write (Main.bytesOf (text after.stdout))
  out.flush
  (← IO.getStderr).write (Main.bytesOf (text after.stderr))
  return status.toUInt32
