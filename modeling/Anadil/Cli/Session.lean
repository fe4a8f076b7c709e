import Anadil.Cli.Dispatch
import Anadil.Cli.Markup
import Anadil.Config.Load
import Anadil.Diagnostic
import Anadil.Pipeline.Basic
import Anadil.Store.Location
import Anadil.Tool.Command
import Anadil.Tool.Run

/-! # Sessions

A session is what the runs of programs share: files, databases and the programs outside. A run reads the
session, changes it and prints; `Program.run` carries out a command line. -/

namespace Anadil.Cli

/-- What is printed. Times are left open, so that a run is a function of its session. -/
inductive Piece where
  | text (t : Text)
  /-- How long something took. -/
  | elapsed
  /-- The time. -/
  | clock
  /-- The time of day, with the date if `dated`. -/
  | stamp (dated : Bool)
deriving DecidableEq, Repr

/-- What stands in front of a note: the time of day, alone or with the date, and the place in the program
that makes it. -/
structure NoteStyle where
  stamp : Option Bool := none
  sited : Bool := false
deriving DecidableEq, Repr

/-- What runs share, and what the current run has printed. -/
structure Session where
  files : Files
  /-- The databases among the files, by shortest path. -/
  databases : List (Text × Store)
  environment : Config.Environment
  now : Instant
  /-- What the programs outside give, by name. -/
  programs : Text → List Text → Text → Execution
  stdin : Text
  stdout : List Piece
  stderr : List Piece
  noteStyle : NoteStyle

/-- Why a run stopped. -/
inductive Stop where
  /-- For a fault that is already reported. -/
  | reported
  | fault (f : Fault)

abbrev Run := EStateM Stop Session

def stop {α : Type} (message : Text) : Run α := throw (.fault (.outside message))

/-- The value of an outcome; a fault stops the run. -/
def settle {α : Type} : Except Fault α → Run α
  | .ok a => pure a
  | .error f => throw (.fault f)

/-! ### Printing -/

def print (ps : List Piece) : Run Unit := modify fun s => { s with stdout := s.stdout ++ ps }

def say (t : Text) : Run Unit := print [.text t]

def tell (t : Text) : Run Unit := modify fun s => { s with stderr := s.stderr ++ [.text t] }

/-- Prints a text for a terminal without colours. -/
def display (t : Text) : Run Unit := say (Markup.plain t)

/-- Prints a note that is made at a place in the program. -/
def note (site : String) (t : Text) : Run Unit := modify fun s =>
  let stamp : List Piece := (s.noteStyle.stamp.map fun dated => [.stamp dated, .text " "]).getD []
  let site : Text := if s.noteStyle.sited then site ++ ": " else []
  { s with stderr := s.stderr ++ stamp ++ [.text (site ++ t ++ "\n")] }

def report (path source : Text) (f : Fault) : Run Unit :=
  tell ((Diagnostic.ofFault f).printed path source)

/-- Whether a value has to stand between quotation marks in a line of the log. -/
def needsQuotes (t : Text) : Bool :=
  let isDelicate (g : Glyph) : Bool :=
    let c := g.seen
    if c.val < 0x80 then c == ' ' || c == '=' || c == '"' || c < ' '
    else c == Glyph.replacement || Text.isSpace c || !Text.isPrintable c
  t.isEmpty || t.any isDelicate

def logValue (t : Text) : Text := if needsQuotes t then Text.quoted t else t

def logLine (r : Log.Record) : List Piece :=
  let values := r.attributes.flatMap fun (k, v) => (" " ++ logValue k ++ "=" ++ logValue v : Text)
  let start : List Piece :=
    [.text "time=", .clock, .text (" level=" ++ r.level.name ++ " msg=" ++ logValue r.message ++ values)]
  start ++ (if r.timed then [.text " elapsed=", .elapsed] else []) ++ [.text "\n"]

def writeLog (least : Log.Level) (log : List Log.Record) : Run Unit :=
  let lines := (log.filter fun r => least ≤ r.level).flatMap logLine
  modify fun s => { s with stderr := s.stderr ++ lines }

/-! ### Files -/

def readFile (path : Text) : Run Text := do settle ((← get).files.read path)

/-- The text of a file, or what is left to read from the input for the name `-`. -/
def readSource (path : Text) : Run Text := do
  if path == ("-" : Text) then
    let s ← get
    set { s with stdin := [] }
    return s.stdin
  else readFile path

def changeFiles (f : Files → Except Fault Files) : Run Unit := do
  let s ← get
  let files ← settle (f s.files)
  set { s with files }

/-- Writes a file and notes it. -/
def save (site : String) (path text : Text) : Run Unit := do
  changeFiles fun fs => fs.write path text
  note site (path ++ ": wrote " ++ Text.decimal text.width ++ " bytes")

/-! ### Settings, tools and the store -/

def settings (flags : Flags) : Run Config := do
  let s ← get
  settle ((Config.load s.files s.environment (flags.text "config")).mapError (·.fault))

def styleOf (c : Config) : Python.Style := ⟨c.generator.indent, c.generator.constructor⟩

def toolOf (p : Config.Program) : Run Tool := do
  match ← settle (Anadil.Command.ofText p.command) with
  | name :: args =>
    let programs := (← get).programs
    return ⟨name, fun more input => programs name (args ++ more) input⟩
  | [] => return ⟨[], fun _ _ => .notFound⟩

def noDatabase (path : Text) : Fault := .plain (Fault.guarded path ++ ": no such database")

/-- The store with a key. What lies there decides whether it can be used. -/
def Session.storeAt (s : Session) (key : Text) : Store :=
  match s.databases.find? fun (k, _) => k == key with
  | some (_, store) => store
  | none =>
    let condition : Store.Condition :=
      match s.files.entry key with
      | .ok .directory => .unopened
      | .ok (.file t) => if t.isEmpty then .blank else .foreign
      | .error _ => if (s.files.target key).isOk then .blank else .unopened
    { Store.empty with condition }

/-- The key of the store at a path. A path that leads to no file is one of this run alone. -/
def Session.storeKey (s : Session) (path : Text) : Text :=
  let place := Store.location path
  if place.isEmpty then [] else s.files.key place

/-- Makes a database, and notes it. -/
def createDatabase (site : String) (path : Text) : Run Unit := do
  let s ← get
  if (s.files.entry? path).isSome then
    throw (.fault (.hinted "remove it first to start over"
      (.plain (Fault.guarded path ++ ": database exists"))))
  let key := s.storeKey path
  if !key.isEmpty then
    let store := s.storeAt key
    if let some f := store.refusal ⟨s.now, false⟩ then throw (.fault (f.behind "apply schema"))
    if store.condition = .blank then
      set { s with files := s.files.put key [], databases := (key, Store.empty) :: s.databases }
  note site (path ++ ": created database")

/-- The key of the store at a path. The empty path stands for a store of this run alone. -/
def locate (path : Text) : Run Text := do
  let s ← get
  if !path.isEmpty && (s.files.entry? path).isNone then
    throw (.fault (.hinted "run `turkpy db init` to create it" (noDatabase path)))
  let key := s.storeKey path
  if key.isEmpty then
    let fresh := { Store.empty with condition := if path.isEmpty then .ready else .blank }
    set { s with databases := ([], fresh) :: s.databases.filter fun (k, _) => !k.isEmpty }
  return key

/-- The key of the store under some settings; a database that is missing is made. -/
def openDatabase (c : Config) : Run Text := do
  let path := c.database.path
  if let .error flaw := (← get).files.entry path then
    if flaw.isMissing then createDatabase "pipeline.go:37" path
  locate path

def onStore {α : Type} (least : Log.Level) (key : Text) (work : Pipeline.Work α) : Run α := do
  let s ← get
  let (outcome, state) :=
    match work ⟨s.now, none, s.storeAt key, s.files, []⟩ with
    | .ok a state => ((.ok a : Except Fault α), state)
    | .error f state => (.error f, state)
  let databases := s.databases.map fun (k, old) => (k, if k == key then state.store else old)
  set { s with files := state.files, databases }
  writeLog least state.log
  settle outcome

/-! ### Programs -/

/-- A program: its commands, and how it ends badly. -/
structure Program where
  root : Command (Flags → Run Unit)
  /-- What is done before an action. -/
  before : Flags → Run Unit := fun _ => pure ()
  /-- The name in front of a fault, if the program shows its faults itself. -/
  label : Option Text := none
  /-- The status after a fault. -/
  failure : Nat := 1
  /-- Whether remarks for the makers of completions are among its messages. -/
  remarks : Bool := true

namespace Program

def complaint (p : Program) (message shown : Text) : Text :=
  match p.label with
  | some l => l ++ ": " ++ message ++ "\n"
  | none => shown

/-- Carries out a command line and gives the status. -/
def run (p : Program) (args : List Text) : StateM Session Nat := fun s =>
  let finish (showsFault : Bool) : EStateM.Result Stop Session Unit → Nat × Session
    | .ok () s => (0, s)
    | .error .reported s => (1, s)
    | .error (.fault f) s =>
      let shown := if showsFault then faultLine f.message else []
      (p.failure, { s with stderr := s.stderr ++ [.text (p.complaint f.inline shown)] })
  match dispatch p.root args with
  | .run action flags showsFault => finish showsFault ((p.before flags *> action flags) s)
  | .help t => finish true (say t s)
  | .topic flags found =>
    let answer : Run Unit :=
      match found with
      | .ok t => say t
      | .error t => tell t
    finish true ((p.before flags *> answer) s)
  | .choices found described =>
    let answer : Run Unit := do
      if p.remarks then found.remark.forM fun r => tell ("[Debug] [Error] " ++ r ++ "\n")
      say (found.lines described)
      tell found.conclusion
    finish true (answer s)
  | .refusal message shown =>
    (p.failure, { s with stderr := s.stderr ++ [.text (p.complaint message shown)] })

end Program

end Anadil.Cli
