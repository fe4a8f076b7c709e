import Anadil.Config.Basic
import Anadil.Files
import Anadil.Text.Case
import Anadil.Toml.Reader

/-! # Loading settings

A setting comes from the environment, else from the settings file, else it has its usual value. The names
in a file may be in any case, and values are converted where that makes sense. -/

namespace Anadil.Config

def fileName : Text := "turkpy.toml"

/-! ### Finding the file -/

/-- Looks for the settings file in a directory and those around it, fewer than `fuel` of them. -/
def findWithin (fs : Files) : Nat → Text → Option Text
  | 0, _ => none
  | fuel + 1, dir =>
    let path := Path.join [dir, fileName]
    match fs.entry? path with
    | some (.file _) => some path
    | _ => if Path.dir dir = dir then none else findWithin fs fuel (Path.dir dir)

/-- The nearest settings file in a directory or around it. Each step but the first two makes the path
shorter, so its length bounds the search. -/
def find? (fs : Files) (dir : Text) : Option Text := findWithin fs (dir.length + 3) dir

/-! ### The environment -/

/-- Variables and their values. -/
abbrev Environment := List (Text × Text)

def variableName (path : List String) : Text :=
  Text.join "_" ("TURKPY" :: path.map fun p => Text.ofString p.toUpper)

/-- The value of a setting's variable. An empty one does not count. -/
def Environment.get? (env : Environment) (path : List String) : Option Text :=
  (List.find? (fun (n, v) => n == variableName path && !v.isEmpty) env).map (·.2)

/-! ### The file -/

/-- What a file has under a name in any case. A name that is not in small letters comes first. -/
def lookup? (entries : List (Text × Toml)) (name : String) : Option Toml :=
  let found := entries.filter fun (n, _) => Text.lower n == (name : Text)
  (((found.filter fun (n, _) => n != (name : Text)).getLast?).or found.getLast?).map (·.2)

/-- What a file says of a part of the settings. -/
inductive Section where
  | table (entries : List (Text × Toml))
  /-- Something that is no table. -/
  | other (value : Toml)

/-- What a file says of a part of the settings. -/
def sectionOf (entries : List (Text × Toml)) (name : String) : Section :=
  match lookup? entries name with
  | some (.table es) => .table es
  | some v => .other v
  | none => .table []

/-! ### Conversion -/

def toInteger : Toml → Option Int
  | .integer n => some n
  | .float d => some d.toInt64
  | .boolean b => some (if b then 1 else 0)
  | .string t => if t.isEmpty then some 0 else (Number.integer t).toOption
  | _ => none

def toText : Toml → Option Text
  | .string t => some t
  | .integer n => some (Text.integer n)
  | .float d => some d.text
  | .boolean b => some (if b then "1" else "0")
  | _ => none

/-- A value as texts. A text is divided at its commas. -/
def toTexts : Toml → Option (List Text)
  | .array items => items.mapM toText
  | .string t => some (if t.isEmpty then [] else t.splitAt ',')
  | .table [] => some []
  | v => (toText v).map fun t => [t]

/-! ### Settings -/

/-- Where settings come from. -/
structure Source where
  environment : Environment
  file : List (Text × Toml)

/-- The value of a setting. A variable for its whole part takes the place of the file and of the usual
value without giving one: the setting is then empty. A name with a point in it, given in quotes, comes
before a table. -/
def Source.value {α : Type} (s : Source) (part name : String) (entries : List (Text × Toml))
    (convert : Toml → Option α) (empty usual : α) : Option α :=
  match s.environment.get? [part, name] with
  | some t => convert (.string t)
  | none =>
    if (s.environment.get? [part]).isSome then some empty
    else
      match (lookup? s.file (part ++ "." ++ name)).or (lookup? entries name) with
      | some v => convert v
      | none => some usual

/-- A part of the settings. A date in its place leaves all of it empty, and any other value that is no
table does not fit. -/
def Source.part {α : Type} (s : Source) (name : String) (empty : α)
    (read : List (Text × Toml) → Option α) : Option α :=
  match sectionOf s.file name with
  | .table entries => read entries
  | .other .moment => if (s.environment.get? [name]).isSome then none else some empty
  | .other _ => none

def Source.program (s : Source) (name : String) (usual : Program) : Option Program :=
  s.part name ⟨[], 0⟩ fun es => do
    let command ← s.value name "command" es toText [] usual.command
    let timeout ← s.value name "timeout_seconds" es toInteger 0 usual.timeoutSeconds
    return ⟨command, timeout⟩

def Source.config (s : Source) : Option Config := do
  let compiler ← s.program "compiler" default.compiler
  let python ← s.program "python" default.python
  let generator ← s.part "generator" (⟨0, []⟩ : Generator) fun es => do
    let indent ← s.value "generator" "indent" es toInteger 0 default.generator.indent
    let constructor ← s.value "generator" "constructor" es toText [] default.generator.constructor
    return ⟨indent, constructor⟩
  let database ← s.part "database" (⟨[]⟩ : Database) fun es => do
    let path ← s.value "database" "path" es toText [] default.database.path
    return ⟨path⟩
  let dataset ← s.part "dataset" (⟨[], []⟩ : Dataset) fun es => do
    let instruction ← s.value "dataset" "instruction" es toText [] default.dataset.instruction
    let output ← s.value "dataset" "output" es toText [] default.dataset.output
    return ⟨instruction, output⟩
  let watch ← s.part "watch" (⟨0, []⟩ : Watch) fun es => do
    let debounce ← s.value "watch" "debounce_ms" es toInteger 0 default.watch.debounceMs
    let extensions ← s.value "watch" "extensions" es toTexts [] default.watch.extensions
    return ⟨debounce, extensions⟩
  return ⟨compiler, python, generator, database, dataset, watch⟩

/-! ### Loading -/

/-- Why settings cannot be loaded. -/
inductive LoadFailure where
  /-- The file cannot be read, or is malformed. -/
  | unread (path : Text) (cause : Option Fault)
  /-- A value cannot be converted. -/
  | unfit (path : Text)
  /-- A value is refused. -/
  | invalid (fault : Fault)

def LoadFailure.fault : LoadFailure → Fault
  | unread path cause =>
    .behind ("failed to read config file " ++ path)
      (cause.getD (.outside "While parsing config: toml: malformed file"))
  | unfit path =>
    .behind ("failed to unmarshal config from " ++ path)
      (.outside "decoding failed due to the following error(s)")
  | invalid f => f

/-- Loads the settings file at a path; without a path, the nearest one if there is one. -/
def load (fs : Files) (env : Environment) (path : Text) : Except LoadFailure Config := do
  let path := if path.isEmpty then (find? fs fs.workDir).getD [] else path
  let file ←
    if path.isEmpty then .ok []
    else
      match fs.read path with
      | .error f => .error (.unread path (some f))
      | .ok t =>
        match Toml.read t with
        | none => .error (.unread path none)
        | some entries => .ok entries
  match (⟨env, file⟩ : Source).config with
  | none => .error (.unfit path)
  | some c =>
    c.validate.mapError .invalid
    return c

end Anadil.Config
