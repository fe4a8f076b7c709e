import Anadil.Compile
import Anadil.Pipeline.Basic
import Anadil.Tool.Run

/-! # Workers

A worker claims a job, does what its stage asks and finishes the job, well or badly. -/

namespace Anadil.Pipeline

/-! ### What programs print

Two outputs count as the same if they differ only in how lines end, in blanks at the ends of lines, and
in empty lines at the end. -/

def unixLines : Text → Text
  | [] => []
  | [g] => [g]
  | g :: h :: rest =>
    if g.is '\r' && h.is '\n' then h :: unixLines rest else g :: unixLines (h :: rest)

def isLineBlank (g : Glyph) : Bool := g.is ' ' || g.is '\t' || g.is '\r'

def normalizeOutput (t : Text) : Text :=
  Text.trimEnd (·.is '\n')
    (Text.join "\n" (((unixLines t).splitAt '\n').map (Text.trimEnd isLineBlank)))

/-! ### Stages -/

/-- Who does the jobs, and with what. -/
structure Worker where
  dataDir : Text
  id : Text
  style : Python.Style
  /-- The interpreter that runs Python. -/
  python : Option Tool
  /-- The compiler whose trees ours are compared with. -/
  compiler : Option Tool
  /-- Whether runs of tools are logged. -/
  traced : Bool

def runTool (traced : Bool) (t : Tool) (args : List Text) (input : Text) : Work Tool.Report := do
  let report := t.run (← get).canceled args input
  modify State.spend
  if traced then note (report.record t.command args)
  return report

def need (r : Tool.Report) : Work Tool.Result :=
  match r.fault, r.result with
  | some f, _ => throw f
  | none, some res => return res
  | none, none => return ⟨[], [], 0⟩

namespace Worker

/-! ### Stages -/

def pythonPath (w : Worker) (s : Store.Sample) : Text :=
  if s.path.isEmpty then Path.join [w.dataDir, "translations", Text.integer s.id ++ ".py"]
  else Path.withoutExt (Path.join [w.dataDir, s.path]) ++ ".py"

/-- Compiles a sample, stores the Python, and queues what checks it. -/
def transpile (w : Worker) (s : Store.Sample) : Work Unit := do
  let python ← outcome (compile w.style s.source)
  writeBelow (w.pythonPath s) python
  let _ ← explain (fun f => .database "insert translation" (some f)) <|
    update fun store ctx => do
      let (id, _, store) ←
        store.insertArtifact ctx s.id python version.core Store.Verdict.transpiled.name Time.zero
      return (id, store)
  let _ ← queueStage s.id .verify
  if w.compiler.isSome && !s.path.isEmpty then
    let _ ← queueStage s.id .parity

/-- What is to be said of an output, and the fault if it is not what is expected. -/
def judge (s : Store.Sample) (actual : Text) : Store.Verdict × Option Fault :=
  let expected := normalizeOutput s.expected
  if !s.hasExpected then (.unchecked, none)
  else if actual = expected then (.verified, none)
  else (.mismatch, some (.outputDiffers s.id expected actual))

/-- Runs the Python of a sample and compares what it prints. -/
def verify (w : Worker) (s : Store.Sample) : Work Unit := do
  let some python := w.python
    | throw (.hinted "set python.command in turkpy.toml" (.plain "verify: no python interpreter"))
  let artifact ← explain (fun f => .database "latest translation" (some f)) do
    let some a ← ask fun store ctx => store.latestArtifact ctx s.id
      | throw (.plain ("sample " ++ Text.integer s.id ++ " has no translation"))
    return a
  let result ← need (← runTool w.traced python ["-"] artifact.python)
  let actual := normalizeOutput result.stdout
  let (verdict, fault) := judge s actual
  explain (fun f => .database "update translation" (some f)) <|
    update fun store ctx => do
      return ((), ← store.updateArtifact ctx artifact.id verdict.name (some actual))
  note (Log.debug "verify" [("sample", Text.integer s.id), ("status", verdict.name)]).withTime
  match fault with
  | some f => throw f
  | none => return ()

/-- Compares the compiler's tree of a sample with ours. -/
def parity (w : Worker) (s : Store.Sample) : Work Unit := do
  let some compiler := w.compiler
    | throw (.hinted "set compiler.command in turkpy.toml" (.plain "parity: no compiler"))
  if s.path.isEmpty then throw (.file "find" s.name (some (.plain "sample has no file")))
  let own ← outcome (renderSource ⟨[], true⟩ (withoutMark s.source))
  let path := Path.join [w.dataDir, s.path]
  let report ← runTool w.traced compiler (Tool.dumpArguments path) []
  match ← outcome ((report.asDocument compiler.command).compared own) with
  | some m => throw (.treeDiffers s.id m)
  | none => return ()

def execute (w : Worker) (stage : Store.Stage) (s : Store.Sample) : Work Unit :=
  match stage with
  | .transpile => w.transpile s
  | .verify => w.verify s
  | .parity => w.parity s

/-! ### Jobs -/

def fail (job : Store.Job) (code : Fault.Code) (message : Text) : Work Unit := do
  let _ ← attempt <| update fun store ctx => do
    return ((), ← store.finishJob ctx job.id Store.Status.failed.name code.name message)

def succeed (job : Store.Job) : Work Unit :=
  explain (Fault.behind "finish job") <| update fun store ctx => do
    return ((), ← store.finishJob ctx job.id Store.Status.ok.name [] [])

/-- What became of an attempt to do a job. -/
inductive Progress where
  /-- There was none to do, or none could be claimed. -/
  | idle (fault : Option Fault)
  /-- One was claimed. -/
  | worked (fault : Option Fault)

def Progress.claimed : Progress → Bool
  | idle _ => false
  | worked _ => true

/-- What went wrong. -/
def Progress.fault : Progress → Option Fault
  | idle f => f
  | worked f => f

def perform (w : Worker) (job : Store.Job) (s : Store.Sample) : Work (Option Fault) := do
  let about : List (Text × Text) :=
    [("job", Text.integer job.id), ("stage", job.stage.name), ("sample", s.name)]
  match ← attempt (w.execute job.stage s) with
  | .error f =>
    note (Log.info "job failed" (about ++ [(("error" : Text), f.inline)]))
    fail job f.code f.message
    return some f
  | .ok () =>
    match ← attempt (succeed job) with
    | .error f => return some f
    | .ok () =>
      note (Log.debug "job done" about)
      return none

/-- Claims a job of a stage for a worker. A job that cannot be read is claimed all the same. -/
def claim (stage worker : Text) : Work (Option Store.Job) := do
  match ← update fun store ctx => store.claimJob ctx stage worker with
  | none => return none
  | some row => some <$> outcome (row.read.mapError (Fault.behind "claim work"))

def process (w : Worker) (stage : Text) : Work Progress := do
  match ← attempt (claim stage w.id) with
  | .error f => return .idle (some (f.behind "claim job"))
  | .ok none => return .idle none
  | .ok (some job) =>
    match ← attempt (ask fun store ctx => store.getSample ctx job.sample) with
    | .error f =>
      fail job .database ("get sample: " ++ f.inline)
      return .worked (some (f.behind "get sample"))
    | .ok none =>
      fail job .database "sample not found"
      return .worked (some (.plain ("sample " ++ Text.integer job.sample ++ " not found")))
    | .ok (some sample) => return .worked (← w.perform job sample)

/-- How many jobs were done, and how many of them badly. -/
structure Tally where
  processed : Nat
  failed : Nat
deriving DecidableEq, Repr

def Tally.add (t : Tally) (failed : Bool) : Tally :=
  ⟨t.processed + 1, if failed then t.failed + 1 else t.failed⟩

/-- Does jobs of a stage until there is none, the limit is reached or the work is called off; at most
`fuel` of them. -/
def drainWithin (w : Worker) (stage : Text) (limit : Int) :
    Nat → Tally → Work (Tally × Option Fault)
  | 0, t => return (t, none)
  | fuel + 1, t => do
    if 0 < limit ∧ limit ≤ t.processed then return (t, none)
    if (← get).canceled then return (t, some .canceled)
    match ← w.process stage with
    | .idle f => return (t, f)
    | .worked f => w.drainWithin stage limit fuel (t.add f.isSome)

/-- Does jobs of a stage until there is none, the limit is reached or the work is called off. A limit
that is not positive is none. No job makes another of its own stage, so the jobs that are stored now
bound the number of rounds. -/
def drain (w : Worker) (stage : Text) (limit : Int) : Work (Tally × Option Fault) := do
  w.drainWithin stage limit ((← get).store.jobs.rows.length + 1) ⟨0, 0⟩

end Worker

end Anadil.Pipeline
