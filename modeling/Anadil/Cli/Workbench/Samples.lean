import Anadil.Cli.Workbench.Source
import Anadil.Pipeline.Export
import Anadil.Pipeline.Ingest
import Anadil.Pipeline.Worker
import Anadil.Store.Seed

/-! # Commands on samples -/

namespace Anadil.Cli.Workbench

/-- Prints that something is done. -/
def announce (t : Text) : Run Unit := say (Markup.labelled " SUCCESS  " t)

def dataFlag : Flag := ⟨"data", none, .text "data", "directory that holds ingested sources"⟩

/-! ### Taking in -/

/-- The source at a path with what it is expected to print, which stands in a file beside it. -/
def submission (request path : Text) : Run Pipeline.Submission := do
  let source ← readFile path
  let expected := ((← get).files.read (Path.withoutExt path ++ ".out")).toOption.getD []
  return ⟨Path.base path, request, source, expected⟩

/-- Takes sources and seeds into a new batch. -/
def ingestAll (flags : Flags) : Run Unit := do
  let seeds := flags.text "json"
  if flags.args.isEmpty && seeds.isEmpty then stop "nothing to ingest: give files or --json"
  let c ← settings flags
  let archive ← openDatabase c
  let on {α : Type} (work : Pipeline.Work α) : Run α := onStore (leastLevel flags) archive work
  let label := flags.text "label"
  let batch ← on <| Pipeline.update fun store ctx =>
    store.insertBatch ctx (if label.isEmpty then Time.text ctx.now 0 else label)
      (flags.text "created-by") ctx.now
  let takeIn (n : Nat) (path : Text) : Run Nat := do
    let s ← submission (flags.text "request") path
    let receipt ← on (Pipeline.ingest (flags.text "data") batch s)
    if receipt.duplicate then
      note "pipeline.go:106" (path ++ ": duplicate of sample " ++ Text.integer receipt.sample)
      return n + 1
    else return n
  let duplicates ← flags.args.foldlM takeIn 0
  let queued := flags.args.length - duplicates
  let seeded ←
    if seeds.isEmpty then pure 0
    else do
      let fs := (← get).files
      let ids ← on (Pipeline.update fun store ctx => store.loadSeedFile ctx fs seeds (some batch))
      let receipts ← on (Pipeline.queueExisting ids)
      match receipts.fault with
      | some f => throw (.fault f)
      | none => pure receipts.done.length
  announce
    ("batch " ++ Text.integer batch ++ ": queued " ++ Text.decimal (queued + seeded) ++
      " samples, skipped " ++ Text.decimal duplicates ++ " duplicates")

/-! ### Working -/

/-- A table whose columns are as wide as their widest cell, with an empty line behind it. -/
def table (rows : List (List Text)) : Text :=
  let columns := (rows.map List.length).foldl max 0
  let widths := (List.range columns).map fun i =>
    (rows.map fun r => (r.getD i []).length).foldl max 0
  let row (r : List Text) : Text :=
    Text.join " | " ((widths.zip r).map fun (n, t) => t.padRight n) ++ "\n"
  (rows.map row).flatten ++ "\n"

/-- Prints how many jobs there are of each stage and status. -/
def showSummary (archive : Text) : Run Unit := do
  let summary ← onStore Log.Level.error archive (Pipeline.ask fun store ctx => store.summary ctx)
  let names := summary.foldl (fun ns (stage, _) => Text.insert stage.name ns) []
  let count (name : Text) (status : Store.Status) : Nat :=
    ((summary.find? fun (stage, _) => (stage.name : Text) == name).bind fun (_, counts) =>
      counts.lookup status).getD 0
  let header : List Text := "stage" :: Store.Status.all.map fun s => (s.name : Text)
  say (table (header :: names.map fun n =>
    n :: Store.Status.all.map fun status => Text.decimal (count n status)))

def workerOf (flags : Flags) (c : Config) : Run Pipeline.Worker := do
  let python ← if flags.switch "run" then some <$> toolOf c.python else pure none
  let compiler ← if flags.switch "parity" then some <$> toolOf c.compiler else pure none
  return ⟨flags.text "data", [], styleOf c, python, compiler, true⟩

def workStage (flags : Flags) (archive : Text) (w : Pipeline.Worker) (stage : Text) :
    Run Unit := do
  if flags.switch "retry-failed" then
    let n ← onStore Log.Level.error archive
      (Pipeline.update fun store ctx => store.resetFailed ctx stage)
    if n ≠ 0 then note "pipeline.go:199" (stage ++ ": queued " ++ Text.decimal n ++ " failed jobs again")
  let (tally, fault) ← onStore (leastLevel flags) archive (w.drain stage (flags.number "limit"))
  print [
    .text (Markup.plain ("stage " ++ stage.padRight 10 ++ " " ++ Text.decimal tally.processed ++
      " jobs, " ++ Text.decimal tally.failed ++ " failed, ")),
    .elapsed, .text "\n"]
  match fault with
  | some f => throw (.fault f)
  | none => pure ()

def showFailed (archive : Text) (stage : Text) : Run Unit := do
  let jobs ← onStore Log.Level.error archive
    (Pipeline.ask fun store ctx => store.failedJobs ctx stage)
  jobs.forM fun j => display
    (j.stage.name ++ " sample " ++ Text.integer j.sample ++ " " ++ j.code.getD [] ++ ": " ++
      j.message.getD [] ++ "\n")

/-- Does the jobs of the stages in turn. -/
def work (flags : Flags) : Run Unit := do
  let c ← settings flags
  let archive ← openDatabase c
  let w ← workerOf flags c
  let stages := flags.texts "stage"
  stages.forM (workStage flags archive w)
  showSummary archive
  if flags.switch "show-failed" then stages.forM (showFailed archive)

/-! ### Giving out -/

def exportSamples (flags : Flags) : Run Unit := do
  let c ← settings flags
  let archive ← openDatabase c
  let batch := (flags.given? "batch").map fun _ => flags.number "batch"
  let filter : Store.Filter := ⟨batch, flags.switch "verified-only"⟩
  let output := flags.text "output"
  let output := if output.isEmpty then c.dataset.output else output
  if output == ("-" : Text) then
    say (Corpus.write
      (← onStore Log.Level.error archive (Pipeline.records c.dataset.instruction filter)))
  else
    let n ← onStore Log.Level.error archive
      (Pipeline.exportFile output c.dataset.instruction filter)
    announce (output ++ ": wrote " ++ Text.decimal n ++ " records")

/-! ### The database -/

def initDatabase (flags : Flags) : Run Unit := do
  createDatabase "pipeline.go:336" (← settings flags).database.path

/-- Makes the database as small as it can be, which changes nothing that it says. -/
def compactDatabase (flags : Flags) : Run Unit := do
  let path := (← settings flags).database.path
  let s ← get
  if (s.files.entry? path).isNone then throw (.fault (noDatabase path))
  if let some f := (s.storeAt (s.storeKey path)).refusal ⟨s.now, false⟩ then
    throw (.fault (f.behind "PRAGMA wal_checkpoint(TRUNCATE)"))

/-- Prints how much the database holds. -/
def showStats (flags : Flags) : Run Unit := do
  let archive ← locate (← settings flags).database.path
  let stats ← onStore Log.Level.error archive (Pipeline.ask fun store ctx => store.stats ctx)
  let counts : List (String × String × Nat) :=
    [("pipeline.go:373", "batches", stats.batches), ("pipeline.go:374", "samples", stats.samples),
      ("pipeline.go:375", "translations", stats.artifacts),
      ("pipeline.go:376", "verified", stats.verified)]
  counts.forM fun (site, name, n) =>
    note site ("  " ++ Text.padRight 14 name ++ " " ++ Text.decimal n)
  showSummary archive

/-! ### The commands -/

/-- The commands on samples, for a user with a name. -/
def sampleCommands (user : Text) : List (Command (Flags → Run Unit)) := [
  .mk
    { use := "ingest [file.tr]..."
      short := "add samples to the database and queue them for transpiling"
      long :=
        "Add samples to the database and queue them for transpiling.\n" ++
          "A file \"name.out\" next to \"name.tr\" is recorded as the expected output."
      flags := [
        ⟨"created-by", none, .text user, "name recorded on the batch"⟩,
        dataFlag,
        .text "json" "load samples from a JSON seed file",
        .text "label" "batch label (default: the current time)",
        .text "request" "request text recorded on every file"]
      deed := .run ingestAll }
    [],
  .mk
    { use := "work"
      short := "process queued pipeline jobs"
      flags := [
        dataFlag,
        .switch "parity" "compare trees with the native compiler",
        .number "limit" 0 "stop each stage after this many jobs (0 for no limit)",
        .switch "retry-failed" "queue failed jobs again before starting",
        ⟨"run", none, .switch true, "run generated code to verify it"⟩,
        .switch "show-failed" "list failed jobs after the run",
        ⟨"stage", none, .texts (Store.Stage.all.map fun s => (s.name : Text)),
          "stages to run, in order"⟩]
      args := .none
      deed := .run work }
    [],
  .mk
    { use := "export"
      short := "write the samples as a JSONL training corpus"
      flags := [
        .number "batch" 0 "export only this batch",
        outputFlag "output file, \"-\" for stdout (default: dataset.output)",
        .switch "verified-only" "export only samples whose translation was verified"]
      args := .none
      deed := .run exportSamples }
    [],
  .mk { use := "db", short := "manage the pipeline database", showsUsage := true, deed := .nothing }
    [ .mk { use := "init", short := "create the database file", args := .none,
            deed := .run initDatabase } [],
      .mk { use := "compact", short := "checkpoint and vacuum the database file", args := .none,
            deed := .run compactDatabase } [],
      .mk { use := "stats", short := "show row counts and job totals", args := .none,
            deed := .run showStats } []]]

end Anadil.Cli.Workbench
