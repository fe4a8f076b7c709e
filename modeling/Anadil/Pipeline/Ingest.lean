import Anadil.Pipeline.Basic
import Anadil.Store.Seed

/-! # Taking samples in

A source is stored as a file below the data directory and as a sample, and its compilation is queued.
A source that is there already is left alone. -/

namespace Anadil.Pipeline

def sourceExt : Text := ".tr"

/-- The name under which a source is stored: the stem of its file name, the start of its digest and the
extension. -/
def standardFilename (filename digest : Text) : Text :=
  let stem := Path.withoutExt (Path.base filename)
  let stem : Text :=
    if stem.isEmpty || stem == Path.here || stem == ("/" : Text) then "sample" else stem
  stem ++ "." ++ digest.takeBytes 8 ++ sourceExt

/-- A source to take in. -/
structure Submission where
  filename : Text
  /-- What the program was written to do. -/
  request : Text
  source : Text
  /-- What it printed when a person ran it. -/
  expected : Text
deriving DecidableEq, Repr

/-- What became of a source. -/
structure Receipt where
  sample : Int
  /-- The number of its job; zero if it was there already. -/
  job : Int
  duplicate : Bool
deriving DecidableEq, Repr

/-- Where a source of a batch is stored, seen from the data directory. -/
def samplePath (batch : Int) (name : Text) : Text :=
  Path.join ["batches", Text.integer batch, name]

def ingest (dataDir : Text) (batch : Int) (s : Submission) : Work Receipt := do
  if Text.isBlank s.source then
    throw (.plain ("ingest " ++ Fault.guarded s.filename ++ ": empty source"))
  let digest := Store.digest s.source
  let known ← explain (fun f => .database "check duplicate" (some f))
    (ask fun store ctx => store.getSampleByDigest ctx digest)
  match known with
  | some sample => return ⟨sample.id, 0, true⟩
  | none =>
    let name := standardFilename s.filename digest
    let path := samplePath batch name
    writeBelow (Path.join [dataDir, path]) s.source
    let sample ← explain (fun f => .database "insert sample" (some f)) <|
      update fun store ctx =>
        store.insertSample ctx
          ⟨0, some batch, name, digest, s.request, s.source, s.expected, path, ctx.now⟩
    let job ← queueStage sample .transpile
    return ⟨sample, job, false⟩

/-- What became of several sources: those before the first fault, and the fault. -/
structure Receipts where
  done : List Receipt
  fault : Option Fault

/-- Does something for each of several things until it fails. -/
def untilFault {α : Type} (f : α → Work Receipt) : List α → Work Receipts
  | [] => return ⟨[], none⟩
  | a :: as => do
    match ← attempt (f a) with
    | .error e => return ⟨[], some e⟩
    | .ok r =>
      let rest ← untilFault f as
      return ⟨r :: rest.done, rest.fault⟩

def ingestBatch (dataDir label createdBy : Text) (ss : List Submission) : Work (Int × Receipts) := do
  let batch ← explain (fun f => .database "insert batch" (some f))
    (update fun store ctx => store.insertBatch ctx label createdBy ctx.now)
  let receipts ← untilFault (ingest dataDir batch) ss
  return (batch, receipts)

/-- Queues the compilation of samples that are stored already. -/
def queueExisting (samples : List Int) : Work Receipts :=
  untilFault (fun sample => do return ⟨sample, ← queueStage sample .transpile, false⟩) samples

end Anadil.Pipeline
