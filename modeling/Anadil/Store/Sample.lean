import Anadil.Store.Basic

/-! # Batches, samples and artifacts -/

namespace Anadil.Store

/-! ### Batches -/

def insertBatch (s : Store) (ctx : Context) (label createdBy : Text) (createdAt : Instant) :
    Except Fault (Int × Store) :=
  s.access ctx "batches" "insert batch" <|
    let (id, batches) := s.batches.add fun id => ⟨id, label, createdBy, Time.reread createdAt⟩
    .ok (id, { s with batches })

def getBatch (s : Store) (ctx : Context) (id : Int) : Except Fault (Option Batch) :=
  s.access ctx "batches" "get batch" (.ok (s.batches.rows.find? (·.id == id)))

/-! ### Samples -/

/-- Adds a sample, whose own number does not count, and gives the number it gets. -/
def insertSample (s : Store) (ctx : Context) (sample : Sample) : Except Fault (Int × Store) :=
  s.access ctx "samples" "insert sample" do
    require .digestTaken !(s.hasDigest sample.sha256)
    require .noSuchRow (sample.batch.all s.hasBatch)
    let (id, samples) := s.samples.add fun id =>
      { sample with id, createdAt := Time.reread sample.createdAt }
    return (id, { s with samples })

def getSample (s : Store) (ctx : Context) (id : Int) : Except Fault (Option Sample) :=
  s.access ctx "samples" "get sample by id" (.ok (s.samples.rows.find? (·.id == id)))

def getSampleByDigest (s : Store) (ctx : Context) (sha256 : Text) : Except Fault (Option Sample) :=
  s.access ctx "samples" "get sample by sha256" (.ok (s.samples.rows.find? (·.sha256 == sha256)))

def newestArtifact? (s : Store) (sample : Int) : Option Artifact :=
  (s.artifacts.rows.filter (·.sample == sample)).getLast?

/-- Which samples are wanted. -/
structure Filter where
  batch : Option Int
  /-- Only those whose newest artifact was verified. -/
  verifiedOnly : Bool
deriving DecidableEq, Repr

def Filter.admits (s : Store) (f : Filter) (sample : Sample) : Bool :=
  f.batch.all (fun b => sample.batch == some b) &&
    (!f.verifiedOnly || (s.newestArtifact? sample.id).any (·.verdict == .verified))

def listSamples (s : Store) (ctx : Context) (f : Filter) : Except Fault (List Sample) :=
  s.access ctx "samples" "list samples" (.ok (s.samples.rows.filter (f.admits s)))

/-! ### Artifacts -/

/-- The verdict given by a name; no name is a verdict not yet made. -/
def verdictOf (name : Text) : Option Verdict :=
  if name.isEmpty then some .transpiled else Verdict.ofName? name

/-- Adds an artifact and gives its number and its verdict. -/
def insertArtifact (s : Store) (ctx : Context) (sample : Int) (python version verdict : Text)
    (createdAt : Instant) : Except Fault (Int × Verdict × Store) :=
  s.access ctx "translations" "insert translation" do
    let verdict ← need .verdictName (verdictOf verdict)
    require .noSuchRow (s.hasSample sample)
    let (id, artifacts) := s.artifacts.add fun id =>
      ⟨id, sample, python, version, verdict, none, Time.reread createdAt, none⟩
    return (id, verdict, { s with artifacts })

def latestArtifact (s : Store) (ctx : Context) (sample : Int) : Except Fault (Option Artifact) :=
  s.access ctx "translations" "latest translation" (.ok (s.newestArtifact? sample))

/-- Writes down what running an artifact came to. -/
def updateArtifact (s : Store) (ctx : Context) (id : Int) (verdict : Text) (actual : Option Text) :
    Except Fault Store :=
  if s.artifacts.rows.any (·.id == id) then
    s.access ctx "translations" "update translation" do
      let verdict ← need .verdictName (Verdict.ofName? verdict)
      let rows := s.artifacts.rows.map fun a =>
        if a.id == id then { a with verdict, actual, verifiedAt := some ctx.now } else a
      return { s with artifacts := { s.artifacts with rows } }
  else
    match (s.refusal ctx).or (s.missing "translations") with
    | some f => .error (f.behind "update translation")
    | none => .error (.plain ("update translation: no translation " ++ Text.integer id))

/-! ### Counts -/

/-- How much a store holds. -/
structure Stats where
  batches : Nat
  samples : Nat
  artifacts : Nat
  verified : Nat
deriving DecidableEq, Repr

def stats (s : Store) (ctx : Context) : Except Fault Stats :=
  s.access ctx "batches" "stats" <|
    .ok ⟨s.batches.rows.length, s.samples.rows.length, s.artifacts.rows.length,
      (s.artifacts.rows.filter (·.verdict == .verified)).length⟩

def close (s : Store) : Store := { s with condition := .closed }

end Anadil.Store
