import Anadil.Json.Printer
import Anadil.Json.Reader
import Anadil.Number.Integer
import Anadil.Store.Basic

/-! # Snapshots of the store

A store is kept in a file as a JSON document: for each table the last number that was given and the
rows, and each row as the list of its fields. `Store.snapshot` writes it and `Store.ofSnapshot?` reads
it. -/

namespace Anadil.Store

/-! ### Fields -/

/-- A text; one that is not made of characters alone is written as its bytes. -/
def ofText (t : Text) : Json :=
  if t.isClean then .string t else .array (t.bytes.map fun b => .number (Text.decimal b.toNat))

def ofInt (n : Int) : Json := .number (Text.integer n)

/-- A field that may be missing. -/
def ofOption {α : Type} (f : α → Json) (a : Option α) : Json := (a.map f).getD .null

def toInt? : Json → Option Int
  | .number t => (Number.integer t).toOption
  | _ => none

def toText? : Json → Option Text
  | .string t => some t
  | .array items => do
    let bytes ← items.mapM toInt?
    return Text.ofBytes (bytes.map fun n => UInt8.ofNat n.toNat)
  | _ => none

/-- What is in a field that may be missing. -/
def toOption? {α : Type} (f : Json → Option α) : Json → Option (Option α)
  | .null => some none
  | v => (f v).map some

/-! ### Rows -/

namespace Batch

def toFields (b : Batch) : List Json :=
  [ofInt b.id, ofText b.label, ofText b.createdBy, ofInt b.createdAt]

def ofFields? : List Json → Option Batch
  | [id, label, createdBy, createdAt] => do
    return ⟨← toInt? id, ← toText? label, ← toText? createdBy, ← toInt? createdAt⟩
  | _ => none

end Batch

namespace Sample

def toFields (s : Sample) : List Json :=
  [ofInt s.id, ofOption ofInt s.batch, ofText s.name, ofText s.sha256, ofText s.request,
    ofText s.source, ofText s.expected, ofText s.path, ofInt s.createdAt]

def ofFields? : List Json → Option Sample
  | [id, batch, name, sha256, request, source, expected, path, createdAt] => do
    return ⟨← toInt? id, ← toOption? toInt? batch, ← toText? name, ← toText? sha256,
      ← toText? request, ← toText? source, ← toText? expected, ← toText? path, ← toInt? createdAt⟩
  | _ => none

end Sample

namespace Artifact

def toFields (a : Artifact) : List Json :=
  [ofInt a.id, ofInt a.sample, ofText a.python, ofText a.version, ofText a.verdict.name,
    ofOption ofText a.actual, ofInt a.createdAt, ofOption ofInt a.verifiedAt]

def ofFields? : List Json → Option Artifact
  | [id, sample, python, version, verdict, actual, createdAt, verifiedAt] => do
    return ⟨← toInt? id, ← toInt? sample, ← toText? python, ← toText? version,
      ← (toText? verdict).bind Verdict.ofName?, ← toOption? toText? actual, ← toInt? createdAt,
      ← toOption? toInt? verifiedAt⟩
  | _ => none

end Artifact

namespace Job

def toFields (j : Job) : List Json :=
  [ofInt j.id, ofInt j.sample, ofText j.stage.name, ofText j.status.name, ofInt j.attempt,
    ofInt j.availableAt, ofOption ofText j.lockedBy, ofOption ofInt j.lockedAt,
    ofOption ofInt j.startedAt, ofOption ofInt j.finishedAt, ofOption ofText j.code,
    ofOption ofText j.message]

def ofFields? : List Json → Option Job
  | [id, sample, stage, status, attempt, availableAt, lockedBy, lockedAt, startedAt, finishedAt, code,
      message] => do
    return ⟨← toInt? id, ← toInt? sample, ← (toText? stage).bind Stage.ofName?,
      ← (toText? status).bind Status.ofName?, ← toInt? attempt, ← toInt? availableAt,
      ← toOption? toText? lockedBy, ← toOption? toInt? lockedAt, ← toOption? toInt? startedAt,
      ← toOption? toInt? finishedAt, ← toOption? toText? code, ← toOption? toText? message⟩
  | _ => none

end Job

/-! ### Stores -/

/-- A table: the last number that was given, and the rows. -/
def Table.toJson {α : Type} (f : α → List Json) (t : Table α) : Json :=
  .array [ofInt t.last, .array (t.rows.map fun r => .array (f r))]

def Table.ofJson? {α : Type} (f : List Json → Option α) : Json → Option (Table α)
  | .array [last, .array rows] => do
    let rows ← rows.mapM fun
      | .array fields => f fields
      | _ => none
    return ⟨rows, ← toInt? last⟩
  | _ => none

def snapshot (s : Store) : Text :=
  Json.document .compact <| .array
    [s.batches.toJson Batch.toFields, s.samples.toJson Sample.toFields,
      s.artifacts.toJson Artifact.toFields, s.jobs.toJson Job.toFields]

def ofSnapshot? (t : Text) : Option Store :=
  match Json.readWhole t with
  | .ok (.array [batches, samples, artifacts, jobs]) => do
    return ⟨← Table.ofJson? Batch.ofFields? batches, ← Table.ofJson? Sample.ofFields? samples,
      ← Table.ofJson? Artifact.ofFields? artifacts, ← Table.ofJson? Job.ofFields? jobs, .ready⟩
  | _ => none

end Anadil.Store
