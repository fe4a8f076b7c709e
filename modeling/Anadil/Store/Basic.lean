import Anadil.Fault
import Anadil.Time

/-! # The store

Batches of samples, the Python artifacts made of samples, and the jobs that make and check them. Each
table numbers its rows from one and never gives a number twice. -/

namespace Anadil.Store

/-! ### Rows -/

/-- Samples that were taken in together. -/
structure Batch where
  id : Int
  label : Text
  createdBy : Text
  createdAt : Instant
deriving DecidableEq, Repr

/-- A program of the corpus: what was asked, its source, and what a person saw it print. -/
structure Sample where
  id : Int
  batch : Option Int
  name : Text
  /-- The digest of the source. No two samples have the same. -/
  sha256 : Text
  request : Text
  source : Text
  expected : Text
  /-- Where the source is stored below the data directory; empty if it is not. -/
  path : Text
  createdAt : Instant
deriving DecidableEq, Repr

/-- Whether there is something to compare a sample's output with. -/
def Sample.hasExpected (s : Sample) : Bool := !s.expected.isEmpty

/-- What is known of a sample's Python. -/
inductive Verdict where
  /-- It has not been run. -/
  | transpiled
  /-- It printed what was expected. -/
  | verified
  /-- It printed something else. -/
  | mismatch
  /-- There was nothing to compare with. -/
  | unchecked
deriving DecidableEq, Repr

def Verdict.name : Verdict → String
  | transpiled => "transpiled"
  | verified => "verified"
  | mismatch => "mismatch"
  | unchecked => "unchecked"

def Verdict.ofName? (t : Text) : Option Verdict :=
  [transpiled, verified, mismatch, unchecked].find? fun v => (v.name : Text) == t

/-- The Python made of a sample by one version of the program. -/
structure Artifact where
  id : Int
  sample : Int
  python : Text
  version : Text
  verdict : Verdict
  actual : Option Text
  createdAt : Instant
  verifiedAt : Option Instant
deriving DecidableEq, Repr

/-- What a job does. -/
inductive Stage where
  | transpile
  | verify
  | parity
deriving DecidableEq, Repr

def Stage.name : Stage → String
  | transpile => "transpile"
  | verify => "verify"
  | parity => "parity"

/-- The stages in order. -/
def Stage.all : List Stage := [transpile, verify, parity]

def Stage.ofName? (t : Text) : Option Stage := all.find? fun s => (s.name : Text) == t

/-- How far a job is. -/
inductive Status where
  | queued
  | running
  | ok
  | failed
deriving DecidableEq, Repr

def Status.name : Status → String
  | queued => "queued"
  | running => "running"
  | ok => "ok"
  | failed => "failed"

def Status.all : List Status := [queued, running, ok, failed]

def Status.ofName? (t : Text) : Option Status := all.find? fun s => (s.name : Text) == t

/-- A job on a sample. -/
structure Job where
  id : Int
  sample : Int
  stage : Stage
  status : Status
  /-- How often it was handed out. -/
  attempt : Int
  /-- When it may be handed out. -/
  availableAt : Instant
  lockedBy : Option Text
  lockedAt : Option Instant
  startedAt : Option Instant
  finishedAt : Option Instant
  code : Option Text
  message : Option Text
deriving DecidableEq, Repr

/-! ### Tables -/

/-- Rows in the order of their numbers, and the last number given. -/
structure Table (α : Type) where
  rows : List α
  last : Int
deriving Repr

namespace Table

def empty {α : Type} : Table α := ⟨[], 0⟩

def add {α : Type} (t : Table α) (row : Int → α) : Int × Table α :=
  (t.last + 1, ⟨t.rows ++ [row (t.last + 1)], t.last + 1⟩)

/-- Uses a number up without a row. -/
def skip {α : Type} (t : Table α) : Table α := { t with last := t.last + 1 }

end Table

end Store

/-- Whether a store can be used. -/
inductive Store.Condition where
  | ready
  | closed
  /-- Its file cannot be opened. -/
  | unopened
  /-- Its file holds something else. -/
  | foreign
  /-- Its file is empty, so that it has no tables. -/
  | blank
deriving DecidableEq, Repr

/-- All tables, and whether they can be used. -/
structure Store where
  batches : Store.Table Store.Batch
  samples : Store.Table Store.Sample
  artifacts : Store.Table Store.Artifact
  jobs : Store.Table Store.Job
  condition : Store.Condition

namespace Store

def empty : Store := ⟨Table.empty, Table.empty, Table.empty, Table.empty, .ready⟩

/-- What a use of the store depends on: the time, and whether the work was called off. -/
structure Context where
  now : Instant
  canceled : Bool
deriving DecidableEq, Repr

/-- Why the store cannot be used at all. A closed store comes before work called off, and that before a
file of no use. -/
def refusal (s : Store) (ctx : Context) : Option Fault :=
  if s.condition = .closed then some (.outside "sql: database is closed")
  else if ctx.canceled then some .canceled
  else
    match s.condition with
    | .unopened => some (.outside "unable to open database file: out of memory (14)")
    | .foreign => some (.outside "file is not a database (26)")
    | _ => none

def missing (s : Store) (table : String) : Option Fault :=
  if s.condition = .blank then
    some (.outside ("SQL logic error: no such table: " ++ table ++ " (1)"))
  else none

/-- Uses a table of the store, if it can be used; a fault says what was being done. -/
def access {α : Type} (s : Store) (ctx : Context) (table : String) (doing : Text)
    (use : Except Fault α) : Except Fault α :=
  (((s.refusal ctx).or (s.missing table)).elim use .error).mapError (Fault.behind doing)

/-! ### Constraints -/

/-- A rule of the tables that a row breaks. -/
inductive Violation where
  | digestTaken
  | noSuchRow
  | verdictName
  | stageName
  | statusName
deriving DecidableEq, Repr

def Violation.message : Violation → Text
  | digestTaken => "UNIQUE constraint failed: samples.sha256 (2067)"
  | noSuchRow => "FOREIGN KEY constraint failed (787)"
  | verdictName =>
    "CHECK constraint failed: status IN ('transpiled', 'verified', 'mismatch', 'unchecked') (275)"
  | stageName => "CHECK constraint failed: stage IN ('transpile', 'verify', 'parity') (275)"
  | statusName =>
    "CHECK constraint failed: status IN ('queued', 'running', 'ok', 'failed') (275)"

def Violation.fault (v : Violation) : Fault := .outside ("constraint failed: " ++ v.message)

/-- A value, or the violation of its absence. -/
def need {α : Type} (v : Violation) (a : Option α) : Except Fault α :=
  match a with
  | some a => .ok a
  | none => .error v.fault

def hasBatch (s : Store) (id : Int) : Bool := s.batches.rows.any (·.id == id)

def hasSample (s : Store) (id : Int) : Bool := s.samples.rows.any (·.id == id)

def hasDigest (s : Store) (sha256 : Text) : Bool := s.samples.rows.any (·.sha256 == sha256)

def require (v : Violation) (holds : Bool) : Except Fault Unit :=
  if holds then .ok () else .error v.fault

end Store

end Anadil
