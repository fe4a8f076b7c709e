import Anadil.Files
import Anadil.Log
import Anadil.Store.Job
import Anadil.Store.Sample

/-! # Work on the store

The pipeline takes samples in, compiles them and checks what they print. Its actions work on a store
and on files, and can be called off between two uses of the store or of a tool. What an action did
before it failed stays done. -/

namespace Anadil.Pipeline

/-- What actions work on. -/
structure State where
  now : Instant
  /-- How many uses of the store and of tools are left until the work is called off, if it will be. -/
  lease : Option Nat
  store : Store
  files : Files
  log : List Log.Record

namespace State

def start (now : Instant) (files : Files) : State := ⟨now, none, Store.empty, files, []⟩

/-- Whether the work was called off. -/
def canceled (s : State) : Bool := s.lease == some 0

def context (s : State) : Store.Context := ⟨s.now, s.canceled⟩

/-- The state after a use of the store or of a tool. -/
def spend (s : State) : State := { s with lease := s.lease.map (· - 1) }

end State

/-- An action: it gives a value or a fault, and a state in either case. -/
abbrev Work := EStateM Fault State

def ask {α : Type} (f : Store → Store.Context → Except Fault α) : Work α := fun s =>
  match f s.store s.context with
  | .ok a => .ok a s.spend
  | .error e => .error e s.spend

def update {α : Type} (f : Store → Store.Context → Except Fault (α × Store)) : Work α := fun s =>
  match f s.store s.context with
  | .ok (a, store) => .ok a { s.spend with store }
  | .error e => .error e s.spend

def updateFiles (f : Files → Except Fault Files) : Work Unit := fun s =>
  match f s.files with
  | .ok files => .ok () { s with files }
  | .error e => .error e s

def note (r : Log.Record) : Work Unit := fun s => .ok () { s with log := s.log ++ [r] }

def outcome {α : Type} : Except Fault α → Work α
  | .ok a => .ok a
  | .error e => .error e

def attempt {α : Type} (w : Work α) : Work (Except Fault α) := fun s =>
  match w s with
  | .ok a s' => .ok (.ok a) s'
  | .error e s' => .ok (.error e) s'

def explain {α : Type} (f : Fault → Fault) (w : Work α) : Work α := fun s =>
  match w s with
  | .ok a s' => .ok a s'
  | .error e s' => .error (f e) s'

/-- Queues a stage for a sample and gives the number of the job. -/
def queueStage (sample : Int) (stage : Store.Stage) : Work Int :=
  explain (fun f => .database ("insert " ++ stage.name ++ " work") (some f)) do
    let job ← update fun store ctx =>
      store.insertJob ctx ⟨sample, stage.name, Store.Status.queued.name, 0, ctx.now⟩
    return job.id

/-- Writes a file into a directory that is made if need be. -/
def writeBelow (path text : Text) : Work Unit := do
  let dir := Path.dir path
  explain (fun f => .file "mkdir" dir (some f)) (updateFiles fun fs => fs.makeDirectory dir)
  explain (fun f => .file "write" path (some f)) (updateFiles fun fs => fs.write path text)

end Anadil.Pipeline
