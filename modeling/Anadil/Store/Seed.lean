import Anadil.Corpus
import Anadil.Digest.Sha256
import Anadil.Files
import Anadil.Store.Sample

/-! # Seed files

A seed file is a JSON list of programs. Loading it adds those that the store does not have yet, all or
none of them. -/

namespace Anadil.Store

def digest (source : Text) : Text := Digest.sha256 source.bytes

/-- A program of a seed file. -/
structure Seed where
  name : Text
  request : Text
  code : Text
  output : Text
deriving DecidableEq, Repr

namespace Seed

def ofJson (v : Json) : Except Fault Seed := do
  let fields ← Corpus.objectFields v
  return ⟨← Corpus.textField "name" fields, ← Corpus.textField "request" fields,
    ← Corpus.textField "code" fields, ← Corpus.textField "output" fields⟩

def ofItems : List Json → Except Fault (List Seed)
  | [] => .ok []
  | v :: vs => do
    let s ← ofJson v
    let ss ← ofItems vs
    return s :: ss

def read (text : Text) : Except Fault (List Seed) := do
  match ← Corpus.decode text with
  | .array items => ofItems items
  | .null => .ok []
  | _ => .error .jsonType

/-- The name of a program at a place of its file, counted from one. -/
def nameAt (n : Nat) (s : Seed) : Text :=
  if s.name.isEmpty then "sample-" ++ Text.decimal n else s.name

def sample (now : Instant) (batch : Option Int) (n : Nat) (s : Seed) : Sample :=
  ⟨0, batch, s.nameAt n, digest s.code, s.request, s.code, s.output, [], now⟩

end Seed

/-- Adds programs counted from `n`, and gives the numbers of those that are new. One that is there
already uses a number up. -/
def addSeeds (ctx : Context) (batch : Option Int) :
    Nat → List Seed → Store → Except Fault (List Int × Store)
  | _, [], s => .ok ([], s)
  | n, seed :: seeds, s => do
    if Text.isBlank seed.code then
      .error (.plain
        ("sample " ++ Text.decimal n ++ " (" ++ Text.quoted seed.name ++ "): missing code"))
    else if let some f := s.missing "samples" then
      .error (f.behind ("insert sample " ++ Text.quoted (seed.nameAt n)))
    else if s.hasDigest (digest seed.code) then
      addSeeds ctx batch (n + 1) seeds { s with samples := s.samples.skip }
    else
      (require .noSuchRow (batch.all s.hasBatch)).mapError
        (Fault.behind ("insert sample " ++ Text.quoted (seed.nameAt n)))
      let (id, samples) := s.samples.add fun id => { seed.sample ctx.now batch n with id }
      let (ids, s') ← addSeeds ctx batch (n + 1) seeds { s with samples }
      return (id :: ids, s')

/-- Loads the text of a seed file. A fault leaves the store as it was. -/
def loadSeeds (s : Store) (ctx : Context) (text : Text) (batch : Option Int) :
    Except Fault (List Int × Store) := do
  let seeds ← (Seed.read text).mapError (Fault.behind "parse samples json")
  match s.refusal ctx with
  | some f => .error (f.behind "begin")
  | none => addSeeds ctx batch 1 seeds s

def loadSeedFile (s : Store) (ctx : Context) (fs : Files) (path : Text) (batch : Option Int) :
    Except Fault (List Int × Store) := do
  let text ← (fs.read path).mapError (Fault.behind "read samples file")
  s.loadSeeds ctx text batch

end Anadil.Store
