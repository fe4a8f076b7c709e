import Anadil.Editor.Position

/-! # Open documents

The documents that an editor has open, with the complaints about each. Only so many are kept: when one
more is opened, the one that was updated longest ago is dropped. Texts are told apart by their digests. -/

namespace Anadil.Editor

/-- What is kept of a text to know it again. -/
abbrev Digest := List UInt8

/-- An open document. -/
structure Document where
  uri : Text
  text : Text
  digest : Digest
  complaints : List Complaint
  /-- When it was last updated. -/
  touched : UInt64
deriving DecidableEq, Repr

/-- The documents that are kept, and a clock that counts updates. -/
structure Cache where
  documents : List Document
  clock : UInt64
deriving Repr

namespace Cache

/-- The most documents that are kept. -/
def capacity : Nat := 100

def empty : Cache := ⟨[], 0⟩

def size (c : Cache) : Nat := c.documents.length

def get? (c : Cache) (uri : Text) : Option Document := c.documents.find? (·.uri == uri)

/-- Drops the document at an address. -/
def remove (c : Cache) (uri : Text) : Cache :=
  { c with documents := c.documents.filter (·.uri != uri) }

def oldest? (docs : List Document) : Option Document :=
  docs.foldl (fun best d =>
    match best with
    | none => some d
    | some b => if d.touched < b.touched then some d else some b) none

/-- Drops the document that was updated longest ago. -/
def evictOldest (c : Cache) : Cache :=
  match oldest? c.documents with
  | none => c
  | some d => c.remove d.uri

/-- Puts a document in the place of the one at its address, or behind the others. -/
def put (docs : List Document) (d : Document) : List Document :=
  if docs.any (·.uri == d.uri) then docs.map fun e => if e.uri == d.uri then d else e
  else docs ++ [d]

/-- Takes a text for an address. Gives the document, and whether it had to be checked anew, which it
has not if the text has the same digest as the one before. -/
def update (digest : Text → Digest) (c : Cache) (uri text : Text) : Document × Bool × Cache :=
  let now := c.clock + 1
  let (known, c) :=
    match c.get? uri with
    | some d => (some d, c)
    | none => (none, if capacity ≤ c.size then c.evictOldest else c)
  match known.filter (·.digest == digest text) with
  | some d =>
    let d := { d with touched := now }
    (d, false, ⟨put c.documents d, now⟩)
  | none =>
    let d : Document := ⟨uri, text, digest text, diagnose text, now⟩
    (d, true, ⟨put c.documents d, now⟩)

end Cache

end Anadil.Editor
