import Anadil.Corpus
import Anadil.Pipeline.Basic

/-! # Writing a corpus from the store -/

namespace Anadil.Pipeline

/-- The instruction of a corpus: an empty one is the usual one. -/
def instructionOr (t : Text) : Text := if t.isEmpty then Corpus.defaultInstruction else t

def recordOf (instruction : Text) (s : Store.Sample) : Record :=
  Corpus.record instruction s.request s.source s.expected

def records (instruction : Text) (filter : Store.Filter) : Work (List Record) := do
  let samples ← explain (Fault.behind "list samples")
    (ask fun store ctx => store.listSamples ctx filter)
  if (← get).canceled && !samples.isEmpty then throw .canceled
  return samples.map (recordOf (instructionOr instruction))

/-- Writes a corpus into a file, over what was there, and says how many records it has. -/
def exportFile (path instruction : Text) (filter : Store.Filter) : Work Nat := do
  let dir := Path.dir path
  if dir ≠ Path.here then
    explain (Fault.behind ("mkdir " ++ dir)) (updateFiles fun fs => fs.makeDirectory dir)
  explain (Fault.behind ("create " ++ path)) (updateFiles fun fs => fs.create path)
  let rs ← records instruction filter
  updateFiles fun fs => fs.write path (Corpus.write rs)
  return rs.length

end Anadil.Pipeline
