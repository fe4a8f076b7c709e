import Anadil.Fault
import Anadil.Json.Reader
import Anadil.Log
import Anadil.Text.Class

/-! # External tools

A compiler or an interpreter is a program outside. `Tool` says what its runs would give; this module
says what a run means: it has to be started, end in time with status zero, and complain of nothing. -/

namespace Anadil

/-! ### Parity

Whether a compiler's tree of a program is the same as ours, both given as documents. -/

namespace Parity

def readFault : Json.ReadError → Fault
  | .empty => .endOfText
  | .truncated => .truncatedText
  | .malformed => .jsonSyntax
  | .spent => .assertion "json: out of fuel"

/-- The value at the front of a document, in normal form. -/
def decode (document : Text) : Except Fault Json :=
  match Json.readFirst document with
  | .ok (v, _) => .ok v.normal
  | .error e => .error (readFault e)

/-- The first place where two documents disagree, positions aside. -/
def compare (external own : Text) : Except Fault (Option Json.Mismatch) := do
  let a ← (decode external).mapError (Fault.behind "external document")
  let b ← (decode own).mapError (Fault.behind "local document")
  return Json.difference a b

end Parity

/-! ### Runs -/

/-- What a run of a program gives. -/
inductive Execution where
  /-- There is no such program. -/
  | notFound
  /-- It was stopped when its time was over. -/
  | timedOut (stdout stderr : Text)
  | exited (status : Int) (stdout stderr : Text)
deriving DecidableEq, Repr

/-- A program outside: its command, and what a run gives for arguments and an input. -/
structure Tool where
  command : Text
  execute : List Text → Text → Execution

namespace Tool

/-- What a run left behind. -/
structure Result where
  stdout : Text
  stderr : Text
  status : Int
deriving DecidableEq, Repr

/-- What a run came to: a result, if there is one, and a fault, if there is one. -/
structure Report where
  result : Option Result
  fault : Option Fault

/-- What the system says of a program that is not there: a bare name is looked for, a path is not. -/
def notThere (command : Text) : Text :=
  if command.any (·.is '/') then "fork/exec " ++ command ++ ": no such file or directory"
  else "exec: " ++ Text.quoted command ++ ": executable file not found in $PATH"

def missing (command : Text) : Fault :=
  .tool .missing command (-1) [] (some (.outside (notThere command)))

def judge (command : Text) : Execution → Report
  | .notFound => ⟨none, some (missing command)⟩
  | .timedOut stdout stderr =>
    ⟨some ⟨stdout, stderr, -1⟩,
      some (.tool .timeout command (-1) stderr (some (.outside "context deadline exceeded")))⟩
  | .exited status stdout stderr =>
    ⟨some ⟨stdout, stderr, status⟩,
      if status ≠ 0 then
        some (.tool .exit command status stderr (some (.outside ("exit status " ++ Text.integer status))))
      else if Text.isBlank stderr then none
      else some (.tool .exit command status stderr none)⟩

/-- The fault of a run without a program. -/
def noCommand : Report := ⟨none, some (.assertion "runner: no command")⟩

/-- Runs a tool on an input, unless the work was called off before. -/
def run (t : Tool) (canceled : Bool) (args : List Text) (input : Text) : Report :=
  match t.execute args input with
  | .notFound => judge t.command .notFound
  | e =>
    if canceled then ⟨some ⟨[], [], 0⟩, some (.behind t.command .canceled)⟩ else judge t.command e

def Report.record (r : Report) (command : Text) (args : List Text) : Log.Record :=
  let status : Int := (r.result.map (·.status)).getD 0
  (Log.debug "runner"
    [("command", command), ("args", "[" ++ Text.join " " args ++ "]"),
      ("exit", Text.integer status)]).withTime

/-- The arguments that ask a compiler for the tree of a file. -/
def dumpArguments (path : Text) : List Text := ["--dump-ast", path]

def Report.asDocument (command : Text) (r : Report) : Report :=
  match r.result, r.fault with
  | some res, none =>
    if Json.isValid res.stdout then r
    else
      ⟨some res,
        some (.tool .malformed command res.status res.stderr
          (some (.plain "stdout is not valid JSON")))⟩
  | _, _ => r

def dumpTree (t : Tool) (canceled : Bool) (path : Text) : Report :=
  (t.run canceled (dumpArguments path) []).asDocument t.command

/-- Where a report's document disagrees with ours. -/
def Report.compared (r : Report) (own : Text) : Except Fault (Option Json.Mismatch) :=
  match r.fault, r.result with
  | some f, _ => .error f
  | none, some res => Parity.compare res.stdout own
  | none, none => .ok none

/-- Where a compiler's tree of a file disagrees with ours. -/
def parity (t : Tool) (canceled : Bool) (path own : Text) : Except Fault (Option Json.Mismatch) :=
  (t.dumpTree canceled path).compared own

end Tool

end Anadil
