import Anadil.Files
import Anadil.Python.Emit
import Anadil.Tree.Document

/-! # From source to Python

A source is divided into tokens, read as a tree and written in Python. A byte order mark in front of it
is skipped. What the source does wrong comes out as one fault that names the stage, the place and the
cause. -/

namespace Anadil

/-! ### Faults of the stages -/

/-- The fault of a tree that cannot be written in Python. -/
def Python.Failure.fault : Python.Failure → Fault
  | .noProgram => .assertion "generate: nil program"
  | .absentStatement => .assertion "generate: unexpected statement <nil>"
  | .absentExpression => .assertion "generate: unexpected expression <nil>"
  | .binaryOperator k => .assertion ("generate: unexpected binary operator " ++ k.spelling)
  | .unaryOperator k => .assertion ("generate: unexpected unary operator " ++ k.spelling)
  | .literalKind k => .assertion ("generate: unexpected literal kind " ++ Text.quoted k)
  | .constructorReturns name line column =>
    .parse line column
      ["bare " ++ Kind.returnWord.describe ++ " in constructor " ++ Text.inQuotes name]
      "a return value"
  | .indent n => .plain ("indent: want at least 1 space, got " ++ Text.integer n)

def Document.Failure.fault : Document.Failure → Fault
  | .absentNode => .assertion "render: nil node"
  | .literalKind k => .assertion ("render: unexpected literal kind " ++ Text.quoted k)
  | .badNumber digits =>
    .behind "render"
      (.outside
        ("json: error calling MarshalJSONTo for type *json.Number: cannot parse " ++
          Text.quoted digits ++ " as JSON number: invalid syntax"))
  | .tooDeep => .behind "render" (.outside "exceeded max depth")

/-- A fault of the source as the fault of its stage. Any other fault stays what it is. -/
def Fault.staged : Fault → Fault
  | .lex line column text => .compile "lex" line column text (some (.lex line column text))
  | .parse line column expected found =>
    .compile "parse" line column (Parser.expectation expected found)
      (some (.parse line column expected found))
  | f => f

/-! ### The way -/

def withoutMark (source : Text) : Text := source.dropStart Text.byteOrderMark

def parseSource (source : Text) : Except Fault Program := do
  let tokens ← (tokenize (withoutMark source)).mapError Fault.ofLexer
  (parse tokens).mapError Fault.ofParser

def renderSource (style : Document.Style) (source : Text) : Except Fault Text := do
  let program ← parseSource source
  (Document.render style program).mapError Document.Failure.fault

/-- The Python text of a source, before the stages are named in its fault, and the log. -/
def compileStages (style : Python.Style) (source : Text) : Except Fault Text × List Log.Record :=
  let (tokens, lexLog) := Lexer.scanAll [] (withoutMark source)
  match tokens with
  | .error r => (.error (Fault.ofLexer r), lexLog)
  | .ok tokens =>
    let reply := Parser.run tokens
    let log := lexLog ++ reply.log
    match reply.result with
    | .error f => (.error (Fault.ofParser f), log)
    | .ok program => ((Python.generate style program).mapError Python.Failure.fault, log)

/-- The Python text of a source, and the log of the way to it. -/
def compileLogged (style : Python.Style) (source : Text) : Except Fault Text × List Log.Record :=
  let (outcome, log) := compileStages style source
  match outcome with
  | .ok python => (.ok python, log)
  | .error f =>
    (.error f.staged, log ++ [Log.debug "transpile" [(("error" : Text), f.staged.inline)]])

def compile (style : Python.Style) (source : Text) : Except Fault Text :=
  (compileLogged style source).1

/-! ### Files -/

/-- Where the Python of a source file goes. -/
def outputPath (path : Text) : Text := Path.withoutExt path ++ ".py"

/-- Compiles a source file and writes the Python beside it. A source that is refused leaves what was
written before, and a file is never written over by its own Python. -/
def compileFile (fs : Files) (style : Python.Style) (path : Text) : Except Fault (Text × Files) := do
  let source ← (fs.read path).mapError (Fault.behind "read source")
  let python ← compile style source
  let out := outputPath path
  if out = path then .error (.plain (Fault.guarded path ++ ": refusing to overwrite the source file"))
  else
    let fs' ← (fs.write out python).mapError (Fault.behind "write output")
    return (out, fs')

/-! ### The version of the compiler -/

/-- A version in three numbers. -/
structure Version where
  major : Nat
  minor : Nat
  patch : Nat
deriving DecidableEq, Repr

/-- The three numbers with points between them. -/
def Version.core (v : Version) : Text :=
  Text.decimal v.major ++ "." ++ Text.decimal v.minor ++ "." ++ Text.decimal v.patch

def version : Version := ⟨0, 3, 0⟩

end Anadil
