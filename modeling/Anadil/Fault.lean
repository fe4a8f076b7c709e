import Anadil.Json.Difference
import Anadil.Text.Quoted
import Anadil.Token.Lexer
import Anadil.Tree.Parser

/-! # Faults

Everything that can go wrong, as a cause with the causes behind it. `Fault.message` gives the wording,
`Fault.inline` the wording where a fault stands inside another text, and `Fault.code` the short name
under which a failed job is stored. -/

namespace Anadil

/-- Why an external tool gave no usable result. -/
inductive ToolFailure where
  /-- It could not be started. -/
  | missing
  /-- It ended with a status other than zero, or complained. -/
  | exit
  /-- It was stopped when its time was over. -/
  | timeout
  /-- It ended well and printed something that is not a document. -/
  | malformed
  | other (name : Text)
deriving DecidableEq, Repr

def ToolFailure.name : ToolFailure → Text
  | missing => "missing"
  | exit => "exit"
  | timeout => "timeout"
  | malformed => "malformed"
  | other n => n

/-- Why a file cannot be used. -/
inductive FileFlaw where
  /-- Nothing is under the name in memory. -/
  | unknown
  /-- Nothing is under the name on disk. -/
  | absent
  | notDirectory
  | isDirectory
  | nameTooLong
  | invalidName
deriving DecidableEq, Repr

namespace FileFlaw

def text : FileFlaw → Text
  | unknown => "file does not exist"
  | absent => "no such file or directory"
  | notDirectory => "not a directory"
  | isDirectory => "is a directory"
  | nameTooLong => "file name too long"
  | invalidName => "invalid argument"

def isMissing : FileFlaw → Bool
  | unknown | absent => true
  | _ => false

end FileFlaw

/-- Something that went wrong. -/
inductive Fault where
  /-- The source cannot be divided into tokens. -/
  | lex (line column : Int) (text : Text)
  /-- The tokens make no program. -/
  | parse (line column : Int) (expected : List Text) (found : Text)
  /-- The source was refused at a stage. -/
  | compile (stage : Text) (line column : Int) (text : Text) (cause : Option Fault)
  /-- An external tool failed. -/
  | tool (failure : ToolFailure) (command : Text) (status : Int) (stderr : Text) (cause : Option Fault)
  /-- A program printed something else than its sample expects. -/
  | outputDiffers (sample : Int) (expected actual : Text)
  /-- The compiler's tree of a sample is not ours. -/
  | treeDiffers (sample : Int) (mismatch : Json.Mismatch)
  /-- The store failed. -/
  | database (operation : Text) (cause : Option Fault)
  /-- A file could not be read or written. -/
  | file (operation path : Text) (cause : Option Fault)
  /-- A hook of that name is there already. -/
  | hookTaken (event name : Text)
  /-- A text is not JSON. -/
  | jsonSyntax
  /-- A JSON value is not of the kind that is wanted. -/
  | jsonType
  /-- A document is empty. -/
  | endOfText
  /-- A document ends too early. -/
  | truncatedText
  /-- The work was called off. -/
  | canceled
  /-- The system refused a path. -/
  | unusable (operation path : Text) (flaw : FileFlaw)
  /-- A fault that is reported from outside, in its own words. -/
  | outside (text : Text)
  /-- The program itself is at fault. -/
  | assertion (text : Text)
  | plain (text : Text)
  /-- A fault with a word about what was being done. -/
  | wrap (text : Text) (cause : Fault)
  /-- A fault with advice for the user. -/
  | hinted (hint : Text) (cause : Fault)
deriving Inhabited

namespace Fault

def firstLine (t : Text) : Text := t.takeWhile fun g => !g.is '\n'

/-- The longest text that a message quotes whole. -/
def longestQuote : Nat := 80

def clip (t : Text) : Text :=
  if t.length ≤ longestQuote then t else Text.clean (t.take longestQuote) ++ "..."

/-- A line, a column and what is said of the place. -/
def located (line column : Int) (text : Text) : Text :=
  Text.integer line ++ ":" ++ Text.integer column ++ ": " ++ text

def noCause : Text := "<nil>"

/-- The wording of a tool's failure; `cause` is what its cause says. -/
def toolMessage (failure : ToolFailure) (command : Text) (status : Int) (stderr : Text)
    (cause : Option Text) : Text :=
  match failure with
  | .exit =>
    let complaint : Text := if stderr.isEmpty then [] else ": " ++ firstLine stderr
    command ++ ": exit status " ++ Text.integer status ++ complaint
  | .timeout => command ++ ": timed out"
  | _ =>
    match cause with
    | none => command ++ ": " ++ failure.name
    | some c => command ++ ": " ++ failure.name ++ ": " ++ c

/-- The wording of a source that was refused at a stage. -/
def compileMessage (stage : Text) (line column : Int) (text : Text) : Text :=
  stage ++ " error at " ++ Text.integer line ++ ":" ++ Text.integer column ++ ": " ++ text

/-! ### Wording

The marks ‹ and › are reserved for setting off quoted words, so the program's own messages do not hold
them. A fault inside another text is said in one piece: what each level says, with `: ` between, without
the line breaks around it. -/

/-- A text without the reserved marks. One that ends in a stray byte is closed, lest the byte run into
what follows. -/
def guarded (t : Text) : Text :=
  let shown : Text := t.map fun g => if g.is '‹' || g.is '›' then .char '?' else g
  match t.getLast? with
  | some (.byte _) => shown ++ "?"
  | _ => shown

/-- The lines of a text that are not empty, one below the other. A line break in front is kept if the
first line has more than one byte. -/
def condensed (t : Text) : Text :=
  let lines := (t.splitAt '\n').filter fun l => !l.isEmpty
  let broken := t.startsWith "\n" && (lines.head?.any fun l => 1 < l.width)
  let front : Text := if broken then "\n" else []
  front ++ Text.join "\n" lines

/-- What is said of a fault: alone, level by level, and whether it is put together from its levels where
it stands inside another text. -/
structure Wording where
  message : Text
  levels : List Text
  joined : Bool

namespace Wording

def inline (w : Wording) : Text :=
  if w.joined then Text.join ": " (w.levels.filter fun l => !l.isEmpty) else w.message

/-- The wording of a fault that says `message` and has nothing behind it. -/
def leaf (message : Text) : Wording := ⟨message, [condensed message], false⟩

def own (text : Text) : Wording := ⟨guarded text, [condensed (guarded text)], true⟩

def behind (text : Text) (cause : Wording) : Wording :=
  if text.isEmpty then { cause with joined := true }
  else ⟨guarded text ++ ": " ++ cause.inline, condensed (guarded text) :: cause.levels, true⟩

/-- The wording of a fault that says `message` and has a cause. If the message ends in what the cause
says, the cause keeps its own levels. -/
def around (message : Text) (cause : Wording) : Wording :=
  let levels :=
    if cause.message.isSuffixOf message then
      let front := message.take (message.length - cause.message.length)
      if front.isEmpty then cause.levels
      else if (": " : Text).isSuffixOf front then
        condensed (front.take (front.length - 2)) :: cause.levels
      else [condensed message]
    else [condensed message]
  ⟨message, levels, false⟩

end Wording

def wording : Fault → Wording
  | lex line column text => .leaf (located line column text)
  | parse line column expected found => .leaf (located line column (Parser.expectation expected found))
  | compile stage line column text none => .leaf (compileMessage stage line column text)
  | compile stage line column text (some c) => .around (compileMessage stage line column text) c.wording
  | tool failure command status stderr none => .leaf (toolMessage failure command status stderr none)
  | tool failure command status stderr (some c) =>
    .around (toolMessage failure command status stderr (some c.wording.inline)) c.wording
  | outputDiffers sample expected actual =>
    .leaf ("sample " ++ Text.integer sample ++ ": output " ++ Text.quoted (clip actual) ++ ", want " ++
      Text.quoted (clip expected))
  | treeDiffers sample mismatch =>
    .leaf ("sample " ++ Text.integer sample ++ ": ast differs at " ++ mismatch.text)
  | database operation none => .leaf ("database " ++ operation ++ ": " ++ noCause)
  | database operation (some c) =>
    .around ("database " ++ operation ++ ": " ++ c.wording.inline) c.wording
  | file operation path none => .leaf (operation ++ " " ++ path ++ ": " ++ noCause)
  | file operation path (some c) =>
    .around (operation ++ " " ++ path ++ ": " ++ c.wording.inline) c.wording
  | hookTaken event name =>
    .behind (guarded event ++ ": " ++ guarded name) (.own "hook already registered")
  | jsonSyntax => .leaf []
  | jsonType => .leaf []
  | endOfText => .leaf "EOF"
  | truncatedText => .leaf "unexpected EOF"
  | canceled => .leaf "context canceled"
  | unusable operation path flaw =>
    ⟨operation ++ " " ++ path ++ ": " ++ flaw.text,
      [condensed (operation ++ " " ++ guarded path), flaw.text], false⟩
  | outside text => .leaf text
  | assertion text => .own text
  | plain text => .own text
  | wrap text c => .behind text c.wording
  | hinted _ c => { c.wording with joined := true }

def message (f : Fault) : Text := f.wording.message

def inline (f : Fault) : Text := f.wording.inline

/-- A fault and those behind it, the outermost first. -/
def chain (f : Fault) : List Fault :=
  f ::
    match f with
    | compile _ _ _ _ (some c) | tool _ _ _ _ (some c) | database _ (some c) | file _ _ (some c)
    | wrap _ c | hinted _ c => c.chain
    | _ => []

def hints (f : Fault) : List Text :=
  f.chain.filterMap fun
    | hinted h _ => some h
    | _ => none

def behind (text : Text) (f : Fault) : Fault := wrap text f

/-- The fault of a source that cannot be divided into tokens. -/
def ofLexer (r : Lexer.Refusal) : Fault := lex r.place.line r.place.column r.flaw.message

def ofParser : Parser.Failure → Fault
  | .refused r => parse r.line r.column r.expected r.found
  | .spent => assertion "parse: out of fuel"

/-! ### Codes -/

/-- The codes under which failed jobs are stored. -/
inductive Code where
  | lexError
  | parseError
  | externalTool
  | verifyMismatch
  | parityMismatch
  | database
  | writeFile
  | unknown
deriving DecidableEq, Repr

def Code.name : Code → String
  | lexError => "LEX_ERROR"
  | parseError => "PARSE_ERROR"
  | externalTool => "EXTERNAL_TOOL"
  | verifyMismatch => "VERIFY_MISMATCH"
  | parityMismatch => "PARITY_MISMATCH"
  | database => "DATABASE"
  | writeFile => "WRITE_FILE"
  | unknown => "UNKNOWN"

/-- The tests that `code` makes on a chain of causes, one after another. -/
def classifiers : List (Fault → Option Code) := [
    fun | compile stage .. => some (if stage = ("lex" : Text) then .lexError else .parseError) | _ => none,
    fun | lex .. => some .lexError | _ => none,
    fun | parse .. => some .parseError | _ => none,
    fun | tool .. => some .externalTool | _ => none,
    fun | outputDiffers .. => some .verifyMismatch | _ => none,
    fun | treeDiffers .. => some .parityMismatch | _ => none,
    fun | database .. => some .database | _ => none,
    fun | file .. => some .writeFile | _ => none]

/-- The code of a fault: each test is made on the whole chain before the next. -/
def code (f : Fault) : Code :=
  (classifiers.findSome? fun test => f.chain.findSome? test).getD .unknown

end Fault

end Anadil
