import Anadil.Log
import Anadil.Python.Word
import Anadil.Tree.Basic

/-! # From tokens to trees

The grammar, with what may be repeated in braces and what may be left out in brackets. Statements may
have any number of `;` before, between and behind them.

    program    ::= { statement }
    block      ::= "{" { statement } "}"
    function   ::= "fonksiyon" name "(" [ name { "," name } ] ")" block
    class      ::= "sınıf" name "{" { function } "}"
    if         ::= "eğer" expr block [ "değilse" ( if | block ) ]
    while      ::= "döngü" expr block
    return     ::= "dön" [ expr ]
    print      ::= "yazdır" "(" expr ")"
    simple     ::= expr [ "=" expr ]

    or         ::= and { ("veya" | "||") and }
    and        ::= not { ("ve" | "&&") not }
    not        ::= ("değil" | "!") not | comparison
    comparison ::= sum { ("==" | "!=" | "<" | "<=" | ">" | ">=") sum }
    sum        ::= product { ("+" | "-") product }
    product    ::= negation { ("*" | "/" | "%") negation }
    negation   ::= "-" negation | access
    access     ::= primary { "(" [ expr { "," expr } ] ")" | "." name }
    primary    ::= number | string | "doğru" | "yanlış" | "boş" | "bu" | name | "(" expr ")"

The next token alone decides how to go on, and the first token that does not fit ends the reading. -/

namespace Anadil

namespace Parser

/-! ### Outcomes -/

/-- Why tokens do not make a program: where, what would have been accepted, and what stands there. -/
structure Refusal where
  line : Int
  column : Int
  expected : List Text
  found : Text
deriving DecidableEq, Repr

/-- What would have been accepted and what was found, in words. -/
def expectation (expected : List Text) (found : Text) : Text :=
  match expected with
  | [] => "unexpected " ++ found
  | [one] => "expected " ++ one ++ ", found " ++ found
  | _ => "expected one of " ++ Text.join ", " expected ++ ", found " ++ found

/-- The wording of a refusal, without its place. -/
def Refusal.message (r : Refusal) : Text := expectation r.expected r.found

/-- Where the reading stands: the tokens to come, the token behind them all, the token just read, and
the log so far. -/
structure Cursor where
  rest : List Token
  finish : Token
  previous : Option Token
  trace : List Log.Record

/-- What reading a part of a program gives. -/
inductive Reply (α : Type) where
  | ok (value : α) (cursor : Cursor)
  | refused (refusal : Refusal) (trace : List Log.Record)
  /-- The fuel ran out; `parse` gives enough that it never does. -/
  | spent

def Reader (α : Type) : Type := Cursor → Reply α

namespace Reader

/-- Reads nothing. -/
protected def pure {α : Type} (a : α) : Reader α := fun c => .ok a c

/-- Reads one part and then another. -/
protected def bind {α β : Type} (r : Reader α) (f : α → Reader β) : Reader β := fun c =>
  match r c with
  | .ok a c' => f a c'
  | .refused e trace => .refused e trace
  | .spent => .spent

instance : Monad Reader where
  pure := Reader.pure
  bind := Reader.bind

end Reader

/-! ### Single tokens -/

/-- The token to come, or the one behind them all. -/
def Cursor.token (c : Cursor) : Token := (c.rest.head?).getD c.finish

/-- The cursor behind the token to come. It does not go past the end. -/
def Cursor.advance (c : Cursor) : Cursor :=
  match c.rest with
  | [] => c
  | t :: rest => { c with rest, previous := some t }

def peek : Reader Token := fun c => .ok c.token c

/-- Reads the token to come, whatever it is. -/
def advance : Reader Token := fun c => .ok c.token c.advance

def spend {α : Type} : Reader α := fun _ => .spent

def refuseAt {α : Type} (t : Token) (expected : List Text) (found : Text) : Reader α := fun c =>
  let r : Refusal := ⟨t.span.line, t.span.column, expected, found⟩
  .refused r (c.trace ++
    [Log.debug "parse error"
      [("line", Text.integer r.line), ("column", Text.integer r.column), ("error", r.message)]])

def refuse {α : Type} (expected : List Text) : Reader α := do
  let t ← peek
  refuseAt t expected t.describe

def expect (kind : Kind) : Reader Token := do
  let t ← peek
  if t.kind = kind then advance else refuse [kind.describe]

/-- Reads a `)` that ends a list. -/
def closeList : Reader Unit := do
  let t ← peek
  if t.kind = .rightParen then
    let _ ← advance
  else refuse [Text.inQuotes ",", Text.inQuotes ")"]

def skipSemicolons : Reader Unit := fun c =>
  let skipped := c.rest.takeWhile (·.kind == .semicolon)
  .ok () { c with
    rest := c.rest.dropWhile (·.kind == .semicolon)
    previous := (skipped.getLast?).or c.previous }

def traceStatement : Reader Unit := fun c =>
  let t := c.token
  .ok () { c with trace := c.trace ++
    [Log.debug "statement" [("line", Text.integer t.span.line), ("token", t.kind.spelling)]] }

def spanFrom (start : Token) : Reader Span := fun c =>
  let last :=
    match c.previous with
    | some p => if p.span.start < start.span.start then start.toLexeme else p.toLexeme
    | none => start.toLexeme
  .ok (Span.join start.span last.span) c

/-! ### Names -/

/-- What surrounds the part that is read. -/
structure Context where
  inFunction : Bool
  /-- Inside a loop of the innermost function. -/
  inLoop : Bool
  /-- Inside a method, or a function in one, where `bu` has a meaning. -/
  inMethod : Bool
deriving DecidableEq, Repr

def Context.top : Context := ⟨false, false, false⟩

def Context.function (c : Context) (isMethod : Bool) : Context := ⟨true, false, isMethod || c.inMethod⟩

def Context.loop (c : Context) : Context := { c with inLoop := true }

/-- Reads the name of a member: any but a reserved word of Python. -/
def memberName : Reader Token := do
  let t ← expect .identifier
  if Python.isReserved t.text then
    refuseAt t ["identifier that is not a Python reserved word"] t.describe
  else pure t

/-- Reads a name that Python code can use and that hides nothing the code relies on: `print`, and in a
method the receiver. -/
def plainName (ctx : Context) : Reader Token := do
  let t ← memberName
  if t.text = ("print" : Text) then
    refuseAt t ["identifier other than \"print\""] t.describe
  else if t.text = ("self" : Text) ∧ ctx.inMethod then
    refuseAt t ["identifier other than \"self\" inside a method"] t.describe
  else pure t

/-- Reads parameters after those `seen`, which may not come again. -/
def parameters (ctx : Context) : Nat → List Text → Reader (List Text)
  | 0, _ => spend
  | fuel + 1, seen => do
    let t ← plainName ctx
    if seen.contains t.text then refuseAt t ["unique parameter name"] t.describe
    else
      let sep ← peek
      if sep.kind = .comma then
        let _ ← advance
        return t.text :: (← parameters ctx fuel (t.text :: seen))
      else return [t.text]

/-! ### Expressions -/

/-- How tightly an expression holds together, loosest first. -/
inductive Level where
  | or
  | and
  | not
  | comparison
  | sum
  | product
  | negation
  | access
deriving DecidableEq, Repr

namespace Level

/-- The operators that join operands of a level, from left to right. -/
def operators : Level → List Kind
  | or => [.orWord, .orOr]
  | and => [.andWord, .andAnd]
  | comparison => [.equal, .notEqual, .less, .lessEqual, .greater, .greaterEqual]
  | sum => [.plus, .minus]
  | product => [.star, .slash, .percent]
  | not | negation | access => []

/-- The operators that stand in front of an operand of a level. -/
def leading : Level → List Kind
  | not => [.notWord, .bang]
  | negation => [.minus]
  | or | and | comparison | sum | product | access => []

def tighter : Level → Level
  | or => and
  | and => not
  | not => comparison
  | comparison => sum
  | sum => product
  | product => negation
  | negation | access => access

end Level

mutual

def expr (ctx : Context) : Nat → Level → Reader Expr
  | 0, _ => spend
  | fuel + 1, .access => do
    let start ← peek
    let x ← primary ctx fuel
    trail ctx fuel start x
  | fuel + 1, level => do
    let start ← peek
    if start.kind ∈ level.leading then
      let _ ← advance
      let operand ← expr ctx fuel level
      return .unary (← spanFrom start) start.kind operand
    else
      let left ← expr ctx fuel level.tighter
      chain ctx fuel level start left

/-- Reads the operators of a level and their right operands behind `left`, which began at `start`. -/
def chain (ctx : Context) : Nat → Level → Token → Expr → Reader Expr
  | 0, _, _, _ => spend
  | fuel + 1, level, start, left => do
    let op ← peek
    if op.kind ∈ level.operators then
      let _ ← advance
      let right ← expr ctx fuel level.tighter
      let span ← spanFrom start
      chain ctx fuel level start (.binary span op.kind left right)
    else return left

/-- Reads the calls and the member names behind `x`, which began at `start`. -/
def trail (ctx : Context) : Nat → Token → Expr → Reader Expr
  | 0, _, _ => spend
  | fuel + 1, start, x => do
    let t ← peek
    match t.kind with
    | .leftParen =>
      if x.isPlace then
        let _ ← advance
        let args ← arguments ctx fuel
        closeList
        let span ← spanFrom start
        trail ctx fuel start (.call span x args)
      else refuse []
    | .dot =>
      let _ ← advance
      let member ← memberName
      let span ← spanFrom start
      trail ctx fuel start (.member span x member.text)
    | _ => return x

/-- Reads the arguments of a call up to the `)`. -/
def arguments (ctx : Context) : Nat → Reader (List Expr)
  | 0 => spend
  | fuel + 1 => do
    let t ← peek
    if t.kind = .rightParen then return [] else expressions ctx fuel

def expressions (ctx : Context) : Nat → Reader (List Expr)
  | 0 => spend
  | fuel + 1 => do
    let x ← expr ctx fuel .or
    let sep ← peek
    if sep.kind = .comma then
      let _ ← advance
      return x :: (← expressions ctx fuel)
    else return [x]

def primary (ctx : Context) : Nat → Reader Expr
  | 0 => spend
  | fuel + 1 => do
    let t ← peek
    match t.kind with
    | .number =>
      let _ ← advance
      return .literal t.span (.number t.text)
    | .string =>
      let _ ← advance
      return .literal t.span (.string t.text)
    | .trueWord =>
      let _ ← advance
      return .literal t.span (.boolean true)
    | .falseWord =>
      let _ ← advance
      return .literal t.span (.boolean false)
    | .nullWord =>
      let _ ← advance
      return .literal t.span .null
    | .thisWord =>
      if ctx.inMethod then
        let _ ← advance
        return .self t.span
      else refuseAt t ["expression"] (t.describe ++ " outside of a method")
    | .identifier =>
      let _ ← plainName ctx
      return .name t.span t.text
    | .leftParen =>
      let _ ← advance
      let x ← expr ctx fuel .or
      let _ ← expect .rightParen
      return x
    | _ => refuse ["expression"]

end

/-! ### Statements -/

/-- The kinds that leave a return without a value when they come next. -/
def returnEnders : List Kind := [
    .rightBrace, .semicolon, .endOfInput, .functionWord, .classWord, .ifWord, .whileWord, .returnWord,
    .printWord, .breakWord, .continueWord]

def simple (ctx : Context) (fuel : Nat) : Reader Stmt := do
  let start ← peek
  let x ← expr ctx fuel .or
  let t ← peek
  if t.kind = .assign then
    if x.isPlace then
      let _ ← advance
      let value ← expr ctx fuel .or
      return .assign (← spanFrom start) x value
    else refuseAt start ["identifier", "member access"] start.describe
  else return .expression (← spanFrom start) x

/-- Reads a return and its value, if it has one. -/
def returnStmt (ctx : Context) (fuel : Nat) : Reader Stmt := do
  let start ← peek
  if ctx.inFunction then
    let _ ← advance
    let t ← peek
    if t.kind ∈ returnEnders then return .ret (← spanFrom start) none
    else
      let value ← expr ctx fuel .or
      return .ret (← spanFrom start) (some value)
  else refuseAt start ["statement"] (start.describe ++ " outside of a function")

def printStmt (ctx : Context) (fuel : Nat) : Reader Stmt := do
  let start ← expect .printWord
  let _ ← expect .leftParen
  let value ← expr ctx fuel .or
  let _ ← expect .rightParen
  return .print (← spanFrom start) value

/-- Reads a word that leaves a loop or starts its next round. -/
def loopControl (ctx : Context) : Reader Stmt := do
  let t ← peek
  if ctx.inLoop then
    let _ ← advance
    return if t.kind = .breakWord then .breakLoop t.span else .continueLoop t.span
  else refuseAt t ["statement"] (t.describe ++ " outside of a loop")

mutual

/-- Reads statements up to a token of kind `stop`, which is left. -/
def statements (ctx : Context) (stop : Kind) : Nat → Reader (List Stmt)
  | 0 => spend
  | fuel + 1 => do
    skipSemicolons
    let t ← peek
    if t.kind = stop then return []
    else if t.kind = .endOfInput then refuse [stop.describe]
    else
      let s ← statement ctx fuel
      return s :: (← statements ctx stop fuel)

def block (ctx : Context) : Nat → Reader (List Stmt)
  | 0 => spend
  | fuel + 1 => do
    let _ ← expect .leftBrace
    let body ← statements ctx .rightBrace fuel
    let _ ← expect .rightBrace
    return body

def statement (ctx : Context) : Nat → Reader Stmt
  | 0 => spend
  | fuel + 1 => do
    traceStatement
    let t ← peek
    match t.kind with
    | .functionWord => return .function (← function ctx false fuel)
    | .classWord =>
      let start ← expect .classWord
      let name ← plainName ctx
      let _ ← expect .leftBrace
      let methods ← methods ctx fuel
      let _ ← expect .rightBrace
      return .classDef (← spanFrom start) name.text methods
    | .ifWord => branch ctx fuel
    | .whileWord =>
      let start ← expect .whileWord
      let condition ← expr ctx fuel .or
      let body ← block ctx.loop fuel
      return .loop (← spanFrom start) condition body
    | .returnWord => returnStmt ctx fuel
    | .printWord => printStmt ctx fuel
    | .breakWord | .continueWord => loopControl ctx
    | _ => simple ctx fuel

/-- Reads a function. Its name and its parameters are names of the place where it stands. -/
def function (ctx : Context) (isMethod : Bool) : Nat → Reader (Function Stmt)
  | 0 => spend
  | fuel + 1 => do
    let start ← expect .functionWord
    let name ← plainName ctx
    let _ ← expect .leftParen
    let t ← peek
    let params ←
      if t.kind = .rightParen then pure []
      else parameters ctx fuel (if isMethod then ["self"] else [])
    closeList
    let body ← block (ctx.function isMethod) fuel
    return ⟨← spanFrom start, name.text, params, body⟩

/-- Reads the methods of a class up to the `}`. -/
def methods (ctx : Context) : Nat → Reader (List (Function Stmt))
  | 0 => spend
  | fuel + 1 => do
    skipSemicolons
    let t ← peek
    if t.kind = .rightBrace then return []
    else if t.kind = .functionWord then
      let f ← function ctx true fuel
      return f :: (← methods ctx fuel)
    else refuse [Kind.functionWord.describe, Kind.rightBrace.describe]

def branch (ctx : Context) : Nat → Reader Stmt
  | 0 => spend
  | fuel + 1 => do
    let start ← expect .ifWord
    let condition ← expr ctx fuel .or
    let body ← block ctx fuel
    let t ← peek
    if t.kind = .elseWord then
      let _ ← advance
      let t ← peek
      match t.kind with
      | .ifWord =>
        let chained ← branch ctx fuel
        return .branch (← spanFrom start) condition body (some [chained])
      | .leftBrace =>
        let otherwise ← block ctx fuel
        return .branch (← spanFrom start) condition body (some otherwise)
      | _ => refuse [Kind.ifWord.describe, Kind.leftBrace.describe]
    else return .branch (← spanFrom start) condition body none

end

/-! ### Programs -/

/-- The end of input behind tokens that have none of their own: just past the last of them. -/
def endBehind (tokens : List Token) : Token :=
  match tokens.getLast? with
  | none => ⟨⟨.endOfInput, [], ⟨0, 0, 1, 1⟩⟩, []⟩
  | some t =>
    if t.kind = .endOfInput then t
    else
      ⟨⟨.endOfInput, [], ⟨t.span.stop, t.span.stop, t.span.line, t.span.column + t.text.length⟩⟩, []⟩

/-- A cursor in front of tokens. What stands behind an end of input is not read. -/
def Cursor.ofTokens (tokens : List Token) : Cursor where
  rest := tokens.takeWhile (·.kind != .endOfInput)
  finish := endBehind tokens
  previous := none
  trace := []

/-- Enough fuel for tokens: between one token and the next, fewer than sixteen readers stand inside
each other. -/
def fuelFor (tokens : List Token) : Nat := 16 * (tokens.length + 1)

/-- The span of a program: from its first statement to its last, or the token at its start. -/
def programSpan (start : Token) (body : List Stmt) : Span :=
  match body.head?, body.getLast? with
  | some first, some last => Span.join first.span last.span
  | _, _ => start.span

def program (fuel : Nat) : Reader Program := do
  let start ← peek
  let body ← statements Context.top .endOfInput fuel
  return ⟨programSpan start body, body⟩

def run (tokens : List Token) : Reply Program := program (fuelFor tokens) (Cursor.ofTokens tokens)

/-- Why there is no program. -/
inductive Failure where
  | refused (refusal : Refusal)
  /-- The fuel ran out, which does not happen. -/
  | spent
deriving DecidableEq, Repr

def Reply.result {α : Type} : Reply α → Except Failure α
  | .ok a _ => .ok a
  | .refused r _ => .error (.refused r)
  | .spent => .error .spent

def Reply.log {α : Type} : Reply α → List Log.Record
  | .ok _ c => c.trace
  | .refused _ trace => trace
  | .spent => []

end Parser

def parse (tokens : List Token) : Except Parser.Failure Program := (Parser.run tokens).result

end Anadil
