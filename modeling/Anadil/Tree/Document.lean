import Anadil.Json.Printer
import Anadil.Tree.Walk

/-! # Trees as documents

A tree is shown as a JSON document: an object for each node, with its kind, its own fields and,
unless they are left out, its line and column. -/

namespace Anadil

namespace Document

/-- Why a tree cannot be shown. -/
inductive Failure where
  | absentNode
  | literalKind (kind : Text)
  /-- A number whose digits are not a JSON number. -/
  | badNumber (digits : Text)
  /-- A document that is too deep to be indented. -/
  | tooDeep
deriving DecidableEq, Repr

/-- How a document is written. -/
structure Style where
  unit : Text
  positions : Bool
deriving DecidableEq, Repr

/-- Two blanks a level, and positions. -/
def Style.default : Style := ⟨"  ", true⟩

def node (positions : Bool) (kind : NodeKind) (span : Span) (fields : List (Text × Json)) : Json :=
  .object (Json.sortFields
    ([(("type" : Text), .string kind.name)] ++
      (if positions then
        [(("line" : Text), .number (Text.integer span.line)),
          (("column" : Text), .number (Text.integer span.column))]
       else []) ++
      fields))

def field (name : String) (value : Json) : Text × Json := (name, value)

def literal : Literal → Except Failure (String × Json)
  | .string content => .ok ("string", .string content)
  | .number digits => .ok ("number", .number digits)
  | .boolean b => .ok ("boolean", .bool b)
  | .null => .ok ("null", .null)
  | .other kind => .error (.literalKind kind)

mutual

def expr (p : Bool) : Expr → Except Failure Json
  | .binary s op l r => do
    let left ← expr p l
    let right ← expr p r
    return node p .binary s
      [field "operator" (.string op.spelling), field "left" left, field "right" right]
  | .unary s op e => do
    let operand ← expr p e
    return node p .unary s [field "operator" (.string op.spelling), field "operand" operand]
  | .call s f args => do
    let callee ← expr p f
    let args ← exprs p args
    return node p .call s [field "callee" callee, field "args" (.array args)]
  | .member s o name => do
    let object ← expr p o
    return node p .member s [field "name" (.string name), field "object" object]
  | .name s name => return node p .identifier s [field "name" (.string name)]
  | .self s => return node p .self s []
  | .literal s v => do
    let (kind, value) ← literal v
    return node p .literal s [field "kind" (.string kind), field "value" value]
  | .absent => .error .absentNode

def exprs (p : Bool) : List Expr → Except Failure (List Json)
  | [] => return []
  | e :: es => do
    let v ← expr p e
    let vs ← exprs p es
    return v :: vs

end

mutual

def stmt (p : Bool) : Stmt → Except Failure Json
  | .function f => function p f
  | .classDef s name ms => do
    let methods ← functions p ms
    return node p .classDef s [field "name" (.string name), field "methods" (.array methods)]
  | .branch s c body none => do
    let condition ← expr p c
    let body ← stmts p body
    return node p .branch s
      [field "condition" condition, field "then" (.array body), field "else" .null]
  | .branch s c body (some otherwise) => do
    let condition ← expr p c
    let body ← stmts p body
    let otherwise ← stmts p otherwise
    return node p .branch s
      [field "condition" condition, field "then" (.array body), field "else" (.array otherwise)]
  | .loop s c body => do
    let condition ← expr p c
    let body ← stmts p body
    return node p .loop s [field "condition" condition, field "body" (.array body)]
  | .ret s none => return node p .ret s [field "value" .null]
  | .ret s (some e) => do
    let value ← expr p e
    return node p .ret s [field "value" value]
  | .print s e => do
    let value ← expr p e
    return node p .print s [field "value" value]
  | .expression s e => do
    let value ← expr p e
    return node p .expression s [field "expression" value]
  | .assign s t e => do
    let target ← expr p t
    let value ← expr p e
    return node p .assignment s [field "target" target, field "value" value]
  | .breakLoop s => return node p .breakLoop s []
  | .continueLoop s => return node p .continueLoop s []
  | .absent => .error .absentNode

def stmts (p : Bool) : List Stmt → Except Failure (List Json)
  | [] => return []
  | s :: ss => do
    let v ← stmt p s
    let vs ← stmts p ss
    return v :: vs

def function (p : Bool) : Function Stmt → Except Failure Json
  | ⟨s, name, params, body⟩ => do
    let body ← stmts p body
    return node p .functionDef s
      [field "name" (.string name), field "params" (.array (params.map .string)),
        field "body" (.array body)]

def functions (p : Bool) : List (Function Stmt) → Except Failure (List Json)
  | [] => return []
  | f :: fs => do
    let v ← function p f
    let vs ← functions p fs
    return v :: vs

end

def program (positions : Bool) (p : Program) : Except Failure Json := do
  let body ← stmts positions p.body
  return node positions .program p.span [field "body" (.array body)]

def render (style : Style) (p : Program) : Except Failure Text := do
  let value ← program style.positions p
  match value.firstBadNumber with
  | some digits => .error (.badNumber digits)
  | none =>
    if !style.unit.isEmpty && Json.deepest < value.nesting then .error .tooDeep
    else return value.document (Json.Layout.ofUnit style.unit)

end Document

end Anadil
