import Anadil.Python.Expr
import Anadil.Python.Scope

/-! # Programs in Python

A program becomes a list of lines, each with the depth of its block. A block without statements is
`pass`, an else that holds one `if` is `elif`, and the method that the style names becomes the
initialiser, which may not return a value. -/

namespace Anadil.Python

/-- How Python code is written. -/
structure Style where
  /-- Blanks for each level. -/
  indent : Int
  /-- The method that becomes `__init__`; none when empty. -/
  constructor : Text
deriving DecidableEq, Repr

/-- Four blanks, and `kurucu` makes an object. -/
def Style.default : Style := ⟨4, "kurucu"⟩

/-- A line of code and the depth of its block. -/
structure Line where
  depth : Nat
  code : Text
deriving DecidableEq, Repr

def methodName (style : Style) (name : Text) : Text :=
  if !style.constructor.isEmpty && name == style.constructor then "__init__" else name

mutual

/-- The first return with a value in a statement, outside the functions and classes in it. -/
def valuedReturn : Stmt → Option Span
  | .ret s (some _) => some s
  | .branch _ _ body none => valuedReturnIn body
  | .branch _ _ body (some otherwise) => (valuedReturnIn body).or (valuedReturnIn otherwise)
  | .loop _ _ body => valuedReturnIn body
  | _ => none

def valuedReturnIn : List Stmt → Option Span
  | [] => none
  | s :: ss => (valuedReturn s).or (valuedReturnIn ss)

end

def declarations (depth : Nat) (scope : Scope) : List Line :=
  let declare (word : String) (names : List Text) : List Line :=
    if names.isEmpty then [] else [⟨depth, word ++ Text.join ", " names⟩]
  declare "global " (scope.declared .global) ++ declare "nonlocal " (scope.declared .nonlocal)

/-- A method's refusal: the initialiser returns a value. -/
def checkMethod (style : Style) (f : Function Stmt) : Except Failure Unit :=
  if methodName style f.name == ("__init__" : Text) then
    match valuedReturnIn f.body with
    | some s => .error (.constructorReturns f.name s.line s.column)
    | none => .ok ()
  else .ok ()

def functionHead (style : Style) (isMethod : Bool) (f : Function Stmt) : Text :=
  let name := if isMethod then methodName style f.name else f.name
  let params : List Text := if isMethod then "self" :: f.params else f.params
  "def " ++ name ++ "(" ++ Text.join ", " params ++ "):"

def isBranch : Stmt → Bool
  | .branch .. => true
  | _ => false

mutual

/-- The lines of a statement at a depth inside scopes. An `if` that is `chained` to one before is
written `elif`. -/
def stmt (style : Style) (outer : List Scope) (depth : Nat) (chained : Bool) :
    Stmt → Except Failure (List Line)
  | .function f => function style outer depth false f
  | .classDef _ name methods => do
    let body ← classBody style outer (depth + 1) methods
    return ⟨depth, "class " ++ name ++ ":"⟩ :: body
  | .branch _ c body none => do
    let condition ← exprText c
    let body ← block style outer (depth + 1) body
    return ⟨depth, (if chained then "elif " else "if ") ++ condition ++ ":"⟩ :: body
  | .branch _ c body (some otherwise) => do
    let condition ← exprText c
    let body ← block style outer (depth + 1) body
    let rest ← elseBlock style outer depth otherwise
    return ⟨depth, (if chained then "elif " else "if ") ++ condition ++ ":"⟩ :: body ++ rest
  | .loop _ c body => do
    let condition ← exprText c
    let body ← block style outer (depth + 1) body
    return ⟨depth, "while " ++ condition ++ ":"⟩ :: body
  | .ret _ none => return [⟨depth, "return"⟩]
  | .ret _ (some e) => do
    let value ← exprText e
    return [⟨depth, "return " ++ value⟩]
  | .print _ e => do
    let value ← exprText e
    return [⟨depth, "print(" ++ value ++ ")"⟩]
  | .expression _ e => do
    let value ← exprText e
    return [⟨depth, value⟩]
  | .assign _ t e => do
    let target ← exprText t
    let value ← exprText e
    return [⟨depth, target ++ " = " ++ value⟩]
  | .breakLoop _ => return [⟨depth, "break"⟩]
  | .continueLoop _ => return [⟨depth, "continue"⟩]
  | .absent => .error .absentStatement

def stmts (style : Style) (outer : List Scope) (depth : Nat) :
    List Stmt → Except Failure (List Line)
  | [] => return []
  | s :: ss => do
    let lines ← stmt style outer depth false s
    let more ← stmts style outer depth ss
    return lines ++ more

/-- The lines of a block, which is never empty. -/
def block (style : Style) (outer : List Scope) (depth : Nat) : List Stmt → Except Failure (List Line)
  | [] => return [⟨depth, "pass"⟩]
  | s :: ss => do
    let lines ← stmt style outer depth false s
    let more ← stmts style outer depth ss
    return lines ++ more

/-- The lines of an else branch of an `if` at a depth. -/
def elseBlock (style : Style) (outer : List Scope) (depth : Nat) :
    List Stmt → Except Failure (List Line)
  | [] => return [⟨depth, "else:"⟩, ⟨depth + 1, "pass"⟩]
  | [s] =>
    if isBranch s then stmt style outer depth true s
    else do
      let lines ← stmt style outer (depth + 1) false s
      return ⟨depth, "else:"⟩ :: lines
  | s :: ss => do
    let lines ← stmt style outer (depth + 1) false s
    let more ← stmts style outer (depth + 1) ss
    return ⟨depth, "else:"⟩ :: lines ++ more

def function (style : Style) (outer : List Scope) (depth : Nat) (isMethod : Bool) :
    Function Stmt → Except Failure (List Line)
  | ⟨span, name, params, body⟩ => do
    let f : Function Stmt := ⟨span, name, params, body⟩
    if isMethod then checkMethod style f
    let scope := Scope.ofBody outer params body
    let lines ← block style (scope :: outer) (depth + 1) body
    return ⟨depth, functionHead style isMethod f⟩ :: declarations (depth + 1) scope ++ lines

def classBody (style : Style) (outer : List Scope) (depth : Nat) :
    List (Function Stmt) → Except Failure (List Line)
  | [] => return [⟨depth, "pass"⟩]
  | f :: fs => do
    let lines ← function style outer depth true f
    let more ← methods style outer depth fs
    return lines ++ more

def methods (style : Style) (outer : List Scope) (depth : Nat) :
    List (Function Stmt) → Except Failure (List Line)
  | [] => return []
  | f :: fs => do
    let lines ← function style outer depth true f
    let more ← methods style outer depth fs
    return lines ++ more

end

def lines (style : Style) (p : Program) : Except Failure (List Line) :=
  stmts style [Scope.ofBody [] [] p.body] 0 p.body

def Line.text (indent : Nat) (l : Line) : Text := Text.blanks (indent * l.depth) ++ l.code ++ "\n"

def generate (style : Style) (p : Program) : Except Failure Text := do
  if style.indent < 1 then .error (.indent style.indent)
  let ls ← lines style p
  return ls.flatMap (Line.text style.indent.toNat)

def generate? (style : Style) : Option Program → Except Failure Text
  | some p => generate style p
  | none => if style.indent < 1 then .error (.indent style.indent) else .error .noProgram

end Anadil.Python
