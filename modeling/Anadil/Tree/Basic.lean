import Anadil.Token.Basic

/-! # Trees

The tree of a program: expressions, statements, and the functions that stand among statements and in
classes. Every node has the span of the source that it was read from. A tree that was built by hand
may lack parts; what is missing is `absent`. -/

namespace Anadil

/-- A value written in the source. -/
inductive Literal where
  | string (content : Text)
  /-- The digits as they are written. -/
  | number (digits : Text)
  | boolean (value : Bool)
  | null
  /-- A value of a kind that the language does not have. -/
  | other (kind : Text)
deriving DecidableEq, Repr, Inhabited

/-- An expression. Operators are kept as they are written, so `ve` is not `&&`. -/
inductive Expr where
  | binary (span : Span) (operator : Kind) (left right : Expr)
  | unary (span : Span) (operator : Kind) (operand : Expr)
  | call (span : Span) (callee : Expr) (args : List Expr)
  | member (span : Span) (object : Expr) (name : Text)
  | name (span : Span) (name : Text)
  | self (span : Span)
  | literal (span : Span) (value : Literal)
  | absent
deriving Inhabited

/-- A function, or a method when a class holds it. -/
structure Function (σ : Type) where
  span : Span
  name : Text
  params : List Text
  body : List σ
deriving Inhabited

/-- A statement. An else-if is an else branch that holds one `branch`. -/
inductive Stmt where
  | function (f : Function Stmt)
  | classDef (span : Span) (name : Text) (methods : List (Function Stmt))
  | branch (span : Span) (condition : Expr) (body : List Stmt) (otherwise : Option (List Stmt))
  | loop (span : Span) (condition : Expr) (body : List Stmt)
  | ret (span : Span) (value : Option Expr)
  | print (span : Span) (value : Expr)
  | expression (span : Span) (value : Expr)
  | assign (span : Span) (target value : Expr)
  | breakLoop (span : Span)
  | continueLoop (span : Span)
  | absent
deriving Inhabited

/-- A whole program. -/
structure Program where
  span : Span
  body : List Stmt

namespace Expr

def span : Expr → Span
  | binary s .. | unary s .. | call s .. | member s .. | name s .. | self s | literal s _ => s
  | absent => Span.none

/-- Whether an expression can be called or assigned to. -/
def isPlace : Expr → Bool
  | name .. | member .. => true
  | _ => false

end Expr

def Stmt.span : Stmt → Span
  | .function f => f.span
  | .classDef s .. | .branch s .. | .loop s .. | .ret s _ | .print s _ | .expression s _ | .assign s ..
  | .breakLoop s | .continueLoop s => s
  | .absent => Span.none

end Anadil
