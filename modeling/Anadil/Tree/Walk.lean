import Anadil.Tree.Basic

/-! # Walks

The nodes of a tree from the top down and from left to right. -/

namespace Anadil

/-- What a node of a tree is. -/
inductive NodeKind where
  | program
  | functionDef
  | classDef
  | branch
  | loop
  | ret
  | print
  | expression
  | assignment
  | breakLoop
  | continueLoop
  | binary
  | unary
  | call
  | member
  | identifier
  | self
  | literal
deriving DecidableEq, Repr

def NodeKind.name : NodeKind → String
  | program => "Program"
  | functionDef => "FunctionDef"
  | classDef => "ClassDef"
  | branch => "If"
  | loop => "While"
  | ret => "Return"
  | print => "Print"
  | expression => "ExprStatement"
  | assignment => "Assignment"
  | breakLoop => "Break"
  | continueLoop => "Continue"
  | binary => "BinaryExpr"
  | unary => "UnaryExpr"
  | call => "Call"
  | member => "Member"
  | identifier => "Identifier"
  | self => "Self"
  | literal => "Literal"

/-- A node and, where `enter` lets the walk go on, what stands below it. -/
def visit (enter : NodeKind → Bool) (kind : NodeKind) (span : Span)
    (below : List (NodeKind × Span)) : List (NodeKind × Span) :=
  (kind, span) :: if enter kind then below else []

mutual

def Expr.nodes (enter : NodeKind → Bool) : Expr → List (NodeKind × Span)
  | .binary s _ l r => visit enter .binary s (l.nodes enter ++ r.nodes enter)
  | .unary s _ e => visit enter .unary s (e.nodes enter)
  | .call s f args => visit enter .call s (f.nodes enter ++ exprNodes enter args)
  | .member s o _ => visit enter .member s (o.nodes enter)
  | .name s _ => visit enter .identifier s []
  | .self s => visit enter .self s []
  | .literal s _ => visit enter .literal s []
  | .absent => []

def exprNodes (enter : NodeKind → Bool) : List Expr → List (NodeKind × Span)
  | [] => []
  | e :: es => e.nodes enter ++ exprNodes enter es

end

mutual

def Stmt.nodes (enter : NodeKind → Bool) : Stmt → List (NodeKind × Span)
  | .function f => functionNodes enter f
  | .classDef s _ methods => visit enter .classDef s (methodNodes enter methods)
  | .branch s c body none => visit enter .branch s (c.nodes enter ++ stmtNodes enter body)
  | .branch s c body (some otherwise) =>
    visit enter .branch s (c.nodes enter ++ stmtNodes enter body ++ stmtNodes enter otherwise)
  | .loop s c body => visit enter .loop s (c.nodes enter ++ stmtNodes enter body)
  | .ret s none => visit enter .ret s []
  | .ret s (some e) => visit enter .ret s (e.nodes enter)
  | .print s e => visit enter .print s (e.nodes enter)
  | .expression s e => visit enter .expression s (e.nodes enter)
  | .assign s t e => visit enter .assignment s (t.nodes enter ++ e.nodes enter)
  | .breakLoop s => visit enter .breakLoop s []
  | .continueLoop s => visit enter .continueLoop s []
  | .absent => []

def stmtNodes (enter : NodeKind → Bool) : List Stmt → List (NodeKind × Span)
  | [] => []
  | s :: ss => s.nodes enter ++ stmtNodes enter ss

def functionNodes (enter : NodeKind → Bool) : Function Stmt → List (NodeKind × Span)
  | ⟨s, _, _, body⟩ => visit enter .functionDef s (stmtNodes enter body)

def methodNodes (enter : NodeKind → Bool) : List (Function Stmt) → List (NodeKind × Span)
  | [] => []
  | f :: fs => functionNodes enter f ++ methodNodes enter fs

end

/-- The nodes of a program, where nothing is visited below a node that `enter` refuses. -/
def Program.nodes (enter : NodeKind → Bool) (p : Program) : List (NodeKind × Span) :=
  visit enter .program p.span (stmtNodes enter p.body)

end Anadil
