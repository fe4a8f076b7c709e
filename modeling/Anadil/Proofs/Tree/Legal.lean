import Anadil.Tree.Parser

/-! # Legal trees

What holds of every tree that is read from tokens, at any depth: names that Python code can use,
operators that the language has, `dön`, `kır`, `devam` and `bu` only where they mean something, and
every name and every literal the text of some token. The context of a part is that of the reading. -/

namespace Anadil

namespace Parser

/-- What is known of the words of a source. -/
abbrev Lexicon := Kind → Text → Prop

/-- A name that may be used in a context: no reserved word of Python, not `print`, and in a method not
the receiver. -/
structure Context.MayName (ctx : Context) (name : Text) : Prop where
  reserved : Python.isReserved name = false
  print : name ≠ ("print" : Text)
  self : ctx.inMethod = true → name ≠ ("self" : Text)

instance (ctx : Context) (name : Text) : Decidable (ctx.MayName name) :=
  decidable_of_iff (Python.isReserved name = false ∧ name ≠ ("print" : Text) ∧
      (ctx.inMethod = true → name ≠ ("self" : Text)))
    ⟨fun h => ⟨h.1, h.2.1, h.2.2⟩, fun h => ⟨h.1, h.2, h.3⟩⟩

/-- The operators that join two operands. -/
def joiningKinds : List Kind := [
    .orWord, .orOr, .andWord, .andAnd, .equal, .notEqual, .less, .lessEqual, .greater, .greaterEqual,
    .plus, .minus, .star, .slash, .percent]

/-- The operators that stand in front of an operand. -/
def leadingKinds : List Kind := [.notWord, .bang, .minus]

end Parser

open Anadil.Parser

/-- A literal that can be written. -/
def Literal.Legal (known : Lexicon) : Literal → Prop
  | .string content => known .string content
  | .number digits => known .number digits
  | .boolean _ | .null => True
  | .other _ => False

mutual

/-- An expression that can stand in a context. -/
def Expr.Legal (known : Lexicon) (ctx : Context) : Expr → Prop
  | .binary _ op l r => op ∈ joiningKinds ∧ l.Legal known ctx ∧ r.Legal known ctx
  | .unary _ op e => op ∈ leadingKinds ∧ e.Legal known ctx
  | .call _ f args => f.isPlace = true ∧ f.Legal known ctx ∧ exprsLegal known ctx args
  | .member _ o name =>
    o.Legal known ctx ∧ Python.isReserved name = false ∧ known .identifier name
  | .name _ name => ctx.MayName name ∧ known .identifier name
  | .self _ => ctx.inMethod = true
  | .literal _ v => v.Legal known
  | .absent => False

/-- Expressions that can stand in a context. -/
def exprsLegal (known : Lexicon) (ctx : Context) : List Expr → Prop
  | [] => True
  | e :: es => e.Legal known ctx ∧ exprsLegal known ctx es

end

mutual

/-- A statement that can stand in a context. -/
def Stmt.Legal (known : Lexicon) (ctx : Context) : Stmt → Prop
  | .function f => functionLegal known ctx false f
  | .classDef _ name methods =>
    ctx.MayName name ∧ known .identifier name ∧ methodsLegal known ctx methods
  | .branch _ c body none => c.Legal known ctx ∧ stmtsLegal known ctx body
  | .branch _ c body (some otherwise) =>
    c.Legal known ctx ∧ stmtsLegal known ctx body ∧ stmtsLegal known ctx otherwise
  | .loop _ c body => c.Legal known ctx ∧ stmtsLegal known ctx.loop body
  | .ret _ none => ctx.inFunction = true
  | .ret _ (some e) => ctx.inFunction = true ∧ e.Legal known ctx
  | .print _ e => e.Legal known ctx
  | .expression _ e => e.Legal known ctx
  | .assign _ target e => target.isPlace = true ∧ target.Legal known ctx ∧ e.Legal known ctx
  | .breakLoop _ | .continueLoop _ => ctx.inLoop = true
  | .absent => False

/-- Statements that can stand in a context. -/
def stmtsLegal (known : Lexicon) (ctx : Context) : List Stmt → Prop
  | [] => True
  | s :: ss => s.Legal known ctx ∧ stmtsLegal known ctx ss

/-- A function that is legal in a context. Its name and its parameters belong to the place where it
stands, and a method has its receiver besides them. -/
def functionLegal (known : Lexicon) (ctx : Context) (isMethod : Bool) : Function Stmt → Prop
  | ⟨_, name, params, body⟩ =>
    (ctx.MayName name ∧ known .identifier name) ∧
      (∀ n ∈ params, ctx.MayName n ∧ known .identifier n) ∧ params.Nodup ∧
      (isMethod = true → ("self" : Text) ∉ params) ∧ stmtsLegal known (ctx.function isMethod) body

/-- Methods that can stand in a context. -/
def methodsLegal (known : Lexicon) (ctx : Context) : List (Function Stmt) → Prop
  | [] => True
  | f :: fs => functionLegal known ctx true f ∧ methodsLegal known ctx fs

end

section Lists
variable {known : Lexicon} {ctx : Context}

theorem exprsLegal_iff {es : List Expr} : exprsLegal known ctx es ↔ ∀ e ∈ es, e.Legal known ctx := by
  induction es with
  | nil => simp [exprsLegal]
  | cons e es ih => simp [exprsLegal, ih]

theorem stmtsLegal_iff {body : List Stmt} :
    stmtsLegal known ctx body ↔ ∀ s ∈ body, s.Legal known ctx := by
  induction body with
  | nil => simp [stmtsLegal]
  | cons s body ih => simp [stmtsLegal, ih]

theorem methodsLegal_iff {fs : List (Function Stmt)} :
    methodsLegal known ctx fs ↔ ∀ f ∈ fs, functionLegal known ctx true f := by
  induction fs with
  | nil => simp [methodsLegal]
  | cons f fs ih => simp [methodsLegal, ih]

/-- A function may be written where its name and its parameters may stand and its body is legal inside it. -/
theorem functionLegal_iff {isMethod : Bool} {f : Function Stmt} :
    functionLegal known ctx isMethod f ↔
      (ctx.MayName f.name ∧ known .identifier f.name) ∧
        (∀ n ∈ f.params, ctx.MayName n ∧ known .identifier n) ∧ f.params.Nodup ∧
        (isMethod = true → ("self" : Text) ∉ f.params) ∧
        stmtsLegal known (ctx.function isMethod) f.body := by
  cases f
  rw [functionLegal]

end Lists

end Anadil
