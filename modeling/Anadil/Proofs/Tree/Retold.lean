import Anadil.Proofs.Tree.Induction

/-! # Retold trees

A tree is retold with other spans and other literals, and all else stays. Without its spans it is bare; a
view keeps what counts of their starts; and a reader sees each stray byte of a string literal as U+FFFD. -/

namespace Anadil

/-- What stands in a retold tree for a span and for a literal. -/
structure Retelling where
  span : Span → Span
  value : Literal → Literal

mutual

/-- An expression with other spans and literals. -/
def Expr.retold (t : Retelling) : Expr → Expr
  | .binary s op l r => .binary (t.span s) op (l.retold t) (r.retold t)
  | .unary s op e => .unary (t.span s) op (e.retold t)
  | .call s f args => .call (t.span s) (f.retold t) (exprsRetold t args)
  | .member s o name => .member (t.span s) (o.retold t) name
  | .name s name => .name (t.span s) name
  | .self s => .self (t.span s)
  | .literal s v => .literal (t.span s) (t.value v)
  | .absent => .absent

/-- Expressions with other spans and literals. -/
def exprsRetold (t : Retelling) : List Expr → List Expr
  | [] => []
  | e :: es => e.retold t :: exprsRetold t es

end

mutual

/-- A statement with other spans and literals. -/
def Stmt.retold (t : Retelling) : Stmt → Stmt
  | .function f => .function (functionRetold t f)
  | .classDef s name methods => .classDef (t.span s) name (methodsRetold t methods)
  | .branch s c body none => .branch (t.span s) (c.retold t) (stmtsRetold t body) none
  | .branch s c body (some otherwise) =>
    .branch (t.span s) (c.retold t) (stmtsRetold t body) (some (stmtsRetold t otherwise))
  | .loop s c body => .loop (t.span s) (c.retold t) (stmtsRetold t body)
  | .ret s value => .ret (t.span s) (value.map (Expr.retold t))
  | .print s e => .print (t.span s) (e.retold t)
  | .expression s e => .expression (t.span s) (e.retold t)
  | .assign s target e => .assign (t.span s) (target.retold t) (e.retold t)
  | .breakLoop s => .breakLoop (t.span s)
  | .continueLoop s => .continueLoop (t.span s)
  | .absent => .absent

/-- Statements with other spans and literals. -/
def stmtsRetold (t : Retelling) : List Stmt → List Stmt
  | [] => []
  | s :: ss => s.retold t :: stmtsRetold t ss

/-- A function with other spans and literals. -/
def functionRetold (t : Retelling) : Function Stmt → Function Stmt
  | ⟨s, name, params, body⟩ => ⟨t.span s, name, params, stmtsRetold t body⟩

/-- Methods with other spans and literals. -/
def methodsRetold (t : Retelling) : List (Function Stmt) → List (Function Stmt)
  | [] => []
  | f :: fs => functionRetold t f :: methodsRetold t fs

end

/-- A program with other spans and literals. -/
def Program.retold (t : Retelling) (p : Program) : Program := ⟨t.span p.span, stmtsRetold t p.body⟩

theorem exprsRetold_eq_map (t : Retelling) (es : List Expr) : exprsRetold t es = es.map (Expr.retold t) := by
  induction es with
  | nil => rfl
  | cons e es ih => rw [exprsRetold, ih, List.map_cons]

theorem stmtsRetold_eq_map (t : Retelling) (ss : List Stmt) : stmtsRetold t ss = ss.map (Stmt.retold t) := by
  induction ss with
  | nil => rfl
  | cons s ss ih => rw [stmtsRetold, ih, List.map_cons]

theorem methodsRetold_eq_map (t : Retelling) (fs : List (Function Stmt)) :
    methodsRetold t fs = fs.map (functionRetold t) := by
  induction fs with
  | nil => rfl
  | cons f fs ih => rw [methodsRetold, ih, List.map_cons]

theorem Expr.isPlace_congr {t : Retelling} {e e' : Expr} (h : e.retold t = e'.retold t) :
    e.isPlace = e'.isPlace := by
  have hplace (e : Expr) : (e.retold t).isPlace = e.isPlace := by
    cases e <;> simp [retold, isPlace]
  rw [← hplace e, h, hplace e']

/-! ### Bare and cleaned trees -/

/-- Every span blotted out. -/
abbrev Retelling.bare : Retelling := ⟨fun _ => .none, fun v => v⟩

/-- An expression without its spans. -/
abbrev Expr.bare (e : Expr) : Expr := e.retold .bare

/-- A statement without its spans. -/
abbrev Stmt.bare (s : Stmt) : Stmt := s.retold .bare

/-- A program without its spans. Two programs say the same if they are equal so. -/
abbrev Program.bare (p : Program) : Program := p.retold .bare

/-- A literal with every stray byte replaced by U+FFFD. -/
def Literal.cleaned : Literal → Literal
  | .string content => .string content.clean
  | v => v

/-- Every literal without its stray bytes. -/
abbrev Retelling.cleaned : Retelling := ⟨fun s => s, Literal.cleaned⟩

/-- An expression without stray bytes in its string literals. -/
abbrev Expr.cleaned (e : Expr) : Expr := e.retold .cleaned

/-- A statement without stray bytes in its string literals. -/
abbrev Stmt.cleaned (s : Stmt) : Stmt := s.retold .cleaned

/-- A program without stray bytes in its string literals. -/
abbrev Program.cleaned (p : Program) : Program := p.retold .cleaned

/-! ### Views -/

/-- What counts of a line and a column. A column moved to the right moves in the view. -/
structure View where
  see : Int → Int → Span
  shift {line column line' column' : Int} (h : see line column = see line' column') (n : Int) :
    see line (column + n) = see line' (column' + n)

namespace View

/-- No place counts. -/
def blind : View := ⟨fun _ _ => .none, fun _ _ => rfl⟩

/-- The line and the column count, and offsets do not. -/
def placed : View := ⟨fun line column => ⟨0, 0, line, column⟩, fun h n => by
  obtain ⟨-, -, rfl, rfl⟩ := Span.mk.inj h
  rfl⟩

/-- What counts of a span. -/
def span (v : View) (s : Span) : Span := v.see s.line s.column

/-- Every span replaced by what counts of it. -/
abbrev retelling (v : View) : Retelling := ⟨v.span, fun x => x⟩

end View

instance : Coe View Retelling := ⟨View.retelling⟩

/-- A program in a view, which is that of its statements. -/
def Program.viewed (v : View) (p : Program) : Program := ⟨.none, stmtsRetold v p.body⟩

end Anadil
