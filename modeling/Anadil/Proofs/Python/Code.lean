import Anadil.Proofs.Outcome
import Anadil.Proofs.Tree.Induction
import Anadil.Python.Emit

/-! # Python statements

A program is written in two steps. `Code` is the tree of Python statements that it becomes: blocks are
never empty, methods have their receiver, and functions begin with the declarations of the names that
they borrow. `Node` is the same tree as it is laid out on lines, where an `if` alone in an else is an
`elif`. The lines of a program are those of its tree (`lines_eq`). -/

namespace Anadil.Python

/-! ### Trees of statements -/

/-- A statement of Python. Its expressions are those of the source. -/
inductive Code where
  | function (name : Text) (params : List Text) (body : List Code)
  | classDef (name : Text) (body : List Code)
  | branch (condition : Expr) (body : List Code) (otherwise : Option (List Code))
  | loop (condition : Expr) (body : List Code)
  | global (names : List Text)
  | nonlocal (names : List Text)
  | ret (value : Option Expr)
  | print (value : Expr)
  | expression (value : Expr)
  | assign (target value : Expr)
  | breakLoop
  | continueLoop
  | pass

namespace Code

/-- A block, which is never empty. -/
def orPass : List Code → List Code
  | [] => [.pass]
  | cs => cs

/-- What a body declares in front of its statements. -/
def declarations (scope : Scope) : List Code :=
  (if scope.declared .global = [] then [] else [.global (scope.declared .global)]) ++
    if scope.declared .nonlocal = [] then [] else [.nonlocal (scope.declared .nonlocal)]

/-- The name that a function is written with. -/
def nameOf (style : Style) (isMethod : Bool) (name : Text) : Text :=
  if isMethod then methodName style name else name

/-- The parameters that a function is written with. -/
def paramsOf (isMethod : Bool) (params : List Text) : List Text :=
  if isMethod then "self" :: params else params

mutual

/-- The Python statement that a statement inside scopes becomes. -/
def ofStmt (style : Style) (outer : List Scope) : Stmt → Code
  | .function f => ofFunction style outer false f
  | .classDef _ name methods => .classDef name (orPass (ofMethods style outer methods))
  | .branch _ c body none => .branch c (orPass (ofStmts style outer body)) none
  | .branch _ c body (some otherwise) =>
    .branch c (orPass (ofStmts style outer body)) (some (orPass (ofStmts style outer otherwise)))
  | .loop _ c body => .loop c (orPass (ofStmts style outer body))
  | .ret _ value => .ret value
  | .print _ e => .print e
  | .expression _ e => .expression e
  | .assign _ target e => .assign target e
  | .breakLoop _ => .breakLoop
  | .continueLoop _ => .continueLoop
  | .absent => .pass

/-- The Python statements that statements become. -/
def ofStmts (style : Style) (outer : List Scope) : List Stmt → List Code
  | [] => []
  | s :: ss => ofStmt style outer s :: ofStmts style outer ss

/-- The code of a function, inside scopes. -/
def ofFunction (style : Style) (outer : List Scope) (isMethod : Bool) : Function Stmt → Code
  | ⟨_, name, params, body⟩ =>
    let scope := Scope.ofBody outer params body
    .function (nameOf style isMethod name) (paramsOf isMethod params)
      (declarations scope ++ orPass (ofStmts style (scope :: outer) body))

/-- The code of methods, inside scopes. -/
def ofMethods (style : Style) (outer : List Scope) : List (Function Stmt) → List Code
  | [] => []
  | f :: fs => ofFunction style outer true f :: ofMethods style outer fs

end

/-- The code of a program. -/
def ofProgram (style : Style) (p : Program) : List Code :=
  ofStmts style [Scope.ofBody [] [] p.body] p.body

end Code

/-! ### Layout -/

/-- A line that ends in a colon, and the block below it. -/
structure Clause (ν : Type) where
  head : Text
  body : List ν

/-- A statement on its lines: one line, or a clause with the `elif` and `else` clauses behind it. -/
inductive Node where
  | line (code : Text)
  | block (first : Clause Node) (more : List (Clause Node))

namespace Node

/-- The clauses of statements in an else. What is alone in it and an `if` becomes an `elif`. -/
def elseClauses (chained : Bool) (body : List Node) : List (Clause Node) :=
  match chained, body with
  | true, [.block first more] => ⟨"el" ++ first.head, first.body⟩ :: more
  | _, _ => [⟨"else:", body⟩]

mutual

/-- The lines of a node at a depth. -/
def lines (depth : Nat) : Node → List Line
  | .line code => [⟨depth, code⟩]
  | .block first more => clauseLines depth first ++ clausesLines depth more

/-- The lines of nodes at a depth. -/
def linesAll (depth : Nat) : List Node → List Line
  | [] => []
  | n :: ns => n.lines depth ++ linesAll depth ns

/-- The lines of a clause at a depth. -/
def clauseLines (depth : Nat) : Clause Node → List Line
  | ⟨head, body⟩ => ⟨depth, head⟩ :: linesAll (depth + 1) body

/-- The lines of clauses at a depth. -/
def clausesLines (depth : Nat) : List (Clause Node) → List Line
  | [] => []
  | c :: cs => clauseLines depth c ++ clausesLines depth cs

end

end Node

/-! ### Spelling -/

namespace Code

/-- Whether statements are a single `if`. -/
def isBranch : List Code → Bool
  | [.branch ..] => true
  | _ => false

mutual

/-- A statement on its lines. -/
def node : Code → Except Failure Node
  | .function name params body => do
    let body ← nodes body
    return .block ⟨"def " ++ name ++ "(" ++ Text.join ", " params ++ "):", body⟩ []
  | .classDef name body => do
    let body ← nodes body
    return .block ⟨"class " ++ name ++ ":", body⟩ []
  | .branch c body none => do
    let condition ← exprText c
    let body ← nodes body
    return .block ⟨"if " ++ condition ++ ":", body⟩ []
  | .branch c body (some otherwise) => do
    let condition ← exprText c
    let body ← nodes body
    let rest ← nodes otherwise
    return .block ⟨"if " ++ condition ++ ":", body⟩ (Node.elseClauses (isBranch otherwise) rest)
  | .loop c body => do
    let condition ← exprText c
    let body ← nodes body
    return .block ⟨"while " ++ condition ++ ":", body⟩ []
  | .global names => return .line ("global " ++ Text.join ", " names)
  | .nonlocal names => return .line ("nonlocal " ++ Text.join ", " names)
  | .ret none => return .line "return"
  | .ret (some e) => return .line ("return " ++ (← exprText e))
  | .print e => return .line ("print(" ++ (← exprText e) ++ ")")
  | .expression e => return .line (← exprText e)
  | .assign target e => do
    let target ← exprText target
    let value ← exprText e
    return .line (target ++ " = " ++ value)
  | .breakLoop => return .line "break"
  | .continueLoop => return .line "continue"
  | .pass => return .line "pass"

/-- Statements on their lines. -/
def nodes : List Code → Except Failure (List Node)
  | [] => return []
  | c :: cs => do
    let n ← node c
    let ns ← nodes cs
    return n :: ns

end

end Code

/-! ### The lines of a program -/

/-- The lines of a statement, which may be `chained` to an `if` before, are those of its tree. -/
def LaidOut (style : Style) (s : Stmt) : Prop :=
  ∀ outer depth chained ls, (chained = true → isBranch s = true) →
    stmt style outer depth chained s = .ok ls →
    ∃ n, (Code.ofStmt style outer s).node = .ok n ∧
      ls = if chained then Node.clausesLines depth (Node.elseClauses true [n]) else n.lines depth

section Lists
variable {style : Style} {outer : List Scope} {depth : Nat} {ls : List Line} {ss : List Stmt}

theorem LaidOut.one {s : Stmt} (hs : LaidOut style s) (h : stmt style outer depth false s = .ok ls) :
    ∃ n, (Code.ofStmt style outer s).node = .ok n ∧ ls = n.lines depth := by
  obtain ⟨n, hn, hls⟩ := hs outer depth false ls (by simp) h
  exact ⟨n, hn, by simpa using hls⟩

/-- Only an `if` can be chained. -/
theorem LaidOut.of_unchained {s : Stmt} (hs : isBranch s = false)
    (h : ∀ outer depth ls, stmt style outer depth false s = .ok ls →
      ∃ n, (Code.ofStmt style outer s).node = .ok n ∧ ls = n.lines depth) : LaidOut style s := by
  rintro outer depth (_ | _) ls hchained hls
  · simpa using h outer depth ls hls
  · exact absurd (hchained rfl) (by simp [hs])

theorem stmts_laidOut (hss : ∀ s ∈ ss, LaidOut style s) (h : stmts style outer depth ss = .ok ls) :
    ∃ ns, Code.nodes (Code.ofStmts style outer ss) = .ok ns ∧ ls = Node.linesAll depth ns := by
  induction ss generalizing ls with
  | nil =>
    simp only [stmts, pure_eq_ok] at h
    subst h
    exact ⟨[], rfl, rfl⟩
  | cons s ss ih =>
    simp only [stmts, bind_eq_ok, pure_eq_ok] at h
    obtain ⟨ls₁, h₁, ls₂, h₂, rfl⟩ := h
    obtain ⟨hs, hss⟩ := List.forall_mem_cons.mp hss
    obtain ⟨n, hn, rfl⟩ := hs.one h₁
    obtain ⟨ns, hns, rfl⟩ := ih hss h₂
    refine ⟨n :: ns, ?_, rfl⟩
    simp only [Code.ofStmts, Code.nodes, bind_eq_ok, pure_eq_ok]
    exact ⟨n, hn, ns, hns, rfl⟩

/-- A block is written like statements, once `pass` stands in an empty one. -/
theorem block_laidOut (hss : ∀ s ∈ ss, LaidOut style s) (h : block style outer depth ss = .ok ls) :
    ∃ ns, Code.nodes (Code.orPass (Code.ofStmts style outer ss)) = .ok ns ∧
      ls = Node.linesAll depth ns := by
  cases ss with
  | nil =>
    simp only [block, pure_eq_ok] at h
    subst h
    exact ⟨[.line "pass"], rfl, rfl⟩
  | cons s ss => exact stmts_laidOut hss (by simpa only [block, stmts] using h)

theorem isBranch_ofStmt (s : Stmt) : Code.isBranch [Code.ofStmt style outer s] = isBranch s := by
  cases s with
  | branch span c body otherwise => cases otherwise <;> rfl
  | function f =>
    cases f
    rfl
  | _ => rfl

/-- The other case of an `if` is laid out as its clauses. -/
theorem elseBlock_laidOut (hss : ∀ s ∈ ss, LaidOut style s)
    (h : elseBlock style outer depth ss = .ok ls) :
    ∃ ns, Code.nodes (Code.orPass (Code.ofStmts style outer ss)) = .ok ns ∧
      ls = Node.clausesLines depth
        (Node.elseClauses (Code.isBranch (Code.orPass (Code.ofStmts style outer ss))) ns) := by
  match ss with
  | [] =>
    simp only [elseBlock, pure_eq_ok] at h
    subst h
    exact ⟨[.line "pass"], rfl, rfl⟩
  | [s] =>
    have hs := hss s List.mem_cons_self
    have hb : Code.isBranch (Code.orPass (Code.ofStmts style outer [s])) = isBranch s :=
      isBranch_ofStmt s
    have hone : ∀ {n}, (Code.ofStmt style outer s).node = .ok n →
        Code.nodes (Code.orPass (Code.ofStmts style outer [s])) = .ok [n] := fun hn => by
      simp only [Code.ofStmts, Code.orPass, Code.nodes, bind_eq_ok, pure_eq_ok]
      exact ⟨_, hn, [], rfl, rfl⟩
    rw [hb]
    simp only [elseBlock] at h
    split at h
    · rename_i hbranch
      obtain ⟨n, hn, rfl⟩ := hs outer depth true ls (fun _ => hbranch) h
      exact ⟨[n], hone hn, by rw [hbranch]; rfl⟩
    · rename_i hbranch
      simp only [bind_eq_ok, pure_eq_ok] at h
      obtain ⟨ls₁, h₁, rfl⟩ := h
      obtain ⟨n, hn, rfl⟩ := hs.one h₁
      refine ⟨[n], hone hn, ?_⟩
      rw [Bool.eq_false_iff.mpr hbranch]
      simp [Node.elseClauses, Node.clausesLines, Node.clauseLines, Node.linesAll]
  | s :: t :: ss =>
    have hrest : stmts style outer (depth + 1) (s :: t :: ss) = .ok ls.tail ∧
        ls = ⟨depth, "else:"⟩ :: ls.tail := by
      simp only [elseBlock, bind_eq_ok, pure_eq_ok] at h
      obtain ⟨ls₁, h₁, ls₂, h₂, rfl⟩ := h
      refine ⟨?_, rfl⟩
      rw [stmts]
      simp only [bind_eq_ok, pure_eq_ok]
      exact ⟨ls₁, h₁, ls₂, h₂, rfl⟩
    obtain ⟨ns, hns, htail⟩ := stmts_laidOut hss hrest.1
    refine ⟨ns, hns, ?_⟩
    rw [hrest.2, htail]
    simp [Code.ofStmts, Code.orPass, Code.isBranch, Node.elseClauses, Node.clausesLines, Node.clauseLines]

theorem functionHead_eq (isMethod : Bool) (f : Function Stmt) :
    functionHead style isMethod f =
      "def " ++ Code.nameOf style isMethod f.name ++ "(" ++
        Text.join ", " (Code.paramsOf isMethod f.params) ++ "):" := rfl

theorem declarations_laidOut (depth : Nat) (scope : Scope) :
    ∃ ns, Code.nodes (Code.declarations scope) = .ok ns ∧
      declarations depth scope = Node.linesAll depth ns := by
  simp only [declarations, Code.declarations, List.isEmpty_iff]
  by_cases hg : scope.declared .global = [] <;> by_cases hn : scope.declared .nonlocal = []
  · exact ⟨[], by simp [hg, hn]; rfl, by simp [hg, hn]; rfl⟩
  · exact ⟨[.line ("nonlocal " ++ Text.join ", " (scope.declared .nonlocal))], by simp [hg, hn]; rfl,
      by simp [hg, hn]; rfl⟩
  · exact ⟨[.line ("global " ++ Text.join ", " (scope.declared .global))], by simp [hg, hn]; rfl,
      by simp [hg, hn]; rfl⟩
  · exact ⟨[.line ("global " ++ Text.join ", " (scope.declared .global)),
      .line ("nonlocal " ++ Text.join ", " (scope.declared .nonlocal))], by simp [hg, hn]; rfl,
      by simp [hg, hn]; rfl⟩

theorem linesAll_append (ms ns : List Node) :
    Node.linesAll depth (ms ++ ns) = Node.linesAll depth ms ++ Node.linesAll depth ns := by
  induction ms with
  | nil => rfl
  | cons m ms ih => simp [Node.linesAll, ih]

theorem nodes_append {cs ds : List Code} {ns : List Node} :
    Code.nodes (cs ++ ds) = .ok ns ↔
      ∃ ns₁ ns₂, Code.nodes cs = .ok ns₁ ∧ Code.nodes ds = .ok ns₂ ∧ ns = ns₁ ++ ns₂ := by
  induction cs generalizing ns with
  | nil =>
    constructor
    · intro h
      exact ⟨[], ns, rfl, h, rfl⟩
    · rintro ⟨_, _, h₁, h₂, rfl⟩
      cases h₁
      exact h₂
  | cons c cs ih =>
    simp only [List.cons_append, Code.nodes, bind_eq_ok, pure_eq_ok, ih]
    constructor
    · rintro ⟨n, hn, _, ⟨ns₁, ns₂, h₁, h₂, rfl⟩, rfl⟩
      exact ⟨n :: ns₁, ns₂, ⟨n, hn, ns₁, h₁, rfl⟩, h₂, rfl⟩
    · rintro ⟨_, ns₂, ⟨n, hn, ns₁, h₁, rfl⟩, h₂, rfl⟩
      exact ⟨n, hn, ns₁ ++ ns₂, ⟨ns₁, ns₂, h₁, h₂, rfl⟩, rfl⟩

/-- A function is laid out as a head and a block. -/
theorem function_laidOut {isMethod : Bool} {f : Function Stmt} (hf : ∀ s ∈ f.body, LaidOut style s)
    (h : function style outer depth isMethod f = .ok ls) :
    ∃ n, (Code.ofFunction style outer isMethod f).node = .ok n ∧ ls = n.lines depth := by
  obtain ⟨span, name, params, body⟩ := f
  -- the check of a constructor only refuses
  obtain ⟨body', hbody, rfl⟩ : ∃ body', block style (Scope.ofBody outer params body :: outer) (depth + 1)
      body = .ok body' ∧ ls = ⟨depth, functionHead style isMethod ⟨span, name, params, body⟩⟩ ::
        declarations (depth + 1) (Scope.ofBody outer params body) ++ body' := by
    cases isMethod
    · simp only [function, Bool.false_eq_true, ↓reduceIte] at h
      obtain ⟨body', hbody, h⟩ := bind_eq_ok.mp h
      exact ⟨body', hbody, (pure_eq_ok.mp h).symm⟩
    · simp only [function, ↓reduceIte] at h
      obtain ⟨_, -, h⟩ := bind_eq_ok.mp h
      obtain ⟨body', hbody, h⟩ := bind_eq_ok.mp h
      exact ⟨body', hbody, (pure_eq_ok.mp h).symm⟩
  obtain ⟨ms, hms, hdecl⟩ := declarations_laidOut (depth + 1) (Scope.ofBody outer params body)
  obtain ⟨ns, hns, rfl⟩ := block_laidOut hf hbody
  refine ⟨.block ⟨functionHead style isMethod ⟨span, name, params, body⟩, ms ++ ns⟩ [], ?_, ?_⟩
  · simp only [Code.ofFunction, Code.node, bind_eq_ok, pure_eq_ok, functionHead_eq]
    exact ⟨_, nodes_append.mpr ⟨ms, ns, hms, hns, rfl⟩, rfl⟩
  · simp [Node.lines, Node.clauseLines, Node.clausesLines, linesAll_append, hdecl]

theorem methods_laidOut {fs : List (Function Stmt)} (hfs : ∀ f ∈ fs, ∀ s ∈ f.body, LaidOut style s)
    (h : methods style outer depth fs = .ok ls) :
    ∃ ns, Code.nodes (Code.ofMethods style outer fs) = .ok ns ∧ ls = Node.linesAll depth ns := by
  induction fs generalizing ls with
  | nil =>
    simp only [methods, pure_eq_ok] at h
    subst h
    exact ⟨[], rfl, rfl⟩
  | cons f fs ih =>
    simp only [methods, bind_eq_ok, pure_eq_ok] at h
    obtain ⟨ls₁, h₁, ls₂, h₂, rfl⟩ := h
    obtain ⟨hf, hfs⟩ := List.forall_mem_cons.mp hfs
    obtain ⟨n, hn, rfl⟩ := function_laidOut hf h₁
    obtain ⟨ns, hns, rfl⟩ := ih hfs h₂
    refine ⟨n :: ns, ?_, rfl⟩
    simp only [Code.ofMethods, Code.nodes, bind_eq_ok, pure_eq_ok]
    exact ⟨n, hn, ns, hns, rfl⟩

/-- The body of a class is laid out as its methods, or as `pass`. -/
theorem classBody_laidOut {fs : List (Function Stmt)} (hfs : ∀ f ∈ fs, ∀ s ∈ f.body, LaidOut style s)
    (h : classBody style outer depth fs = .ok ls) :
    ∃ ns, Code.nodes (Code.orPass (Code.ofMethods style outer fs)) = .ok ns ∧
      ls = Node.linesAll depth ns := by
  cases fs with
  | nil =>
    simp only [classBody, pure_eq_ok] at h
    subst h
    exact ⟨[.line "pass"], rfl, rfl⟩
  | cons f fs => exact methods_laidOut hfs (by simpa only [classBody, methods] using h)

theorem if_lines (chained : Bool) (condition : Text) (body : List Node) (more : List (Clause Node)) :
    (let n : Node := .block ⟨"if " ++ condition ++ ":", body⟩ more
      if chained then Node.clausesLines depth (Node.elseClauses true [n]) else n.lines depth) =
      ⟨depth, (if chained then "elif " else "if ") ++ condition ++ ":"⟩ ::
        Node.linesAll (depth + 1) body ++ Node.clausesLines depth more := by
  cases chained with
  | false => rfl
  | true => rfl

end Lists

theorem laidOut (style : Style) (s : Stmt) : LaidOut style s := by
  induction s using Stmt.induct with
  | function f ih =>
    refine .of_unchained rfl fun outer depth ls h => ?_
    simp only [stmt] at h
    simpa only [Code.ofStmt] using function_laidOut ih h
  | classDef span name methods ih =>
    refine .of_unchained rfl fun outer depth ls h => ?_
    simp only [stmt, bind_eq_ok, pure_eq_ok] at h
    obtain ⟨ls, h, rfl⟩ := h
    obtain ⟨ns, hns, rfl⟩ := classBody_laidOut ih h
    refine ⟨.block ⟨"class " ++ name ++ ":", ns⟩ [], ?_, ?_⟩
    · simp only [Code.ofStmt, Code.node, bind_eq_ok, pure_eq_ok]
      exact ⟨ns, hns, rfl⟩
    · simp [Node.lines, Node.clauseLines, Node.clausesLines]
  | branch span c body ih =>
    intro outer depth chained ls _ h
    simp only [stmt, bind_eq_ok, pure_eq_ok] at h
    obtain ⟨condition, hc, ls, h, rfl⟩ := h
    obtain ⟨ns, hns, rfl⟩ := block_laidOut ih h
    refine ⟨.block ⟨"if " ++ condition ++ ":", ns⟩ [], ?_, ?_⟩
    · simp only [Code.ofStmt, Code.node, bind_eq_ok, pure_eq_ok]
      exact ⟨condition, hc, ns, hns, rfl⟩
    · rw [if_lines]
      simp [Node.clausesLines]
  | branchElse span c body otherwise ih ih' =>
    intro outer depth chained ls _ h
    simp only [stmt, bind_eq_ok, pure_eq_ok] at h
    obtain ⟨condition, hc, ls₁, h₁, ls₂, h₂, rfl⟩ := h
    obtain ⟨ns, hns, rfl⟩ := block_laidOut ih h₁
    obtain ⟨ms, hms, rfl⟩ := elseBlock_laidOut ih' h₂
    refine ⟨.block ⟨"if " ++ condition ++ ":", ns⟩ (Node.elseClauses
      (Code.isBranch (Code.orPass (Code.ofStmts style outer otherwise))) ms), ?_, ?_⟩
    · simp only [Code.ofStmt, Code.node, bind_eq_ok, pure_eq_ok]
      exact ⟨condition, hc, ns, hns, ms, hms, rfl⟩
    · rw [if_lines]
  | loop span c body ih =>
    refine .of_unchained rfl fun outer depth ls h => ?_
    simp only [stmt, bind_eq_ok, pure_eq_ok] at h
    obtain ⟨condition, hc, ls, h, rfl⟩ := h
    obtain ⟨ns, hns, rfl⟩ := block_laidOut ih h
    refine ⟨.block ⟨"while " ++ condition ++ ":", ns⟩ [], ?_, ?_⟩
    · simp only [Code.ofStmt, Code.node, bind_eq_ok, pure_eq_ok]
      exact ⟨condition, hc, ns, hns, rfl⟩
    · simp [Node.lines, Node.clauseLines, Node.clausesLines]
  | ret span value =>
    refine .of_unchained rfl fun outer depth ls h => ?_
    cases value with
    | none =>
      simp only [stmt, pure_eq_ok] at h
      exact ⟨.line "return", rfl, h.symm⟩
    | some e =>
      simp only [stmt, bind_eq_ok, pure_eq_ok] at h
      obtain ⟨value, hv, rfl⟩ := h
      exact ⟨.line ("return " ++ value), by simp only [Code.ofStmt, Code.node, hv]; rfl, rfl⟩
  | print span e =>
    refine .of_unchained rfl fun outer depth ls h => ?_
    simp only [stmt, bind_eq_ok, pure_eq_ok] at h
    obtain ⟨value, hv, rfl⟩ := h
    exact ⟨.line ("print(" ++ value ++ ")"), by simp only [Code.ofStmt, Code.node, hv]; rfl, rfl⟩
  | expression span e =>
    refine .of_unchained rfl fun outer depth ls h => ?_
    simp only [stmt, bind_eq_ok, pure_eq_ok] at h
    obtain ⟨value, hv, rfl⟩ := h
    exact ⟨.line value, by simp only [Code.ofStmt, Code.node, hv]; rfl, rfl⟩
  | assign span target e =>
    refine .of_unchained rfl fun outer depth ls h => ?_
    simp only [stmt, bind_eq_ok, pure_eq_ok] at h
    obtain ⟨target', ht, value, hv, rfl⟩ := h
    exact ⟨.line (target' ++ " = " ++ value), by simp only [Code.ofStmt, Code.node, ht, hv]; rfl, rfl⟩
  | breakLoop span =>
    refine .of_unchained rfl fun outer depth ls h => ?_
    simp only [stmt, pure_eq_ok] at h
    exact ⟨.line "break", rfl, h.symm⟩
  | continueLoop span =>
    refine .of_unchained rfl fun outer depth ls h => ?_
    simp only [stmt, pure_eq_ok] at h
    exact ⟨.line "continue", rfl, h.symm⟩
  | absent =>
    refine .of_unchained rfl fun outer depth ls h => ?_
    simp [stmt] at h

theorem lines_eq {style : Style} {p : Program} {ls : List Line} (h : lines style p = .ok ls) :
    ∃ ns, Code.nodes (Code.ofProgram style p) = .ok ns ∧ ls = Node.linesAll 0 ns :=
  stmts_laidOut (fun s _ => laidOut style s) h

end Anadil.Python
