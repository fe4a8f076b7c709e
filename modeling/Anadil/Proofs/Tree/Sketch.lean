import Anadil.Proofs.Json.Difference
import Anadil.Proofs.Tree.Induction
import Anadil.Tree.Document

/-! # What a document says of a tree

The sketch of a tree is what a comparison sees of its document: every node with its kind and its parts,
and no positions. -/

namespace Anadil

variable {v : Json} {vs : List Json} {p : Bool}

/-- A node as an object, its fields in order. -/
def sketchNode (kind : NodeKind) (front back : List (Text × Json)) : Json :=
  .object (front ++ (("type" : Text), Json.string kind.name) :: back)

/-- A literal as its tree shows it. -/
def Literal.sketch : Literal → Json
  | .string content => sketchNode .literal [("kind", .string "string")] [("value", .string content.clean)]
  | .number digits => sketchNode .literal [("kind", .string "number")] [("value", .number (Json.spelled digits))]
  | .boolean b => sketchNode .literal [("kind", .string "boolean")] [("value", .bool b)]
  | .null | .other _ => sketchNode .literal [("kind", .string "null")] []

mutual

/-- An expression as its tree shows it. -/
def Expr.sketch : Expr → Json
  | .binary _ op l r =>
    sketchNode .binary [("left", l.sketch), ("operator", .string (Text.clean op.spelling)), ("right", r.sketch)] []
  | .unary _ op e => sketchNode .unary [("operand", e.sketch), ("operator", .string (Text.clean op.spelling))] []
  | .call _ f args => sketchNode .call [("args", .array (exprsSketch args)), ("callee", f.sketch)] []
  | .member _ o name => sketchNode .member [("name", .string name.clean), ("object", o.sketch)] []
  | .name _ name => sketchNode .identifier [("name", .string name.clean)] []
  | .self _ => sketchNode .self [] []
  | .literal _ v => v.sketch
  | .absent => .null

/-- Expressions as their trees show them. -/
def exprsSketch : List Expr → List Json
  | [] => []
  | e :: es => e.sketch :: exprsSketch es

end

mutual

/-- The sketch of a statement. An absent part leaves no trace. -/
def Stmt.sketch : Stmt → Json
  | .function f => functionSketch f
  | .classDef _ name methods =>
    sketchNode .classDef [("methods", .array (methodsSketch methods)), ("name", .string name.clean)] []
  | .branch _ c body none =>
    sketchNode .branch [("condition", c.sketch), ("then", .array (stmtsSketch body))] []
  | .branch _ c body (some otherwise) =>
    sketchNode .branch
      [("condition", c.sketch), ("else", .array (stmtsSketch otherwise)), ("then", .array (stmtsSketch body))] []
  | .loop _ c body => sketchNode .loop [("body", .array (stmtsSketch body)), ("condition", c.sketch)] []
  | .ret _ none => sketchNode .ret [] []
  | .ret _ (some e) => sketchNode .ret [] [("value", e.sketch)]
  | .print _ e => sketchNode .print [] [("value", e.sketch)]
  | .expression _ e => sketchNode .expression [("expression", e.sketch)] []
  | .assign _ target e => sketchNode .assignment [("target", target.sketch)] [("value", e.sketch)]
  | .breakLoop _ => sketchNode .breakLoop [] []
  | .continueLoop _ => sketchNode .continueLoop [] []
  | .absent => .null

/-- Statements as their trees show them. -/
def stmtsSketch : List Stmt → List Json
  | [] => []
  | s :: ss => s.sketch :: stmtsSketch ss

/-- A function as its tree shows it. -/
def functionSketch : Function Stmt → Json
  | ⟨_, name, params, body⟩ =>
    sketchNode .functionDef
      [("body", .array (stmtsSketch body)), ("name", .string name.clean),
        ("params", .array (params.map fun n => .string n.clean))] []

/-- Methods as their trees show them. -/
def methodsSketch : List (Function Stmt) → List Json
  | [] => []
  | f :: fs => functionSketch f :: methodsSketch fs

end

/-- A program as its tree shows it. -/
def Program.sketch (p : Program) : Json := sketchNode .program [("body", .array (stmtsSketch p.body))] []

theorem exprsSketch_eq (es : List Expr) : exprsSketch es = es.map Expr.sketch := by
  induction es with
  | nil => rfl
  | cons e es ih => rw [exprsSketch, ih, List.map_cons]

theorem stmtsSketch_eq (ss : List Stmt) : stmtsSketch ss = ss.map Stmt.sketch := by
  induction ss with
  | nil => rfl
  | cons s ss ih => rw [stmtsSketch, ih, List.map_cons]

theorem methodsSketch_eq (fs : List (Function Stmt)) : methodsSketch fs = fs.map functionSketch := by
  induction fs with
  | nil => rfl
  | cons f fs ih => rw [methodsSketch, ih, List.map_cons]

/-! ### Sketches and documents -/

/-- What a comparison sees of a value that was written and read. -/
def Json.gist (v : Json) : Json := v.plain.normal.essence

namespace Document

/-- An object with the gist `sketch`. -/
def Shows (v sketch : Json) : Prop := (∃ fields, v = .object fields) ∧ v.gist = sketch

/-- Values with the essences `sketches`. -/
def ShowsAll (vs sketches : List Json) : Prop :=
  Json.essenceItems (Json.normalItems (Json.plainItems vs)) = sketches

theorem Shows.cons {sketch : Json} {sketches : List Json} (hv : Shows v sketch) (hvs : ShowsAll vs sketches) :
    ShowsAll (v :: vs) (sketch :: sketches) := by
  rw [ShowsAll, Json.plainItems, Json.normalItems, Json.essenceItems, hvs]
  exact congrArg (· :: _) hv.2

/-- The tree that is printed for a literal shows its kind and its value. -/
theorem shows_literal {v : Literal} {kind : String} {value : Json} (h : literal v = .ok (kind, value)) (p : Bool)
    (s : Span) : Shows (node p .literal s [field "kind" (.string kind), field "value" value]) v.sketch := by
  refine ⟨⟨_, rfl⟩, ?_⟩
  cases v with
  | other k => cases h
  | _ =>
    cases h
    cases p <;> rfl

theorem showsAll_exprs {es : List Expr} (h : ∀ e ∈ es, ∀ v, expr p e = .ok v → Shows v e.sketch)
    (hvs : exprs p es = .ok vs) : ShowsAll vs (exprsSketch es) := by
  induction es generalizing vs with
  | nil =>
    cases hvs
    rfl
  | cons e es ih =>
    simp only [exprs, bind_eq_ok, pure_eq_ok] at hvs
    obtain ⟨v, hv, vs, hvs, rfl⟩ := hvs
    rw [List.forall_mem_cons] at h
    exact (h.1 v hv).cons (ih h.2 hvs)

theorem shows_expr (e : Expr) : ∀ v, expr p e = .ok v → Shows v e.sketch := by
  induction e using Expr.induct with
  | binary s op l r ihl ihr =>
    intro v h
    simp only [expr, bind_eq_ok, pure_eq_ok] at h
    obtain ⟨left, hl, right, hr, rfl⟩ := h
    obtain ⟨⟨fl, rfl⟩, hl⟩ := ihl left hl
    obtain ⟨⟨fr, rfl⟩, hr⟩ := ihr right hr
    refine ⟨⟨_, rfl⟩, ?_⟩
    rw [Expr.sketch, ← hl, ← hr]
    cases p <;> rfl
  | unary s op e ih =>
    intro v h
    simp only [expr, bind_eq_ok, pure_eq_ok] at h
    obtain ⟨operand, he, rfl⟩ := h
    obtain ⟨⟨fe, rfl⟩, he⟩ := ih operand he
    refine ⟨⟨_, rfl⟩, ?_⟩
    rw [Expr.sketch, ← he]
    cases p <;> rfl
  | call s f args ihf ihargs =>
    intro v h
    simp only [expr, bind_eq_ok, pure_eq_ok] at h
    obtain ⟨callee, hf, vs, hvs, rfl⟩ := h
    obtain ⟨⟨ff, rfl⟩, hf⟩ := ihf callee hf
    have hargs := showsAll_exprs ihargs hvs
    refine ⟨⟨_, rfl⟩, ?_⟩
    rw [Expr.sketch, ← hf, ← hargs]
    cases p <;> rfl
  | member s o name ih =>
    intro v h
    simp only [expr, bind_eq_ok, pure_eq_ok] at h
    obtain ⟨object, ho, rfl⟩ := h
    obtain ⟨⟨fo, rfl⟩, ho⟩ := ih object ho
    refine ⟨⟨_, rfl⟩, ?_⟩
    rw [Expr.sketch, ← ho]
    cases p <;> rfl
  | name s n =>
    rintro v ⟨⟩
    exact ⟨⟨_, rfl⟩, by cases p <;> rfl⟩
  | self s =>
    rintro v ⟨⟩
    exact ⟨⟨_, rfl⟩, by cases p <;> rfl⟩
  | literal s value =>
    intro v h
    simp only [expr, bind_eq_ok, pure_eq_ok] at h
    obtain ⟨⟨kind, shown⟩, hvalue, rfl⟩ := h
    exact shows_literal hvalue p s
  | absent =>
    rintro v ⟨⟩

theorem showsAll_params (params : List Text) :
    ShowsAll (params.map .string) (params.map fun n => .string n.clean) := by
  induction params with
  | nil => rfl
  | cons n params ih => exact congrArg (Json.string n.clean :: ·) ih

/-- The tree of a statement shows it. -/
def Shown (p : Bool) (s : Stmt) : Prop := ∀ v, stmt p s = .ok v → Shows v s.sketch

theorem showsAll_stmts {ss : List Stmt} (h : ∀ s ∈ ss, Shown p s)
    (hvs : stmts p ss = .ok vs) : ShowsAll vs (stmtsSketch ss) := by
  induction ss generalizing vs with
  | nil =>
    cases hvs
    rfl
  | cons s ss ih =>
    simp only [stmts, bind_eq_ok, pure_eq_ok] at hvs
    obtain ⟨v, hv, vs, hvs, rfl⟩ := hvs
    rw [List.forall_mem_cons] at h
    exact (h.1 v hv).cons (ih h.2 hvs)

theorem shows_function {f : Function Stmt} (h : ∀ s ∈ f.body, Shown p s)
    (hv : function p f = .ok v) : Shows v (functionSketch f) := by
  obtain ⟨s, name, params, body⟩ := f
  simp only [function, bind_eq_ok, pure_eq_ok] at hv
  obtain ⟨vs, hvs, rfl⟩ := hv
  have hbody := showsAll_stmts h hvs
  refine ⟨⟨_, rfl⟩, ?_⟩
  rw [functionSketch, ← hbody, ← showsAll_params params]
  cases p <;> rfl

theorem showsAll_functions {fs : List (Function Stmt)} (h : ∀ f ∈ fs, ∀ s ∈ f.body, Shown p s)
    (hvs : functions p fs = .ok vs) : ShowsAll vs (methodsSketch fs) := by
  induction fs generalizing vs with
  | nil =>
    cases hvs
    rfl
  | cons f fs ih =>
    simp only [functions, bind_eq_ok, pure_eq_ok] at hvs
    obtain ⟨v, hv, vs, hvs, rfl⟩ := hvs
    rw [List.forall_mem_cons] at h
    exact (shows_function h.1 hv).cons (ih h.2 hvs)

theorem shown (s : Stmt) : Shown p s := by
  induction s using Stmt.induct with
  | function f ih => exact fun v h => shows_function ih h
  | classDef s name fs ih =>
    intro v h
    simp only [stmt, bind_eq_ok, pure_eq_ok] at h
    obtain ⟨vs, hvs, rfl⟩ := h
    have hmethods := showsAll_functions ih hvs
    refine ⟨⟨_, rfl⟩, ?_⟩
    rw [Stmt.sketch, ← hmethods]
    cases p <;> rfl
  | branch s c body ih =>
    intro v h
    simp only [stmt, bind_eq_ok, pure_eq_ok] at h
    obtain ⟨condition, hc, vs, hvs, rfl⟩ := h
    obtain ⟨⟨fc, rfl⟩, hc⟩ := shows_expr c condition hc
    have hbody := showsAll_stmts ih hvs
    refine ⟨⟨_, rfl⟩, ?_⟩
    rw [Stmt.sketch, ← hc, ← hbody]
    cases p <;> rfl
  | branchElse s c body otherwise ih ih' =>
    intro v h
    simp only [stmt, bind_eq_ok, pure_eq_ok] at h
    obtain ⟨condition, hc, vs, hvs, ws, hws, rfl⟩ := h
    obtain ⟨⟨fc, rfl⟩, hc⟩ := shows_expr c condition hc
    have hbody := showsAll_stmts ih hvs
    have helse := showsAll_stmts ih' hws
    refine ⟨⟨_, rfl⟩, ?_⟩
    rw [Stmt.sketch, ← hc, ← hbody, ← helse]
    cases p <;> rfl
  | loop s c body ih =>
    intro v h
    simp only [stmt, bind_eq_ok, pure_eq_ok] at h
    obtain ⟨condition, hc, vs, hvs, rfl⟩ := h
    obtain ⟨⟨fc, rfl⟩, hc⟩ := shows_expr c condition hc
    have hbody := showsAll_stmts ih hvs
    refine ⟨⟨_, rfl⟩, ?_⟩
    rw [Stmt.sketch, ← hc, ← hbody]
    cases p <;> rfl
  | ret s value =>
    intro v h
    cases value with
    | none =>
      cases h
      exact ⟨⟨_, rfl⟩, by cases p <;> rfl⟩
    | some e =>
      simp only [stmt, bind_eq_ok, pure_eq_ok] at h
      obtain ⟨value, he, rfl⟩ := h
      obtain ⟨⟨fe, rfl⟩, he⟩ := shows_expr e value he
      refine ⟨⟨_, rfl⟩, ?_⟩
      rw [Stmt.sketch, ← he]
      cases p <;> rfl
  | print s e =>
    intro v h
    simp only [stmt, bind_eq_ok, pure_eq_ok] at h
    obtain ⟨value, he, rfl⟩ := h
    obtain ⟨⟨fe, rfl⟩, he⟩ := shows_expr e value he
    refine ⟨⟨_, rfl⟩, ?_⟩
    rw [Stmt.sketch, ← he]
    cases p <;> rfl
  | expression s e =>
    intro v h
    simp only [stmt, bind_eq_ok, pure_eq_ok] at h
    obtain ⟨value, he, rfl⟩ := h
    obtain ⟨⟨fe, rfl⟩, he⟩ := shows_expr e value he
    refine ⟨⟨_, rfl⟩, ?_⟩
    rw [Stmt.sketch, ← he]
    cases p <;> rfl
  | assign s target e =>
    intro v h
    simp only [stmt, bind_eq_ok, pure_eq_ok] at h
    obtain ⟨place, ht, value, he, rfl⟩ := h
    obtain ⟨⟨ft, rfl⟩, ht⟩ := shows_expr target place ht
    obtain ⟨⟨fe, rfl⟩, he⟩ := shows_expr e value he
    refine ⟨⟨_, rfl⟩, ?_⟩
    rw [Stmt.sketch, ← ht, ← he]
    cases p <;> rfl
  | breakLoop s =>
    rintro v ⟨⟩
    exact ⟨⟨_, rfl⟩, by cases p <;> rfl⟩
  | continueLoop s =>
    rintro v ⟨⟩
    exact ⟨⟨_, rfl⟩, by cases p <;> rfl⟩
  | absent =>
    rintro v ⟨⟩

theorem gist_program {positions : Bool} {p : Program} (h : program positions p = .ok v) :
    v.gist = p.sketch := by
  simp only [program, bind_eq_ok, pure_eq_ok] at h
  obtain ⟨vs, hvs, rfl⟩ := h
  rw [Program.sketch, ← showsAll_stmts (fun s _ => shown s) hvs]
  cases positions <;> rfl

end Document

end Anadil
