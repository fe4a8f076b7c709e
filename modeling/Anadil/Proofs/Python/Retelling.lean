import Anadil.Proofs.Tree.Retold
import Anadil.Python.Emit

/-! # Code of retold trees

The Python text of a tree does not depend on its spans, and not on what a literal holds beyond how it is written. Only
one failure names a place, and in a view it names what is seen of it. -/

namespace Anadil

namespace Python

/-- A failure without its place. -/
def Failure.unplaced : Failure → Failure
  | .constructorReturns name _ _ => .constructorReturns name 0 0
  | f => f

/-- A failure as it looks in a view. -/
def Failure.viewed (v : View) : Failure → Failure
  | .constructorReturns name line column =>
    .constructorReturns name (v.see line column).line (v.see line column).column
  | f => f

theorem Failure.viewed_blind : Failure.viewed .blind = Failure.unplaced := by
  funext f
  cases f <;> rfl

theorem Failure.viewed_placed (f : Failure) : f.viewed .placed = f := by
  cases f <;> rfl

section Except
variable {ε ε' α β : Type} (f : ε → ε')

theorem mapError_bind (x : Except ε α) (k : α → Except ε β) :
    (x >>= k).mapError f = x.mapError f >>= fun a => (k a).mapError f := by
  cases x <;> rfl

theorem mapError_map (x : Except ε α) (g : α → β) : (g <$> x).mapError f = g <$> x.mapError f := by
  cases x <;> rfl

theorem mapError_pure (a : α) : (pure a : Except ε α).mapError f = pure a := rfl

theorem mapError_error (e : ε) : (.error e : Except ε α).mapError f = .error (f e) := rfl

end Except

attribute [local simp] mapError_bind mapError_map mapError_pure

/-- Retold trees are written the same: the view sees the same of a new span, and a new literal is written
like the old one. -/
structure Faithful (v : View) (t : Retelling) : Prop where
  line_span (s : Span) : (t.span s).line = (v.span s).line
  column_span (s : Span) : (t.span s).column = (v.span s).column
  literal_value (x : Literal) : literal (t.value x) = literal x
  isNumber_value (x : Literal) (s s' : Span) : isNumber (.literal s (t.value x)) = isNumber (.literal s' x)

namespace Faithful

variable {v : View} {t : Retelling} (ht : Faithful v t)

/-! ### Expressions -/

attribute [local simp] written writtenArgs Expr.retold exprsRetold

theorem leading_viewed (kind : Kind) (w : Written) :
    (leading kind w).mapError (Failure.viewed v) = leading kind w := by
  unfold leading
  split <;> rfl

theorem literal_viewed (x : Literal) : (literal x).mapError (Failure.viewed v) = literal x := by
  unfold literal
  split <;> rfl

theorem writtenArgs_retold {es : List Expr}
    (h : ∀ e ∈ es, written (e.retold t) = (written e).mapError (Failure.viewed v)) :
    writtenArgs (exprsRetold t es) = (writtenArgs es).mapError (Failure.viewed v) := by
  induction es with
  | nil => rfl
  | cons e es ih =>
    obtain ⟨he, hes⟩ := List.forall_mem_cons.mp h
    simp [he, ih hes]

include ht

theorem isNumber_retold (e : Expr) : isNumber (e.retold t) = isNumber e := by
  cases e with
  | literal span x => exact ht.isNumber_value x _ _
  | _ => rfl

theorem written_retold (e : Expr) : written (e.retold t) = (written e).mapError (Failure.viewed v) := by
  induction e using Expr.induct with
  | binary span op l r ihl ihr =>
    simp only [Expr.retold, written]
    cases binaryOperator? op with
    | none => rfl
    | some p => simp [ihl, ihr]
  | unary span op e ih => simp [leading_viewed, ih]
  | call span f args ihf ihargs => simp [ihf, writtenArgs_retold ihargs]
  | member span o name ih => simp [ih, ht.isNumber_retold]
  | literal span x => simp [ht.literal_value, literal_viewed]
  | _ => rfl

theorem exprText_retold (e : Expr) : exprText (e.retold t) = (exprText e).mapError (Failure.viewed v) := by
  rw [exprText, ht.written_retold]
  exact (mapError_map (Failure.viewed v) (written e) (·.text)).symm

omit ht

/-! ### Statements -/

/-- A statement that is written the same when it is retold, wherever it stands. -/
structure Keeps (v : View) (t : Retelling) (s : Stmt) : Prop where
  assigned : assignedIn (s.retold t) = assignedIn s
  defined : definedIn (s.retold t) = definedIn s
  returns : valuedReturn (s.retold t) = (valuedReturn s).map t.span
  branch : isBranch (s.retold t) = isBranch s
  lines (style : Style) (outer : List Scope) (depth : Nat) (chained : Bool) :
    stmt style outer depth chained (s.retold t) =
      (stmt style outer depth chained s).mapError (Failure.viewed v)

attribute [local simp] assignedIn assignedInAll definedIn definedInAll valuedReturn valuedReturnIn
attribute [local simp] Python.stmt stmts block elseBlock Python.function methods classBody
attribute [local simp] stmtsRetold methodsRetold functionRetold

section Blocks
variable {ss : List Stmt} (h : ∀ s ∈ ss, Keeps v t s)
include h

/-- The names and the returns that a body collects. -/
theorem collected_retold : assignedInAll (stmtsRetold t ss) = assignedInAll ss ∧
    definedInAll (stmtsRetold t ss) = definedInAll ss ∧
    valuedReturnIn (stmtsRetold t ss) = (valuedReturnIn ss).map t.span := by
  induction ss with
  | nil => exact ⟨rfl, rfl, rfl⟩
  | cons s ss ih =>
    obtain ⟨hs, hss⟩ := List.forall_mem_cons.mp h
    simp [hs.assigned, hs.defined, hs.returns, ih hss, Option.map_or]

theorem ofBody_retold (outer : List Scope) (params : List Text) :
    Scope.ofBody outer params (stmtsRetold t ss) = Scope.ofBody outer params ss := by
  simp only [Scope.ofBody, collected_retold h]

variable (style : Style) (outer : List Scope) (depth : Nat)

theorem stmts_retold :
    stmts style outer depth (stmtsRetold t ss) = (stmts style outer depth ss).mapError (Failure.viewed v) := by
  induction ss with
  | nil => rfl
  | cons s ss ih =>
    obtain ⟨hs, hss⟩ := List.forall_mem_cons.mp h
    simp [hs.lines, ih hss]

theorem block_retold :
    block style outer depth (stmtsRetold t ss) = (block style outer depth ss).mapError (Failure.viewed v) := by
  cases ss with
  | nil => rfl
  | cons s ss =>
    obtain ⟨hs, hss⟩ := List.forall_mem_cons.mp h
    simp [hs.lines, stmts_retold hss]

theorem elseBlock_retold :
    elseBlock style outer depth (stmtsRetold t ss) =
      (elseBlock style outer depth ss).mapError (Failure.viewed v) := by
  match ss with
  | [] => rfl
  | [s] =>
    have hs := h s List.mem_cons_self
    simp only [stmtsRetold, elseBlock, hs.branch]
    split
    · exact hs.lines style outer depth true
    · simp [hs.lines]
  | s :: s' :: ss =>
    obtain ⟨hs, hmore⟩ := List.forall_mem_cons.mp h
    obtain ⟨hs', hss⟩ := List.forall_mem_cons.mp hmore
    simp [hs.lines, hs'.lines, stmts_retold hss]

end Blocks

section Functions
variable (style : Style) (outer : List Scope) (depth : Nat)
include ht

theorem checkMethod_retold {f : Function Stmt} (h : ∀ s ∈ f.body, Keeps v t s) :
    checkMethod style (functionRetold t f) = (checkMethod style f).mapError (Failure.viewed v) := by
  obtain ⟨span, name, params, body⟩ := f
  simp only [checkMethod, functionRetold, collected_retold h]
  split
  · cases valuedReturnIn body with
    | none => rfl
    | some s =>
      simp only [Option.map_some, ht.line_span, ht.column_span]
      rfl
  · rfl

/-- A function whose body is written the same is written the same. -/
theorem function_retold {f : Function Stmt} (h : ∀ s ∈ f.body, Keeps v t s) (isMethod : Bool) :
    Python.function style outer depth isMethod (functionRetold t f) =
      (Python.function style outer depth isMethod f).mapError (Failure.viewed v) := by
  have hcheck := ht.checkMethod_retold style h
  obtain ⟨span, name, params, body⟩ := f
  have hblock := block_retold h style (Scope.ofBody outer params body :: outer) (depth + 1)
  rw [functionRetold] at hcheck ⊢
  cases isMethod with
  | false => simp [functionHead, ofBody_retold h, hblock]
  | true => simp [functionHead, hcheck, ofBody_retold h, hblock]

theorem methods_retold {fs : List (Function Stmt)} (h : ∀ f ∈ fs, ∀ s ∈ f.body, Keeps v t s) :
    methods style outer depth (methodsRetold t fs) =
      (methods style outer depth fs).mapError (Failure.viewed v) := by
  induction fs with
  | nil => rfl
  | cons f fs ih =>
    obtain ⟨hf, hfs⟩ := List.forall_mem_cons.mp h
    simp [ht.function_retold style outer depth hf, ih hfs]

theorem classBody_retold {fs : List (Function Stmt)} (h : ∀ f ∈ fs, ∀ s ∈ f.body, Keeps v t s) :
    classBody style outer depth (methodsRetold t fs) =
      (classBody style outer depth fs).mapError (Failure.viewed v) := by
  cases fs with
  | nil => rfl
  | cons f fs =>
    obtain ⟨hf, hfs⟩ := List.forall_mem_cons.mp h
    simp [ht.function_retold style outer depth hf, ht.methods_retold style outer depth hfs]

end Functions

attribute [local simp] Stmt.retold isBranch

include ht

theorem keeps (s : Stmt) : Keeps v t s := by
  induction s using Stmt.induct with
  | function f ih =>
    constructor
    case lines => exact fun style outer depth chained => ht.function_retold style outer depth ih false
    all_goals
      cases f
      simp
  | classDef span name fs ih => constructor <;> simp [ht.classBody_retold _ _ _ ih]
  | branch span c body ih =>
    constructor <;> simp [ht.exprText_retold, block_retold ih, collected_retold ih]
  | branchElse span c body otherwise ih ih' =>
    constructor <;> simp [ht.exprText_retold, block_retold ih, elseBlock_retold ih', collected_retold ih,
      collected_retold ih', Option.map_or]
  | loop span c body ih =>
    constructor <;> simp [ht.exprText_retold, block_retold ih, collected_retold ih]
  | ret span value => cases value <;> constructor <;> simp [ht.exprText_retold]
  | assign span target e =>
    constructor
    case assigned => cases target <;> simp
    all_goals simp [ht.exprText_retold]
  | absent => constructor <;> simp [mapError_error, Failure.viewed]
  | _ => constructor <;> simp [ht.exprText_retold]

/-- A retold program is written the same, and fails the same but for the place. -/
theorem generate_retold (style : Style) {p q : Program} (h : q.body = stmtsRetold t p.body) :
    generate style q = (generate style p).mapError (Failure.viewed v) := by
  have hlines : lines style q = (lines style p).mapError (Failure.viewed v) := by
    simp only [lines, h, ofBody_retold fun s _ => ht.keeps s]
    exact stmts_retold (fun s _ => ht.keeps s) style _ 0
  unfold generate
  split
  · rfl
  · simp [hlines]

end Faithful

/-! ### Views -/

theorem faithful_retelling (v : View) : Faithful v v.retelling :=
  ⟨fun _ => rfl, fun _ => rfl, fun _ => rfl, fun x _ _ => by cases x <;> rfl⟩

theorem generate_viewed {v : View} (style : Style) (p : Program) :
    generate style (p.viewed v) = (generate style p).mapError (Failure.viewed v) :=
  (faithful_retelling v).generate_retold style rfl

theorem generate_bare (style : Style) (p : Program) :
    generate style p.bare = (generate style p).mapError Failure.unplaced := by
  rw [← Failure.viewed_blind]
  exact @generate_viewed .blind style p

end Python

end Anadil
