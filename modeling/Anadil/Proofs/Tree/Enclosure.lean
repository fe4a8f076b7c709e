import Anadil.Proofs.Tree.Soundness
import Anadil.Proofs.Tree.Words

/-! # What stands around a statement

The rules on where something may stand, said of the frames around it: the functions, methods, loops and
branches that a statement is inside of, the innermost first. `Program.Stands` finds every statement of a
program together with its frames, and `Program.Lawful` says the rules. The reading keeps them with three
flags; that the flags of a place say what its frames say is `contextOf_inFunction`, `contextOf_inLoop` and
`contextOf_inMethod`. -/

namespace Anadil

open Grammar Anadil.Parser

variable {e c : Expr} {f : Function Stmt} {part : Part} {span : Span}

/-- What a statement can stand in. The only statements in a class are those of its methods. -/
inductive Frame where
  | function
  | method
  | loop
  | branch
deriving DecidableEq, Repr

/-- Whether a frame is inside the function that is around it. -/
def Frame.isInner : Frame → Bool
  | loop | branch => true
  | function | method => false

/-! ### Places -/

namespace Program

/-- The statement `s` stands in a program, at any depth, inside `frames`. -/
inductive Stands (p : Program) : List Frame → Stmt → Prop where
  | top {s} : s ∈ p.body → p.Stands [] s
  | function {frames f s} : p.Stands frames (.function f) → s ∈ f.body →
      p.Stands (.function :: frames) s
  | method {frames span name methods f s} : p.Stands frames (.classDef span name methods) →
      f ∈ methods → s ∈ f.body → p.Stands (.method :: frames) s
  | loop {frames span c body s} : p.Stands frames (.loop span c body) → s ∈ body →
      p.Stands (.loop :: frames) s
  | branch {frames span c body otherwise s} : p.Stands frames (.branch span c body otherwise) →
      s ∈ body → p.Stands (.branch :: frames) s
  | otherwise {frames span c body otherwise s} :
      p.Stands frames (.branch span c body (some otherwise)) → s ∈ otherwise →
      p.Stands (.branch :: frames) s

/-- The function `f` stands in a program, among statements or as a method of a class. -/
inductive HasFunction (p : Program) : List Frame → Bool → Function Stmt → Prop where
  | function {frames f} : p.Stands frames (.function f) → p.HasFunction frames false f
  | method {frames span name methods f} : p.Stands frames (.classDef span name methods) →
      f ∈ methods → p.HasFunction frames true f

end Program

namespace Program

/-- An expression stands in a program, at any depth of a statement's expressions. -/
inductive HasExpr (p : Program) : List Frame → Expr → Prop where
  | direct {frames s e} : p.Stands frames s → e ∈ s.exprs → p.HasExpr frames e
  | part {frames e x} : p.HasExpr frames e → x ∈ e.parts → p.HasExpr frames x

/-- A name that a program uses or gives, other than the name of a member. -/
inductive HasName (p : Program) : List Frame → Text → Prop where
  | identifier {frames span n} : p.HasExpr frames (.name span n) → p.HasName frames n
  | function {frames isMethod f} : p.HasFunction frames isMethod f → p.HasName frames f.name
  | param {frames isMethod f n} : p.HasFunction frames isMethod f → n ∈ f.params → p.HasName frames n
  | classDef {frames span n methods} : p.Stands frames (.classDef span n methods) → p.HasName frames n

end Program

/-- Tokens that do not begin with `değilse`. -/
def NoElse (ts : List Token) : Prop := ∀ t ∈ ts.head?, t.kind ≠ .elseWord

/-- The rules on a program that is read from tokens. Lists are there even when they are empty; the only
one that can be missing is that of a `değilse`. -/
structure Program.Lawful (p : Program) (tokens : List Token) : Prop where
  ret : ∀ frames span value, p.Stands frames (.ret span value) →
    .function ∈ frames ∨ .method ∈ frames
  breakLoop : ∀ frames span, p.Stands frames (.breakLoop span) → .loop ∈ frames.takeWhile (·.isInner)
  continueLoop : ∀ frames span, p.Stands frames (.continueLoop span) →
    .loop ∈ frames.takeWhile (·.isInner)
  self : ∀ frames span, p.HasExpr frames (.self span) → .method ∈ frames
  params : ∀ frames isMethod f, p.HasFunction frames isMethod f → f.params.Nodup
  receiver : ∀ frames f, p.HasFunction frames true f → ("self" : Text) ∉ f.params
  names : ∀ frames n, p.HasName frames n → Python.isReserved n = false ∧ n ≠ ("print" : Text) ∧
    (.method ∈ frames → n ≠ ("self" : Text))
  members : ∀ frames span o n, p.HasExpr frames (.member span o n) → Python.isReserved n = false
  targets : ∀ frames span target e, p.Stands frames (.assign span target e) → target.isPlace = true
  callees : ∀ frames span f args, p.HasExpr frames (.call span f args) → f.isPlace = true
  /-- No part is missing. -/
  present : ∀ frames, ¬ p.Stands frames .absent ∧ ¬ p.HasExpr frames .absent
  /-- Behind a condition and its block stands `değilse` exactly if the tree has an else. -/
  otherwise : ∀ frames span c body otherwise, p.Stands frames (.branch span c body otherwise) →
    ∃ before k ts us after, tokens = before ++ (k :: ts ++ us) ++ after ∧ k.kind = .ifWord ∧
      Derives (.or c) ts ∧ Derives (.block body) us ∧ (otherwise = none ↔ NoElse after)

/-! ### Flags and frames -/

/-- The flags of the reading inside frames. -/
def contextOf : List Frame → Context
  | [] => Context.top
  | .function :: frames => (contextOf frames).function false
  | .method :: frames => (contextOf frames).function true
  | .loop :: frames => (contextOf frames).loop
  | .branch :: frames => contextOf frames

section Flags
variable (frames : List Frame)

theorem contextOf_inFunction :
    (contextOf frames).inFunction = true ↔ .function ∈ frames ∨ .method ∈ frames := by
  induction frames with
  | nil => simp [contextOf, Context.top]
  | cons frame frames ih => cases frame <;> simp [contextOf, Context.function, Context.loop, ih]

theorem contextOf_inLoop :
    (contextOf frames).inLoop = true ↔ .loop ∈ frames.takeWhile (·.isInner) := by
  induction frames with
  | nil => simp [contextOf, Context.top]
  | cons frame frames ih =>
    cases frame <;> simp [contextOf, Context.function, Context.loop, Frame.isInner, ih]

theorem contextOf_inMethod : (contextOf frames).inMethod = true ↔ .method ∈ frames := by
  induction frames with
  | nil => simp [contextOf, Context.top]
  | cons frame frames ih => cases frame <;> simp [contextOf, Context.function, Context.loop, ih]

end Flags

/-! ### What is legal is legal in its place -/

section Legal
variable {known : Lexicon} {ctx : Context}

theorem Expr.Legal.parts {x : Expr} (h : e.Legal known ctx) (hx : x ∈ e.parts) : x.Legal known ctx := by
  cases e with
  | binary span op l r =>
    obtain ⟨-, hl, hr⟩ := h
    simp only [Expr.parts, List.mem_cons, List.not_mem_nil, or_false] at hx
    rcases hx with rfl | rfl
    · exact hl
    · exact hr
  | unary span op e =>
    obtain rfl := List.mem_singleton.mp hx
    exact h.2
  | call span f args =>
    obtain ⟨-, hf, hargs⟩ := h
    rcases List.mem_cons.mp hx with rfl | hx
    · exact hf
    · exact exprsLegal_iff.mp hargs x hx
  | member span o n =>
    obtain rfl := List.mem_singleton.mp hx
    exact h.1
  | name | self | literal | absent => cases hx

theorem Stmt.Legal.exprs {s : Stmt} (h : s.Legal known ctx) (he : e ∈ s.exprs) : e.Legal known ctx := by
  cases s with
  | branch span c body otherwise =>
    obtain rfl := List.mem_singleton.mp he
    cases otherwise with
    | none => exact h.1
    | some => exact h.1
  | loop span c body =>
    obtain rfl := List.mem_singleton.mp he
    exact h.1
  | ret span value =>
    cases value with
    | none => cases he
    | some e =>
      obtain rfl := List.mem_singleton.mp he
      exact h.2
  | print span e | expression span e =>
    obtain rfl := List.mem_singleton.mp he
    exact h
  | assign span target e =>
    obtain ⟨-, ht, hv⟩ := h
    simp only [Stmt.exprs, List.mem_cons, List.not_mem_nil, or_false] at he
    rcases he with rfl | rfl
    · exact ht
    · exact hv
  | function | classDef | breakLoop | continueLoop | absent => cases he

end Legal

namespace Program
variable {known : Lexicon} {p : Program} {frames : List Frame}

/-- A statement of a legal program is legal with the flags of its frames. -/
theorem Stands.legal (hp : stmtsLegal known Context.top p.body) {s : Stmt} (h : p.Stands frames s) :
    s.Legal known (contextOf frames) := by
  induction h with
  | top hs => exact stmtsLegal_iff.mp hp _ hs
  | function _ hs ih =>
    obtain ⟨-, -, -, -, hbody⟩ := functionLegal_iff.mp ih
    exact stmtsLegal_iff.mp hbody _ hs
  | method _ hf hs ih =>
    obtain ⟨-, -, hmethods⟩ := ih
    obtain ⟨-, -, -, -, hbody⟩ := functionLegal_iff.mp (methodsLegal_iff.mp hmethods _ hf)
    exact stmtsLegal_iff.mp hbody _ hs
  | loop _ hs ih => exact stmtsLegal_iff.mp ih.2 _ hs
  | @branch _ _ _ _ otherwise _ _ hs ih =>
    cases otherwise with
    | none => exact stmtsLegal_iff.mp ih.2 _ hs
    | some => exact stmtsLegal_iff.mp ih.2.1 _ hs
  | otherwise _ hs ih => exact stmtsLegal_iff.mp ih.2.2 _ hs

theorem HasFunction.legal (hp : stmtsLegal known Context.top p.body) {isMethod : Bool}
    (h : p.HasFunction frames isMethod f) : functionLegal known (contextOf frames) isMethod f := by
  cases h with
  | function hs => exact hs.legal hp
  | method hs hf => exact methodsLegal_iff.mp (hs.legal hp).2.2 f hf

theorem HasExpr.legal (hp : stmtsLegal known Context.top p.body) (h : p.HasExpr frames e) :
    e.Legal known (contextOf frames) := by
  induction h with
  | direct hs he => exact (hs.legal hp).exprs he
  | part _ hx ih => exact ih.parts hx

theorem HasName.mayName (hp : stmtsLegal known Context.top p.body) {n : Text} (h : p.HasName frames n) :
    (contextOf frames).MayName n := by
  cases h with
  | identifier he => exact (he.legal hp).1
  | function hf => exact (functionLegal_iff.mp (hf.legal hp)).1.1
  | param hf hn => exact ((functionLegal_iff.mp (hf.legal hp)).2.1 n hn).1
  | classDef hs => exact (hs.legal hp).1

end Program

/-! ### The tokens of a statement -/

section Tokens
variable {ts us : List Token}

theorem NoElse.append (ht : NoElse ts) (hu : NoElse us) : NoElse (ts ++ us) := by
  cases ts with
  | nil => exact hu
  | cons t ts => exact ht

theorem noElse_nil : NoElse [] := fun t ht => absurd ht (Option.not_mem_none t)

theorem noElse_cons {t : Token} {kind : Kind} (hk : t.kind = kind) (hne : kind ≠ .elseWord) :
    NoElse (t :: ts) := by
  intro t' ht'
  obtain rfl := Option.some.inj ht'
  exact hk ▸ hne

/-- Nothing that the grammar derives begins with `değilse`. -/
theorem Grammar.Derives.noElse (h : Derives part ts) : NoElse ts := by
  induction h with
  | program _ ih | functionDef _ ih | params _ ih | branchStmt _ ih | expression _ ih | or _ ih
  | and _ ih | not _ ih | comparison _ ih | sum _ ih | product _ ih | negation _ ih | access _ ih
  | args _ ih | oneExpr _ ih => exact ih
  | noStatement | noParam | noMethod | noArg => exact noElse_nil
  | statements _ _ ih ih' | methods _ _ ih ih' => exact ih.append ih'
  | assign _ _ ho _ ih => exact ih.append (noElse_cons ho (by decide))
  | exprs _ hsep _ ih => exact ih.append (noElse_cons hsep (by decide))
  | orJoin _ ho _ ih | andJoin _ ho _ ih | comparisonJoin _ ho _ ih | sumJoin _ ho _ ih
  | productJoin _ ho _ ih =>
    refine ih.append (noElse_cons rfl ?_)
    intro hk
    rw [hk] at ho
    exact absurd ho (by decide)
  | call _ hl _ hr ih _ =>
    exact (ih.append (noElse_cons hl (by decide))).append (noElse_cons hr (by decide))
  | member _ hd _ ih => exact ih.append (noElse_cons hd (by decide))
  | notLead ho _ =>
    refine noElse_cons rfl ?_
    intro hk
    rw [hk] at ho
    exact absurd ho (by decide)
  | skip hk | block hk | function hk | oneName hk | names hk | classDef hk | skipMethod hk | branch hk
  | branchElse hk | branchElseIf hk | loop hk | ret hk | retValue hk | print hk | breakLoop hk
  | continueLoop hk | negationLead hk | number hk | string hk | true hk | false hk | null hk | self hk
  | name hk | parens hk => exact noElse_cons hk (by decide)

/-- Some of the tokens are derived from a part, and `değilse` does not come right behind them. -/
def Placed (tokens : List Token) (part : Part) : Prop :=
  ∃ before used after, tokens = before ++ used ++ after ∧ Derives part used ∧ NoElse after

namespace Placed
variable {tokens : List Token}

theorem inside {inner : Part} (h : Placed tokens part)
    (hin : ∀ used, Derives part used → ∃ before mid after, used = before ++ mid ++ after ∧
      Derives inner mid ∧ NoElse after) : Placed tokens inner := by
  obtain ⟨before, used, after, rfl, hd, hafter⟩ := h
  obtain ⟨before', mid, after', rfl, hd', hafter'⟩ := hin used hd
  refine ⟨before ++ before', mid, after' ++ after, ?_, hd', hafter'.append hafter⟩
  simp only [List.append_assoc]

/-- The statements of a block in a part have their tokens in front of a `}`, whatever comes then. -/
theorem body {body : List Stmt} (h : Placed tokens part)
    (hin : ∀ used, Derives part used → ∃ before mid after, used = before ++ mid ++ after ∧
      Derives (.block body) mid) : Placed tokens (.statements body) := by
  refine h.inside fun used hd => ?_
  obtain ⟨before, mid, after, rfl, hblock⟩ := hin used hd
  cases hblock with
  | @block l r _ ts _ hbody hr =>
    exact ⟨before ++ [l], ts, r :: after, by simp, hbody, noElse_cons hr (by decide)⟩

theorem statement {body : List Stmt} {s : Stmt} (h : Placed tokens (.statements body)) (hs : s ∈ body) :
    Placed tokens (.statement s) := by
  refine h.inside fun used hd => ?_
  clear h
  generalize hpart : Part.statements body = part at hd
  induction hd generalizing body with
  | noStatement =>
    cases hpart
    cases hs
  | @skip t _ _ _ _ ih =>
    cases hpart
    obtain ⟨before, mid, after, rfl, h⟩ := ih hs rfl
    exact ⟨t :: before, mid, after, rfl, h⟩
  | @statements _ _ ts us hd hds _ ih =>
    cases hpart
    rcases List.mem_cons.mp hs with rfl | hs
    · exact ⟨[], ts, us, rfl, hd, hds.noElse⟩
    · obtain ⟨before, mid, after, rfl, h⟩ := ih hs rfl
      exact ⟨ts ++ before, mid, after, by simp only [List.append_assoc], h⟩
  | _ => cases hpart

theorem method {fs : List (Function Stmt)} (h : Placed tokens (.methods fs))
    (hf : f ∈ fs) : Placed tokens (.function f) := by
  refine h.inside fun used hd => ?_
  clear h
  generalize hpart : Part.methods fs = part at hd
  induction hd generalizing fs with
  | noMethod =>
    cases hpart
    cases hf
  | @skipMethod t _ _ _ _ ih =>
    cases hpart
    obtain ⟨before, mid, after, rfl, h⟩ := ih hf rfl
    exact ⟨t :: before, mid, after, rfl, h⟩
  | @methods _ _ ts us hd hds _ ih =>
    cases hpart
    rcases List.mem_cons.mp hf with rfl | hf
    · exact ⟨[], ts, us, rfl, hd, hds.noElse⟩
    · obtain ⟨before, mid, after, rfl, h⟩ := ih hf rfl
      exact ⟨ts ++ before, mid, after, by simp only [List.append_assoc], h⟩
  | _ => cases hpart

theorem function (h : Placed tokens (.function f)) : Placed tokens (.statements f.body) := by
  refine h.body fun used hd => ?_
  cases hd with
  | @function _ k n l r _ _ ts us _ _ _ _ _ hd => exact ⟨k :: n :: l :: ts ++ [r], us, [], by simp, hd⟩

theorem functionDef (h : Placed tokens (.statement (.function f))) : Placed tokens (.function f) := by
  refine h.inside fun used hd => ?_
  cases hd with
  | functionDef hd => exact ⟨[], used, [], by simp, hd, noElse_nil⟩
  | branchStmt hd => cases hd

theorem classDef {name : Text} {fs : List (Function Stmt)}
    (h : Placed tokens (.statement (.classDef span name fs))) : Placed tokens (.methods fs) := by
  refine h.inside fun used hd => ?_
  cases hd with
  | @classDef _ k n l r _ ts _ _ _ hd hr =>
    exact ⟨[k, n, l], ts, [r], rfl, hd, noElse_cons hr (by decide)⟩
  | branchStmt hd => cases hd

theorem loop {body : List Stmt}
    (h : Placed tokens (.statement (.loop span c body))) : Placed tokens (.statements body) := by
  refine h.body fun used hd => ?_
  cases hd with
  | @loop _ k _ _ ts us _ _ hd => exact ⟨k :: ts, us, [], by simp, hd⟩
  | branchStmt hd => cases hd

/-- The tokens of a condition, of its block, and what comes behind them: a `değilse` if there is an
else, and otherwise none. -/
theorem branch {body : List Stmt} {otherwise : Option (List Stmt)}
    (h : Placed tokens (.statement (.branch span c body otherwise))) :
    ∃ before k ts us after, tokens = before ++ (k :: ts ++ us) ++ after ∧ k.kind = .ifWord ∧
      Derives (.or c) ts ∧ Derives (.block body) us ∧ (otherwise = none ↔ NoElse after) := by
  obtain ⟨before, used, after, rfl, hd, hafter⟩ := h
  cases hd with
  | branchStmt hd =>
    cases hd with
    | @branch _ k _ _ ts us hk hc hb =>
      exact ⟨before, k, ts, us, after, rfl, hk, hc, hb, by simp [hafter]⟩
    | @branchElse _ k o _ _ _ ts us vs hk hc hb ho _ =>
      exact ⟨before, k, ts, us, o :: vs ++ after, by simp, hk, hc, hb, by simp [NoElse, ho]⟩
    | @branchElseIf _ k o _ _ _ ts us vs hk hc hb ho _ =>
      exact ⟨before, k, ts, us, o :: vs ++ after, by simp, hk, hc, hb, by simp [NoElse, ho]⟩

theorem branchBody {body : List Stmt} {otherwise : Option (List Stmt)}
    (h : Placed tokens (.statement (.branch span c body otherwise))) : Placed tokens (.statements body) := by
  refine h.body fun used hd => ?_
  cases hd with
  | branchStmt hd =>
    cases hd with
    | @branch _ k _ _ ts us _ _ hb => exact ⟨k :: ts, us, [], by simp, hb⟩
    | @branchElse _ k o _ _ _ ts us vs _ _ hb => exact ⟨k :: ts, us, o :: vs, rfl, hb⟩
    | @branchElseIf _ k o _ _ _ ts us vs _ _ hb => exact ⟨k :: ts, us, o :: vs, rfl, hb⟩

theorem otherwise {body otherwise : List Stmt} {s : Stmt}
    (h : Placed tokens (.statement (.branch span c body (some otherwise)))) (hs : s ∈ otherwise) :
    Placed tokens (.statement s) := by
  obtain ⟨before, used, after, rfl, hd, hafter⟩ := h
  cases hd with
  | branchStmt hd =>
    cases hd with
    | @branchElse _ k o _ _ _ ts us vs _ _ _ _ hd =>
      have hblock : Placed (before ++ (k :: ts ++ us ++ o :: vs) ++ after) (.block otherwise) :=
        ⟨before ++ (k :: ts ++ us ++ [o]), vs, after, by simp, hd, hafter⟩
      exact statement (hblock.body fun used hd => ⟨[], used, [], by simp, hd⟩) hs
    | @branchElseIf _ k o _ _ _ ts us vs _ _ _ _ hd =>
      obtain rfl := List.mem_singleton.mp hs
      exact ⟨before ++ (k :: ts ++ us ++ [o]), vs, after, by simp, .branchStmt hd, hafter⟩

end Placed

end Tokens

theorem Program.Stands.placed {p : Program} {tokens : List Token} {frames : List Frame} {s : Stmt}
    (hp : Derives (.statements p.body) tokens) (h : p.Stands frames s) : Placed tokens (.statement s) := by
  induction h with
  | top hs => exact Placed.statement ⟨[], tokens, [], by simp, hp, noElse_nil⟩ hs
  | function _ hs ih => exact ih.functionDef.function.statement hs
  | method _ hf hs ih => exact (ih.classDef.method hf).function.statement hs
  | loop _ hs ih => exact ih.loop.statement hs
  | branch _ hs ih => exact ih.branchBody.statement hs
  | otherwise _ hs ih => exact ih.otherwise hs

/-! ### Programs -/

/-- A program that is read from tokens keeps the rules at every place. -/
theorem parse_lawful {tokens : List Token} {p : Program} (h : parse tokens = .ok p) :
    p.Lawful (tokens.takeWhile (·.kind != .endOfInput)) := by
  obtain ⟨hd, hp⟩ := parse_sound (fun _ _ => True) (fun _ _ => trivial) h
  constructor
  case ret =>
    intro frames span value hs
    have hl := hs.legal hp
    rw [← contextOf_inFunction]
    cases value with
    | none => exact hl
    | some => exact hl.1
  case breakLoop => exact fun frames span hs => (contextOf_inLoop frames).mp (hs.legal hp)
  case continueLoop => exact fun frames span hs => (contextOf_inLoop frames).mp (hs.legal hp)
  case self => exact fun frames span he => (contextOf_inMethod frames).mp (he.legal hp)
  case params => exact fun frames isMethod f hf => (functionLegal_iff.mp (hf.legal hp)).2.2.1
  case receiver => exact fun frames f hf => (functionLegal_iff.mp (hf.legal hp)).2.2.2.1 rfl
  case names =>
    intro frames n hn
    obtain ⟨hreserved, hprint, hself⟩ := hn.mayName hp
    exact ⟨hreserved, hprint, fun hm => hself ((contextOf_inMethod frames).mpr hm)⟩
  case members => exact fun frames span o n he => (he.legal hp).2.1
  case targets => exact fun frames span target e hs => (hs.legal hp).1
  case callees => exact fun frames span f args he => (he.legal hp).1
  case present => exact fun frames => ⟨fun hs => hs.legal hp, fun he => he.legal hp⟩
  case otherwise => exact fun frames span c body otherwise hs => (hs.placed hd).branch

/-- `sınıf A { fonksiyon m(x) { döngü bu.y { eğer x { kır } değilse { devam } } dön x } }`: a loop in a
method, left and gone on with from inside a branch. -/
def loopInMethod : List Token :=
  Token.ofWords [sign .classWord, (.identifier, "A"), sign .leftBrace, sign .functionWord, (.identifier, "m"),
    sign .leftParen, (.identifier, "x"), sign .rightParen, sign .leftBrace, sign .whileWord, sign .thisWord,
    sign .dot, (.identifier, "y"), sign .leftBrace, sign .ifWord, (.identifier, "x"), sign .leftBrace,
    sign .breakWord, sign .rightBrace, sign .elseWord, sign .leftBrace, sign .continueWord, sign .rightBrace,
    sign .rightBrace, sign .returnWord, (.identifier, "x"), sign .rightBrace, sign .rightBrace,
    (.endOfInput, [])]

theorem parse_lawful_loopInMethod :
    ∃ p, parse loopInMethod = .ok p ∧ p.Lawful (loopInMethod.takeWhile (·.kind != .endOfInput)) := by
  have hok : (parse loopInMethod).isOk = true := by decide +kernel
  cases h : parse loopInMethod with
  | error e =>
    rw [h] at hok
    cases hok
  | ok p => exact ⟨p, rfl, parse_lawful h⟩

end Anadil
