import Anadil.Tree.Basic

/-! # The grammar

The productions of the language, each with the tree that it gives. A `Part` is a symbol of the grammar
together with its tree, and `Derives part ts` says that the tokens `ts`, each used once and in order,
are derived from the symbol with that tree. Parentheses leave no trace in a tree. The spans of a tree
are not part of the grammar, so any will do. -/

namespace Anadil

namespace Grammar

/-- A symbol of the grammar and the tree of what is derived from it. -/
inductive Part where
  | program (p : Program)
  /-- Statements with any number of `;` before, between and behind them. -/
  | statements (body : List Stmt)
  | statement (s : Stmt)
  | block (body : List Stmt)
  | function (f : Function Stmt)
  /-- Methods with any number of `;` before, between and behind them. -/
  | methods (fs : List (Function Stmt))
  | params (names : List Text)
  /-- One name or more, with commas between them. -/
  | names (names : List Text)
  /-- An `eğer` and all that hangs on it. -/
  | branch (s : Stmt)
  | or (e : Expr)
  | and (e : Expr)
  | not (e : Expr)
  | comparison (e : Expr)
  | sum (e : Expr)
  | product (e : Expr)
  | negation (e : Expr)
  | access (e : Expr)
  | primary (e : Expr)
  | args (es : List Expr)
  /-- One expression or more, with commas between them. -/
  | exprs (es : List Expr)

/-- What the grammar derives. Binary operators group to the left: their left operand is of their own
level and their right operand of the next tighter one. -/
inductive Derives : Part → List Token → Prop where
  -- programs and blocks
  | program {span body ts} : Derives (.statements body) ts → Derives (.program ⟨span, body⟩) ts
  | noStatement : Derives (.statements []) []
  | skip {t body ts} : t.kind = .semicolon → Derives (.statements body) ts →
      Derives (.statements body) (t :: ts)
  | statements {s body ts us} : Derives (.statement s) ts → Derives (.statements body) us →
      Derives (.statements (s :: body)) (ts ++ us)
  | block {l r body ts} : l.kind = .leftBrace → Derives (.statements body) ts → r.kind = .rightBrace →
      Derives (.block body) (l :: ts ++ [r])
  -- functions and classes
  | functionDef {f ts} : Derives (.function f) ts → Derives (.statement (.function f)) ts
  | function {span k n l r names body ts us} : k.kind = .functionWord → n.kind = .identifier →
      l.kind = .leftParen → Derives (.params names) ts → r.kind = .rightParen →
      Derives (.block body) us →
      Derives (.function ⟨span, n.text, names, body⟩) (k :: n :: l :: ts ++ r :: us)
  | noParam : Derives (.params []) []
  | params {names ts} : Derives (.names names) ts → Derives (.params names) ts
  | oneName {t} : t.kind = .identifier → Derives (.names [t.text]) [t]
  | names {t sep names ts} : t.kind = .identifier → sep.kind = .comma → Derives (.names names) ts →
      Derives (.names (t.text :: names)) (t :: sep :: ts)
  | classDef {span k n l r fs ts} : k.kind = .classWord → n.kind = .identifier → l.kind = .leftBrace →
      Derives (.methods fs) ts → r.kind = .rightBrace →
      Derives (.statement (.classDef span n.text fs)) (k :: n :: l :: ts ++ [r])
  | noMethod : Derives (.methods []) []
  | skipMethod {t fs ts} : t.kind = .semicolon → Derives (.methods fs) ts →
      Derives (.methods fs) (t :: ts)
  | methods {f fs ts us} : Derives (.function f) ts → Derives (.methods fs) us →
      Derives (.methods (f :: fs)) (ts ++ us)
  -- branches and loops
  | branchStmt {s ts} : Derives (.branch s) ts → Derives (.statement s) ts
  | branch {span k c body ts us} : k.kind = .ifWord → Derives (.or c) ts → Derives (.block body) us →
      Derives (.branch (.branch span c body none)) (k :: ts ++ us)
  | branchElse {span k o c body otherwise ts us vs} : k.kind = .ifWord → Derives (.or c) ts →
      Derives (.block body) us → o.kind = .elseWord → Derives (.block otherwise) vs →
      Derives (.branch (.branch span c body (some otherwise))) (k :: ts ++ us ++ o :: vs)
  | branchElseIf {span k o c body s ts us vs} : k.kind = .ifWord → Derives (.or c) ts →
      Derives (.block body) us → o.kind = .elseWord → Derives (.branch s) vs →
      Derives (.branch (.branch span c body (some [s]))) (k :: ts ++ us ++ o :: vs)
  | loop {span k c body ts us} : k.kind = .whileWord → Derives (.or c) ts → Derives (.block body) us →
      Derives (.statement (.loop span c body)) (k :: ts ++ us)
  -- other statements
  | ret {span k} : k.kind = .returnWord → Derives (.statement (.ret span none)) [k]
  | retValue {span k e ts} : k.kind = .returnWord → Derives (.or e) ts →
      Derives (.statement (.ret span (some e))) (k :: ts)
  | print {span k l r e ts} : k.kind = .printWord → l.kind = .leftParen → Derives (.or e) ts →
      r.kind = .rightParen → Derives (.statement (.print span e)) (k :: l :: ts ++ [r])
  | breakLoop {span k} : k.kind = .breakWord → Derives (.statement (.breakLoop span)) [k]
  | continueLoop {span k} : k.kind = .continueWord → Derives (.statement (.continueLoop span)) [k]
  | expression {span e ts} : Derives (.or e) ts → Derives (.statement (.expression span e)) ts
  | assign {span o target e ts us} : Derives (.or target) ts → target.isPlace = true →
      o.kind = .assign → Derives (.or e) us →
      Derives (.statement (.assign span target e)) (ts ++ o :: us)
  -- expressions, loosest first
  | orJoin {span o l r ts us} : Derives (.or l) ts → o.kind ∈ [Kind.orWord, .orOr] →
      Derives (.and r) us → Derives (.or (.binary span o.kind l r)) (ts ++ o :: us)
  | or {e ts} : Derives (.and e) ts → Derives (.or e) ts
  | andJoin {span o l r ts us} : Derives (.and l) ts → o.kind ∈ [Kind.andWord, .andAnd] →
      Derives (.not r) us → Derives (.and (.binary span o.kind l r)) (ts ++ o :: us)
  | and {e ts} : Derives (.not e) ts → Derives (.and e) ts
  | notLead {span o e ts} : o.kind ∈ [Kind.notWord, .bang] → Derives (.not e) ts →
      Derives (.not (.unary span o.kind e)) (o :: ts)
  | not {e ts} : Derives (.comparison e) ts → Derives (.not e) ts
  | comparisonJoin {span o l r ts us} : Derives (.comparison l) ts →
      o.kind ∈ [Kind.equal, .notEqual, .less, .lessEqual, .greater, .greaterEqual] →
      Derives (.sum r) us → Derives (.comparison (.binary span o.kind l r)) (ts ++ o :: us)
  | comparison {e ts} : Derives (.sum e) ts → Derives (.comparison e) ts
  | sumJoin {span o l r ts us} : Derives (.sum l) ts → o.kind ∈ [Kind.plus, .minus] →
      Derives (.product r) us → Derives (.sum (.binary span o.kind l r)) (ts ++ o :: us)
  | sum {e ts} : Derives (.product e) ts → Derives (.sum e) ts
  | productJoin {span o l r ts us} : Derives (.product l) ts → o.kind ∈ [Kind.star, .slash, .percent] →
      Derives (.negation r) us → Derives (.product (.binary span o.kind l r)) (ts ++ o :: us)
  | product {e ts} : Derives (.negation e) ts → Derives (.product e) ts
  | negationLead {span o e ts} : o.kind = .minus → Derives (.negation e) ts →
      Derives (.negation (.unary span o.kind e)) (o :: ts)
  | negation {e ts} : Derives (.access e) ts → Derives (.negation e) ts
  | call {span f l r es ts us} : Derives (.access f) ts → l.kind = .leftParen → Derives (.args es) us →
      r.kind = .rightParen → Derives (.access (.call span f es)) (ts ++ l :: us ++ [r])
  | member {span x d n ts} : Derives (.access x) ts → d.kind = .dot → n.kind = .identifier →
      Derives (.access (.member span x n.text)) (ts ++ [d, n])
  | access {e ts} : Derives (.primary e) ts → Derives (.access e) ts
  | noArg : Derives (.args []) []
  | args {es ts} : Derives (.exprs es) ts → Derives (.args es) ts
  | oneExpr {e ts} : Derives (.or e) ts → Derives (.exprs [e]) ts
  | exprs {e sep es ts us} : Derives (.or e) ts → sep.kind = .comma → Derives (.exprs es) us →
      Derives (.exprs (e :: es)) (ts ++ sep :: us)
  | number {span t} : t.kind = .number → Derives (.primary (.literal span (.number t.text))) [t]
  | string {span t} : t.kind = .string → Derives (.primary (.literal span (.string t.text))) [t]
  | true {span t} : t.kind = .trueWord → Derives (.primary (.literal span (.boolean true))) [t]
  | false {span t} : t.kind = .falseWord → Derives (.primary (.literal span (.boolean false))) [t]
  | null {span t} : t.kind = .nullWord → Derives (.primary (.literal span .null)) [t]
  | self {span t} : t.kind = .thisWord → Derives (.primary (.self span)) [t]
  | name {span t} : t.kind = .identifier → Derives (.primary (.name span t.text)) [t]
  | parens {l r e ts} : l.kind = .leftParen → Derives (.or e) ts → r.kind = .rightParen →
      Derives (.primary e) (l :: ts ++ [r])

end Grammar

end Anadil
