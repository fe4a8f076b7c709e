import Anadil.Tree.Parser
import Anadil.Tree.Walk

/-! # Where the nodes of a tree sit

A node sits on the tokens that it was read from: its span goes from the first of them to the last, and the
nodes right below it sit on some of them, one behind the other. Where the tokens stand in the order of the
source, so do the nodes: a node lies within the one above it, nodes that are below the same one do not
overlap, and a walk meets them by their starts. -/

namespace Anadil

/-- The expressions that a statement holds itself. -/
def Stmt.exprs : Stmt → List Expr
  | .branch _ c .. | .loop _ c _ => [c]
  | .ret _ (some e) | .print _ e | .expression _ e => [e]
  | .assign _ target e => [target, e]
  | _ => []

/-- The expressions right below an expression. -/
def Expr.parts : Expr → List Expr
  | .binary _ _ l r => [l, r]
  | .unary _ _ e => [e]
  | .call _ f args => f :: args
  | .member _ o _ => [o]
  | _ => []

/-- The statements right below a statement. The methods of a class are statements of their own. -/
def Stmt.stmts : Stmt → List Stmt
  | .function f => f.body
  | .classDef _ _ methods => methods.map .function
  | .branch _ _ body none | .loop _ _ body => body
  | .branch _ _ body (some otherwise) => body ++ otherwise
  | _ => []

/-- A node of a tree. -/
inductive TreeNode where
  | program (p : Program)
  | stmt (s : Stmt)
  | expr (e : Expr)

namespace TreeNode

/-- The span of a node. -/
def span : TreeNode → Span
  | program p => p.span
  | stmt s => s.span
  | expr e => e.span

/-- The nodes right below a node, from left to right. -/
def children : TreeNode → List TreeNode
  | program p => p.body.map stmt
  | stmt s => s.exprs.map expr ++ s.stmts.map stmt
  | expr e => e.parts.map expr

/-- A node of the tree that `root` is the top of. -/
inductive Below (root : TreeNode) : TreeNode → Prop where
  | refl : Below root root
  | child {n m} : Below root n → m ∈ n.children → Below root m

theorem Below.eq_of_childless {root n : TreeNode} (h : root.Below n) (hroot : root.children = []) :
    n = root := by
  induction h with
  | refl => rfl
  | child _ hm ih =>
    rw [ih, hroot] at hm
    cases hm

/-! ### Walks -/

/-- The nodes that are entered from a node, with their spans. -/
def nodes (enter : NodeKind → Bool) : TreeNode → List (NodeKind × Span)
  | program p => p.nodes enter
  | stmt s => s.nodes enter
  | expr e => e.nodes enter

section Walks
variable (enter : NodeKind → Bool)

theorem exprNodes_eq (es : List Expr) : exprNodes enter es = (es.map expr).flatMap (nodes enter) := by
  induction es with
  | nil => rfl
  | cons e es ih => simp only [exprNodes, ih, List.map_cons, List.flatMap_cons, nodes]

theorem stmtNodes_eq (ss : List Stmt) : stmtNodes enter ss = (ss.map stmt).flatMap (nodes enter) := by
  induction ss with
  | nil => rfl
  | cons s ss ih => simp only [stmtNodes, ih, List.map_cons, List.flatMap_cons, nodes]

theorem methodNodes_eq (fs : List (Function Stmt)) :
    methodNodes enter fs = ((fs.map Stmt.function).map stmt).flatMap (nodes enter) := by
  induction fs with
  | nil => rfl
  | cons f fs ih => simp only [methodNodes, ih, List.map_cons, List.flatMap_cons, nodes, Stmt.nodes]

attribute [local simp] nodes Program.nodes Stmt.nodes functionNodes Expr.nodes children Stmt.exprs Stmt.stmts
  Expr.parts span Stmt.span Expr.span exprNodes_eq stmtNodes_eq methodNodes_eq

/-- A walk meets a node, unless it is missing, and then goes through what is right below it. -/
theorem nodes_eq (n : TreeNode) :
    n.nodes enter = [] ∨ ∃ kind, n.nodes enter = visit enter kind n.span (n.children.flatMap (nodes enter)) := by
  cases n with
  | program p => exact .inr ⟨.program, by simp⟩
  | stmt s =>
    cases s with
    | function f =>
      cases f
      exact .inr ⟨.functionDef, by simp⟩
    | classDef => exact .inr ⟨.classDef, by simp⟩
    | branch _ _ _ otherwise => cases otherwise <;> exact .inr ⟨.branch, by simp⟩
    | loop => exact .inr ⟨.loop, by simp⟩
    | ret _ value => cases value <;> exact .inr ⟨.ret, by simp⟩
    | print => exact .inr ⟨.print, by simp⟩
    | expression => exact .inr ⟨.expression, by simp⟩
    | assign => exact .inr ⟨.assignment, by simp⟩
    | breakLoop => exact .inr ⟨.breakLoop, by simp⟩
    | continueLoop => exact .inr ⟨.continueLoop, by simp⟩
    | absent => exact .inl rfl
  | expr e =>
    cases e with
    | binary => exact .inr ⟨.binary, by simp⟩
    | unary => exact .inr ⟨.unary, by simp⟩
    | call => exact .inr ⟨.call, by simp⟩
    | member => exact .inr ⟨.member, by simp⟩
    | name => exact .inr ⟨.identifier, by simp⟩
    | self => exact .inr ⟨.self, by simp⟩
    | literal => exact .inr ⟨.literal, by simp⟩
    | absent => exact .inl rfl

end Walks

end TreeNode

/-! ### Tokens in order -/

/-- Tokens that stand one behind the other, none of them empty. -/
structure InOrder (ts : List Token) : Prop where
  solid : ∀ t ∈ ts, t.span.start < t.span.stop
  apart : ts.Pairwise fun a b => a.span.stop ≤ b.span.start

theorem InOrder.sublist {ts us : List Token} (h : InOrder ts) (hsub : us.Sublist ts) : InOrder us :=
  ⟨fun t ht => h.solid t (hsub.subset ht), h.apart.sublist hsub⟩

/-- A span goes from the first of some tokens to the last. -/
def Span.Over (s : Span) (ts : List Token) : Prop :=
  ∃ first last, ts.head? = some first ∧ ts.getLast? = some last ∧ s = .join first.span last.span

namespace Span.Over
variable {s s' : Span} {ts us : List Token}

theorem ends (h : s.Over ts) :
    ∃ first ∈ ts, ∃ last ∈ ts, s.start = first.span.start ∧ s.stop = last.span.stop := by
  obtain ⟨first, last, hfirst, hlast, rfl⟩ := h
  exact ⟨first, List.mem_of_head? hfirst, last, List.mem_of_getLast? hlast, rfl, rfl⟩

theorem bounds (h : s.Over ts) (ho : InOrder ts) {t : Token} (ht : t ∈ ts) :
    s.start ≤ t.span.start ∧ t.span.stop ≤ s.stop := by
  obtain ⟨first, last, hfirst, hlast, rfl⟩ := h
  have hsolid := ho.solid
  constructor
  · show first.span.start ≤ t.span.start
    obtain ⟨rest, rfl⟩ := List.head?_eq_some_iff.mp hfirst
    rcases List.mem_cons.mp ht with rfl | hrest
    · exact Int.le_refl _
    · have hapart := (List.pairwise_cons.mp ho.apart).1 t hrest
      have hne := hsolid first List.mem_cons_self
      omega
  · show t.span.stop ≤ last.span.stop
    obtain ⟨init, rfl⟩ := List.getLast?_eq_some_iff.mp hlast
    rcases List.mem_append.mp ht with hinit | hmem
    · have hapart := (List.pairwise_append.mp ho.apart).2.2 t hinit last (List.mem_singleton_self _)
      have hne := hsolid last (List.mem_append_right _ (List.mem_singleton_self _))
      omega
    · obtain rfl := List.mem_singleton.mp hmem
      exact Int.le_refl _

theorem solid (h : s.Over ts) (ho : InOrder ts) : s.start < s.stop := by
  obtain ⟨first, hfirst, -⟩ := h.ends
  have hbounds := h.bounds ho hfirst
  have hne := ho.solid first hfirst
  omega

theorem within (h : s.Over ts) (ho : InOrder ts) (h' : s'.Over us) (hsub : us ⊆ ts) :
    s.start ≤ s'.start ∧ s'.stop ≤ s.stop := by
  obtain ⟨first, hfirst, last, hlast, hstart, hstop⟩ := h'.ends
  rw [hstart, hstop]
  exact ⟨(h.bounds ho (hsub hfirst)).1, (h.bounds ho (hsub hlast)).2⟩

theorem apart (h : s.Over ts) (h' : s'.Over us) (hapart : ∀ a ∈ ts, ∀ b ∈ us, a.span.stop ≤ b.span.start) :
    s.stop ≤ s'.start := by
  obtain ⟨-, -, last, hlast, -, hstop⟩ := h.ends
  obtain ⟨first, hfirst, -, -, hstart, -⟩ := h'.ends
  rw [hstop, hstart]
  exact hapart last hlast first hfirst

end Span.Over

/-- Lists of tokens that stand in `ts` one behind the other, with anything between them. -/
inductive Spread : List (List Token) → List Token → Prop where
  | nil (ts) : Spread [] ts
  | cons {part parts after} (before) : Spread parts after → Spread (part :: parts) (before ++ (part ++ after))

namespace Spread
variable {parts parts' : List (List Token)} {part ts us : List Token}

theorem behind (h : Spread parts us) (ts : List Token) : Spread parts (ts ++ us) := by
  cases h with
  | nil => exact .nil _
  | cons before h =>
    rw [← List.append_assoc]
    exact .cons (ts ++ before) h

theorem append (h : Spread parts ts) (h' : Spread parts' us) : Spread (parts ++ parts') (ts ++ us) := by
  induction h with
  | nil ts => exact h'.behind ts
  | cons before _ ih =>
    rw [List.append_assoc, List.append_assoc]
    exact .cons before ih

theorem whole (ts : List Token) : Spread [ts] ts := by
  have h : Spread [ts] ([] ++ (ts ++ [])) := .cons [] (.nil [])
  rwa [List.nil_append, List.append_nil] at h

theorem isInfix (h : Spread parts ts) (hpart : part ∈ parts) : part <:+: ts := by
  induction h with
  | nil => cases hpart
  | @cons first parts after before h ih =>
    rcases List.mem_cons.mp hpart with rfl | hpart
    · exact ⟨before, after, List.append_assoc ..⟩
    · rw [← List.append_assoc]
      exact (ih hpart).trans (List.suffix_append _ _).isInfix

theorem apart {R : Token → Token → Prop} (h : Spread parts ts) (ho : ts.Pairwise R) :
    parts.Pairwise fun p q => ∀ a ∈ p, ∀ b ∈ q, R a b := by
  induction h with
  | nil => exact .nil
  | @cons part parts after before h ih =>
    have ho := (List.pairwise_append.mp ho).2.1
    obtain ⟨-, hafter, hcross⟩ := List.pairwise_append.mp ho
    refine List.pairwise_cons.mpr ⟨fun q hq a ha b hb => ?_, ih hafter⟩
    exact hcross a ha b ((h.isInfix hq).subset hb)

/-- What stands before the first part and behind the last one can be left out. -/
theorem trim (h : Spread (part :: parts) ts) (hpart : part ≠ []) (hparts : ∀ p ∈ parts, p ≠ []) :
    ∃ core, core <:+: ts ∧ Spread (part :: parts) core ∧ core.head? = part.head? ∧
      ∀ last ∈ (part :: parts).getLast?, core.getLast? = last.getLast? := by
  induction parts generalizing part ts with
  | nil =>
    refine ⟨part, h.isInfix List.mem_cons_self, .whole part, rfl, fun last hlast => ?_⟩
    obtain rfl := Option.some.inj hlast
    rfl
  | cons next parts ih =>
    obtain ⟨hnext, hparts⟩ := List.forall_mem_cons.mp hparts
    cases h with
    | cons before h =>
      rename_i after
      obtain ⟨core, ⟨front, rest, rfl⟩, hcore, -, hlast⟩ := ih h hnext hparts
      refine ⟨part ++ (front ++ core), ⟨before, rest, by simp only [List.append_assoc]⟩,
        .cons [] (hcore.behind front), ?_, fun last hmem => ?_⟩
      · rw [List.head?_append, List.head?_eq_some_head hpart, Option.some_or]
      · rw [List.getLast?_cons_cons] at hmem
        have hlast_ne : last ≠ [] := by
          rcases List.mem_cons.mp (List.mem_of_getLast? hmem) with rfl | hmem
          · exact hnext
          · exact hparts last hmem
        rw [List.getLast?_append, List.getLast?_append, hlast last hmem, List.getLast?_eq_some_getLast hlast_ne,
          Option.some_or, Option.some_or]

end Spread

/-! ### Seats -/

namespace TreeNode

/-- A node sits on tokens: its span goes over them, and what is right below it sits on parts of them. Of an
expression, `whole` holds besides. -/
inductive Sits (whole : Expr → List Token → Prop) : TreeNode → List Token → Prop where
  | intro {n ts} (below : List (TreeNode × List Token)) :
      n.span.Over ts → (∀ e, n = expr e → whole e ts) → below.map Prod.fst = n.children →
      Spread (below.map Prod.snd) ts → (∀ m ∈ below, Sits whole m.1 m.2) → Sits whole n ts

/-- Nodes sit on parts of some tokens, one behind the other. -/
def Seated (whole : Expr → List Token → Prop) (ns : List TreeNode) (ts : List Token) : Prop :=
  ∃ below : List (TreeNode × List Token), below.map Prod.fst = ns ∧ Spread (below.map Prod.snd) ts ∧
    ∀ m ∈ below, m.1.Sits whole m.2

section Sits
variable {whole : Expr → List Token → Prop} {n m : TreeNode} {ns ms : List TreeNode} {ts us : List Token}

theorem seated_nil (ts : List Token) : Seated whole [] ts := ⟨[], rfl, .nil ts, by simp⟩

theorem Sits.seated (h : n.Sits whole ts) : Seated whole [n] ts :=
  ⟨[(n, ts)], rfl, .whole ts, by simpa using h⟩

theorem Seated.append (h : Seated whole ns ts) (h' : Seated whole ms us) : Seated whole (ns ++ ms) (ts ++ us) := by
  obtain ⟨below, rfl, hspread, hsits⟩ := h
  obtain ⟨below', rfl, hspread', hsits'⟩ := h'
  refine ⟨below ++ below', List.map_append, ?_, List.forall_mem_append.mpr ⟨hsits, hsits'⟩⟩
  rw [List.map_append]
  exact hspread.append hspread'

theorem Seated.behind (h : Seated whole ns us) (ts : List Token) : Seated whole ns (ts ++ us) :=
  (seated_nil ts).append h

theorem Seated.before (h : Seated whole ns ts) (us : List Token) : Seated whole ns (ts ++ us) := by
  have h' := h.append (seated_nil us)
  rwa [List.append_nil] at h'

theorem Seated.sits (h : Seated whole n.children ts) (hspan : n.span.Over ts)
    (hwhole : ∀ e, n = expr e → whole e ts) : n.Sits whole ts := by
  obtain ⟨below, hchildren, hspread, hsits⟩ := h
  exact .intro below hspan hwhole hchildren hspread hsits

theorem Sits.over (h : n.Sits whole ts) : n.span.Over ts := by
  cases h
  assumption

theorem Sits.expr {e : Expr} (h : (TreeNode.expr e).Sits whole ts) : whole e ts := by
  cases h with
  | intro below hspan hwhole => exact hwhole e rfl

theorem Sits.children (h : n.Sits whole ts) : Seated whole n.children ts := by
  cases h with
  | intro below _ _ hchildren hspread hsits => exact ⟨below, hchildren, hspread, hsits⟩

theorem Seated.mem (h : Seated whole ns ts) (hm : m ∈ ns) : ∃ us, us <:+: ts ∧ m.Sits whole us := by
  obtain ⟨below, rfl, hspread, hsits⟩ := h
  obtain ⟨⟨m, us⟩, hmem, rfl⟩ := List.mem_map.mp hm
  exact ⟨us, hspread.isInfix (List.mem_map_of_mem hmem), hsits _ hmem⟩

/-- Every node of a tree sits on some of the tokens that its top sits on. -/
theorem Sits.descend (h : n.Sits whole ts) (hm : n.Below m) : ∃ us, us <:+: ts ∧ m.Sits whole us := by
  induction hm with
  | refl => exact ⟨ts, List.infix_refl ts, h⟩
  | child _ hm ih =>
    obtain ⟨us, hus, hsits⟩ := ih
    obtain ⟨vs, hvs, hsits'⟩ := hsits.children.mem hm
    exact ⟨vs, hvs.trans hus, hsits'⟩

theorem Seated.apart (h : Seated whole ns ts) (ho : InOrder ts) :
    ns.Pairwise fun a b => a.span.stop ≤ b.span.start := by
  obtain ⟨below, rfl, hspread, hsits⟩ := h
  have hapart := List.pairwise_map.mp (hspread.apart ho.apart)
  refine List.pairwise_map.mpr (hapart.imp_of_mem fun {a b} ha hb hab => ?_)
  exact (hsits a ha).over.apart (hsits b hb).over hab

theorem Sits.within (h : n.Sits whole ts) (ho : InOrder ts) (hm : m ∈ n.children) :
    n.span.start ≤ m.span.start ∧ m.span.start < m.span.stop ∧ m.span.stop ≤ n.span.stop := by
  obtain ⟨us, hus, hsits⟩ := h.children.mem hm
  obtain ⟨hstart, hstop⟩ := h.over.within ho hsits.over hus.subset
  exact ⟨hstart, hsits.over.solid (ho.sublist hus.sublist), hstop⟩

/-- What a walk from a node meets starts within it, and never before what was met earlier. -/
theorem Sits.walk (h : n.Sits whole ts) (ho : InOrder ts) (enter : NodeKind → Bool) :
    (∀ x ∈ n.nodes enter, n.span.start ≤ x.2.start ∧ x.2.start ≤ n.span.stop) ∧
      (n.nodes enter).Pairwise fun x y => x.2.start ≤ y.2.start := by
  induction h with
  | @intro n ts below hspan hwhole hchildren hspread hsits ih =>
    have hin : ∀ m ∈ below, InOrder m.2 := fun m hm =>
      ho.sublist (hspread.isInfix (List.mem_map_of_mem hm)).sublist
    have hwithin : ∀ m ∈ below, n.span.start ≤ m.1.span.start ∧ m.1.span.stop ≤ n.span.stop := fun m hm =>
      hspan.within ho (hsits m hm).over (hspread.isInfix (List.mem_map_of_mem hm)).subset
    have hbelow : n.children.flatMap (nodes enter) = below.flatMap fun m => m.1.nodes enter := by
      rw [← hchildren, List.flatMap_map]
    have hsolid := hspan.solid ho
    -- what the walk meets below the node, child after child
    have hinside : ∀ x ∈ n.children.flatMap (nodes enter), n.span.start ≤ x.2.start ∧ x.2.start ≤ n.span.stop := by
      rw [hbelow]
      intro x hx
      obtain ⟨m, hm, hx⟩ := List.mem_flatMap.mp hx
      have hbounds := (ih m hm (hin m hm)).1 x hx
      have hm := hwithin m hm
      omega
    have hsorted : (n.children.flatMap (nodes enter)).Pairwise fun x y => x.2.start ≤ y.2.start := by
      rw [hbelow, List.pairwise_flatMap]
      refine ⟨fun m hm => (ih m hm (hin m hm)).2, ?_⟩
      refine (List.pairwise_map.mp (hspread.apart ho.apart)).imp_of_mem fun {a b} ha hb hab x hx y hy => ?_
      have hx := (ih a ha (hin a ha)).1 x hx
      have hy := (ih b hb (hin b hb)).1 y hy
      have hapart := (hsits a ha).over.apart (hsits b hb).over hab
      omega
    rcases nodes_eq enter n with hnone | ⟨kind, hnodes⟩
    · rw [hnone]
      exact ⟨by simp, .nil⟩
    · rw [hnodes, visit]
      split
      · refine ⟨List.forall_mem_cons.mpr ⟨⟨Int.le_refl _, Int.le_of_lt hsolid⟩, hinside⟩, ?_⟩
        exact List.pairwise_cons.mpr ⟨fun y hy => (hinside y hy).1, hsorted⟩
      · exact ⟨by simpa using Int.le_of_lt hsolid, List.pairwise_singleton _ _⟩

end Sits

/-! ### Programs -/

/-- A program with statements sits on their tokens, from the first of the first statement to the last of the
last one. -/
theorem Seated.program {whole : Expr → List Token → Prop} {p : Program} {start : Token} {ts : List Token}
    (h : Seated whole (p.body.map stmt) ts) (hne : p.body ≠ []) (hprogram : p.span = Parser.programSpan start p.body) :
    ∃ core, core <:+: ts ∧ (TreeNode.program p).Sits whole core := by
  obtain ⟨below, hchildren, hspread, hsits⟩ := h
  obtain ⟨s, body, hbody⟩ := List.exists_cons_of_ne_nil hne
  have hbelow := hchildren
  rw [hbody] at hbelow hprogram
  cases below with
  | nil => cases hbelow
  | cons first below =>
    have hne : ∀ m ∈ first :: below, m.2 ≠ [] := by
      intro m hm hnil
      obtain ⟨t, ht, -⟩ := (hsits m hm).over.ends
      rw [hnil] at ht
      cases ht
    obtain ⟨core, hcore, hspread, hhead, hlast⟩ :=
      hspread.trim (hne first List.mem_cons_self) (List.forall_mem_map.mpr fun m hm =>
        hne m (List.mem_cons_of_mem _ hm))
    refine ⟨core, hcore, .intro (first :: below) ?_ (by simp) hchildren hspread hsits⟩
    -- the first and the last statement, with their tokens
    obtain ⟨hfirst, -⟩ := List.cons.inj hbelow
    have hend := List.getLast?_eq_some_getLast (List.cons_ne_nil s body)
    have hend' := List.getLast?_eq_some_getLast (List.cons_ne_nil first below)
    generalize (s :: body).getLast _ = l at hend
    generalize (first :: below).getLast _ = m at hend'
    have hnode : m.1 = stmt l := by
      have hmap := congrArg List.getLast? hbelow
      rw [List.getLast?_map, List.getLast?_map, hend, hend'] at hmap
      exact Option.some.inj hmap
    obtain ⟨t, _, ht, -, hspan⟩ := (hsits first List.mem_cons_self).over
    obtain ⟨_, u, -, hu, hspan'⟩ := (hsits m (List.mem_of_getLast? hend')).over
    have hu' : core.getLast? = some u := by
      rw [← hu]
      refine hlast m.2 ?_
      rw [← List.map_cons, List.getLast?_map, hend']
      rfl
    refine ⟨t, u, hhead.trans ht, hu', ?_⟩
    rw [hfirst] at hspan
    rw [hnode] at hspan'
    have hjoin : p.span = .join s.span l.span := by
      simp only [hprogram, Parser.programSpan, List.head?_cons, hend]
    show p.span = _
    rw [hjoin, show s.span = _ from hspan, show l.span = _ from hspan']
    rfl

end TreeNode

end Anadil
