import Anadil.Proofs.Python.Scoping

/-! # Spelling of names

In a class Python puts the name of the class in front of every name that starts with two underscores and does not end
with two: it takes `__x` in a class `A` for `_A__x`. This file has that rule for names, expressions and statements, and
what it makes of the tree that a program becomes: the tree has the functions of the program, each with the names that
it had there, as they are spelled in the class around it. -/

namespace Anadil

variable {ss : List Stmt} {f : Function Stmt} {fs : List (Function Stmt)} {x : Text}

/-! ### Functions and classes -/

namespace Scoping

/-- A function and the class around it, the innermost if there are several. -/
structure Site where
  frame : Frame
  cls : Option Text

mutual

/-- Every function in a statement that stands in a class, with the functions around it. -/
def sites (cls : Option Text) (outer : List Site) : Stmt → List (List Site)
  | .function f => functionSites cls outer false f
  | .classDef _ name methods => methodsSites (some name) outer methods
  | .branch _ _ body none => sitesAll cls outer body
  | .branch _ _ body (some otherwise) => sitesAll cls outer body ++ sitesAll cls outer otherwise
  | .loop _ _ body => sitesAll cls outer body
  | _ => []

/-- Every function in statements. -/
def sitesAll (cls : Option Text) (outer : List Site) : List Stmt → List (List Site)
  | [] => []
  | s :: ss => sites cls outer s ++ sitesAll cls outer ss

/-- The sites of a function and of those in it. -/
def functionSites (cls : Option Text) (outer : List Site) (isMethod : Bool) : Function Stmt → List (List Site)
  | ⟨_, name, params, body⟩ =>
    (⟨⟨isMethod, name, params, body⟩, cls⟩ :: outer) ::
      sitesAll cls (⟨⟨isMethod, name, params, body⟩, cls⟩ :: outer) body

/-- The sites of methods and of the functions in them. -/
def methodsSites (cls : Option Text) (outer : List Site) : List (Function Stmt) → List (List Site)
  | [] => []
  | f :: fs => functionSites cls outer true f ++ methodsSites cls outer fs

end

/-- The functions of sites are those that are found without regard to classes. -/
def Unclassed (s : Stmt) : Prop :=
  ∀ cls outer, (sites cls outer s).map (List.map Site.frame) = chains (outer.map Site.frame) s

/-- Without their classes the sites are the chains of frames. -/
theorem frames_sitesAll (cls : Option Text) (outer : List Site) (h : ∀ s ∈ ss, Unclassed s) :
    (sitesAll cls outer ss).map (List.map Site.frame) = chainsAll (outer.map Site.frame) ss := by
  induction ss with
  | nil => rfl
  | cons s ss ih =>
    obtain ⟨hs, hss⟩ := List.forall_mem_cons.mp h
    simp only [sitesAll, chainsAll, List.map_append, hs cls outer, ih hss]

theorem frames_functionSites (cls : Option Text) (outer : List Site) (isMethod : Bool)
    (h : ∀ s ∈ f.body, Unclassed s) : (functionSites cls outer isMethod f).map (List.map Site.frame) =
      functionChains (outer.map Site.frame) isMethod f := by
  obtain ⟨span, name, params, body⟩ := f
  simp only [functionSites, functionChains, List.map_cons, frames_sitesAll _ _ h]

theorem frames_methodsSites (cls : Option Text) (outer : List Site)
    (h : ∀ f ∈ fs, ∀ s ∈ f.body, Unclassed s) :
    (methodsSites cls outer fs).map (List.map Site.frame) = methodsChains (outer.map Site.frame) fs := by
  induction fs with
  | nil => rfl
  | cons f fs ih =>
    obtain ⟨hf, hfs⟩ := List.forall_mem_cons.mp h
    simp only [methodsSites, methodsChains, List.map_append, frames_functionSites cls outer true hf, ih hfs]

theorem unclassed (s : Stmt) : Unclassed s := by
  induction s using Stmt.induct with
  | function f ih => exact fun cls outer => frames_functionSites cls outer false ih
  | classDef span name methods ih => exact fun cls outer => frames_methodsSites (some name) outer ih
  | branch span c body ih => exact fun cls outer => frames_sitesAll cls outer ih
  | branchElse span c body otherwise ih ih' =>
    intro cls outer
    simp only [sites, chains, List.map_append, frames_sitesAll cls outer ih, frames_sitesAll cls outer ih']
  | loop span c body ih => exact fun cls outer => frames_sitesAll cls outer ih
  | _ => exact fun cls outer => rfl

/-- What stands right around a function of a statement: the functions around the statement, or one of its functions. -/
def Nested (s : Stmt) : Prop :=
  ∀ cls outer site rest, site :: rest ∈ sites cls outer s → rest = outer ∨ rest ∈ sites cls outer s

section Nesting
variable {cls : Option Text} {outer rest : List Site} {site : Site}

theorem nested_sitesAll (h : ∀ s ∈ ss, Nested s) (hsite : site :: rest ∈ sitesAll cls outer ss) :
    rest = outer ∨ rest ∈ sitesAll cls outer ss := by
  induction ss with
  | nil => cases hsite
  | cons s ss ih =>
    obtain ⟨hs, hss⟩ := List.forall_mem_cons.mp h
    rcases List.mem_append.mp hsite with hsite | hsite
    · exact (hs cls outer site rest hsite).imp_right (List.mem_append_left _)
    · exact (ih hss hsite).imp_right (List.mem_append_right _)

/-- What stands around a site is a site too, or the outermost one. -/
theorem nested_functionSites {isMethod : Bool} (h : ∀ s ∈ f.body, Nested s)
    (hsite : site :: rest ∈ functionSites cls outer isMethod f) :
    rest = outer ∨ rest ∈ functionSites cls outer isMethod f := by
  obtain ⟨span, name, params, body⟩ := f
  rcases List.mem_cons.mp hsite with hsite | hsite
  · exact .inl (List.cons.inj hsite).2
  · rcases nested_sitesAll h hsite with rfl | hrest
    · exact .inr List.mem_cons_self
    · exact .inr (List.mem_cons_of_mem _ hrest)

theorem nested_methodsSites (h : ∀ f ∈ fs, ∀ s ∈ f.body, Nested s)
    (hsite : site :: rest ∈ methodsSites cls outer fs) : rest = outer ∨ rest ∈ methodsSites cls outer fs := by
  induction fs with
  | nil => cases hsite
  | cons f fs ih =>
    obtain ⟨hf, hfs⟩ := List.forall_mem_cons.mp h
    rcases List.mem_append.mp hsite with hsite | hsite
    · exact (nested_functionSites hf hsite).imp_right (List.mem_append_left _)
    · exact (ih hfs hsite).imp_right (List.mem_append_right _)

end Nesting

theorem nested (s : Stmt) : Nested s := by
  induction s using Stmt.induct with
  | function f ih => exact fun cls outer site rest => nested_functionSites ih
  | classDef span name methods ih => exact fun cls outer site rest => nested_methodsSites ih
  | branch span c body ih => exact fun cls outer site rest => nested_sitesAll ih
  | branchElse span c body otherwise ih ih' =>
    intro cls outer site rest hsite
    rcases List.mem_append.mp hsite with hsite | hsite
    · exact (nested_sitesAll ih hsite).imp_right (List.mem_append_left _)
    · exact (nested_sitesAll ih' hsite).imp_right (List.mem_append_right _)
  | loop span c body ih => exact fun cls outer site rest => nested_sitesAll ih
  | _ => exact fun cls outer site rest hsite => absurd hsite List.not_mem_nil

/-! ### Names -/

mutual

/-- The names in an expression, that of the receiver included and those of members not. -/
def exprNames : Expr → List Text
  | .binary _ _ l r => exprNames l ++ exprNames r
  | .unary _ _ e => exprNames e
  | .call _ f args => exprNames f ++ exprsNames args
  | .member _ o _ => exprNames o
  | .name _ name => [name]
  | .self _ => ["self"]
  | .literal _ _ | .absent => []

/-- The names in expressions. -/
def exprsNames : List Expr → List Text
  | [] => []
  | e :: es => exprNames e ++ exprsNames es

end

mutual

/-- The names that a statement uses in its own scope. -/
def names : Stmt → List Text
  | .function f => [f.name]
  | .classDef _ name _ => [name]
  | .branch _ c body none => exprNames c ++ namesAll body
  | .branch _ c body (some otherwise) => exprNames c ++ namesAll body ++ namesAll otherwise
  | .loop _ c body => exprNames c ++ namesAll body
  | .ret _ (some e) | .print _ e | .expression _ e => exprNames e
  | .assign _ target e => exprNames target ++ exprNames e
  | .ret _ none | .breakLoop _ | .continueLoop _ | .absent => []

/-- The names in statements. -/
def namesAll : List Stmt → List Text
  | [] => []
  | s :: ss => names s ++ namesAll ss

end

namespace Frame

/-- The names at the head of a function, that of the receiver included. -/
def head (f : Frame) : List Text := if f.isMethod then "self" :: f.params else f.params

/-- The names that a function binds. -/
def bound (f : Frame) : List Text :=
  f.head ++ (leavesAll f.body).flatMap defines ++ (leavesAll f.body).flatMap assigns

theorem mem_head {f : Frame} : x ∈ f.head ↔ (f.isMethod = true ∧ x = ("self" : Text)) ∨ x ∈ f.params := by
  rw [head]
  cases f.isMethod <;> simp

theorem mem_bound {f : Frame} : x ∈ f.bound ↔ f.Binds x := by
  simp only [bound, Binds, Owns, Assigned, Defined, List.mem_append, mem_head, or_assoc]

end Frame

/-- What a statement adds to its scope with a name is one of its uses of the name. -/
def Named (s : Stmt) : Prop := ∀ l ∈ leaves s, ∀ x ∈ assigns l ++ defines l, x ∈ names s

theorem named_leavesAll (h : ∀ s ∈ ss, Named s) :
    ∀ l ∈ leavesAll ss, ∀ x ∈ assigns l ++ defines l, x ∈ namesAll ss := by
  intro l hl x hx
  induction ss with
  | nil => cases hl
  | cons s ss ih =>
    obtain ⟨hs, hss⟩ := List.forall_mem_cons.mp h
    rcases List.mem_append.mp hl with hl | hl
    · exact List.mem_append_left _ (hs l hl x hx)
    · exact List.mem_append_right _ (ih hss hl)

theorem named (s : Stmt) : Named s := by
  induction s using Stmt.induct with
  | branch span c body ih => exact fun l hl x hx => List.mem_append_right _ (named_leavesAll ih l hl x hx)
  | branchElse span c body otherwise ih ih' =>
    intro l hl x hx
    rcases List.mem_append.mp hl with hl | hl
    · exact List.mem_append_left _ (List.mem_append_right _ (named_leavesAll ih l hl x hx))
    · exact List.mem_append_right _ (named_leavesAll ih' l hl x hx)
  | loop span c body ih => exact fun l hl x hx => List.mem_append_right _ (named_leavesAll ih l hl x hx)
  | assign span target e =>
    intro l hl x hx
    obtain rfl := List.mem_singleton.mp hl
    cases target with
    | name span n => exact List.mem_append_left _ (by simpa [assigns, defines, exprNames] using hx)
    | _ => cases hx
  | function | classDef =>
    intro l hl x hx
    obtain rfl := List.mem_singleton.mp hl
    exact hx
  | _ =>
    intro l hl x hx
    obtain rfl := List.mem_singleton.mp hl
    cases hx

theorem Frame.Binds.named {f : Frame} (h : f.Binds x) : x ∈ f.head ++ namesAll f.body := by
  have hbody : ∀ l ∈ leavesAll f.body, ∀ x ∈ assigns l ++ defines l, x ∈ namesAll f.body :=
    named_leavesAll fun s _ => Scoping.named s
  rcases h with (hself | hparam | hdefined) | hassigned
  · exact List.mem_append_left _ (mem_head.mpr (.inl hself))
  · exact List.mem_append_left _ (mem_head.mpr (.inr hparam))
  · obtain ⟨l, hl, hx⟩ := List.mem_flatMap.mp hdefined
    exact List.mem_append_right _ (hbody l hl x (List.mem_append_right _ hx))
  · obtain ⟨l, hl, hx⟩ := List.mem_flatMap.mp hassigned
    exact List.mem_append_right _ (hbody l hl x (List.mem_append_left _ hx))

end Scoping

namespace Python

/-! ### Spelling -/

/-- Whether Python changes a name in a class. -/
def isPrivate (x : Text) : Bool := x.startsWith "__" && !("__" : Text).isSuffixOf x

/-- The name of a class as it is put in front of others. One of underscores only counts as no class. -/
def bare (cls : Option Text) : Text := (cls.getD []).dropWhile (·.is '_')

/-- A name in a class as Python takes it. -/
def mangle (cls : Option Text) (x : Text) : Text :=
  if isPrivate x = true ∧ bare cls ≠ [] then "_" ++ bare cls ++ x else x

theorem mangle_of_plain (h : isPrivate x = false) (cls : Option Text) : mangle cls x = x :=
  if_neg fun h' => by simp [h] at h'

theorem mangle_eq_iff {c d : Option Text} :
    mangle c x = mangle d x ↔ (isPrivate x = true → bare c = bare d) := by
  -- a name is never the same with more in front
  have hlonger : ∀ b : Text, "_" ++ b ++ x ≠ x := fun b h => by
    have hlength := congrArg List.length h
    have hone : List.length ("_" : Text) = 1 := rfl
    rw [List.length_append, List.length_append] at hlength
    omega
  cases hx : isPrivate x with
  | false => simp [mangle_of_plain hx]
  | true =>
    have hmangle : ∀ cls, mangle cls x = if bare cls ≠ [] then "_" ++ bare cls ++ x else x := fun cls => by
      simp only [mangle, hx, true_and]
    refine Iff.trans ?_ ⟨fun h _ => h, fun h => h rfl⟩
    rw [hmangle, hmangle]
    by_cases hc : bare c = []
    · by_cases hd : bare d = []
      · simp [hc, hd]
      · rw [if_neg (fun h => h hc), if_pos hd, hc]
        exact ⟨fun h => absurd h.symm (hlonger _), fun h => absurd h.symm hd⟩
    · by_cases hd : bare d = []
      · rw [if_pos hc, if_neg (fun h => h hd), hd]
        exact ⟨fun h => absurd h (hlonger _), fun h => absurd h hc⟩
      · rw [if_pos hc, if_pos hd, List.append_cancel_right_eq, List.append_cancel_left_eq]

mutual

/-- An expression in a class as Python takes it. -/
def mangledExpr (cls : Option Text) : Expr → Expr
  | .binary s op l r => .binary s op (mangledExpr cls l) (mangledExpr cls r)
  | .unary s op e => .unary s op (mangledExpr cls e)
  | .call s f args => .call s (mangledExpr cls f) (mangledExprs cls args)
  | .member s o name => .member s (mangledExpr cls o) (mangle cls name)
  | .name s name => .name s (mangle cls name)
  | .self s => .self s
  | .literal s v => .literal s v
  | .absent => .absent

/-- Expressions in a class as Python takes them. -/
def mangledExprs (cls : Option Text) : List Expr → List Expr
  | [] => []
  | e :: es => mangledExpr cls e :: mangledExprs cls es

end

theorem exprsNames_mangled {cls : Option Text} {es : List Expr}
    (h : ∀ e ∈ es, Scoping.exprNames (mangledExpr cls e) = (Scoping.exprNames e).map (mangle cls)) :
    Scoping.exprsNames (mangledExprs cls es) = (Scoping.exprsNames es).map (mangle cls) := by
  induction es with
  | nil => rfl
  | cons e es ih =>
    obtain ⟨he, hes⟩ := List.forall_mem_cons.mp h
    rw [mangledExprs, Scoping.exprsNames, Scoping.exprsNames, List.map_append, he, ih hes]

theorem exprNames_mangled (cls : Option Text) (e : Expr) :
    Scoping.exprNames (mangledExpr cls e) = (Scoping.exprNames e).map (mangle cls) := by
  induction e using Expr.induct with
  | binary span op l r ihl ihr => simp only [mangledExpr, Scoping.exprNames, List.map_append, ihl, ihr]
  | unary span op e ih => exact ih
  | call span f args ihf ihargs =>
    simp only [mangledExpr, Scoping.exprNames, List.map_append, ihf, exprsNames_mangled ihargs]
  | member span o name ih => exact ih
  | self span => exact congrArg (fun n => [n]) (mangle_of_plain rfl cls).symm
  | _ => rfl

namespace Code

mutual

/-- A statement in a class as Python takes it. -/
def mangled (cls : Option Text) : Code → Code
  | .function name params body => .function (mangle cls name) (params.map (mangle cls)) (mangledAll cls body)
  | .classDef name body => .classDef (mangle cls name) (mangledAll (some name) body)
  | .branch c body none => .branch (mangledExpr cls c) (mangledAll cls body) none
  | .branch c body (some otherwise) =>
    .branch (mangledExpr cls c) (mangledAll cls body) (some (mangledAll cls otherwise))
  | .loop c body => .loop (mangledExpr cls c) (mangledAll cls body)
  | .global names => .global (names.map (mangle cls))
  | .nonlocal names => .nonlocal (names.map (mangle cls))
  | .ret value => .ret (value.map (mangledExpr cls))
  | .print e => .print (mangledExpr cls e)
  | .expression e => .expression (mangledExpr cls e)
  | .assign target e => .assign (mangledExpr cls target) (mangledExpr cls e)
  | .breakLoop => .breakLoop
  | .continueLoop => .continueLoop
  | .pass => .pass

/-- Statements in a class as Python takes them. -/
def mangledAll (cls : Option Text) : List Code → List Code
  | [] => []
  | c :: cs => mangled cls c :: mangledAll cls cs

end

mutual

theorem leaves_mangled (cls : Option Text) : ∀ c : Code, leaves (mangled cls c) = (leaves c).map (mangled cls)
  | .branch _ body none => leavesAll_mangledAll cls body
  | .branch _ body (some otherwise) => by
    simp only [mangled, leaves, List.map_append, leavesAll_mangledAll cls body, leavesAll_mangledAll cls otherwise]
  | .loop _ body => leavesAll_mangledAll cls body
  | .function .. | .classDef .. | .global _ | .nonlocal _ | .ret _ | .print _ | .expression _ | .assign .. => rfl
  | .breakLoop | .continueLoop | .pass => rfl

theorem leavesAll_mangledAll (cls : Option Text) :
    ∀ cs : List Code, leavesAll (mangledAll cls cs) = (leavesAll cs).map (mangled cls)
  | [] => rfl
  | c :: cs => by
    simp only [mangledAll, leavesAll, List.map_append, leaves_mangled cls c, leavesAll_mangledAll cls cs]

end

theorem binds_mangled (cls : Option Text) (c : Code) : binds (mangled cls c) = (binds c).map (mangle cls) := by
  cases c with
  | branch c body otherwise => cases otherwise <;> rfl
  | assign target e => cases target <;> rfl
  | _ => rfl

theorem globals_mangled (cls : Option Text) (c : Code) : globals (mangled cls c) = (globals c).map (mangle cls) := by
  cases c with
  | branch c body otherwise => cases otherwise <;> rfl
  | _ => rfl

theorem nonlocals_mangled (cls : Option Text) (c : Code) :
    nonlocals (mangled cls c) = (nonlocals c).map (mangle cls) := by
  cases c with
  | branch c body otherwise => cases otherwise <;> rfl
  | _ => rfl

mutual

/-- The names that a statement uses in its own scope. -/
def names : Code → List Text
  | .function name _ _ | .classDef name _ => [name]
  | .branch c body none => Scoping.exprNames c ++ namesAll body
  | .branch c body (some otherwise) => Scoping.exprNames c ++ namesAll body ++ namesAll otherwise
  | .loop c body => Scoping.exprNames c ++ namesAll body
  | .global names | .nonlocal names => names
  | .ret (some e) | .print e | .expression e => Scoping.exprNames e
  | .assign target e => Scoping.exprNames target ++ Scoping.exprNames e
  | .ret none | .breakLoop | .continueLoop | .pass => []

/-- The names that statements use in their own scope. -/
def namesAll : List Code → List Text
  | [] => []
  | c :: cs => names c ++ namesAll cs

end

mutual

theorem names_mangled (cls : Option Text) : ∀ c : Code, names (mangled cls c) = (names c).map (mangle cls)
  | .branch c body none => by
    simp only [mangled, names, List.map_append, exprNames_mangled, namesAll_mangledAll cls body]
  | .branch c body (some otherwise) => by
    simp only [mangled, names, List.map_append, exprNames_mangled, namesAll_mangledAll cls body,
      namesAll_mangledAll cls otherwise]
  | .loop c body => by
    simp only [mangled, names, List.map_append, exprNames_mangled, namesAll_mangledAll cls body]
  | .ret (some e) | .print e | .expression e => exprNames_mangled cls e
  | .assign target e => by simp only [mangled, names, List.map_append, exprNames_mangled]
  | .function .. | .classDef .. | .global _ | .nonlocal _ | .ret none | .breakLoop | .continueLoop | .pass => rfl

theorem namesAll_mangledAll (cls : Option Text) :
    ∀ cs : List Code, namesAll (mangledAll cls cs) = (namesAll cs).map (mangle cls)
  | [] => rfl
  | c :: cs => by simp only [mangledAll, namesAll, List.map_append, names_mangled cls c, namesAll_mangledAll cls cs]

end

theorem namesAll_append (cs ds : List Code) : namesAll (cs ++ ds) = namesAll cs ++ namesAll ds := by
  induction cs with
  | nil => rfl
  | cons c cs ih => simp only [List.cons_append, namesAll, ih, List.append_assoc]

theorem namesAll_orPass (cs : List Code) : namesAll (orPass cs) = namesAll cs := by cases cs <;> rfl

theorem namesAll_declarations (scope : Scope) :
    namesAll (declarations scope) = scope.declared .global ++ scope.declared .nonlocal := by
  unfold declarations
  split <;> split <;> simp_all [namesAll, names]

section Translation
variable {style : Style}

/-- The code of statements names what the statements name. -/
theorem namesAll_ofStmts {outer : List Scope} (h : ∀ s ∈ ss, names (ofStmt style outer s) = Scoping.names s) :
    namesAll (ofStmts style outer ss) = Scoping.namesAll ss := by
  induction ss with
  | nil => rfl
  | cons s ss ih =>
    obtain ⟨hs, hss⟩ := List.forall_mem_cons.mp h
    rw [ofStmts, namesAll, Scoping.namesAll, hs, ih hss]

theorem names_ofStmt (outer : List Scope) (s : Stmt) : names (ofStmt style outer s) = Scoping.names s := by
  induction s using Stmt.induct with
  | function f ih =>
    cases f
    rfl
  | branch span c body ih => rw [ofStmt, names, Scoping.names, namesAll_orPass, namesAll_ofStmts ih]
  | branchElse span c body otherwise ih ih' =>
    rw [ofStmt, names, Scoping.names, namesAll_orPass, namesAll_orPass, namesAll_ofStmts ih, namesAll_ofStmts ih']
  | loop span c body ih => rw [ofStmt, names, Scoping.names, namesAll_orPass, namesAll_ofStmts ih]
  | ret span value => cases value <;> rfl
  | _ => rfl

end Translation

theorem mangledAll_append (cls : Option Text) (cs ds : List Code) :
    mangledAll cls (cs ++ ds) = mangledAll cls cs ++ mangledAll cls ds := by
  induction cs with
  | nil => rfl
  | cons c cs ih => simp only [List.cons_append, mangledAll, ih]

theorem mangledAll_orPass (cls : Option Text) (cs : List Code) : mangledAll cls (orPass cs) = orPass (mangledAll cls cs) := by
  cases cs <;> rfl

theorem chainsAll_mangled_declarations (cls : Option Text) (outer : List Frame) (scope : Scope) :
    chainsAll outer (mangledAll cls (declarations scope)) = [] := by
  unfold declarations
  split <;> split <;> rfl

end Code

namespace Frame

/-- A function in a class as Python takes it. -/
def mangled (cls : Option Text) (f : Frame) : Frame :=
  ⟨mangle cls f.name, f.params.map (mangle cls), Code.mangledAll cls f.body⟩

section Mangled
variable {cls : Option Text} {f : Frame} {y : Text}

theorem flatMap_mangled {names : Code → List Text} (h : ∀ c, names (Code.mangled cls c) = (names c).map (mangle cls)) :
    y ∈ (Code.leavesAll (f.mangled cls).body).flatMap names ↔
      ∃ x ∈ (Code.leavesAll f.body).flatMap names, mangle cls x = y := by
  simp only [mangled, Code.leavesAll_mangledAll, List.flatMap_map, h, ← List.map_flatMap, List.mem_map]

theorem mangled_binds : (f.mangled cls).Binds y ↔ ∃ x, f.Binds x ∧ mangle cls x = y := by
  have hparams : y ∈ (f.mangled cls).params ↔ ∃ x ∈ f.params, mangle cls x = y := List.mem_map
  rw [Binds, hparams, flatMap_mangled (Code.binds_mangled cls)]
  simp only [Binds, or_and_right, exists_or]

theorem mangled_global : (f.mangled cls).Global y ↔ ∃ x, f.Global x ∧ mangle cls x = y :=
  flatMap_mangled (Code.globals_mangled cls)

theorem mangled_nonlocal : (f.mangled cls).Nonlocal y ↔ ∃ x, f.Nonlocal x ∧ mangle cls x = y :=
  flatMap_mangled (Code.nonlocals_mangled cls)

/-- The names in a function: its parameters and those in its body. -/
def names (f : Frame) : List Text := f.params ++ Code.namesAll f.body

theorem mangled_names : (f.mangled cls).names = f.names.map (mangle cls) := by
  rw [names, names, mangled, List.map_append, Code.namesAll_mangledAll]

end Mangled

/-- A function that is translated uses the names that it did; it declares only those that it assigns to. -/
theorem mem_names_of {style : Style} {outer : List Scope} {f : Scoping.Frame} :
    x ∈ (Frame.of style outer f).names ↔ x ∈ f.head ++ Scoping.namesAll f.body := by
  have hparams : (Frame.of style outer f).params = f.head := rfl
  have hbody : Code.namesAll (Frame.of style outer f).body =
      (Scope.ofBody outer f.params f.body).declared .global ++ (Scope.ofBody outer f.params f.body).declared .nonlocal ++
        Scoping.namesAll f.body := by
    simp only [Frame.of, Code.namesAll_append, Code.namesAll_declarations, Code.namesAll_orPass,
      Code.namesAll_ofStmts fun s _ => Code.names_ofStmt _ s]
  have hdeclared : ∀ d, x ∈ (Scope.ofBody outer f.params f.body).declared d → x ∈ f.head ++ Scoping.namesAll f.body :=
    fun d hd => Scoping.Frame.Binds.named (.inr (mem_declared.mp hd).1)
  rw [names, hparams, hbody, List.mem_append, List.mem_append, List.mem_append]
  refine ⟨?_, fun h => (List.mem_append.mp h).imp_right .inr⟩
  rintro (h | (h | h) | h)
  · exact List.mem_append_left _ h
  · exact hdeclared _ h
  · exact hdeclared _ h
  · exact List.mem_append_right _ h

end Frame

/-! ### Functions of a program -/

open Scoping (Site)

/-- The functions that a chain of functions becomes, as Python takes them. -/
def mangledChain (style : Style) (module : List Stmt) : List Site → List Frame
  | [] => []
  | site :: outer =>
    (Frame.of style (scopesOf module (outer.map Site.frame)) site.frame).mangled site.cls ::
      mangledChain style module outer

section Chains
variable {style : Style} {module : List Stmt}

/-- The functions in what a statement becomes are those in it, each translated and taken in its class. -/
def Taken (style : Style) (module : List Stmt) (s : Stmt) : Prop :=
  ∀ cls outer, Code.chains (mangledChain style module outer)
      (Code.mangled cls (Code.ofStmt style (scopesOf module (outer.map Site.frame)) s)) =
    (Scoping.sites cls outer s).map (mangledChain style module)

/-- Mangled code has the chains of its sites, each mangled by its own class. -/
theorem chainsAll_mangled (cls : Option Text) (outer : List Site) (h : ∀ s ∈ ss, Taken style module s) :
    Code.chainsAll (mangledChain style module outer)
        (Code.mangledAll cls (Code.ofStmts style (scopesOf module (outer.map Site.frame)) ss)) =
      (Scoping.sitesAll cls outer ss).map (mangledChain style module) := by
  induction ss with
  | nil => rfl
  | cons s ss ih =>
    obtain ⟨hs, hss⟩ := List.forall_mem_cons.mp h
    simp only [Code.ofStmts, Code.mangledAll, Code.chainsAll, Scoping.sitesAll, List.map_append, hs cls outer, ih hss]

theorem chains_mangledFunction (cls : Option Text) (outer : List Site) (isMethod : Bool)
    (h : ∀ s ∈ f.body, Taken style module s) : Code.chains (mangledChain style module outer) (Code.mangled cls
        (Code.ofFunction style (scopesOf module (outer.map Site.frame)) isMethod f)) =
      (Scoping.functionSites cls outer isMethod f).map (mangledChain style module) := by
  obtain ⟨span, name, params, body⟩ := f
  have hbody := chainsAll_mangled cls (⟨⟨isMethod, name, params, body⟩, cls⟩ :: outer) h
  simp only [mangledChain, List.map_cons, scopesOf, Frame.of, Frame.mangled, Code.mangledAll_append,
    Code.mangledAll_orPass] at hbody
  simp only [Code.ofFunction, Code.mangled, Code.chains, Scoping.functionSites, List.map_cons, mangledChain, Frame.of,
    Frame.mangled, Code.mangledAll_append, Code.mangledAll_orPass, Code.chainsAll_append,
    Code.chainsAll_mangled_declarations, Code.chainsAll_orPass, List.nil_append, hbody]

theorem chainsAll_mangledMethods (cls : Option Text) (outer : List Site)
    (h : ∀ f ∈ fs, ∀ s ∈ f.body, Taken style module s) : Code.chainsAll (mangledChain style module outer)
        (Code.mangledAll cls (Code.ofMethods style (scopesOf module (outer.map Site.frame)) fs)) =
      (Scoping.methodsSites cls outer fs).map (mangledChain style module) := by
  induction fs with
  | nil => rfl
  | cons f fs ih =>
    obtain ⟨hf, hfs⟩ := List.forall_mem_cons.mp h
    simp only [Code.ofMethods, Code.mangledAll, Code.chainsAll, Scoping.methodsSites, List.map_append,
      chains_mangledFunction cls outer true hf, ih hfs]

attribute [local simp] Code.ofStmt Code.mangled Code.chains Code.mangledAll_orPass Code.chainsAll_orPass Scoping.sites

theorem taken (s : Stmt) : Taken style module s := by
  induction s using Stmt.induct with
  | function f ih => exact fun cls outer => chains_mangledFunction cls outer false ih
  | classDef span name methods ih =>
    intro cls outer
    simp [chainsAll_mangledMethods (some name) outer ih]
  | branch span c body ih =>
    intro cls outer
    simp [chainsAll_mangled cls outer ih]
  | branchElse span c body otherwise ih ih' =>
    intro cls outer
    simp [chainsAll_mangled cls outer ih, chainsAll_mangled cls outer ih']
  | loop span c body ih =>
    intro cls outer
    simp [chainsAll_mangled cls outer ih]
  | _ => exact fun cls outer => rfl

end Chains

end Python

end Anadil
