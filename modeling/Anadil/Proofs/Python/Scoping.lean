import Anadil.Proofs.Python.Code
import Anadil.Proofs.Tree.Soundness
import Anadil.Proofs.Tree.Words

/-! # Scoping

Which variable a name is in a function, by the rule of the source and by the rule of Python, which the
`global` and `nonlocal` lines make agree (`owner_ofProgram`). A variable is given by the scope that owns
it, counted from the module, which is 0. -/

namespace Anadil

variable {leaf : Stmt → List Text} {names : Code → List Text} {d : Declaration}

/-! ### The rule of the source -/

namespace Scoping

/-- A function of the source as a scope. -/
structure Frame where
  isMethod : Bool
  name : Text
  params : List Text
  body : List Stmt

mutual

/-- The statements that a statement adds to its scope: through branches and loops, and not into
functions and classes. -/
def leaves : Stmt → List Stmt
  | .branch _ _ body none => leavesAll body
  | .branch _ _ body (some otherwise) => leavesAll body ++ leavesAll otherwise
  | .loop _ _ body => leavesAll body
  | s => [s]

/-- The statements that statements add to their scope. -/
def leavesAll : List Stmt → List Stmt
  | [] => []
  | s :: ss => leaves s ++ leavesAll ss

end

/-- The name that a statement assigns to. -/
def assigns : Stmt → List Text
  | .assign _ (.name _ n) _ => [n]
  | _ => []

/-- The name of the function or class that a statement is. -/
def defines : Stmt → List Text
  | .function f => [f.name]
  | .classDef _ name _ => [name]
  | _ => []

/-- Whether a body assigns to a name. -/
def Assigned (body : List Stmt) (x : Text) : Prop := x ∈ (leavesAll body).flatMap assigns

/-- Whether a body has a function or a class of a name. -/
def Defined (body : List Stmt) (x : Text) : Prop := x ∈ (leavesAll body).flatMap defines

instance : DecidableRel Assigned := fun _ _ => inferInstanceAs (Decidable (_ ∈ _))

instance : DecidableRel Defined := fun _ _ => inferInstanceAs (Decidable (_ ∈ _))

namespace Frame

/-- Whether a name is a function's own wherever the function stands: a parameter, which the receiver
of a method is too, or a function or a class in it. -/
def Owns (f : Frame) (x : Text) : Prop :=
  (f.isMethod = true ∧ x = ("self" : Text)) ∨ x ∈ f.params ∨ Defined f.body x

/-- Whether a function has a name of its own or assigns to it. -/
def Binds (f : Frame) (x : Text) : Prop := f.Owns x ∨ Assigned f.body x

instance (f : Frame) (x : Text) : Decidable (f.Owns x) := inferInstanceAs (Decidable (_ ∨ _))

instance (f : Frame) (x : Text) : Decidable (f.Binds x) := inferInstanceAs (Decidable (_ ∨ _))

end Frame

/-- Whether some scope binds a name: one of the functions, or the module. -/
def Bound (module : List Stmt) (chain : List Frame) (x : Text) : Prop :=
  (∃ f ∈ chain, f.Binds x) ∨ Assigned module x ∨ Defined module x

instance (module : List Stmt) (chain : List Frame) (x : Text) : Decidable (Bound module chain x) :=
  inferInstanceAs (Decidable (_ ∨ _))

/-- The scope whose variable a name is in the first function of a chain, the ones around it behind. -/
def owner (module : List Stmt) : List Frame → Text → Nat
  | [], _ => 0
  | f :: outer, x =>
    if f.Owns x ∨ (Assigned f.body x ∧ ¬ Bound module outer x) then outer.length + 1
    else owner module outer x

mutual

/-- Every function in a statement, with the functions around it. -/
def chains (outer : List Frame) : Stmt → List (List Frame)
  | .function f => functionChains outer false f
  | .classDef _ _ methods => methodsChains outer methods
  | .branch _ _ body none => chainsAll outer body
  | .branch _ _ body (some otherwise) => chainsAll outer body ++ chainsAll outer otherwise
  | .loop _ _ body => chainsAll outer body
  | _ => []

/-- Every function in statements. -/
def chainsAll (outer : List Frame) : List Stmt → List (List Frame)
  | [] => []
  | s :: ss => chains outer s ++ chainsAll outer ss

/-- A function with those around it, and every function in it. -/
def functionChains (outer : List Frame) (isMethod : Bool) : Function Stmt → List (List Frame)
  | ⟨_, name, params, body⟩ =>
    (⟨isMethod, name, params, body⟩ :: outer) :: chainsAll (⟨isMethod, name, params, body⟩ :: outer) body

/-- Every function in the methods of a class. -/
def methodsChains (outer : List Frame) : List (Function Stmt) → List (List Frame)
  | [] => []
  | f :: fs => functionChains outer true f ++ methodsChains outer fs

end

end Scoping

/-! ### The rule of Python -/

namespace Python

/-- A function of Python as a scope. -/
structure Frame where
  name : Text
  params : List Text
  body : List Code

namespace Code

mutual

/-- The statements that a statement adds to its scope. -/
def leaves : Code → List Code
  | .branch _ body none => leavesAll body
  | .branch _ body (some otherwise) => leavesAll body ++ leavesAll otherwise
  | .loop _ body => leavesAll body
  | c => [c]

/-- The statements that statements add to their scope. -/
def leavesAll : List Code → List Code
  | [] => []
  | c :: cs => leaves c ++ leavesAll cs

end

/-- The name that a statement of Python binds. -/
def binds : Code → List Text
  | .assign (.name _ n) _ => [n]
  | .function name .. | .classDef name _ => [name]
  | _ => []

/-- The names that a statement declares to be the module's. -/
def globals : Code → List Text
  | .global names => names
  | _ => []

/-- The names that a statement declares to be those of a function around. -/
def nonlocals : Code → List Text
  | .nonlocal names => names
  | _ => []

mutual

/-- Every function in a statement, with the functions around it. -/
def chains (outer : List Frame) : Code → List (List Frame)
  | .function name params body =>
    (⟨name, params, body⟩ :: outer) :: chainsAll (⟨name, params, body⟩ :: outer) body
  | .classDef _ body => chainsAll outer body
  | .branch _ body none => chainsAll outer body
  | .branch _ body (some otherwise) => chainsAll outer body ++ chainsAll outer otherwise
  | .loop _ body => chainsAll outer body
  | _ => []

/-- Every function in statements. -/
def chainsAll (outer : List Frame) : List Code → List (List Frame)
  | [] => []
  | c :: cs => chains outer c ++ chainsAll outer cs

end

end Code

open Code
open Scoping (Assigned Defined Bound assigns defines)

namespace Frame

/-- Whether a function has a name as a parameter, assigns to it or defines it. -/
def Binds (f : Frame) (x : Text) : Prop :=
  x ∈ f.params ∨ x ∈ (leavesAll f.body).flatMap binds

/-- Whether a function declares a name `global`. -/
def Global (f : Frame) (x : Text) : Prop := x ∈ (leavesAll f.body).flatMap globals

/-- Whether a function declares a name `nonlocal`. -/
def Nonlocal (f : Frame) (x : Text) : Prop := x ∈ (leavesAll f.body).flatMap nonlocals

instance (f : Frame) (x : Text) : Decidable (f.Binds x) := inferInstanceAs (Decidable (_ ∨ _))

instance (f : Frame) (x : Text) : Decidable (f.Global x) := inferInstanceAs (Decidable (_ ∈ _))

instance (f : Frame) (x : Text) : Decidable (f.Nonlocal x) := inferInstanceAs (Decidable (_ ∈ _))

end Frame

/-- The nearest function of a chain in which a name is bound and not declared. -/
def nearest : List Frame → Text → Option Nat
  | [], _ => none
  | f :: outer, x =>
    if f.Binds x ∧ ¬ f.Global x ∧ ¬ f.Nonlocal x then some (outer.length + 1) else nearest outer x

/-- The scope whose variable a name is in the first function of a chain; nothing when a `nonlocal` line
has no function to mean. -/
def owner : List Frame → Text → Option Nat
  | [], _ => some 0
  | f :: outer, x =>
    if f.Global x then some 0
    else if f.Nonlocal x then nearest outer x
    else if f.Binds x then some (outer.length + 1)
    else owner outer x

/-! ### Names of a body -/

section Names
variable {style : Style} {outer : List Scope}

/-- Whether a statement is made of the statements of its scope. -/
def isCompound : Stmt → Bool
  | .branch .. | .loop .. => true
  | _ => false

/-- What is collected through branches and loops is collected from the leaves. -/
theorem collect_eq (one : Stmt → List Text) (all : List Stmt → List Text)
    (nil : all [] = []) (cons : ∀ s ss, all (s :: ss) = one s ++ all ss)
    (branch : ∀ span c body, one (.branch span c body none) = all body) (branchElse : ∀ span c body otherwise,
      one (.branch span c body (some otherwise)) = all body ++ all otherwise)
    (loop : ∀ span c body, one (.loop span c body) = all body)
    (other : ∀ s, isCompound s = false → one s = leaf s) (ss : List Stmt) :
    all ss = (Scoping.leavesAll ss).flatMap leaf := by
  have hall : ∀ ss : List Stmt, (∀ s ∈ ss, one s = (Scoping.leaves s).flatMap leaf) →
      all ss = (Scoping.leavesAll ss).flatMap leaf := by
    intro ss h
    induction ss with
    | nil => exact nil
    | cons s ss ih =>
      obtain ⟨hs, hss⟩ := List.forall_mem_cons.mp h
      rw [cons, hs, ih hss, Scoping.leavesAll, List.flatMap_append]
  have hone (s : Stmt) : one s = (Scoping.leaves s).flatMap leaf := by
    induction s using Stmt.induct with
    | branch span c body ih => rw [branch, hall body ih, Scoping.leaves]
    | branchElse span c body otherwise ih ih' =>
      rw [branchElse, hall body ih, hall otherwise ih', Scoping.leaves, List.flatMap_append]
    | loop span c body ih => rw [loop, hall body ih, Scoping.leaves]
    | _ =>
      rw [other _ rfl]
      simp [Scoping.leaves]
  exact hall ss fun s _ => hone s

theorem assignedInAll_eq (ss : List Stmt) :
    assignedInAll ss = (Scoping.leavesAll ss).flatMap assigns := by
  refine collect_eq assignedIn assignedInAll rfl (fun _ _ => rfl) (fun _ _ _ => rfl)
    (fun _ _ _ _ => rfl) (fun _ _ _ => rfl) ?_ ss
  intro s hs
  cases s with
  | assign span target e => cases target <;> rfl
  | branch | loop => simp [isCompound] at hs
  | _ => rfl

theorem definedInAll_eq (ss : List Stmt) :
    definedInAll ss = (Scoping.leavesAll ss).flatMap defines := by
  refine collect_eq definedIn definedInAll rfl (fun _ _ => rfl) (fun _ _ _ => rfl)
    (fun _ _ _ _ => rfl) (fun _ _ _ => rfl) ?_ ss
  intro s hs
  cases s with
  | branch | loop => simp [isCompound] at hs
  | _ => rfl

/-- What is collected from the statements of a scope is the same for `pass` in place of an empty body. -/
theorem flatMap_leavesAll_orPass (hpass : names .pass = []) (cs : List Code) :
    (leavesAll (orPass cs)).flatMap names = (leavesAll cs).flatMap names := by
  cases cs with
  | nil => simp [orPass, leavesAll, leaves, hpass]
  | cons c cs => rfl

theorem Code.leavesAll_append (cs ds : List Code) :
    leavesAll (cs ++ ds) = leavesAll cs ++ leavesAll ds := by
  induction cs with
  | nil => rfl
  | cons c cs ih => simp [leavesAll, ih]

theorem leaves_ofStmt {s : Stmt} (hs : isCompound s = false) :
    leaves (ofStmt style outer s) = [ofStmt style outer s] := by
  cases s with
  | function f =>
    cases f
    rfl
  | branch | loop => simp [isCompound] at hs
  | _ => rfl

/-- What a body becomes has the names that each of its statements gives it. -/
theorem flatMap_leavesAll_ofStmts
    (hpass : names .pass = []) (h : ∀ s, names (ofStmt style outer s) = leaf s) (ss : List Stmt) :
    (leavesAll (ofStmts style outer ss)).flatMap names = (Scoping.leavesAll ss).flatMap leaf := by
  refine collect_eq (fun s => (leaves (ofStmt style outer s)).flatMap names)
    (fun ss => (leavesAll (ofStmts style outer ss)).flatMap names) rfl (fun s ss => ?_)
    (fun span c body => ?_) (fun span c body otherwise => ?_) (fun span c body => ?_) (fun s hs => ?_) ss
  · simp only [ofStmts, leavesAll, List.flatMap_append]
  · simp only [ofStmt, leaves, flatMap_leavesAll_orPass hpass]
  · simp only [ofStmt, leaves, List.flatMap_append, flatMap_leavesAll_orPass hpass]
  · simp only [ofStmt, leaves, flatMap_leavesAll_orPass hpass]
  · rw [← h s, leaves_ofStmt hs, List.flatMap_singleton]

end Names

/-! ### Functions of a program -/

/-- The scopes of a chain of functions, the module's last. -/
def scopesOf (module : List Stmt) : List Scoping.Frame → List Scope
  | [] => [Scope.ofBody [] [] module]
  | f :: outer => Scope.ofBody (scopesOf module outer) f.params f.body :: scopesOf module outer

/-- The Python function that a function inside scopes becomes. -/
def Frame.of (style : Style) (outer : List Scope) (f : Scoping.Frame) : Frame :=
  let scope := Scope.ofBody outer f.params f.body
  ⟨nameOf style f.isMethod f.name, paramsOf f.isMethod f.params,
    Code.declarations scope ++ orPass (ofStmts style (scope :: outer) f.body)⟩

/-- The Python functions that a chain of functions becomes. -/
def chainOf (style : Style) (module : List Stmt) : List Scoping.Frame → List Frame
  | [] => []
  | f :: outer => Frame.of style (scopesOf module outer) f :: chainOf style module outer

section Chains
variable {style : Style} {module : List Stmt}

theorem Code.chainsAll_append (outer : List Frame) (cs ds : List Code) :
    chainsAll outer (cs ++ ds) = chainsAll outer cs ++ chainsAll outer ds := by
  induction cs with
  | nil => rfl
  | cons c cs ih => simp [chainsAll, ih]

theorem Code.chainsAll_orPass (outer : List Frame) (cs : List Code) :
    chainsAll outer (orPass cs) = chainsAll outer cs := by
  cases cs <;> rfl

theorem Code.chainsAll_declarations (outer : List Frame) (scope : Scope) :
    chainsAll outer (Code.declarations scope) = [] := by
  unfold Code.declarations
  split <;> split <;> rfl

/-- The functions in what a statement becomes are those in it, each translated. -/
def Translated (style : Style) (module : List Stmt) (s : Stmt) : Prop :=
  ∀ outer, chains (chainOf style module outer) (ofStmt style (scopesOf module outer) s) =
    (Scoping.chains outer s).map (chainOf style module)

theorem chainsAll_ofStmts {ss : List Stmt} (outer : List Scoping.Frame)
    (h : ∀ s ∈ ss, Translated style module s) :
    chainsAll (chainOf style module outer) (ofStmts style (scopesOf module outer) ss) =
      (Scoping.chainsAll outer ss).map (chainOf style module) := by
  induction ss with
  | nil => rfl
  | cons s ss ih =>
    obtain ⟨hs, hss⟩ := List.forall_mem_cons.mp h
    simp only [ofStmts, chainsAll, Scoping.chainsAll, List.map_append, hs outer, ih hss]

theorem chains_ofFunction {f : Function Stmt} (outer : List Scoping.Frame) (isMethod : Bool)
    (h : ∀ s ∈ f.body, Translated style module s) :
    chains (chainOf style module outer) (ofFunction style (scopesOf module outer) isMethod f) =
      (Scoping.functionChains outer isMethod f).map (chainOf style module) := by
  obtain ⟨span, name, params, body⟩ := f
  have hbody := chainsAll_ofStmts (⟨isMethod, name, params, body⟩ :: outer) h
  simp only [chainOf, scopesOf, Frame.of] at hbody
  simp only [ofFunction, chains, Scoping.functionChains, List.map_cons, chainOf, Frame.of,
    chainsAll_append, chainsAll_declarations, chainsAll_orPass, List.nil_append, hbody]

theorem chainsAll_ofMethods {fs : List (Function Stmt)} (outer : List Scoping.Frame)
    (h : ∀ f ∈ fs, ∀ s ∈ f.body, Translated style module s) :
    chainsAll (chainOf style module outer) (ofMethods style (scopesOf module outer) fs) =
      (Scoping.methodsChains outer fs).map (chainOf style module) := by
  induction fs with
  | nil => rfl
  | cons f fs ih =>
    obtain ⟨hf, hfs⟩ := List.forall_mem_cons.mp h
    simp only [ofMethods, chainsAll, Scoping.methodsChains, List.map_append,
      chains_ofFunction outer true hf, ih hfs]

attribute [local simp] ofStmt chains chainsAll_orPass Scoping.chains

theorem translated (s : Stmt) : Translated style module s := by
  induction s using Stmt.induct with
  | function f ih => exact fun outer => chains_ofFunction outer false ih
  | classDef span name methods ih =>
    intro outer
    simp [chainsAll_ofMethods outer ih]
  | branch span c body ih =>
    intro outer
    simp [chainsAll_ofStmts outer ih]
  | branchElse span c body otherwise ih ih' =>
    intro outer
    simp [chainsAll_ofStmts outer ih, chainsAll_ofStmts outer ih']
  | loop span c body ih =>
    intro outer
    simp [chainsAll_ofStmts outer ih]
  | _ => exact fun outer => rfl

end Chains

/-! ### Declarations -/

section Declarations
variable {outer : List Scope} {params : List Text} {body : List Stmt} {x : Text}

/-- Whether a function has to declare a name in a way: it assigns to the name, which is none of its own,
and the scopes around bind it so. -/
def Borrows (outer : List Scope) (params : List Text) (body : List Stmt) (x : Text) (d : Declaration) :
    Prop :=
  Assigned body x ∧ ¬ (x ∈ params ∨ Defined body x) ∧ Scope.lookup x outer = some d

theorem mem_borrowed :
    (x, d) ∈ (Scope.ofBody outer params body).borrowed ↔ Borrows outer params body x d := by
  simp only [Scope.ofBody, List.mem_filterMap, List.mem_eraseDups, assignedInAll_eq, definedInAll_eq,
    Borrows, Assigned, Defined]
  constructor
  · rintro ⟨y, hy, h⟩
    split at h
    · cases h
    · obtain ⟨d', hd, heq⟩ := Option.map_eq_some_iff.mp h
      cases heq
      exact ⟨hy, ‹_›, hd⟩
  · rintro ⟨hx, hown, hd⟩
    exact ⟨x, hx, by rw [if_neg hown, hd]; rfl⟩

theorem mem_declared : x ∈ (Scope.ofBody outer params body).declared d ↔ Borrows outer params body x d := by
  rw [← mem_borrowed]
  simp only [Scope.declared, List.mem_map, List.mem_filter]
  constructor
  · rintro ⟨⟨y, d'⟩, ⟨hy, hd⟩, rfl⟩
    exact (beq_iff_eq.mp hd) ▸ hy
  · exact fun h => ⟨(x, d), ⟨h, by simp⟩, rfl⟩

theorem binds_ofBody :
    (Scope.ofBody outer params body).binds x = true ↔
      (x ∈ params ∨ Defined body x) ∨ Assigned body x := by
  simp [Scope.binds, Scope.ofBody, Assigned, Defined, List.mem_eraseDups,
    assignedInAll_eq, definedInAll_eq]

/-- How a function has to declare a name of the scopes around it, from what they do with it. -/
theorem lookup_ofBody (houter : outer ≠ []) :
    Scope.lookup x (Scope.ofBody outer params body :: outer) =
      if x ∈ params ∨ Defined body x then some .nonlocal
      else if Assigned body x then some ((Scope.lookup x outer).getD .nonlocal)
      else Scope.lookup x outer := by
  rw [Scope.lookup]
  · cases hb : (Scope.ofBody outer params body).borrowed.lookup x with
    | some d =>
      obtain ⟨l₁, l₂, hl, -⟩ := List.lookup_eq_some_iff.mp hb
      obtain ⟨hassigned, hown, hd⟩ := mem_borrowed.mp (hl ▸ List.mem_append_right l₁ List.mem_cons_self)
      rw [if_neg hown, if_pos hassigned, hd]
      rfl
    | none =>
      have hnone : ∀ d, (x, d) ∉ (Scope.ofBody outer params body).borrowed := fun d hd => by
        simpa using List.lookup_eq_none_iff.mp hb _ hd
      dsimp only
      by_cases hown : x ∈ params ∨ Defined body x
      · rw [if_pos (binds_ofBody.mpr (.inl hown)), if_pos hown]
      by_cases hassigned : Assigned body x
      · -- assigned and not borrowed, so no scope around binds the name
        have houter : Scope.lookup x outer = none := by
          cases hd : Scope.lookup x outer with
          | none => rfl
          | some d => exact absurd (mem_borrowed.mpr ⟨hassigned, hown, hd⟩) (hnone d)
        rw [if_pos (binds_ofBody.mpr (.inr hassigned)), if_neg hown, if_pos hassigned, houter]
        rfl
      · rw [if_neg (by rw [binds_ofBody]; exact not_or.mpr ⟨hown, hassigned⟩), if_neg hown,
          if_neg hassigned]
  · exact houter

theorem Code.leavesAll_declarations (scope : Scope) :
    leavesAll (Code.declarations scope) = Code.declarations scope := by
  unfold Code.declarations
  split <;> split <;> rfl

theorem Code.binds_ofStmt (style : Style) (s : Stmt) :
    binds (ofStmt style outer s) = assigns s ++ defines s := by
  cases s with
  | function f =>
    cases f
    rfl
  | branch span c body otherwise => cases otherwise <;> rfl
  | assign span target e => cases target <;> rfl
  | _ => rfl

/-- What a statement becomes declares no name: the lines that do stand before those of the body. -/
theorem Code.declares_ofStmt (style : Style) (s : Stmt) :
    globals (ofStmt style outer s) = [] ∧ nonlocals (ofStmt style outer s) = [] := by
  cases s with
  | function f =>
    cases f
    exact ⟨rfl, rfl⟩
  | branch span c body otherwise => cases otherwise <;> exact ⟨rfl, rfl⟩
  | _ => exact ⟨rfl, rfl⟩

end Declarations

section FrameOf
variable {style : Style} {outer : List Scope} {f : Scoping.Frame} {x : Text}

theorem flatMap_body_of (hpass : names .pass = []) (h : ∀ outer s, names (ofStmt style outer s) = leaf s) :
    (leavesAll (Frame.of style outer f).body).flatMap names =
      (Code.declarations (Scope.ofBody outer f.params f.body)).flatMap names ++
        (Scoping.leavesAll f.body).flatMap leaf := by
  simp only [Frame.of, leavesAll_append, leavesAll_declarations, List.flatMap_append,
    flatMap_leavesAll_orPass hpass, flatMap_leavesAll_ofStmts hpass (h _)]

theorem of_global : (Frame.of style outer f).Global x ↔ Borrows outer f.params f.body x .global := by
  rw [Frame.Global, flatMap_body_of rfl (fun _ s => (declares_ofStmt style s).1), ← mem_declared]
  simp only [Code.declarations]
  split <;> split <;> simp_all [globals]

theorem of_nonlocal :
    (Frame.of style outer f).Nonlocal x ↔ Borrows outer f.params f.body x .nonlocal := by
  rw [Frame.Nonlocal, flatMap_body_of rfl (fun _ s => (declares_ofStmt style s).2), ← mem_declared]
  simp only [Code.declarations]
  split <;> split <;> simp_all [nonlocals]

theorem of_binds : (Frame.of style outer f).Binds x ↔ f.Binds x := by
  have hdeclared : (Code.declarations (Scope.ofBody outer f.params f.body)).flatMap binds = [] := by
    unfold Code.declarations
    split <;> split <;> rfl
  have hbody : x ∈ (Scoping.leavesAll f.body).flatMap (fun s => assigns s ++ defines s) ↔
      Assigned f.body x ∨ Defined f.body x := by
    simp only [Assigned, Defined, List.mem_flatMap, List.mem_append, and_or_left,
      exists_or]
  have hparams : x ∈ (Frame.of style outer f).params ↔
      (f.isMethod = true ∧ x = ("self" : Text)) ∨ x ∈ f.params := by
    cases hm : f.isMethod <;> simp [Frame.of, paramsOf, hm]
  rw [Frame.Binds, flatMap_body_of rfl (fun _ => binds_ofStmt style), hdeclared, List.nil_append,
    hbody, hparams]
  simp only [Scoping.Frame.Binds, Scoping.Frame.Owns]
  grind

end FrameOf

/-! ### Agreement of the two rules -/

theorem scopesOf_ne_nil (module : List Stmt) (chain : List Scoping.Frame) :
    scopesOf module chain ≠ [] := by
  cases chain <;> simp [scopesOf]

theorem length_chainOf (style : Style) (module : List Stmt) (chain : List Scoping.Frame) :
    (chainOf style module chain).length = chain.length := by
  induction chain with
  | nil => rfl
  | cons f outer ih => simp [chainOf, ih]

theorem names_chainOf (style : Style) (module : List Stmt) (chain : List Scoping.Frame) :
    (chainOf style module chain).map Frame.name =
      chain.map fun f => if f.isMethod then methodName style f.name else f.name := by
  induction chain with
  | nil => rfl
  | cons f outer ih => simp [chainOf, ih, Frame.of, nameOf]

/-- The two rules agree on a name in a function, and the way in which a function inside would have to
declare the name tells whose it is. -/
structure Agrees (style : Style) (module : List Stmt) (chain : List Scoping.Frame) (x : Text) : Prop where
  unbound : Scope.lookup x (scopesOf module chain) = none ↔ ¬ Bound module chain x
  global : Scope.lookup x (scopesOf module chain) = some .global → Scoping.owner module chain x = 0
  nonlocal : Scope.lookup x (scopesOf module chain) = some .nonlocal →
    nearest (chainOf style module chain) x = some (Scoping.owner module chain x)
  owner : owner (chainOf style module chain) x = some (Scoping.owner module chain x)

section Agreement
variable {style : Style} {module : List Stmt} {chain : List Scoping.Frame} {x : Text}

theorem Agrees.nil : Agrees style module [] x := by
  have hlookup : Scope.lookup x (scopesOf module []) =
      if Assigned module x ∨ Defined module x then some .global else none := by
    simp only [scopesOf, Scope.lookup, binds_ofBody, List.not_mem_nil, false_or, or_comm]
  refine ⟨?_, fun _ => rfl, fun h => ?_, rfl⟩
  · rw [hlookup]
    simp [Bound]
  · rw [hlookup] at h
    split at h <;> cases h

theorem bound_cons {f : Scoping.Frame} :
    Bound module (f :: chain) x ↔ f.Binds x ∨ Bound module chain x := by
  simp [Bound, or_assoc]

theorem Agrees.own {f : Scoping.Frame} (hb : f.Binds x)
    (hg : ¬ (Frame.of style (scopesOf module chain) f).Global x)
    (hn : ¬ (Frame.of style (scopesOf module chain) f).Nonlocal x)
    (hlookup : Scope.lookup x (scopesOf module (f :: chain)) = some .nonlocal)
    (howner : Scoping.owner module (f :: chain) x = chain.length + 1) :
    Agrees style module (f :: chain) x := by
  have hlen := length_chainOf style module chain
  have hb' := (@of_binds style (scopesOf module chain) f x).mpr hb
  refine ⟨?_, ?_, fun _ => ?_, ?_⟩
  · simp [hlookup, bound_cons, hb]
  · simp [hlookup]
  · rw [chainOf, nearest, if_pos ⟨hb', hg, hn⟩, howner, hlen]
  · rw [chainOf, Python.owner, if_neg hg, if_neg hn, if_pos hb', howner, hlen]

/-- A name that is declared: it is what it is around the function. -/
theorem Agrees.declared {f : Scoping.Frame} (ih : Agrees style module chain x)
    (hassigned : Assigned f.body x) (hown : ¬ f.Owns x) (hd : Scope.lookup x (scopesOf module chain) = some d)
    (hlookup : Scope.lookup x (scopesOf module (f :: chain)) = some d)
    (hglobal : (Frame.of style (scopesOf module chain) f).Global x ↔ d = .global)
    (hnonlocal : (Frame.of style (scopesOf module chain) f).Nonlocal x ↔ d = .nonlocal) :
    Agrees style module (f :: chain) x := by
  -- what is declared is bound around the function, so the rule of the source looks outward as well
  have howner : Scoping.owner module (f :: chain) x = Scoping.owner module chain x := by
    have hbound : Bound module chain x :=
      Decidable.not_not.mp (mt ih.unbound.mpr (by simp [hd]))
    rw [Scoping.owner, if_neg (by simp [hown, hbound])]
  have hunbound : Scope.lookup x (scopesOf module (f :: chain)) = none ↔
      ¬ Bound module (f :: chain) x := by
    simp [hlookup, bound_cons, Scoping.Frame.Binds, hassigned]
  cases d with
  | global =>
    refine ⟨hunbound, fun _ => howner.trans (ih.global hd), by simp [hlookup], ?_⟩
    rw [chainOf, Python.owner, if_pos (hglobal.mpr rfl), howner, ih.global hd]
  | nonlocal =>
    refine ⟨hunbound, by simp [hlookup], fun _ => ?_, ?_⟩
    · rw [chainOf, nearest, if_neg fun h => h.2.2 (hnonlocal.mpr rfl), howner, ih.nonlocal hd]
    · rw [chainOf, Python.owner, if_neg (by simp [hglobal]), if_pos (hnonlocal.mpr rfl), howner,
        ih.nonlocal hd]

theorem Agrees.free {f : Scoping.Frame} (ih : Agrees style module chain x) (hb : ¬ f.Binds x)
    (hg : ¬ (Frame.of style (scopesOf module chain) f).Global x)
    (hn : ¬ (Frame.of style (scopesOf module chain) f).Nonlocal x)
    (hlookup : Scope.lookup x (scopesOf module (f :: chain)) = Scope.lookup x (scopesOf module chain)) :
    Agrees style module (f :: chain) x := by
  have hb' := mt (@of_binds style (scopesOf module chain) f x).mp hb
  have howner : Scoping.owner module (f :: chain) x = Scoping.owner module chain x := by
    obtain ⟨hown, hassigned⟩ := not_or.mp hb
    rw [Scoping.owner, if_neg (by simp [hown, hassigned])]
  refine ⟨?_, fun h => ?_, fun h => ?_, ?_⟩
  · rw [hlookup, bound_cons, ih.unbound]
    simp [hb]
  · rw [howner, ih.global (hlookup ▸ h)]
  · rw [chainOf, nearest, if_neg fun h => hb' h.1, howner, ih.nonlocal (hlookup ▸ h)]
  · rw [chainOf, Python.owner, if_neg hg, if_neg hn, if_neg hb', howner, ih.owner]

/-- The receiver apart, one more function keeps the agreement. -/
theorem Agrees.cons {f : Scoping.Frame} (hf : f.isMethod = true → x ≠ ("self" : Text))
    (ih : Agrees style module chain x) : Agrees style module (f :: chain) x := by
  have howns : f.Owns x ↔ x ∈ f.params ∨ Defined f.body x := by
    simp only [Scoping.Frame.Owns]
    grind
  have hlookup : Scope.lookup x (scopesOf module (f :: chain)) =
      if f.Owns x then some .nonlocal
      else if Assigned f.body x then
        some ((Scope.lookup x (scopesOf module chain)).getD .nonlocal)
      else Scope.lookup x (scopesOf module chain) := by
    simp only [howns, scopesOf, lookup_ofBody (scopesOf_ne_nil module chain)]
  have hglobal := @of_global style (scopesOf module chain) f x
  have hnonlocal := @of_nonlocal style (scopesOf module chain) f x
  rw [Borrows, ← howns] at hglobal hnonlocal
  by_cases hown : f.Owns x
  · rw [if_pos hown] at hlookup
    exact .own (.inl hown) (mt hglobal.mp fun h => h.2.1 hown) (mt hnonlocal.mp fun h => h.2.1 hown) hlookup
      (by rw [Scoping.owner, if_pos (.inl hown)])
  rw [if_neg hown] at hlookup
  by_cases hassigned : Assigned f.body x
  · rw [if_pos hassigned] at hlookup
    cases hd : Scope.lookup x (scopesOf module chain) with
    | none =>
      rw [hd] at hlookup
      exact .own (.inr hassigned) (mt hglobal.mp fun h => by simp [hd] at h)
        (mt hnonlocal.mp fun h => by simp [hd] at h) hlookup
        (by rw [Scoping.owner, if_pos (.inr ⟨hassigned, ih.unbound.mp hd⟩)])
    | some d =>
      rw [hd] at hlookup
      exact ih.declared hassigned hown hd hlookup (by simp [hglobal, hassigned, hown, hd])
        (by simp [hnonlocal, hassigned, hown, hd])
  · rw [if_neg hassigned] at hlookup
    exact ih.free (not_or.mpr ⟨hown, hassigned⟩) (mt hglobal.mp fun h => hassigned h.1)
      (mt hnonlocal.mp fun h => hassigned h.1) hlookup

theorem agrees (hx : ∀ f ∈ chain, f.isMethod = true → x ≠ ("self" : Text)) :
    Agrees style module chain x := by
  induction chain with
  | nil => exact .nil
  | cons f chain ih =>
    obtain ⟨hf, hchain⟩ := List.forall_mem_cons.mp hx
    exact .cons hf (ih hchain)

end Agreement

/-! ### The receiver -/

/-- Whether one of the functions is a method. -/
def InMethod (chain : List Scoping.Frame) : Prop := ∃ f ∈ chain, f.isMethod = true

/-- In a method no function binds `self`, the receiver apart. -/
def Guarded : List Scoping.Frame → Prop
  | [] => True
  | f :: outer => (InMethod (f :: outer) → ("self" : Text) ∉ f.params ∧
      ¬ Assigned f.body "self" ∧ ¬ Defined f.body "self") ∧ Guarded outer

/-- In a method both rules give `self` to the innermost method. -/
theorem owner_self {style : Style} {module : List Stmt} {chain : List Scoping.Frame}
    (hguarded : Guarded chain) (hmethod : InMethod chain) :
    owner (chainOf style module chain) "self" = some (Scoping.owner module chain "self") := by
  induction chain with
  | nil => simp [InMethod] at hmethod
  | cons f chain ih =>
    obtain ⟨hf, hguarded⟩ := hguarded
    obtain ⟨hparams, hassigned, hdefined⟩ := hf hmethod
    have hg := mt (@of_global style (scopesOf module chain) f "self").mp fun h => hassigned h.1
    have hn := mt (@of_nonlocal style (scopesOf module chain) f "self").mp fun h => hassigned h.1
    have hbinds := @of_binds style (scopesOf module chain) f "self"
    cases hm : f.isMethod with
    | true =>
      have hown : f.Owns "self" := .inl ⟨hm, rfl⟩
      rw [chainOf, owner, if_neg hg, if_neg hn, if_pos (hbinds.mpr (.inl hown)), length_chainOf,
        Scoping.owner, if_pos (.inl hown)]
    | false =>
      have hown : ¬ f.Owns "self" := by simp [Scoping.Frame.Owns, hm, hparams, hdefined]
      have hmethod : InMethod chain := by simpa [InMethod, hm] using hmethod
      rw [chainOf, owner, if_neg hg, if_neg hn, if_neg (mt hbinds.mp (not_or.mpr ⟨hown, hassigned⟩)),
        Scoping.owner, if_neg (by simp [hown, hassigned]), ih hguarded hmethod]

section Legal
open Anadil.Parser
variable {known : Lexicon} {ctx : Context}

/-- The leaves of a legal statement are legal, if perhaps only in a loop. -/
def LegalLeaves (known : Lexicon) (s : Stmt) : Prop :=
  ∀ ctx : Context, s.Legal known ctx →
    ∀ l ∈ Scoping.leaves s, ∃ ctx' : Context, ctx'.inMethod = ctx.inMethod ∧ l.Legal known ctx'

theorem legal_leavesAll {ss : List Stmt} (hss : ∀ s ∈ ss, LegalLeaves known s)
    (h : stmtsLegal known ctx ss) {l : Stmt} (hl : l ∈ Scoping.leavesAll ss) :
    ∃ ctx' : Context, ctx'.inMethod = ctx.inMethod ∧ l.Legal known ctx' := by
  induction ss with
  | nil => simp [Scoping.leavesAll] at hl
  | cons s ss ih =>
    obtain ⟨hs, hss⟩ := List.forall_mem_cons.mp hss
    obtain ⟨h, hrest⟩ := h
    rcases List.mem_append.mp hl with hl | hl
    · exact hs ctx h l hl
    · exact ih hss hrest hl

theorem legalLeaves (s : Stmt) : LegalLeaves known s := by
  induction s using Stmt.induct with
  | branch span c body ih => exact fun ctx h l hl => legal_leavesAll ih h.2 hl
  | branchElse span c body otherwise ih ih' =>
    intro ctx h l hl
    rcases List.mem_append.mp hl with hl | hl
    · exact legal_leavesAll ih h.2.1 hl
    · exact legal_leavesAll ih' h.2.2 hl
  | loop span c body ih => exact fun ctx h l hl => @legal_leavesAll known ctx.loop body ih h.2 l hl
  | _ =>
    intro ctx h l hl
    obtain rfl := List.mem_singleton.mp hl
    exact ⟨ctx, rfl, h⟩

theorem not_assigned_self {body : List Stmt} (h : stmtsLegal known ctx body)
    (hmethod : ctx.inMethod = true) : ¬ Assigned body "self" := by
  intro hself
  obtain ⟨l, hl, hself⟩ := List.mem_flatMap.mp hself
  obtain ⟨ctx', hctx, hlegal⟩ := legal_leavesAll (fun s _ => legalLeaves s) h hl
  unfold assigns at hself
  split at hself
  · exact hlegal.2.1.1.self (hctx.trans hmethod) (List.mem_singleton.mp hself).symm
  · cases hself

theorem not_defined_self {body : List Stmt} (h : stmtsLegal known ctx body)
    (hmethod : ctx.inMethod = true) : ¬ Defined body "self" := by
  intro hself
  obtain ⟨l, hl, hself⟩ := List.mem_flatMap.mp hself
  obtain ⟨ctx', hctx, hlegal⟩ := legal_leavesAll (fun s _ => legalLeaves s) h hl
  unfold defines at hself
  split at hself
  · rename_i f
    cases f
    exact hlegal.1.1.self (hctx.trans hmethod) (List.mem_singleton.mp hself).symm
  · exact hlegal.1.self (hctx.trans hmethod) (List.mem_singleton.mp hself).symm
  · cases hself

/-- No function in a legal statement binds `self` inside a method. -/
def ChainsGuarded (known : Lexicon) (s : Stmt) : Prop :=
  ∀ (ctx : Context) (outer : List Scoping.Frame), s.Legal known ctx →
    (ctx.inMethod = true ↔ InMethod outer) → Guarded outer →
    ∀ chain ∈ Scoping.chains outer s, Guarded chain

section Outer
variable {outer : List Scoping.Frame} (hctx : ctx.inMethod = true ↔ InMethod outer)
  (houter : Guarded outer)
include hctx houter

theorem chainsAll_guarded {ss : List Stmt} (hss : ∀ s ∈ ss, ChainsGuarded known s)
    (h : stmtsLegal known ctx ss) : ∀ chain ∈ Scoping.chainsAll outer ss, Guarded chain := by
  intro chain hchain
  induction ss with
  | nil => simp [Scoping.chainsAll] at hchain
  | cons s ss ih =>
    obtain ⟨hs, hss⟩ := List.forall_mem_cons.mp hss
    rcases List.mem_append.mp hchain with hchain | hchain
    · exact hs ctx outer h.1 hctx houter chain hchain
    · exact ih hss h.2 hchain

theorem functionChains_guarded {isMethod : Bool} {f : Function Stmt}
    (hf : ∀ s ∈ f.body, ChainsGuarded known s) (h : functionLegal known ctx isMethod f) :
    ∀ chain ∈ Scoping.functionChains outer isMethod f, Guarded chain := by
  obtain ⟨span, name, params, body⟩ := f
  obtain ⟨-, hparams, -, hreceiver, hbody⟩ := h
  have hctx' : (ctx.function isMethod).inMethod = true ↔
      InMethod (⟨isMethod, name, params, body⟩ :: outer) := by
    simp only [Context.function, Bool.or_eq_true, hctx]
    simp [InMethod]
  have hguarded : Guarded (⟨isMethod, name, params, body⟩ :: outer) := by
    refine ⟨fun hmethod => ?_, houter⟩
    have hin := hctx'.mpr hmethod
    refine ⟨fun hself => ?_, not_assigned_self hbody hin, not_defined_self hbody hin⟩
    rcases (Bool.or_eq_true _ _).mp hin with hm | hm
    · exact hreceiver hm hself
    · exact (hparams _ hself).1.self hm rfl
  intro chain hchain
  rcases List.mem_cons.mp hchain with rfl | hchain
  · exact hguarded
  · exact chainsAll_guarded hctx' hguarded hf hbody chain hchain

theorem methodsChains_guarded {fs : List (Function Stmt)}
    (hfs : ∀ f ∈ fs, ∀ s ∈ f.body, ChainsGuarded known s) (h : methodsLegal known ctx fs) :
    ∀ chain ∈ Scoping.methodsChains outer fs, Guarded chain := by
  intro chain hchain
  induction fs with
  | nil => simp [Scoping.methodsChains] at hchain
  | cons f fs ih =>
    obtain ⟨hf, hfs⟩ := List.forall_mem_cons.mp hfs
    rcases List.mem_append.mp hchain with hchain | hchain
    · exact functionChains_guarded hctx houter hf h.1 chain hchain
    · exact ih hfs h.2 hchain

end Outer

theorem chainsGuarded (s : Stmt) : ChainsGuarded known s := by
  induction s using Stmt.induct with
  | function f ih => exact fun ctx outer h hctx houter => functionChains_guarded hctx houter ih h
  | classDef span name methods ih =>
    exact fun ctx outer h hctx houter => methodsChains_guarded hctx houter ih h.2.2
  | branch span c body ih => exact fun ctx outer h hctx houter => chainsAll_guarded hctx houter ih h.2
  | branchElse span c body otherwise ih ih' =>
    intro ctx outer h hctx houter chain hchain
    rcases List.mem_append.mp hchain with hchain | hchain
    · exact chainsAll_guarded hctx houter ih h.2.1 chain hchain
    · exact chainsAll_guarded hctx houter ih' h.2.2 chain hchain
  | loop span c body ih =>
    exact fun ctx outer h hctx houter => @chainsAll_guarded known ctx.loop outer hctx houter body ih h.2
  | _ => exact fun ctx outer h hctx houter chain hchain => absurd hchain List.not_mem_nil

end Legal

/-- Every name is the same scope's variable by both rules, in every function of a legal program. -/
theorem owner_chainOf {style : Style} {module : List Stmt} {chain : List Scoping.Frame}
    (hguarded : Guarded chain) (x : Text) :
    owner (chainOf style module chain) x = some (Scoping.owner module chain x) := by
  by_cases hself : InMethod chain ∧ x = ("self" : Text)
  · obtain ⟨hmethod, rfl⟩ := hself
    exact owner_self hguarded hmethod
  · exact (agrees fun f hf hm hx => hself ⟨⟨f, hf, hm⟩, hx⟩).owner

/-- For every program that is read, the lines that are written for it are those of a tree of Python
statements. This tree has the functions of the program, and in every one of them every name is by the
rule of Python the variable of the scope that the rule of the source gives. -/
theorem owner_ofProgram {tokens : List Token} {p : Program} (style : Style)
    (h : parse tokens = .ok p) :
    (∀ ls, lines style p = .ok ls →
      ∃ ns, Code.nodes (Code.ofProgram style p) = .ok ns ∧ ls = Node.linesAll 0 ns) ∧
    (Code.chainsAll [] (Code.ofProgram style p)).map (fun chain => (chain.map Frame.name, owner chain)) =
      (Scoping.chainsAll [] p.body).map fun chain =>
        (chain.map fun f => if f.isMethod then methodName style f.name else f.name,
          fun x => some (Scoping.owner p.body chain x)) := by
  refine ⟨fun ls hls => lines_eq hls, ?_⟩
  have hlegal := (Parser.parse_sound (fun _ _ => True) (fun _ _ => trivial) h).2
  have hguarded : ∀ chain ∈ Scoping.chainsAll [] p.body, Guarded chain :=
    chainsAll_guarded (by simp [InMethod, Parser.Context.top]) (show Guarded [] from trivial)
      (fun s _ => chainsGuarded s) hlegal
  have hchains := @chainsAll_ofStmts style p.body p.body [] fun s _ => translated s
  simp only [chainOf, scopesOf] at hchains
  rw [Code.ofProgram, hchains, List.map_map]
  refine List.map_congr_left fun chain hchain => ?_
  simp only [Function.comp_apply, names_chainOf]
  exact congrArg _ (funext (owner_chainOf (hguarded chain hchain)))

/-- The tokens of `x = 1 ; fonksiyon f(a) { sınıf C { fonksiyon m() { a = x ; x = bu ; } } }`. -/
def methodTokens : List Token :=
  Token.ofWords [(.identifier, "x"), sign .assign, (.number, "1"), sign .semicolon, sign .functionWord, (.identifier, "f"),
    sign .leftParen, (.identifier, "a"), sign .rightParen, sign .leftBrace, sign .classWord,
    (.identifier, "C"), sign .leftBrace, sign .functionWord, (.identifier, "m"), sign .leftParen,
    sign .rightParen, sign .leftBrace, (.identifier, "a"), sign .assign, (.identifier, "x"), sign .semicolon,
    (.identifier, "x"), sign .assign, sign .thisWord, sign .semicolon, sign .rightBrace, sign .rightBrace,
    sign .rightBrace]

/-- In `f` and in `m` the name `x` is the module's and `a` is a variable of `f`, and `self` is one of `m`
in `m` only. -/
theorem owner_ofProgram_method :
    ∃ p, parse methodTokens = .ok p ∧
      (Code.chainsAll [] (Code.ofProgram .default p)).map
        (fun chain => (owner chain "x", owner chain "a", owner chain "self")) =
        [(some 0, some 1, some 0), (some 0, some 1, some 2)] := by
  have hsource : (parse methodTokens).toOption.map (fun p => (Scoping.chainsAll [] p.body).map fun chain =>
      let own := Scoping.owner p.body chain
      (some (own "x"), some (own "a"), some (own "self"))) =
      some [(some 0, some 1, some 0), (some 0, some 1, some 2)] := by
    decide +kernel
  simp only [Option.map_eq_some_iff, toOption_eq_some] at hsource
  obtain ⟨p, hparse, hsource⟩ := hsource
  have h := congrArg (List.map fun r : List Text × (Text → Option Nat) => (r.2 "x", r.2 "a", r.2 "self"))
    (owner_ofProgram .default hparse).2
  rw [List.map_map, List.map_map] at h
  exact ⟨p, hparse, h.trans hsource⟩

end Python

end Anadil
