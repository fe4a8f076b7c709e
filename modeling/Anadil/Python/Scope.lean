import Anadil.Tree.Basic

/-! # Scopes

The module and every function have a scope; a class has none, so its methods see through it. In the
source, assigning to a name that an enclosing scope binds changes that binding. In Python it would make
a new one, so a function says with `global` or `nonlocal` which names it only borrows. -/

namespace Anadil.Python

/-- How a function has to declare a name in order to change an outer binding. -/
inductive Declaration where
  | global
  | nonlocal
deriving DecidableEq, Repr

mutual

/-- The names that a statement assigns to, outside the functions and classes in it. -/
def assignedIn : Stmt → List Text
  | .assign _ (.name _ n) _ => [n]
  | .branch _ _ body none => assignedInAll body
  | .branch _ _ body (some otherwise) => assignedInAll body ++ assignedInAll otherwise
  | .loop _ _ body => assignedInAll body
  | _ => []

def assignedInAll : List Stmt → List Text
  | [] => []
  | s :: ss => assignedIn s ++ assignedInAll ss

end

mutual

/-- The names of the functions and classes that a statement defines. -/
def definedIn : Stmt → List Text
  | .function f => [f.name]
  | .classDef _ name _ => [name]
  | .branch _ _ body none => definedInAll body
  | .branch _ _ body (some otherwise) => definedInAll body ++ definedInAll otherwise
  | .loop _ _ body => definedInAll body
  | _ => []

/-- The names of the functions and classes that statements define. -/
def definedInAll : List Stmt → List Text
  | [] => []
  | s :: ss => definedIn s ++ definedInAll ss

end

/-- The names of one scope. -/
structure Scope where
  params : List Text
  /-- Names of functions and classes. -/
  defined : List Text
  /-- Names assigned to, each once, in the order of their first assignment. -/
  assigned : List Text
  /-- The names that are borrowed. -/
  borrowed : List (Text × Declaration)
deriving DecidableEq, Repr

namespace Scope

/-- Whether a scope binds a name, borrowed or not. -/
def binds (s : Scope) (name : Text) : Bool :=
  name ∈ s.params || name ∈ s.defined || name ∈ s.assigned

/-- How a function inside the scopes, the innermost first and the module last, has to declare a name
that it assigns to; nothing when none of them binds it. -/
def lookup (name : Text) : List Scope → Option Declaration
  | [] => none
  | [module] => if module.binds name then some .global else none
  | s :: outer =>
    match s.borrowed.lookup name with
    | some d => some d
    | none => if s.binds name then some .nonlocal else lookup name outer

def ofBody (outer : List Scope) (params : List Text) (body : List Stmt) : Scope :=
  let defined := definedInAll body
  let assigned := (assignedInAll body).eraseDups
  { params, defined, assigned
    borrowed := assigned.filterMap fun name =>
      if name ∈ params ∨ name ∈ defined then none
      else (lookup name outer).map fun d => (name, d) }

/-- The names that are borrowed in one way, in the order of their first assignment. -/
def declared (s : Scope) (d : Declaration) : List Text :=
  (s.borrowed.filter (·.2 == d)).map (·.1)

end Scope

end Anadil.Python
