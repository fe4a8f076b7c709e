import Anadil.Number.Double

/-! # TOML values

The values of a settings file, and the tables under construction while a file is read. A table that was
written out, by a header or by dotted keys, cannot be written out again elsewhere. -/

namespace Anadil

/-- A TOML value. -/
inductive Toml where
  | string (text : Text)
  | integer (value : Int)
  | float (value : Double)
  | boolean (value : Bool)
  /-- A date, a time or both. -/
  | moment
  | array (items : List Toml)
  | table (entries : List (Text × Toml))
deriving Inhabited

namespace Toml

/-- What stands under a name while a file is read. -/
inductive Node where
  | leaf (value : Toml)
  /-- A table: whether it was written out, whether dotted keys made it, and what is in it. -/
  | table (explicit dotted : Bool) (entries : List (Text × Node))
  /-- A list of tables: those that are done, and what is in the last. -/
  | tables (done : List (List (Text × Node))) (entries : List (Text × Node))
deriving Inhabited

abbrev Entries := List (Text × Node)

namespace Entries

def node? (es : Entries) (name : Text) : Option Node :=
  (List.find? (fun (n, _) => n == name) es).map (·.2)

/-- Puts something under a name, in place of what was there. -/
def put (es : Entries) (name : Text) (node : Node) : Entries :=
  if es.any fun (n, _) => n == name then es.map fun (n, x) => (n, if n == name then node else x)
  else es ++ [(name, node)]

def define (value : Toml) : List Text → Entries → Option Entries
  | [], _ => none
  | [k], es =>
    match es.node? k with
    | none => some (es.put k (.leaf value))
    | some _ => none
  | k :: ks, es =>
    match es.node? k with
    | none => (define value ks []).map fun inner => es.put k (.table false true inner)
    | some (.table false dotted inner) =>
      (define value ks inner).map fun inner => es.put k (.table false dotted inner)
    | some _ => none

/-- Goes down a path and changes what is at its end; tables on the way are made if need be. -/
def descend (atEnd : Text → Entries → Option Entries) : List Text → Entries → Option Entries
  | [], _ => none
  | [k], es => atEnd k es
  | k :: ks, es =>
    match es.node? k with
    | none => (descend atEnd ks []).map fun inner => es.put k (.table false false inner)
    | some (.table explicit dotted inner) =>
      (descend atEnd ks inner).map fun inner => es.put k (.table explicit dotted inner)
    | some (.tables done inner) =>
      (descend atEnd ks inner).map fun inner => es.put k (.tables done inner)
    | some (.leaf _) => none

def openTable (k : Text) (es : Entries) : Option Entries :=
  match es.node? k with
  | none => some (es.put k (.table true false []))
  | some (.table false dotted inner) => some (es.put k (.table true dotted inner))
  | some _ => none

/-- Starts another table in the list of tables under a name. -/
def openTables (k : Text) (es : Entries) : Option Entries :=
  match es.node? k with
  | none => some (es.put k (.tables [] []))
  | some (.tables done inner) => some (es.put k (.tables (done ++ [inner]) []))
  | some _ => none

def within (f : Entries → Option Entries) (path : List Text) (es : Entries) : Option Entries :=
  if path.isEmpty then f es
  else
    descend (fun k es =>
      match es.node? k with
      | some (.table explicit dotted inner) =>
        (f inner).map fun inner => es.put k (.table explicit dotted inner)
      | some (.tables done inner) => (f inner).map fun inner => es.put k (.tables done inner)
      | _ => none) path es

end Entries

mutual

/-- What is left of a table when its header's part of the file ends: tables that dotted keys made count as
written out. -/
def close : Entries → Entries
  | [] => []
  | (k, n) :: es => (k, closeNode n) :: close es

/-- What is left of an entry when its header's part of the file ends. -/
def closeNode : Node → Node
  | .leaf v => .leaf v
  | .table explicit dotted es => .table (explicit || dotted) false (close es)
  | .tables done es => .tables done (close es)

end

mutual

def finish : Entries → List (Text × Toml)
  | [] => []
  | (k, n) :: es => (k, finishNode n) :: finish es

/-- The value of an entry. -/
def finishNode : Node → Toml
  | .leaf v => v
  | .table _ _ es => .table (finish es)
  | .tables done es => .array (finishAll done ++ [.table (finish es)])

/-- The values of tables. -/
def finishAll : List (List (Text × Node)) → List Toml
  | [] => []
  | es :: rest => .table (finish es) :: finishAll rest

end

end Toml

end Anadil
