import Anadil.Text.Glyph

/-! # JSON values

A value keeps its numbers as they are spelled and the fields of its objects in their order.
`Json.normal` gives the form in which two values can be compared: every field once, in the order of
the names. -/

namespace Anadil

/-- A JSON value. -/
inductive Json where
  | null
  | bool (value : Bool)
  | number (spelling : Text)
  | string (content : Text)
  | array (items : List Json)
  | object (fields : List (Text × Json))
deriving Inhabited

namespace Json

/-- Puts a field into fields in order, in the place of one of the same name. -/
def putField (name : Text) (value : Json) : List (Text × Json) → List (Text × Json)
  | [] => [(name, value)]
  | (n, v) :: rest =>
    if n = name then (name, value) :: rest
    else if Text.before name n then (name, value) :: (n, v) :: rest
    else (n, v) :: putField name value rest

/-- The fields in order of their names. Of two with one name, the later is kept. -/
def sortFields (fields : List (Text × Json)) : List (Text × Json) :=
  fields.foldl (fun sorted (n, v) => putField n v sorted) []

mutual

/-- A value with the fields of every object in order, each once. -/
def normal : Json → Json
  | null => null
  | bool b => bool b
  | number n => number n
  | string s => string s
  | array items => array (normalItems items)
  | object fields => object (sortFields (normalFields fields))

def normalItems : List Json → List Json
  | [] => []
  | v :: rest => v.normal :: normalItems rest

def normalFields : List (Text × Json) → List (Text × Json)
  | [] => []
  | (n, v) :: rest => (n, v.normal) :: normalFields rest

end

mutual

/-- A value as messages show it: names and texts bare, lists in brackets with blanks between. -/
def shown : Json → Text
  | null => "<nil>"
  | bool true => "true"
  | bool false => "false"
  | number n => n
  | string s => s
  | array items => "[" ++ Text.join " " (shownItems items) ++ "]"
  | object fields => "map[" ++ Text.join " " (shownFields fields) ++ "]"

def shownItems : List Json → List Text
  | [] => []
  | v :: rest => v.shown :: shownItems rest

def shownFields : List (Text × Json) → List Text
  | [] => []
  | (n, v) :: rest => (n ++ ":" ++ v.shown) :: shownFields rest

end

mutual

/-- How many lists and objects stand one inside another. -/
def nesting : Json → Nat
  | null | bool _ | number _ | string _ => 0
  | array items => nestingItems items + 1
  | object fields => nestingFields fields + 1

def nestingItems : List Json → Nat
  | [] => 0
  | v :: rest => max v.nesting (nestingItems rest)

def nestingFields : List (Text × Json) → Nat
  | [] => 0
  | (_, v) :: rest => max v.nesting (nestingFields rest)

end

/-- How deep lists and objects may stand one inside another in a text that is read or laid out. -/
def deepest : Nat := 10000

/-! ### Numbers -/

def isDigit (g : Glyph) : Bool := g.seen.isDigit

/-- A run of digits at the front, and the rest. -/
def digits (t : Text) : Text × Text := (t.takeWhile isDigit, t.dropWhile isDigit)

/-- How far a text goes on as a part of a number. -/
inductive Extent where
  /-- A part, possibly empty, and the rest. -/
  | reaches (part rest : Text)
  /-- The text ends where a digit has to stand. -/
  | truncated
  /-- Something else stands where a digit has to. -/
  | broken
deriving DecidableEq, Repr

/-- Digits, at least one, behind `lead`. -/
def someDigits (lead t : Text) : Extent :=
  match digits t with
  | ([], []) => .truncated
  | ([], _ :: _) => .broken
  | (ds, rest) => .reaches (lead ++ ds) rest

/-- The whole part: a zero, or digits that do not start with one. -/
def wholePart : Text → Extent
  | [] => .truncated
  | g :: t => if g.is '0' then .reaches [g] t else someDigits [] (g :: t)

/-- The part behind the point, if there is a point. -/
def fractionPart : Text → Extent
  | [] => .reaches [] []
  | g :: t => if g.is '.' then someDigits [g] t else .reaches [] (g :: t)

/-- The exponent, if there is one. -/
def exponentPart : Text → Extent
  | [] => .reaches [] []
  | g :: t =>
    if g.is 'e' || g.is 'E' then
      match t with
      | s :: t' => if s.is '+' || s.is '-' then someDigits [g, s] t' else someDigits [g] t
      | [] => .truncated
    else .reaches [] (g :: t)

def Extent.andThen (e : Extent) (f : Text → Extent) : Extent :=
  match e with
  | .reaches part rest =>
    match f rest with
    | .reaches more rest' => .reaches (part ++ more) rest'
    | .truncated => .truncated
    | .broken => .broken
  | .truncated => .truncated
  | .broken => .broken

def numberExtent : Text → Extent
  | [] => .truncated
  | g :: t =>
    let unsigned (t : Text) := ((wholePart t).andThen fractionPart).andThen exponentPart
    if g.is '-' then Extent.andThen (.reaches [g] t) unsigned else unsigned (g :: t)

def isNumber (t : Text) : Bool :=
  match numberExtent t with
  | .reaches _ rest => rest.isEmpty
  | _ => false

end Json

end Anadil
