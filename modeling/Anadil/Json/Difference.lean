import Anadil.Json.Basic

/-! # Differences of documents

`Json.difference` finds the first place where two values in normal form disagree. Where nodes stand in
their files does not count, and a field that is absent counts as null. -/

namespace Anadil.Json

/-- The first place where two documents disagree, and what stands there. -/
structure Mismatch where
  path : Text
  external : Json
  own : Json

def Mismatch.text (m : Mismatch) : Text :=
  m.path ++ ": external " ++ m.external.shown ++ ", local " ++ m.own.shown

/-- The fields that say where a node stands. -/
def isPosition (name : Text) : Bool := name == ("line" : Text) || name == ("column" : Text)

/-- Whether two values that hold no others are the same. -/
def sameLeaf : Json → Json → Bool
  | null, null => true
  | bool a, bool b => a == b
  | number a, number b => a == b
  | string a, string b => a == b
  | _, _ => false

/-- The first of some fields that is not null, as a mismatch with an absent one. -/
def firstExtra (path : Text) : List (Text × Json) → Option Mismatch
  | [] => none
  | (n, v) :: rest =>
    if isPosition n || sameLeaf null v then firstExtra path rest
    else some ⟨path ++ "." ++ n, null, v⟩

def itemPath (path : Text) (i : Nat) : Text := path ++ "[" ++ Text.decimal i ++ "]"

mutual

/-- The first place where two values disagree; `path` leads to them. -/
def differenceAt (path : Text) : Json → Json → Option Mismatch
  | object fs, b =>
    match b with
    | object gs => fieldsDifference path fs gs
    | _ => some ⟨path, object fs, b⟩
  | array vs, b =>
    match b with
    | array ws =>
      (itemsDifference path 0 vs ws).or
        (if vs.length = ws.length then none
         else
           some ⟨path ++ ".length", number (Text.decimal vs.length), number (Text.decimal ws.length)⟩)
    | _ => some ⟨path, array vs, b⟩
  | null, b => if sameLeaf null b then none else some ⟨path, null, b⟩
  | bool a, b => if sameLeaf (bool a) b then none else some ⟨path, bool a, b⟩
  | number a, b => if sameLeaf (number a) b then none else some ⟨path, number a, b⟩
  | string a, b => if sameLeaf (string a) b then none else some ⟨path, string a, b⟩

/-- The first place where two lists disagree, as far as both go, counting items from `i`. -/
def itemsDifference (path : Text) (i : Nat) : List Json → List Json → Option Mismatch
  | [], _ => none
  | _ :: _, [] => none
  | v :: vs, w :: ws =>
    (differenceAt (itemPath path i) v w).or (itemsDifference path (i + 1) vs ws)

/-- The first name under which two lists of fields in order disagree. -/
def fieldsDifference (path : Text) : List (Text × Json) → List (Text × Json) → Option Mismatch
  | [], gs => firstExtra path gs
  | (n, v) :: fs, gs =>
    let earlier := gs.takeWhile fun g => Text.before g.1 n
    let later := gs.dropWhile fun g => Text.before g.1 n
    let (w, gs') :=
      match later with
      | (m, w) :: rest => if m = n then (w, rest) else (null, later)
      | [] => (null, [])
    ((firstExtra path earlier).or
      (if isPosition n then none else differenceAt (path ++ "." ++ n) v w)).or
      (fieldsDifference path fs gs')

end

/-- The first place where two values in normal form disagree. -/
def difference (a b : Json) : Option Mismatch := differenceAt "$" a b

end Anadil.Json
