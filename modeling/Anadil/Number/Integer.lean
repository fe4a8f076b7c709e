import Anadil.Text.Glyph

/-! # Integers in texts

An integer may have a sign, a base in front (`0x`, `0o`, `0b`, or `0` alone for eight), and single
underscores between its digits. It has to fit in 64 bits. -/

namespace Anadil.Number

/-- Why a text is no integer. -/
inductive Flaw where
  | malformed
  | range
deriving DecidableEq, Repr

def Flaw.message : Flaw → Text
  | malformed => "invalid syntax"
  | range => "value out of range"

def digit? (c : Char) : Option Nat :=
  if c.isDigit then some (c.toNat - 48)
  else if 'a' ≤ c ∧ c ≤ 'f' then some (c.toNat - 87)
  else if 'A' ≤ c ∧ c ≤ 'F' then some (c.toNat - 55)
  else none

/-- The value of digits in a base; underscores are passed over. The first digit that is wrong or makes
the number too great for 64 bits decides. -/
def digitsValue (base : Nat) (cs : List Char) : Except Flaw Nat :=
  (cs.filter (· != '_')).foldl (fun n c => do
    let n ← n
    match digit? c with
    | none => .error .malformed
    | some d =>
      if base ≤ d then .error .malformed
      else if 0x10000000000000000 ≤ n * base + d then .error .range
      else .ok (n * base + d)) (.ok 0)

/-- Whether each underscore stands between two digits; `after` says whether a digit stands in front. -/
def underscoresFit : Bool → List Char → Bool
  | _, [] => true
  | after, c :: cs =>
    if c = '_' then
      match cs with
      | d :: _ => after && d != '_' && underscoresFit false cs
      | [] => false
    else underscoresFit true cs

/-- The base that digits are in, the digits, and whether a base stands in front of them. -/
def base : List Char → Nat × List Char × Bool
  | '0' :: c :: d :: cs =>
    if c.toLower = 'x' then (16, d :: cs, true)
    else if c.toLower = 'o' then (8, d :: cs, true)
    else if c.toLower = 'b' then (2, d :: cs, true)
    else (8, c :: d :: cs, true)
  | ['0', c] => (8, [c], true)
  | cs => (10, cs, false)

/-- The number without a sign. -/
def magnitude (cs : List Char) : Except Flaw Nat := do
  let (b, digits, prefixed) := base cs
  let n ← if digits.isEmpty then .error .malformed else digitsValue b digits
  if underscoresFit prefixed digits then .ok n else .error .malformed

/-- The sign in front of a number, and the rest. -/
def sign : List Char → Int × List Char
  | '-' :: cs => (-1, cs)
  | '+' :: cs => (1, cs)
  | cs => (1, cs)

def fits (n : Int) : Bool := decide (-0x8000000000000000 ≤ n) && decide (n < 0x8000000000000000)

def integer (t : Text) : Except Flaw Int := do
  let (s, cs) := sign t.chars
  let n ← magnitude cs
  if fits (s * n) then .ok (s * n) else .error .range

/-- A number cut down to 64 bits. -/
def wrap (n : Int) : Int := Int.bmod n 0x10000000000000000

end Anadil.Number
