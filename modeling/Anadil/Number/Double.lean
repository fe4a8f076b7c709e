import Anadil.Text.Glyph

/-! # Floating-point numbers

Numbers of the form m · 2^e with 53 bits, as a decimal numeral gives them and as they are written again:
in the fewest digits that read back. -/

namespace Anadil

/-- A floating-point number. A finite one is `mantissa * 2 ^ exponent`, and its mantissa has 53 bits
unless its exponent is the least. -/
inductive Double where
  | nan
  | infinite (negative : Bool)
  | finite (negative : Bool) (mantissa : Nat) (exponent : Int)
deriving DecidableEq, Repr

namespace Double

/-- The bits of a mantissa. -/
def precision : Nat := 53

def leastExponent : Int := -1074

def greatestExponent : Int := 971

/-- The whole number next to `a / b`; of two, the even one. -/
def roundDiv (a b : Nat) : Nat :=
  let q := a / b
  let r := a % b
  if 2 * r < b then q else if b < 2 * r then q + 1 else if q % 2 = 0 then q else q + 1

/-- `a / b / 2 ^ e` as a quotient of natural numbers. -/
def scaled (a b : Nat) (e : Int) : Nat × Nat :=
  if 0 ≤ e then (a, b * Nat.pow 2 e.toNat) else (a * Nat.pow 2 (-e).toNat, b)

/-- The exponent for which `a / b` has 53 bits before the point, or the least one. -/
def exponentFor (a b : Nat) : Int :=
  let e : Int := (a.log2 : Int) - b.log2 - precision
  let (n, d) := scaled a b e
  let e := if Nat.pow 2 precision ≤ n / d then e + 1 else e
  max e leastExponent

/-- The number next to the quotient `a / b` of positive numbers, if it is not too great. -/
def ofQuotient? (negative : Bool) (a b : Nat) : Option Double :=
  let e := exponentFor a b
  let (n, d) := scaled a b e
  let m := roundDiv n d
  let (m, e) := if m = Nat.pow 2 precision then (Nat.pow 2 (precision - 1), e + 1) else (m, e)
  if greatestExponent < e then none else some (.finite negative m e)

/-- The number next to `digits * 10 ^ scale`, if it is not too great. -/
def ofDecimal? (negative : Bool) (digits : Nat) (scale : Int) : Option Double :=
  let places : Int := (Nat.toDigits 10 digits).length + scale
  if digits = 0 ∨ places < -330 then some (.finite negative 0 leastExponent)
  else if 310 < places then none
  else if 0 ≤ scale then ofQuotient? negative (digits * Nat.pow 10 scale.toNat) 1
  else ofQuotient? negative digits (Nat.pow 10 (-scale).toNat)

/-! ### Whole numbers -/

/-- The whole part of a number, if it fits in 64 bits; otherwise the least number that does. -/
def toInt64 : Double → Int
  | finite negative m e =>
    let (n, d) := scaled m 1 (-e)
    let whole : Int := (n / d : Nat)
    let whole := if negative then -whole else whole
    if -0x8000000000000000 ≤ whole ∧ whole < 0x8000000000000000 then whole else -0x8000000000000000
  | _ => -0x8000000000000000

/-! ### Texts -/

/-- The numerals with `count` digits around a number, the nearer first. -/
def candidates (m : Nat) (e : Int) (count : Nat) : List (Nat × Int) :=
  let (n, d) := scaled m 1 (-e)
  let places : Int :=
    if d ≤ n then (Nat.toDigits 10 (n / d)).length
    else 1 - ((Nat.toDigits 10 (d / n)).length : Int)
  let scale := places - count
  let (n, d) := if 0 ≤ scale then (n, d * Nat.pow 10 scale.toNat) else (n * Nat.pow 10 (-scale).toNat, d)
  let low := n / d
  if 2 * (n % d) ≤ d then [(low, scale), (low + 1, scale)] else [(low + 1, scale), (low, scale)]

/-- The shortest numeral that reads back as a number, with at most `left` more digits than `count`. -/
def shortestFrom (m : Nat) (e : Int) : Nat → Nat → Nat × Int
  | 0, count => ((candidates m e count).head?).getD (0, 0)
  | left + 1, count =>
    match (candidates m e count).find? fun (digits, scale) =>
        ofDecimal? false digits scale == some (.finite false m e) with
    | some c => c
    | none => shortestFrom m e left (count + 1)

def withoutZeros : Nat → Nat → Int → Nat × Int
  | 0, digits, scale => (digits, scale)
  | fuel + 1, digits, scale =>
    if digits % 10 = 0 ∧ digits ≠ 0 then withoutZeros fuel (digits / 10) (scale + 1)
    else (digits, scale)

/-- A numeral with a point. -/
def positional (digits : Nat) (scale : Int) : Text :=
  let t := Text.decimal digits
  if 0 ≤ scale then t ++ List.replicate scale.toNat (.char '0')
  else
    let behind := (-scale).toNat
    let t : Text := List.replicate (behind + 1 - t.length) (.char '0') ++ t
    t.take (t.length - behind) ++ "." ++ t.drop (t.length - behind)

/-- A number in the fewest digits that read back. -/
def text : Double → Text
  | nan => "NaN"
  | infinite negative => if negative then "-Inf" else "+Inf"
  | finite negative m e =>
    let body : Text :=
      if m = 0 then "0"
      else
        let (digits, scale) := shortestFrom m e 17 1
        let (digits, scale) := withoutZeros 400 digits scale
        positional digits scale
    if negative then "-" ++ body else body

end Double

end Anadil
