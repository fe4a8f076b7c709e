import Anadil.Text.Glyph
import Anadil.Text.Category

/-! # Lower case

The simple lower-case mappings of Unicode 15: each capital letter has one small letter. -/

namespace Anadil.Text

/-- Capital letters `first`, `first + step`, … up to `last`, whose small letters lie at one distance. -/
structure CaseRun where
  first : Nat
  last : Nat
  step : Nat
  distance : Int
deriving DecidableEq, Repr

/-- The runs of capital letters, in order: the gap in front, the length, and the distance to the small letters. Where
each small letter comes right behind its capital, the capitals lie two apart. -/
def capitals : List CaseRun :=
  (runs 0 [
    (65, 26, 32), (101, 23, 32), (1, 7, 32), (33, 47, 1), (1, 1, -199), (1, 5, 1), (2, 15, 1), (2, 45, 1),
    (1, 1, -121), (0, 5, 1), (3, 1, 210), (0, 3, 1), (1, 1, 206), (0, 1, 1), (1, 2, 205), (0, 1, 1), (2, 1, 79),
    (0, 1, 202), (0, 1, 203), (0, 1, 1), (1, 1, 205), (0, 1, 207), (1, 1, 211), (0, 1, 209), (0, 1, 1), (3, 1, 211),
    (0, 1, 213), (1, 1, 214), (0, 5, 1), (1, 1, 218), (0, 1, 1), (1, 1, 218), (2, 1, 1), (1, 1, 218), (0, 1, 1),
    (1, 2, 217), (0, 3, 1), (1, 1, 219), (0, 1, 1), (3, 1, 1), (7, 1, 2), (0, 1, 1), (1, 1, 2), (0, 1, 1), (1, 1, 2),
    (0, 17, 1), (2, 17, 1), (2, 1, 2), (0, 3, 1), (1, 1, -97), (0, 1, -56), (0, 39, 1), (1, 1, -130), (1, 17, 1),
    (7, 1, 10795), (0, 1, 1), (1, 1, -163), (0, 1, 10792), (2, 1, 1), (1, 1, -195), (0, 1, 69), (0, 1, 71), (0, 9, 1),
    (289, 3, 1), (3, 1, 1), (8, 1, 116), (6, 1, 38), (1, 3, 37), (1, 1, 64), (1, 2, 63), (1, 17, 32), (1, 9, 32),
    (35, 1, 8), (8, 23, 1), (5, 1, -60), (2, 1, 1), (1, 1, -7), (0, 1, 1), (2, 3, -130), (0, 16, 80), (0, 32, 32),
    (48, 33, 1), (9, 53, 1), (1, 1, 15), (0, 13, 1), (2, 95, 1), (2, 38, 48), (2889, 38, 7264), (1, 1, 7264),
    (5, 1, 7264), (722, 80, 38864), (0, 6, 8), (2202, 43, -3008), (2, 3, -3008), (320, 149, 1), (9, 1, -7615),
    (1, 95, 1), (9, 8, -8), (8, 6, -8), (10, 8, -8), (8, 8, -8), (8, 6, -8), (11, 1, -8), (1, 1, -8), (1, 1, -8),
    (1, 1, -8), (8, 8, -8), (24, 8, -8), (8, 8, -8), (8, 8, -8), (8, 2, -8), (0, 2, -74), (0, 1, -9), (11, 4, -86),
    (0, 1, -9), (11, 2, -8), (0, 2, -100), (12, 2, -8), (0, 2, -112), (0, 1, -7), (11, 2, -128), (0, 2, -126),
    (0, 1, -9), (297, 1, -7517), (3, 1, -8383), (0, 1, -8262), (6, 1, 28), (45, 16, 16), (19, 1, 1), (818, 26, 26),
    (1840, 48, 48), (48, 1, 1), (1, 1, -10743), (0, 1, -3814), (0, 1, -10727), (2, 5, 1), (1, 1, -10780),
    (0, 1, -10749), (0, 1, -10783), (0, 1, -10782), (1, 1, 1), (2, 1, 1), (8, 2, -10815), (0, 99, 1), (8, 3, 1),
    (4, 1, 1), (31053, 45, 1), (19, 27, 1), (135, 13, 1), (3, 61, 1), (10, 3, 1), (1, 1, -35332), (0, 9, 1),
    (4, 1, 1), (1, 1, -42280), (2, 3, 1), (3, 19, 1), (1, 1, -42308), (0, 1, -42319), (0, 1, -42315), (0, 1, -42305),
    (0, 1, -42308), (1, 1, -42258), (0, 1, -42282), (0, 1, -42261), (0, 1, 928), (0, 15, 1), (1, 1, -48),
    (0, 1, -42307), (0, 1, -35384), (0, 3, 1), (6, 1, 1), (5, 3, 1), (28, 1, 1), (22315, 26, 32), (1221, 40, 40),
    (136, 36, 40), (156, 11, 39), (1, 15, 39), (1, 7, 39), (1, 2, 39), (1770, 51, 64), (3053, 32, 32),
    (21888, 32, 32), (31392, 34, 34)]).map fun (first, last, distance) =>
      ⟨first, last, if distance = 1 then 2 else 1, distance⟩

/-- The small letter of a letter. The search ends at the first run that starts above the letter. -/
def lowerIn (n : Nat) : List CaseRun → Nat
  | [] => n
  | r :: rs =>
    if n < r.first then n
    else if n ≤ r.last then if (n - r.first) % r.step = 0 then (n + r.distance).toNat else n
    else lowerIn n rs

/-- The small letter of a letter. -/
def lowerChar (c : Char) : Char := Char.ofNat (lowerIn c.toNat capitals)

/-- A text in small letters. A byte that belongs to no character becomes the replacement character. -/
def lower (t : Text) : Text := t.map fun g => .char (lowerChar g.seen)

end Anadil.Text
