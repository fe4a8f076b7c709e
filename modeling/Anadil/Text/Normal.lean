import Anadil.Text.Glyph
import Anadil.Text.Category
import Anadil.Text.Normal.CombiningClass
import Anadil.Text.Normal.Compatibility
import Anadil.Text.Normal.Composition
import Anadil.Text.Normal.Decomposition

/-! # Normal form C

One spelling for texts that differ only in how accented letters are encoded. A text is divided into
segments, each a character with those that lean on it (`segments`). In each segment characters are
taken apart (`decompose`), marks are put in order (`order`), and what can be written as one character
is put together again (`Joining`).

A run of more than thirty characters that lean on the one before is broken by a grapheme joiner, so
that no reader needs more room than that to put marks in order. -/

namespace Anadil.Text

/-! ### Taking apart -/

/-- The pair listed for `n` in a table. -/
def pairIn? (table : List (Nat × Nat × Nat)) (n : Nat) : Option (Nat × Nat) := (table.find? (·.1 == n)).map (·.2)

/-- What the run that holds `n` says it stands for, in a table in order. -/
def singleIn? : List (Nat × Nat × Nat) → Nat → Option Nat
  | [], _ => none
  | (first, last, target) :: rest, n =>
    if n < first then none
    else if n ≤ last then some (target + (n - first))
    else singleIn? rest n

/-- What a table of runs in order lists for `n`. -/
def listedIn? : List (Nat × List Nat) → Nat → Option Nat
  | [], _ => none
  | (first, targets) :: rest, n => if n < first then none else targets[n - first]?.or (listedIn? rest n)

/-- The two characters that `n` stands for. -/
def pair? (n : Nat) : Option (Nat × Nat) :=
  (pairIn? composites n).or (pairIn? splits n)

/-- The one character that `n` stands for. -/
def single? (n : Nat) : Option Nat :=
  if n < 0xF900 then singleIn? singletons n else listedIn? ideographs n

/-- A Hangul syllable as its leading consonant, vowel and trailing consonant. -/
def jamo? (n : Nat) : Option (List Nat) :=
  if 0xAC00 ≤ n ∧ n ≤ 0xD7A3 then
    let s := n - 0xAC00
    let lead := [0x1100 + s / 588, 0x1161 + s % 588 / 28]
    some (if s % 28 = 0 then lead else lead ++ [0x11A7 + s % 28])
  else none

/-- What `n` stands for after at most `depth` replacements of its first character. -/
def decomposeTo : Nat → Nat → List Nat
  | 0, n => [n]
  | depth + 1, n =>
    match jamo? n with
    | some js => js
    | none =>
      match pair? n with
      | some (a, b) => decomposeTo depth a ++ [b]
      | none =>
        match single? n with
        | some m => decomposeTo depth m
        | none => [n]

/-- The canonical decomposition of a code point. Three replacements are the most that any needs. -/
def decompose (n : Nat) : List Nat :=
  if n < 0xC0 then [n] else decomposeTo 4 n

/-! ### Leaning characters -/

/-- Whether a code point is a vowel or a trailing consonant of a Hangul syllable. -/
def isTrailingJamo (n : Nat) : Bool := (0x1161 ≤ n && n ≤ 0x1175) || (0x11A7 ≤ n && n ≤ 0x11C2)

/-- Whether a code point can join the one before it: the second half of a composite. -/
def joins (n : Nat) : Bool :=
  0x300 ≤ n && (isTrailingJamo n || composites.any fun (_, _, b) => b == n)

/-- Whether a code point leans on the one before it: a mark, or one that can join. -/
def leans (n : Nat) : Bool := 0x300 ≤ n && (combiningClass n != 0 || joins n)

/-- The counts that a table in order lists for `n`. -/
def edgesIn? : List (Nat × Nat × Nat × Nat) → Nat → Option (Nat × Nat)
  | [], _ => none
  | (first, last, front, back) :: rest, n =>
    if n < first then none else if n ≤ last then some (front, back) else edgesIn? rest n

/-- How many leaning characters stand at the front and at the end of what `n` stands for, compatibility
forms included. -/
def edges (n : Nat) : Nat × Nat :=
  (edgesIn? compatibilityEdges n).getD
    (let parts := decompose n
     ((parts.takeWhile leans).length, (parts.reverse.takeWhile leans).length))

/-! ### Segments -/

def graphemeJoiner : Nat := 0x034F

def longestRun : Nat := 30

/-- The segments of what follows `begun`, the segment that has been started, its last code point first;
`run` leaning characters have gone before in it. -/
def segmentsFrom (run : Nat) (begun : List Nat) : List Nat → List (List Nat)
  | [] => [begun.reverse]
  | n :: rest =>
    let (front, back) := edges n
    let parts := (decompose n).reverse
    if front = 0 then begun.reverse :: segmentsFrom back parts rest
    else if run + front ≤ longestRun then segmentsFrom (run + front) (parts ++ begun) rest
    else (graphemeJoiner :: begun).reverse :: segmentsFrom front parts rest

/-- Divides code points into segments, taken apart: a segment begins with a character that leans on
none, and where a run gets too long. -/
def segments (ns : List Nat) : List (List Nat) := segmentsFrom 0 [] ns

/-! ### Order of marks -/

/-- Puts a code point in front of an ordered list, behind the marks of lower class. -/
def insertMark (n : Nat) : List Nat → List Nat
  | [] => [n]
  | m :: rest =>
    if combiningClass m != 0 && combiningClass m < combiningClass n then m :: insertMark n rest
    else n :: m :: rest

/-- Marks on one character in order of their class; marks of one class keep their order. -/
def order : List Nat → List Nat
  | [] => []
  | n :: rest => insertMark n (order rest)

/-! ### Putting together -/

/-- A Hangul syllable from a leading consonant and a vowel, or with a trailing consonant. -/
def syllable? (a b : Nat) : Option Nat :=
  if 0x1100 ≤ a ∧ a ≤ 0x1112 ∧ 0x1161 ≤ b ∧ b ≤ 0x1175 then
    some (0xAC00 + (a - 0x1100) * 588 + (b - 0x1161) * 28)
  else if 0xAC00 ≤ a ∧ a ≤ 0xD7A3 ∧ (a - 0xAC00) % 28 = 0 ∧ 0x11A8 ≤ b ∧ b ≤ 0x11C2 then
    some (a + (b - 0x11A7))
  else none

/-- The part of a code point by which composites are looked up: its low sixteen bits. -/
def pairKey (n : Nat) : Nat := n % 0x10000

/-- The one character that normal form C writes for two. -/
def composite? (a b : Nat) : Option Nat :=
  (composites.find? fun (_, x, y) => pairKey x == pairKey a && pairKey y == pairKey b).map (·.1)

/-- A segment that is being put together: the character that the next one may join, what stands before
it and what stands after it, in both the last first. -/
structure Joining where
  before : List Nat
  base : Nat
  after : List Nat
deriving DecidableEq, Repr

namespace Joining

def points (j : Joining) : List Nat := j.before.reverse ++ j.base :: j.after.reverse

def lastClass (j : Joining) : Nat := combiningClass (j.after.headD j.base)

/-- Adds a code point as it is. -/
def keep (j : Joining) (n : Nat) : Joining := { j with after := n :: j.after }

/-- Takes the last code point as the base if it is a starter. -/
def rebase (j : Joining) : Joining :=
  match j.after with
  | [] => j
  | n :: rest => if combiningClass n = 0 then ⟨rest ++ j.base :: j.before, n, []⟩ else j

/-- Joins a code point to the base if `one?` says how, unless a mark of its class or a higher one stands
between. -/
def joinBy (one? : Nat → Nat → Option Nat) (j : Joining) (n : Nat) : Joining :=
  let j := j.rebase
  if !j.after.isEmpty && combiningClass n ≤ j.lastClass then j.keep n
  else
    match one? j.base n with
    | some c => { j with base := c }
    | none => j.keep n

/-- Adds a code point, joined if possible. A code point that can join nothing is kept, and the base
stays where it is. -/
def add (j : Joining) (n : Nat) : Joining := if joins n then j.joinBy composite? n else j.keep n

/-- Adds the code points of a segment. From the first Hangul consonant or vowel on only syllables are
put together. -/
def addAll (j : Joining) : List Nat → Joining
  | [] => j
  | n :: rest =>
    if 0x1100 ≤ n ∧ n ≤ 0x11FF then (n :: rest).foldl (joinBy syllable?) j
    else (j.add n).addAll rest

end Joining

/-- Puts together what can be written as one character in a segment. -/
def compose : List Nat → List Nat
  | [] => []
  | n :: rest => (Joining.addAll ⟨[], n, []⟩ rest).points

/-! ### Texts -/

/-- Normal form C. No character below U+0300 is changed by it, nor any mark. -/
def normalize (cs : List Char) : List Char :=
  if cs.all fun c => c.toNat < 0x300 then cs
  else ((segments (cs.map Char.toNat)).flatMap fun s => compose (order s)).map Char.ofNat

/-- Whether normal form KC would write a text in normal form C differently: some character of it has a
compatibility decomposition, or the text changes when it is put into normal form once more. -/
def hasCompatibility (cs : List Char) : Bool :=
  (cs.any fun c => 0x80 ≤ c.toNat && (decompose c.toNat).any compatibilities.has) ||
    normalize cs != cs

end Anadil.Text
