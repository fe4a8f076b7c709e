import Anadil.Number.Integer
import Anadil.Time
import Anadil.Toml.Basic

/-! # Reading TOML

`Toml.read` gives the entries of a settings file, or nothing if it is malformed anywhere. -/

namespace Anadil.Toml

/-! ### Lines -/

def isBlank (g : Glyph) : Bool := g.is ' ' || g.is '\t'

def skipBlanks (t : Text) : Text := t.dropWhile isBlank

/-- Whether a glyph may stand in a comment or a string: no stray byte and no control character but a
tab. -/
def isAllowed : Glyph → Bool
  | .char c => c == '\t' || (0x20 ≤ c.toNat && c.toNat != 0x7F)
  | .byte _ => false

/-- What follows the end of a line, if a line ends here. -/
def newline? : Text → Option Text
  | g :: rest =>
    if g.is '\n' then some rest
    else if g.is '\r' then
      match rest with
      | h :: rest => if h.is '\n' then some rest else none
      | [] => none
    else none
  | [] => none

/-- What follows a comment: nothing, or the end of its line. -/
def skipComment : Text → Option Text
  | [] => some []
  | g :: rest =>
    if (newline? (g :: rest)).isSome then some (g :: rest)
    else if isAllowed g then skipComment rest
    else none

/-- What follows blanks and a comment, if there is one. -/
def skipRest (t : Text) : Option Text :=
  match skipBlanks t with
  | g :: rest => if g.is '#' then skipComment rest else some (g :: rest)
  | [] => some []

/-- What follows blanks, comments and ends of lines. -/
def skipLines : Nat → Text → Option Text
  | 0, _ => none
  | fuel + 1, t => do
    let t ← skipRest t
    match newline? t with
    | some rest => skipLines fuel rest
    | none => some t

def dropWord : List Char → Text → Option Text
  | [], t => some t
  | c :: cs, g :: t => if g.is c then dropWord cs t else none
  | _ :: _, [] => none

/-! ### Strings -/

def escaped? (g : Glyph) : Option Char :=
  if g.is '"' then some '"'
  else if g.is '\\' then some '\\'
  else if g.is 'b' then some '\x08'
  else if g.is 'e' then some '\x1B'
  else if g.is 'f' then some '\x0c'
  else if g.is 'n' then some '\n'
  else if g.is 'r' then some '\r'
  else if g.is 't' then some '\t'
  else none

def numbered? (digits : Text) : Option Char := do
  let n ← digits.foldl (fun n g => do
    let n ← n
    let d ← Number.digit? g.seen
    return n * 16 + d) (some 0)
  if n.isValidChar then some (Char.ofNat n) else none

/-- The character of an escape behind its backslash, and what follows it. -/
def readEscape : Text → Option (Char × Text)
  | [] => none
  | g :: rest =>
    let digits := if g.is 'u' then 4 else if g.is 'U' then 8 else 0
    if digits = 0 then (escaped? g).map fun c => (c, rest)
    else if rest.length < digits then none
    else (numbered? (rest.take digits)).map fun c => (c, rest.drop digits)

/-- The rest of a string in double quotes, with at most `fuel` characters. -/
def readBasic : Nat → Text → Option (Text × Text)
  | 0, _ => none
  | fuel + 1, t =>
    match t with
    | [] => none
    | g :: rest =>
      if g.is '"' then some ([], rest)
      else if g.is '\\' then do
        let (c, rest) ← readEscape rest
        let (s, rest) ← readBasic fuel rest
        return (.char c :: s, rest)
      else if isAllowed g then (readBasic fuel rest).map fun (s, rest) => (g :: s, rest)
      else none

/-- The rest of a string in single quotes. -/
def readLiteral : Text → Option (Text × Text)
  | [] => none
  | g :: rest =>
    if g.is '\'' then some ([], rest)
    else if isAllowed g then (readLiteral rest).map fun (s, rest) => (g :: s, rest)
    else none

/-- A text without the line end at its front, if there is one. -/
def dropNewline (t : Text) : Text := (newline? t).getD t

/-- The quotes that close a string over several lines: three, with up to two of the string's own in front.
Gives those and what follows, or `none` if the string goes on. -/
def closing? (quote : Char) (t : Text) : Option (Option (Text × Text)) :=
  let quotes := t.takeWhile (·.is quote)
  if quotes.length < 3 then none
  else if quotes.length < 6 then
    some (some (quotes.take (quotes.length - 3), t.dropWhile (·.is quote)))
  else some none

/-- Blanks and ends of lines. -/
def skipSpace : Nat → Text → Text
  | 0, t => t
  | fuel + 1, t =>
    let t := skipBlanks t
    match newline? t with
    | some rest => skipSpace fuel rest
    | none => t

/-- The rest of a string in double quotes over several lines. A backslash at the end of a line takes away
the blanks and line ends that follow. -/
def readBasicLines : Nat → Text → Option (Text × Text)
  | 0, _ => none
  | fuel + 1, t =>
    match closing? '"' t with
    | some close => close
    | none =>
      match t with
      | [] => none
      | g :: rest =>
        if g.is '\\' then
          if (newline? (skipBlanks rest)).isSome then readBasicLines fuel (skipSpace fuel rest)
          else do
            let (c, rest) ← readEscape rest
            let (s, rest) ← readBasicLines fuel rest
            return (.char c :: s, rest)
        else
          match newline? t with
          | some after =>
            (readBasicLines fuel after).map fun (s, rest) =>
              (t.take (t.length - after.length) ++ s, rest)
          | none =>
            if isAllowed g then (readBasicLines fuel rest).map fun (s, rest) => (g :: s, rest)
            else none

/-- The rest of a string in single quotes over several lines. -/
def readLiteralLines : Nat → Text → Option (Text × Text)
  | 0, _ => none
  | fuel + 1, t =>
    match closing? '\'' t with
    | some close => close
    | none =>
      match t with
      | [] => none
      | g :: rest =>
        match newline? t with
        | some after =>
          (readLiteralLines fuel after).map fun (s, rest) =>
            (t.take (t.length - after.length) ++ s, rest)
        | none =>
          if isAllowed g then (readLiteralLines fuel rest).map fun (s, rest) => (g :: s, rest)
          else none

def readString (t : Text) : Option (Text × Text) :=
  match dropWord ['"', '"', '"'] t, dropWord ['\'', '\'', '\''] t, t with
  | some rest, _, _ => readBasicLines (t.length + 1) (dropNewline rest)
  | _, some rest, _ => readLiteralLines (t.length + 1) (dropNewline rest)
  | _, _, g :: rest => if g.is '"' then readBasic (t.length + 1) rest else readLiteral rest
  | _, _, [] => none

/-! ### Keys -/

/-- A character of a key without quotes. -/
def isBare (g : Glyph) : Bool := g.seen.isAlphanum || g.is '_' || g.is '-'

def readName (t : Text) : Option (Text × Text) :=
  match t with
  | [] => none
  | g :: rest =>
    if g.is '"' then readBasic (t.length + 1) rest
    else if g.is '\'' then readLiteral rest
    else if isBare g then some (t.takeWhile isBare, t.dropWhile isBare)
    else none

def readKey : Nat → Text → Option (List Text × Text)
  | 0, _ => none
  | fuel + 1, t => do
    let (name, t) ← readName t
    match skipBlanks t with
    | g :: rest =>
      if g.is '.' then
        let (names, t) ← readKey fuel (skipBlanks rest)
        return (name :: names, t)
      else return ([name], g :: rest)
    | [] => return ([name], [])

/-! ### Numbers -/

def isDigit (g : Glyph) : Bool := g.seen.isDigit

/-- Digits without their underscores, each of which has to stand between two digits. -/
def withoutUnderscores (cs : List Char) : Option (List Char) :=
  if Number.underscoresFit false cs then some (cs.filter (· != '_')) else none

/-- The value of digits in a base, if it fits in 64 bits. -/
def inBase? (base : Nat) (cs : List Char) : Option Int := do
  let cs ← withoutUnderscores cs
  if cs.isEmpty then none
  else
    let n ← (Number.digitsValue base cs).toOption
    if Number.fits n then some n else none

def decimal? (cs : List Char) : Option Int := do
  let (s, digits) := Number.sign cs
  let digits ← withoutUnderscores digits
  if digits.isEmpty || !digits.all Char.isDigit || (digits.length != 1 && digits.head? == some '0') then none
  else
    let n ← (Number.digitsValue 10 digits).toOption
    if Number.fits (s * n) then some (s * n) else none

/-- The digits of a part of a number, with their underscores taken away; there has to be one. -/
def digitRun? (cs : List Char) : Option (List Char) := do
  let digits ← withoutUnderscores cs
  if digits.isEmpty || !digits.all Char.isDigit then none else some digits

def exponent? (cs : List Char) : Option Int := do
  let (s, digits) := Number.sign cs
  let digits ← digitRun? digits
  let n : Nat := digits.foldl (fun n c => if 100000 < n then n else n * 10 + (c.toNat - 48)) 0
  return s * n

def isExponentMark (c : Char) : Bool := c == 'e' || c == 'E'

/-- A float: a whole part without zeros in front, and a fraction, an exponent or both. -/
def float? (cs : List Char) : Option Double := do
  let (s, body) := Number.sign cs
  let negative := decide (s < 0)
  if body = "inf".toList then some (.infinite negative)
  else if body = "nan".toList then some .nan
  else
    let front := body.takeWhile fun c => !isExponentMark c
    let back := body.dropWhile fun c => !isExponentMark c
    let whole ← digitRun? (front.takeWhile (· != '.'))
    if whole.length != 1 && whole.head? == some '0' then none
    else
      let fraction ←
        match front.dropWhile (· != '.') with
        | [] => some []
        | _ :: f => digitRun? f
      let e ←
        match back with
        | [] => some 0
        | _ :: e => exponent? e
      let digits := (whole ++ fraction).foldl (fun n c => n * 10 + (c.toNat - 48)) 0
      Double.ofDecimal? negative digits (e - fraction.length)

/-- Whether a character may stand in a number. -/
def isNumeric (c : Char) : Bool :=
  c.isDigit || c == '+' || c == '-' || c == '_' || c == '.' || isExponentMark c

/-- The extent of a number in decimal digits; the names of the numbers that have none may end it. -/
def numberExtent (t : Text) : Text × Text :=
  let body := t.takeWhile fun g => isNumeric g.seen
  let rest := t.dropWhile fun g => isNumeric g.seen
  if (dropWord "inf".toList rest).isSome || (dropWord "nan".toList rest).isSome then
    (body ++ rest.take 3, rest.drop 3)
  else (body, rest)

/-- The base that two characters in front of digits name. -/
def baseOf? : Text → Option (Nat × Text)
  | z :: g :: rest =>
    if !z.is '0' then none
    else if g.is 'x' then some (16, rest)
    else if g.is 'o' then some (8, rest)
    else if g.is 'b' then some (2, rest)
    else none
  | _ => none

def readNumber (t : Text) : Option (Toml × Text) :=
  match baseOf? t with
  | some (base, rest) =>
    let isPart (g : Glyph) : Bool :=
      g.is '_' || ((Number.digit? g.seen).any (· < base))
    (inBase? base (Text.chars (rest.takeWhile isPart))).map fun n =>
      (.integer n, rest.dropWhile isPart)
  | none =>
    let (body, rest) := numberExtent t
    let cs := body.chars
    let isFloat := cs.any fun c => c == '.' || isExponentMark c || c == 'i' || c == 'n'
    if isFloat then (float? cs).map fun d => (.float d, rest)
    else (decimal? cs).map fun n => (.integer n, rest)

/-! ### Dates -/

def daysIn (year month : Int) : Int :=
  if month = 2 then
    if year % 4 = 0 ∧ (year % 100 ≠ 0 ∨ year % 400 = 0) then 29 else 28
  else if month = 4 ∨ month = 6 ∨ month = 9 ∨ month = 11 then 30
  else 31

def skipDate (t : Text) : Option Text := do
  let (year, t) ← Time.readDigits 4 t
  let t ← Time.readMark '-' t
  let (month, t) ← Time.readDigits 2 t
  let t ← Time.readMark '-' t
  let (day, t) ← Time.readDigits 2 t
  if 1 ≤ month ∧ month ≤ 12 ∧ 1 ≤ day ∧ day ≤ daysIn year month then some t else none

def skipTime (t : Text) : Option Text := do
  let (hour, t) ← Time.readDigits 2 t
  let t ← Time.readMark ':' t
  let (minute, t) ← Time.readDigits 2 t
  let t ← Time.readMark ':' t
  let (second, t) ← Time.readDigits 2 t
  if 23 < hour ∨ 59 < minute ∨ 60 < second then none
  else
    match t with
    | g :: rest =>
      if g.is '.' then
        if (rest.head?).any isDigit then some (rest.dropWhile isDigit) else none
      else some t
    | [] => some []

/-- What follows the distance from universal time, if there is one. -/
def skipOffset (t : Text) : Option Text :=
  match t with
  | [] => some []
  | g :: rest =>
    if g.is 'Z' || g.is 'z' then some rest
    else if g.is '+' || g.is '-' then do
      let (hours, t) ← Time.readDigits 2 rest
      let t ← Time.readMark ':' t
      let (minutes, t) ← Time.readDigits 2 t
      if 23 < hours ∨ 59 < minutes then none else some t
    else some t

def startsMoment (t : Text) : Bool :=
  let leading := (t.take 5).takeWhile isDigit
  match t.drop leading.length with
  | g :: _ => (leading.length == 4 && g.is '-') || (leading.length == 2 && g.is ':')
  | [] => false

/-- A date, a time or both. -/
def readMoment (t : Text) : Option (Toml × Text) :=
  match skipDate t with
  | none => (skipTime t).map fun rest => (.moment, rest)
  | some rest =>
    match rest with
    | g :: after =>
      if g.is 'T' || g.is 't' || (g.is ' ' && (after.head?).any isDigit) then do
        let rest ← skipTime after
        let rest ← skipOffset rest
        return (.moment, rest)
      else some (.moment, rest)
    | [] => some (.moment, [])

/-! ### Values -/

mutual

def readValue : Nat → Text → Option (Toml × Text)
  | 0, _ => none
  | fuel + 1, t =>
    match t with
    | [] => none
    | g :: rest =>
      if g.is '"' || g.is '\'' then (readString t).map fun (s, rest) => (.string s, rest)
      else if g.is 't' then (dropWord "true".toList t).map fun rest => (.boolean true, rest)
      else if g.is 'f' then (dropWord "false".toList t).map fun rest => (.boolean false, rest)
      else if g.is '[' then (readItems fuel rest).map fun (vs, rest) => (.array vs, rest)
      else if g.is '\x7b' then
        match skipBlanks rest with
        | h :: after =>
          if h.is '\x7d' then some (.table [], after)
          else (readFields fuel [] (h :: after)).map fun (es, rest) => (.table (finish es), rest)
        | [] => none
      else if startsMoment t then readMoment t
      else readNumber t

def readItems : Nat → Text → Option (List Toml × Text)
  | 0, _ => none
  | fuel + 1, t => do
    match ← skipLines (fuel + 1) t with
    | [] => none
    | g :: rest =>
      if g.is ']' then some ([], rest)
      else
        let (v, t) ← readValue fuel (g :: rest)
        match ← skipLines (fuel + 1) t with
        | [] => none
        | h :: after =>
          if h.is ']' then some ([v], after)
          else if h.is ',' then
            let (vs, rest) ← readItems fuel after
            return (v :: vs, rest)
          else none

/-- The fields of a table on one line, from the first field on. -/
def readFields : Nat → Entries → Text → Option (Entries × Text)
  | 0, _, _ => none
  | fuel + 1, es, t => do
    let (key, t) ← readKey (fuel + 1) t
    let t ← Time.readMark '=' t
    let (v, t) ← readValue fuel (skipBlanks t)
    let es ← es.define v key
    match skipBlanks t with
    | [] => none
    | g :: rest =>
      if g.is '\x7d' then some (es, rest)
      else if g.is ',' then readFields fuel es (skipBlanks rest)
      else none

end

/-! ### Files -/

/-- A file under construction: its entries, and the path of the table that lines belong to. -/
structure Draft where
  entries : Entries
  current : List Text

def Draft.sealed (d : Draft) : Option Entries := d.entries.within (some ∘ close) d.current

/-- A header, and what follows it. -/
def readHeader (d : Draft) (t : Text) : Option (Draft × Text) := do
  let entries ← d.sealed
  match dropWord ['[', '['] t with
  | some rest =>
    let (key, t) ← readKey (t.length + 1) (skipBlanks rest)
    let t ← dropWord [']', ']'] t
    let entries ← entries.descend Entries.openTables key
    return (⟨entries, key⟩, t)
  | none =>
    let t ← Time.readMark '[' t
    let (key, t) ← readKey (t.length + 1) (skipBlanks t)
    let t ← Time.readMark ']' t
    let entries ← entries.descend Entries.openTable key
    return (⟨entries, key⟩, t)

/-- A line that gives a key its value, and what follows it. -/
def readEntry (d : Draft) (t : Text) : Option (Draft × Text) := do
  let (key, t) ← readKey (t.length + 1) t
  let t ← Time.readMark '=' t
  let t := skipBlanks t
  let (v, rest) ← readValue (2 * t.length + 2) t
  let entries ← d.entries.within (Entries.define v key) d.current
  return (⟨entries, d.current⟩, rest)

def readLines : Nat → Draft → Text → Option Draft
  | 0, _, _ => none
  | fuel + 1, d, t => do
    let t := skipBlanks t
    let (d, t) ←
      match t with
      | [] => some (d, [])
      | g :: _ =>
        if g.is '#' || g.is '\n' || g.is '\r' then some (d, t)
        else if g.is '[' then readHeader d t
        else readEntry d t
    match ← skipRest t with
    | [] => return d
    | t => readLines fuel d (← newline? t)

/-- The entries of a settings file. -/
def read (t : Text) : Option (List (Text × Toml)) := do
  let d ← readLines (t.length + 1) ⟨[], []⟩ t
  return finish d.entries

end Anadil.Toml
