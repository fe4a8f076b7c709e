import Anadil.Json.Basic
import Anadil.Text.Quoted

/-! # Reading JSON

`Json.readFirst` reads the value at the front of a text and leaves what follows; `Json.readWhole`
takes a text that is one value with white space around it. Stray bytes inside a string are read as
U+FFFD, and so is half of a surrogate pair. -/

namespace Anadil.Json

/-- Why a text cannot be read. -/
inductive ReadError where
  /-- There is nothing but white space. -/
  | empty
  /-- The text ends inside a value. -/
  | truncated
  | malformed
  /-- The fuel ran out; the readers below are given enough that it never does. -/
  | spent
deriving DecidableEq, Repr

/-- White space between the parts of a document. -/
def isBlank (g : Glyph) : Bool := g.is ' ' || g.is '\t' || g.is '\n' || g.is '\r'

/-- A text without the white space in front. -/
def skipBlanks (t : Text) : Text := t.dropWhile isBlank

/-! ### Strings -/

/-- A part of a string: a character, or sixteen bits given by number. -/
inductive Part where
  | char (c : Char)
  | unit (n : Nat)
deriving DecidableEq, Repr

/-- How far an escape has been read. -/
inductive Escape where
  | none
  | started
  /-- Hexadecimal digits still to come, and the value of those read. -/
  | digits (left value : Nat)
deriving DecidableEq, Repr

def escapedLetter? : Char → Option Char
  | '"' => some '"'
  | '\\' => some '\\'
  | '/' => some '/'
  | 'b' => some '\x08'
  | 'f' => some '\x0c'
  | 'n' => some '\n'
  | 'r' => some '\r'
  | 't' => some '\t'
  | _ => Option.none

def hexValue? (c : Char) : Option Nat :=
  if c.isDigit then some (c.toNat - 48)
  else if 'a' ≤ c ∧ c ≤ 'f' then some (c.toNat - 87)
  else if 'A' ≤ c ∧ c ≤ 'F' then some (c.toNat - 55)
  else Option.none

/-- The parts of a string up to its closing quotation mark, and what follows it. -/
def stringParts : Escape → Text → Except ReadError (List Part × Text)
  | _, [] => .error .truncated
  | .none, g :: rest =>
    if g.is '"' then .ok ([], rest)
    else if g.is '\\' then stringParts .started rest
    else if g.seen.toNat < 0x20 then .error .malformed
    else (stringParts .none rest).map fun (ps, r) => (.char g.seen :: ps, r)
  | .started, g :: rest =>
    if g.is 'u' then stringParts (.digits 4 0) rest
    else
      match escapedLetter? g.seen with
      | some c => (stringParts .none rest).map fun (ps, r) => (.char c :: ps, r)
      | Option.none => .error .malformed
  | .digits left value, g :: rest =>
    match hexValue? g.seen with
    | Option.none => .error .malformed
    | some d =>
      let value := value * 16 + d
      if left ≤ 1 then (stringParts .none rest).map fun (ps, r) => (.unit value :: ps, r)
      else stringParts (.digits (left - 1) value) rest

/-- Whether sixteen bits are the first half of a pair. -/
def isHigh (n : Nat) : Bool := 0xD800 ≤ n && n < 0xDC00

/-- Whether sixteen bits are the second half of a pair. -/
def isLow (n : Nat) : Bool := 0xDC00 ≤ n && n < 0xE000

def joinParts : List Part → Text
  | [] => []
  | .char c :: rest => .char c :: joinParts rest
  | .unit a :: .unit b :: rest =>
    if isHigh a && isLow b then
      .char (Char.ofNat (0x10000 + (a - 0xD800) * 0x400 + (b - 0xDC00))) :: joinParts rest
    else
      .char (if isHigh a || isLow a then Glyph.replacement else Char.ofNat a) ::
        joinParts (.unit b :: rest)
  | .unit a :: rest =>
    .char (if isHigh a || isLow a then Glyph.replacement else Char.ofNat a) :: joinParts rest

/-- The string whose opening quotation mark has been read. -/
def readString (t : Text) : Except ReadError (Text × Text) :=
  (stringParts .none t).map fun (ps, r) => (joinParts ps, r)

/-! ### Values -/

def readWord : List Char → Text → Except ReadError Text
  | [], t => .ok t
  | _ :: _, [] => .error .truncated
  | c :: cs, g :: t => if g.is c then readWord cs t else .error .malformed

def readNumber (t : Text) : Except ReadError (Json × Text) :=
  match numberExtent t with
  | .reaches part rest => .ok (.number part, rest)
  | .truncated => .error .truncated
  | .broken => .error .malformed

mutual

/-- Reads a value that may be nested `depth` levels deep. -/
def readValue : Nat → Nat → Text → Except ReadError (Json × Text)
  | 0, _, _ => .error .spent
  | fuel + 1, depth, t =>
    match t with
    | [] => .error .truncated
    | g :: rest =>
      if g.is 'n' then (readWord "ull".toList rest).map fun r => (.null, r)
      else if g.is 't' then (readWord "rue".toList rest).map fun r => (.bool true, r)
      else if g.is 'f' then (readWord "alse".toList rest).map fun r => (.bool false, r)
      else if g.is '"' then (readString rest).map fun (s, r) => (.string s, r)
      else if g.is '-' || isDigit g then readNumber t
      else if g.is '[' then
        match depth with
        | 0 => .error .malformed
        | depth + 1 =>
          match skipBlanks rest with
          | [] => .error .truncated
          | h :: after =>
            if h.is ']' then .ok (.array [], after)
            else (readItems fuel depth (h :: after)).map fun (vs, r) => (.array vs, r)
      else if g.is '\x7b' then
        match depth with
        | 0 => .error .malformed
        | depth + 1 =>
          match skipBlanks rest with
          | [] => .error .truncated
          | h :: after =>
            if h.is '\x7d' then .ok (.object [], after)
            else (readFields fuel depth (h :: after)).map fun (fs, r) => (.object fs, r)
      else .error .malformed

def readItems : Nat → Nat → Text → Except ReadError (List Json × Text)
  | 0, _, _ => .error .spent
  | fuel + 1, depth, t => do
    let (v, rest) ← readValue fuel depth t
    match skipBlanks rest with
    | [] => .error .truncated
    | g :: after =>
      if g.is ']' then return ([v], after)
      else if g.is ',' then
        let (vs, r) ← readItems fuel depth (skipBlanks after)
        return (v :: vs, r)
      else .error .malformed

/-- Reads the fields of an object up to its closing brace. -/
def readFields : Nat → Nat → Text → Except ReadError (List (Text × Json) × Text)
  | 0, _, _ => .error .spent
  | fuel + 1, depth, t =>
    match t with
    | [] => .error .truncated
    | q :: t =>
      if q.is '"' then do
        let (name, rest) ← readString t
        match skipBlanks rest with
        | [] => .error .truncated
        | c :: rest =>
          if c.is ':' then
            let (v, rest) ← readValue fuel depth (skipBlanks rest)
            match skipBlanks rest with
            | [] => .error .truncated
            | g :: after =>
              if g.is '\x7d' then return ([(name, v)], after)
              else if g.is ',' then
                let (fs, r) ← readFields fuel depth (skipBlanks after)
                return ((name, v) :: fs, r)
              else .error .malformed
          else .error .malformed
      else .error .malformed

end

/-- The value at the front of a text, and what follows it. Every reader inside another has read at
least one glyph more, so twice the length is fuel enough. -/
def readFirst (t : Text) : Except ReadError (Json × Text) :=
  match skipBlanks t with
  | [] => .error .empty
  | g :: rest => readValue (2 * t.length + 2) deepest (g :: rest)

def readWhole (t : Text) : Except ReadError Json := do
  let (v, rest) ← readFirst t
  if (skipBlanks rest).isEmpty then return v else .error .malformed

/-- Whether a text is one value with white space around it. -/
def isValid (t : Text) : Bool :=
  match readWhole t with
  | .ok _ => true
  | .error _ => false

end Anadil.Json
