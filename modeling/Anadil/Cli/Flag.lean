import Anadil.Number.Integer
import Anadil.Text.Quoted

/-! # Flags of a command line

A flag is given as `--name`, `--name=value`, `--name value` or by a letter, `-n`; letters of switches
can be joined. Flags and other arguments may be mixed, and `--` ends the flags. -/

namespace Anadil.Cli

/-- The value of a flag. -/
inductive FlagValue where
  | switch (on : Bool)
  | number (n : Int)
  | text (t : Text)
  | texts (ts : List Text)
deriving DecidableEq, Repr

/-- A flag that a command knows. -/
structure Flag where
  name : String
  short : Option Char
  initial : FlagValue
  usage : String
deriving DecidableEq, Repr

namespace Flag

def switch (name usage : String) : Flag := ⟨name, none, .switch false, usage⟩

def text (name usage : String) : Flag := ⟨name, none, .text [], usage⟩

def number (name : String) (n : Int) (usage : String) : Flag := ⟨name, none, .number n, usage⟩

def isSwitch (f : Flag) : Bool :=
  match f.initial with
  | .switch _ => true
  | _ => false

def help (command : String) : Flag := ⟨"help", some 'h', .switch false, "help for " ++ command⟩

def spelling (f : Flag) : Text :=
  match f.short with
  | some c => "-" ++ Text.ofChar c ++ ", --" ++ f.name
  | none => "--" ++ f.name

end Flag

/-! ### Values -/

def unreadable (reader : String) (t : Text) (flaw : Number.Flaw) : Text :=
  reader ++ ": parsing " ++ Text.quoted t ++ ": " ++ flaw.message

def readSwitch (t : Text) : Except Text Bool :=
  let is (names : List String) : Bool := names.any fun n => t == (n : Text)
  if is ["1", "t", "T", "TRUE", "true", "True"] then .ok true
  else if is ["0", "f", "F", "FALSE", "false", "False"] then .ok false
  else .error (unreadable "strconv.ParseBool" t .malformed)

/-- Where a reader of a list with commas is. A field in quotation marks may hold commas, and a doubled mark
in it stands for one. -/
inductive FieldState where
  | start
  | bare
  | quoted
  /-- Behind a mark inside a quoted field. -/
  | marked
deriving DecidableEq, Repr

/-- What is wrong with a list that starts on line `first`, at a byte of a line. -/
def fieldFlaw (first line n : Nat) (flaw : String) : Text :=
  let place : Text :=
    "parse error on line " ++ Text.decimal line ++ ", column " ++ Text.decimal n ++ ": " ++ flaw
  if line = first then place else "record on line " ++ Text.decimal first ++ "; " ++ place

/-- Reads the fields of a list that starts on line `first`. The reader is at byte `n` of a line, and `field`
is what it has read of the current field, backwards. The list ends with its line, unless the line ends
between quotation marks. -/
def readFields (first : Nat) : FieldState → Nat → Nat → Text → Text → Except Text (List Text)
  | .quoted, line, n, _, [] =>
    .error (fieldFlaw first line n "extraneous or missing \" in quoted-field")
  | _, _, _, field, [] => .ok [field.reverse]
  | s, line, n, field, g :: rest =>
    let next := n + g.width
    match s with
    | .quoted =>
      if g.is '"' then readFields first .marked line next field rest
      else if g.is '\n' && !rest.isEmpty then
        readFields first .quoted (line + 1) 1 (g :: field) rest
      else readFields first .quoted line next (g :: field) rest
    | .marked =>
      if g.is '"' then readFields first .quoted line next (g :: field) rest
      else if g.is ',' then
        (readFields first .start line next [] rest).map (field.reverse :: ·)
      else if g.is '\n' then .ok [field.reverse]
      else .error (fieldFlaw first line (n - 1) "extraneous or missing \" in quoted-field")
    | s =>
      if g.is ',' then
        (readFields first .start line next [] rest).map (field.reverse :: ·)
      else if g.is '\n' then .ok [field.reverse]
      else if g.is '"' then
        if s = .start then readFields first .quoted line next field rest
        else .error (fieldFlaw first line n "bare \" in non-quoted field")
      else readFields first .bare line next (g :: field) rest

/-- A text whose lines end in a line feed only. A carriage return at its very end is left out too. -/
def withLineFeeds : Text → Text
  | [] => []
  | g :: rest =>
    if g.is '\r' && (rest.head?.all fun h => h.is '\n') then withLineFeeds rest
    else g :: withLineFeeds rest

/-- The texts of a list with commas. Empty lines in front of it count for nothing. -/
def readTexts (t : Text) : Except Text (List Text) :=
  if t.isEmpty then .ok []
  else
    let lines := withLineFeeds t
    let list := lines.dropWhile fun g => g.is '\n'
    let first := lines.length - list.length + 1
    if list.isEmpty then .error "EOF" else readFields first .start first 1 [] list

/-- The value that a flag gets. A list that was given before is continued. -/
def Flag.read (f : Flag) (before : Option FlagValue) (t : Text) : Except Text FlagValue :=
  match f.initial with
  | .switch _ => (readSwitch t).map .switch
  | .number _ => ((Number.integer t).map .number).mapError (unreadable "strconv.ParseInt" t)
  | .text _ => .ok (.text t)
  | .texts _ =>
    (readTexts t).map fun ts =>
      match before with
      | some (.texts us) => .texts (us ++ ts)
      | _ => .texts ts

/-! ### Reading flags -/

/-- The flags that a command knows, those that were given, and the other arguments. -/
structure Flags where
  known : List Flag
  given : List (String × FlagValue)
  args : List Text

namespace Flags

def given? (fs : Flags) (name : String) : Option FlagValue := fs.given.lookup name

def value? (fs : Flags) (name : String) : Option FlagValue :=
  (fs.given? name).or ((fs.known.find? fun f => f.name == name).map (·.initial))

def switch (fs : Flags) (name : String) : Bool :=
  match fs.value? name with
  | some (.switch b) => b
  | _ => false

def number (fs : Flags) (name : String) : Int :=
  match fs.value? name with
  | some (.number n) => n
  | _ => 0

def text (fs : Flags) (name : String) : Text :=
  match fs.value? name with
  | some (.text t) => t
  | _ => []

def texts (fs : Flags) (name : String) : List Text :=
  match fs.value? name with
  | some (.texts ts) => ts
  | _ => []

def set (fs : Flags) (f : Flag) (t : Text) : Except Text Flags :=
  match f.read (fs.given? f.name) t with
  | .ok v => .ok { fs with given := (f.name, v) :: fs.given.filter fun (n, _) => n != f.name }
  | .error e =>
    .error ("invalid argument " ++ Text.quoted t ++ " for " ++ Text.quoted f.spelling ++ " flag: " ++ e)

/-- The character by which a message names a byte that is no letter of a flag: the first byte of the
character with the byte's number. -/
def byteName (g : Glyph) : Char :=
  match g.bytes with
  | b :: _ =>
    if b < 0x80 then Char.ofNat b.toNat else if b < 0xC0 then 'Â' else 'Ã'
  | [] => g.seen

/-- Reads letters of flags. Gives the flags, and whether the next argument was taken as a value. -/
def readLetters (fs : Flags) (next : Option Text) : Text → Except Text (Flags × Bool)
  | [] => .ok (fs, false)
  | g :: rest =>
    let all : Text := g :: rest
    if all.startsWith "test." then .ok (fs, false)
    else
      match fs.known.find? fun f => f.short.any g.is with
      | none =>
        .error ("unknown shorthand flag: " ++ Text.quotedChar (byteName g) ++ " in -" ++ all)
      | some f =>
        match rest, next with
        | e :: v :: more, _ =>
          if e.is '=' then (fs.set f (v :: more)).map (·, false)
          else if f.isSwitch then (fs.set f "true").bind fun fs => fs.readLetters next rest
          else (fs.set f rest).map (·, false)
        | [v], _ =>
          if f.isSwitch then (fs.set f "true").bind fun fs => fs.readLetters next rest
          else (fs.set f [v]).map (·, false)
        | [], some v =>
          if f.isSwitch then (fs.set f "true").map (·, false) else (fs.set f v).map (·, true)
        | [], none =>
          if f.isSwitch then (fs.set f "true").map (·, false)
          else .error ("flag needs an argument: " ++ Text.quotedChar (byteName g) ++ " in -" ++ all)

/-- Reads a flag by name, without the two dashes. Gives the flags, and whether the next argument was taken
as a value. -/
def readName (fs : Flags) (next : Option Text) (t : Text) : Except Text (Flags × Bool) :=
  let isEqual (g : Glyph) : Bool := g.is '='
  let name := t.takeWhile fun g => !isEqual g
  let value := t.dropWhile fun g => !isEqual g
  if (t.head?).any fun g => g.is '-' || g.is '=' then .error ("bad flag syntax: --" ++ t)
  else
    match fs.known.find? fun f => (f.name : Text) == name with
    | none => .error ("unknown flag: --" ++ name)
    | some f =>
      match value, next with
      | _ :: v, _ => (fs.set f v).map (·, false)
      | [], some v =>
        if f.isSwitch then (fs.set f "true").map (·, false) else (fs.set f v).map (·, true)
      | [], none =>
        if f.isSwitch then (fs.set f "true").map (·, false)
        else .error ("flag needs an argument: --" ++ name)

/-- Behind an argument, and its value if it has one, fewer are left. -/
theorem left_length_lt (taken : Bool) (s : Text) (rest : List Text) :
    (if taken then rest.tail else rest).length < (s :: rest).length := by
  cases taken
  · exact Nat.lt_succ_self _
  · exact Nat.lt_succ_of_le (List.length_tail ▸ Nat.sub_le _ _)

def readAll (fs : Flags) (args : List Text) : Except Text Flags :=
  match args with
  | [] => .ok fs
  | s :: rest =>
    match s with
    | d :: g :: t =>
      if d.is '-' then
        if g.is '-' then
          if t.isEmpty then .ok { fs with args := fs.args ++ rest }
          else
            match fs.readName rest.head? t with
            | .error e => .error e
            | .ok (fs, taken) => fs.readAll (if taken then rest.tail else rest)
        else
          match fs.readLetters rest.head? (g :: t) with
          | .error e => .error e
          | .ok (fs, taken) => fs.readAll (if taken then rest.tail else rest)
      else readAll { fs with args := fs.args ++ [s] } rest
    | _ => readAll { fs with args := fs.args ++ [s] } rest
termination_by args.length
decreasing_by
  · exact left_length_lt taken s rest
  · exact left_length_lt taken s rest
  · exact Nat.lt_succ_self _
  · exact Nat.lt_succ_self _

end Flags

/-! ### Usage -/

def FlagValue.word : FlagValue → Text
  | switch _ => []
  | number _ => " int"
  | text _ => " string"
  | texts _ => " strings"

def FlagValue.remark : FlagValue → Text
  | switch b => if b then " (default true)" else []
  | number n => if n = 0 then [] else " (default " ++ Text.integer n ++ ")"
  | text t => if t.isEmpty then [] else " (default " ++ Text.quoted t ++ ")"
  | texts ts => if ts.isEmpty then [] else " (default [" ++ Text.join "," ts ++ "])"

def Flag.label (f : Flag) : Text :=
  let dashes : Text :=
    match f.short with
    | some c => "  -" ++ Text.ofChar c ++ ", --"
    | none => "      --"
  dashes ++ f.name ++ f.initial.word

/-- A usage text with a line for each flag, by name. -/
def flagUsages (fs : List Flag) : Text :=
  let fs := fs.mergeSort fun a b => !Text.before (b.name : Text) (a.name : Text)
  let width := (fs.map fun f => f.label.width).foldl max 0
  Text.join "\n" (fs.map fun f =>
    f.label ++ Text.blanks (width + 3 - f.label.width) ++ f.usage ++ f.initial.remark)

end Anadil.Cli
