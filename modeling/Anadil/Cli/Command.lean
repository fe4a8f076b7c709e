import Anadil.Cli.Flag
import Anadil.Text.Case
import Anadil.Text.Class

/-! # Commands

The commands of a program form a tree. A command line names one of them by words, gives it flags and
hands it the other arguments. `Spot.descend` finds the command that words lead to, and `Spot.usage` says
how it is used. -/

namespace Anadil.Cli

/-- How many arguments a command takes. -/
inductive ArgRule where
  | any
  | none
  | atLeast (n : Nat)
  | exactly (n : Nat)
  | atMost (n : Nat)
deriving DecidableEq, Repr

/-- The complaint about a number of arguments, if it is not right. -/
def ArgRule.refusal (rule : ArgRule) (path : Text) (args : List Text) : Option Text :=
  let n := args.length
  match rule with
  | any => Option.none
  | none => args.head?.map fun a => "unknown command " ++ Text.quoted a ++ " for " ++ Text.quoted path
  | atLeast k =>
    if k ≤ n then Option.none
    else
      some ("requires at least " ++ Text.decimal k ++ " arg(s), only received " ++ Text.decimal n)
  | exactly k =>
    if n = k then Option.none
    else some ("accepts " ++ Text.decimal k ++ " arg(s), received " ++ Text.decimal n)
  | atMost k =>
    if n ≤ k then Option.none
    else some ("accepts at most " ++ Text.decimal k ++ " arg(s), received " ++ Text.decimal n)

/-- What a command does. -/
inductive Deed (α : Type) where
  /-- Nothing: it only holds other commands. -/
  | nothing
  /-- It shows the help text of another command. -/
  | help
  /-- It tells a shell how a command line can go on. -/
  | complete
  /-- It gives a shell the script by which command lines are completed. -/
  | script
  | run (action : α)

/-- What is said of a command. -/
structure Info (α : Type) where
  /-- Its name, and behind it what it takes. -/
  use : String
  /-- Other names that it answers to. -/
  aliases : List String := []
  short : String
  long : String := ""
  flags : List Flag := []
  /-- Flags that the commands below it have too. -/
  globals : List Flag := []
  args : ArgRule := .any
  /-- Whether flags are left among the arguments. -/
  keepsFlags : Bool := false
  /-- Whether its usage line says that it has flags. -/
  namesFlags : Bool := true
  /-- Whether it is in the lists of commands. -/
  isListed : Bool := true
  /-- Whether its arguments can be files. -/
  takesFiles : Bool := true
  /-- Whether a fault is shown. -/
  showsFault : Bool := true
  /-- Whether the usage is shown when there is a fault. -/
  showsUsage : Bool := false
  deed : Deed α

namespace Info

variable {α : Type}

def name (i : Info α) : Text := (i.use : Text).takeWhile fun g => !g.is ' '

def runs (i : Info α) : Bool :=
  match i.deed with
  | .nothing => false
  | _ => true

end Info

/-- A command and those below it. -/
inductive Command (α : Type) where
  | mk (info : Info α) (children : List (Command α))

namespace Command

variable {α : Type}

def info : Command α → Info α
  | mk i _ => i

def children : Command α → List (Command α)
  | mk _ cs => cs

def name (c : Command α) : Text := c.info.name

def answersTo (c : Command α) (name : Text) : Bool :=
  c.name == name || c.info.aliases.any fun a => (a : Text) == name

def find? (c : Command α) (name : Text) : Option (Command α) := c.children.find? (·.answersTo name)

def sorted (c : Command α) : List (Command α) :=
  c.children.mergeSort fun a b => !Text.before b.name a.name

def joined (c : Command α) (more : List (Command α)) : Command α := .mk c.info (c.children ++ more)

end Command

/-! ### Finding a command -/

/-- A command and those above it, the nearest first. -/
structure Spot (α : Type) where
  command : Command α
  above : List (Info α)

namespace Spot

variable {α : Type}

/-- The names on the way to a command. -/
def path (s : Spot α) : Text :=
  Text.join " " ((s.above.reverse ++ [s.command.info]).map Info.name)

def inherited (s : Spot α) : List Flag := s.above.flatMap (·.globals)

def own (s : Spot α) : List Flag := s.command.info.flags ++ s.command.info.globals

def helpFlag (s : Spot α) : Flag := Flag.help (Text.seen s.command.name)

def enter? (s : Spot α) (name : Text) : Option (Spot α) :=
  (s.command.find? name).map fun c => ⟨c, s.command.info :: s.above⟩

end Spot

/-- Whether an argument is a flag whose value is the next argument. -/
def takesNext (fs : List Flag) : Text → Bool
  | [d, g] =>
    if d.is '-' && g.is '-' then true
    else d.is '-' && g.width == 1 && !g.is '=' && !fs.any fun f => f.isSwitch && f.short.any g.is
  | d :: e :: name =>
    d.is '-' && e.is '-' && !(name.any fun g => g.is '=') &&
      !fs.any fun f => f.isSwitch && (f.name : Text) == name
  | _ => false

def endsFlags (t : Text) : Bool := t == ("--" : Text)

/-- The arguments that are neither flags nor values of flags. -/
def plainWords (fs : List Flag) : List Text → List Text
  | [] => []
  | [t] => if endsFlags t || takesNext fs t || t.isEmpty || t.startsWith "-" then [] else [t]
  | t :: u :: rest =>
    if endsFlags t then []
    else if takesNext fs t then
      match rest with
      | [] => []
      | v :: more => plainWords fs (v :: more)
    else if t.isEmpty || t.startsWith "-" then plainWords fs (u :: rest)
    else t :: plainWords fs (u :: rest)

/-- The arguments without the first that is a given word, and neither a flag nor the value of one. -/
def withoutWord (fs : List Flag) (word : Text) : List Text → List Text
  | [] => []
  | [t] => if t == word && !t.startsWith "-" then [] else [t]
  | t :: u :: rest =>
    if endsFlags t then t :: u :: rest
    else if takesNext fs t then t :: u :: withoutWord fs word rest
    else if t == word && !t.startsWith "-" then u :: rest
    else t :: withoutWord fs word (u :: rest)

namespace Spot

variable {α : Type}

/-- The command that arguments lead to, at most `fuel` words down, and the arguments without those
words. -/
def descend (s : Spot α) (args : List Text) : Nat → Spot α × List Text
  | 0 => (s, args)
  | fuel + 1 =>
    let fs := s.own ++ s.inherited
    match (plainWords fs args).head? with
    | none => (s, args)
    | some word =>
      match s.enter? word with
      | some next => next.descend (withoutWord fs word args) fuel
      | none => (s, args)

end Spot

/-- How many bytes have to be put in, taken out or changed to get from one text to another. -/
def editDistance (a b : List UInt8) : Nat :=
  let next (row : List Nat) (x : UInt8) : List Nat :=
    match row with
    | [] => []
    | corner :: rest =>
      let step (state : List Nat × Nat × Nat) (cell : UInt8 × Nat) : List Nat × Nat × Nat :=
        let (done, left, corner) := state
        let (y, up) := cell
        let n := if x = y then corner else min (min left up) corner + 1
        (n :: done, n, up)
      let (done, _, _) := (b.zip rest).foldl step ([corner + 1], corner + 1, corner)
      done.reverse
  ((a.foldl next (List.range (b.length + 1))).getLast?).getD 0

namespace Command

variable {α : Type}

def isSuggestible (c : Command α) : Bool :=
  c.info.isListed &&
    match c.info.deed with
    | .nothing => !c.children.isEmpty
    | .help => false
    | _ => true

def suggestions (c : Command α) (word : Text) : List Text :=
  let word := Text.lower word
  let isLike (name : Text) : Bool :=
    editDistance word.bytes name.bytes ≤ 2 || word.bytes.isPrefixOf name.bytes
  ((c.children.filter isSuggestible).map name).filter fun n => isLike (Text.lower n)

end Command

/-! ### Usage -/

namespace Spot

variable {α : Type}

/-- The least width of the names in a list of commands. -/
def nameWidth : Nat := 11

def line (width : Nat) (c : Command α) : Text :=
  "\n  " ++ c.name.padRight width ++ " " ++ c.info.short

/-- How a command is used: its line, the commands below it and its flags. -/
def usage (s : Spot α) (withHelp : Bool) : Text :=
  let i := s.command.info
  let own := s.own ++ if withHelp then [s.helpFlag] else []
  let front := Text.join " " ((s.above.reverse).map Info.name ++ [(i.use : Text)])
  let children := s.command.sorted.filter (·.info.isListed)
  let width := (children.map fun c => c.name.length).foldl max nameWidth
  let part (shown : Bool) (t : Text) : Text := if shown then t else []
  let list (title : Text) (fs : List Flag) : Text :=
    part (!fs.isEmpty) ("\n\n" ++ title ++ ":\n" ++ flagUsages fs)
  "Usage:" ++
    part i.runs ("\n  " ++ front ++ part (i.namesFlags && !(own ++ s.inherited).isEmpty) " [flags]") ++
    part (!children.isEmpty) ("\n  " ++ s.path ++ " [command]") ++
    part (!children.isEmpty)
      ("\n\nAvailable Commands:" ++ (children.map (line width)).flatten) ++
    list "Flags" own ++ list "Global Flags" s.inherited ++
    part (!children.isEmpty)
      ("\n\nUse \"" ++ s.path ++ " [command] --help\" for more information about a command.") ++
    "\n"

def help (s : Spot α) : Text :=
  let i := s.command.info
  let about : Text := if i.long.isEmpty then i.short else i.long
  Text.trimEnd (fun g => Text.isSpace g.seen) about ++ "\n\n" ++ s.usage true

end Spot

/-- The complaint about a word that is no command of a program, if words are refused at all. -/
def unknownWord {α : Type} (s : Spot α) (args : List Text) : Option Text :=
  if s.above.isEmpty && !s.command.children.isEmpty && s.command.info.args = .any then
    (plainWords (s.own ++ s.inherited) args).head?.map fun word =>
      let like := s.command.suggestions word
      "unknown command " ++ Text.quoted word ++ " for " ++ Text.quoted s.path ++
        (if like.isEmpty then []
         else "\n\nDid you mean this?\n" ++ like.flatMap fun n => ("\t" ++ n ++ "\n" : Text) : Text)
  else none

end Anadil.Cli
