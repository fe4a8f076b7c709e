import Anadil.Cli.Completion

/-! # Dispatch

What a command line asks a program for: an action of the program, a help text, completions, or a
complaint. -/

namespace Anadil.Cli

/-- What a command line asks for. -/
inductive Request (α : Type) where
  /-- An action with flags and arguments; a fault of it is shown as `showsFault` says. -/
  | run (action : α) (flags : Flags) (showsFault : Bool)
  /-- A help text. -/
  | help (text : Text)
  /-- A help text that a command of its own was asked for; an unknown topic is complained of. -/
  | topic (flags : Flags) (found : Except Text Text)
  /-- How a command line can go on, with descriptions or without. -/
  | choices (found : Choices) (described : Bool)
  /-- A fault, and what is shown of it. -/
  | refusal (message shown : Text)

def faultLine (message : Text) : Text := "Error: " ++ message ++ "\n"

/-- The help text of the command that words lead to, or the complaint about them. -/
def topic {α : Type} (root : Command α) (words : List Text) : Except Text Text :=
  let top : Spot α := ⟨root, []⟩
  let (spot, rest) := top.descend words words.length
  match unknownWord spot rest with
  | none => .ok spot.help
  | some _ =>
    .error
      ("Unknown help topic [" ++ Text.join " " (words.map rawQuoted) ++ "]\n" ++ top.usage false)
where
  /-- A word between grave accents, or quoted if it cannot stand there. -/
  rawQuoted (t : Text) : Text :=
    let isBad (c : Char) : Bool :=
      c == '\x60' || (c < ' ' && c != '\t') || c == '\x7f' || c == '\uFEFF'
    if t.isClean && !t.chars.any isBad then "\x60" ++ t ++ "\x60" else Text.quoted t

/-- Whether completions are asked for with descriptions: by the name of the command. -/
def isDescribed (args : List Text) : Bool :=
  !(args.find? fun a => a == (requestName : Text) || a == (plainRequestName : Text)).any
    (· == (plainRequestName : Text))

def dispatch {α : Type} (program : Command α) (args : List Text) : Request α :=
  let root := program.prepared args
  let (spot, rest) := (⟨root, []⟩ : Spot α).descend args args.length
  let i := spot.command.info
  let shows := i.showsFault && root.info.showsFault
  match unknownWord spot rest with
  | some message =>
    .refusal message
      (if shows then faultLine message ++ "Run '" ++ spot.path ++ " --help' for usage.\n" else [])
  | none =>
    let refuse (message : Text) : Request α :=
      .refusal message
        ((if shows then faultLine message else []) ++
          (if i.showsUsage && root.info.showsUsage then spot.usage true ++ ("\n" : Text) else []))
    let known := spot.known
    let read : Except Text Flags :=
      if i.keepsFlags then .ok ⟨known, [], rest⟩ else (⟨known, [], []⟩ : Flags).readAll rest
    match read with
    | .error message => refuse message
    | .ok flags =>
      if flags.switch "help" then .help spot.help
      else
        match i.deed with
        | .nothing => .help spot.help
        | deed =>
          match i.args.refusal spot.path flags.args, deed with
          | some message, _ => refuse message
          | none, .run action => .run action flags shows
          | none, .complete => .choices (root.unasked.completed flags.args) (isDescribed args)
          | none, .script => .help spot.help
          | none, _ => .topic flags (topic root flags.args)

end Anadil.Cli
