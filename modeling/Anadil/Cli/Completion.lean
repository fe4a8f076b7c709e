import Anadil.Cli.Command

/-! # Completion

A shell can ask a program how a command line can go on. The answer is a list of words, each with a
description, and whether files may follow too. `Spot.choices` gives it for a command, and
`Command.completed` for a command line whose last argument is not finished. -/

namespace Anadil.Cli

/-- What a shell is told besides the words. -/
inductive Directive where
  /-- Files may follow too. -/
  | files
  /-- No file can follow. -/
  | noFiles
deriving DecidableEq, Repr

def Directive.code : Directive → Nat
  | files => 0
  | noFiles => 4

def Directive.name : Directive → String
  | files => "ShellCompDirectiveDefault"
  | noFiles => "ShellCompDirectiveNoFileComp"

/-- How a command line can go on: words with descriptions, whether files may follow, and what was wrong
with it. -/
structure Choices where
  words : List (Text × Text)
  directive : Directive
  remark : Option Text := none

/-- No words, because something is wrong. -/
def Choices.failed (remark : Text) : Choices := ⟨[], .files, some remark⟩

/-- The lines that tell a shell of the choices, with descriptions or without. -/
def Choices.lines (c : Choices) (described : Bool) : Text :=
  let line (word description : Text) : Text :=
    let whole := if described then word ++ "\t" ++ description else word
    let first := whole.takeWhile fun g => !g.is '\n'
    let isSpace (g : Glyph) : Bool := Text.isSpace g.seen
    Text.trimEnd isSpace (first.dropWhile isSpace) ++ "\n"
  (c.words.flatMap fun (w, d) => line w d) ++ ":" ++ Text.decimal c.directive.code ++ "\n"

/-- The remark that ends an answer to a shell. -/
def Choices.conclusion (c : Choices) : Text :=
  "Completion ended with directive: " ++ c.directive.name ++ "\n"

/-! ### Commands -/

namespace Spot

variable {α : Type}

def subcommands (s : Spot α) (start : Text) : List (Text × Text) :=
  ((s.command.sorted.filter (·.info.isListed)).filter fun c => c.name.startsWith start).map fun c =>
    (c.name, (c.info.short : Text))

def flagWords (start : Text) (f : Flag) : List (Text × Text) :=
  let letter : List Text := (f.short.map fun c => ("-" ++ Text.ofChar c : Text)).toList
  ((("--" ++ f.name : Text) :: letter).filter (·.startsWith start)).map fun w => (w, (f.usage : Text))

/-- The flags that start with a text and can still be given, those from above first. -/
def flagChoices (s : Spot α) (flags : Flags) (start : Text) : List (Text × Text) :=
  let own := s.own ++ if s.command.info.keepsFlags then [] else [s.helpFlag]
  let byName (fs : List Flag) : List Flag :=
    fs.mergeSort fun a b => !Text.before (b.name : Text) (a.name : Text)
  let isOpen (f : Flag) : Bool :=
    match f.initial with
    | .texts _ => true
    | _ => (flags.given? f.name).isNone
  ((byName s.inherited ++ byName own).filter isOpen).flatMap (flagWords start)

def known (s : Spot α) : List Flag := s.own ++ s.inherited ++ [s.helpFlag]

/-! ### Values of flags -/

/-- What is not finished: the value of a flag, or something else. -/
structure Unfinished where
  flag : Option Flag
  /-- The arguments in front of it, without the flag. -/
  before : List Text
  start : Text
  /-- The complaint about a flag that the command does not know. -/
  complaint : Option Text := none

def lastByte (t : Text) : Text := Text.ofBytes (t.bytes.getLast?).toList

/-- The name of the flag in an argument without a value: the whole name, or the last letter. -/
def flagName (t : Text) : Text := if t.startsWith "--" then t.drop 2 else lastByte t

def isFlag (t : Text) : Bool :=
  (t.startsWith "--" && 3 ≤ t.width) || (t.startsWith "-" && !t.startsWith "--" && 2 ≤ t.width)

/-- The flag with a name; a name of one byte is a letter. -/
def flagNamed? (s : Spot α) (name : Text) : Option Flag :=
  s.known.find? fun f =>
    if name.width = 1 then f.short.any fun c => name == Text.ofChar c else (f.name : Text) == name

/-- What is not finished at the end of a command line. A flag that needs no value has none that could be
unfinished. -/
def unfinished (s : Spot α) (args : List Text) (start : Text) : Unfinished :=
  let isEqual (g : Glyph) : Bool := g.is '='
  let plain : Unfinished := ⟨none, args, start, none⟩
  let sought (name : Text) (inOne : Bool) (before : List Text) (start' : Text) : Unfinished :=
    match s.flagNamed? name with
    | none =>
      { plain with
        complaint := some
          ("Subcommand '" ++ s.command.name ++ "' does not support flag '" ++ name ++ "'") }
    | some f =>
      if !inOne && f.isSwitch then { plain with start := start' } else ⟨some f, before, start', none⟩
  let behindLast (start' : Text) : Unfinished :=
    match args.getLast? with
    | some last =>
      if isFlag last && !last.any isEqual && !(flagName last).isEmpty then
        sought (flagName last) false args.dropLast start'
      else { plain with start := start' }
    | none => { plain with start := start' }
  if s.command.info.keepsFlags then plain
  else if start.startsWith "-" then
    if start.any isEqual then
      let name := flagName (start.takeWhile fun g => !isEqual g)
      let value := (start.dropWhile fun g => !isEqual g).drop 1
      if name.isEmpty then behindLast value else sought name true args value
    else plain
  else behindLast start

/-! ### Choices -/

def listed (args : List Text) : Text := "[" ++ Text.join " " args ++ "]"

/-- What the command below can be, or what the arguments of a command that names commands can be. -/
def nouns (s : Spot α) (root : Command α) (flags : Flags) (start : Text) : Choices :=
  let hasOwn := s.command.info.flags.any fun f => (flags.given? f.name).isSome
  let below := if flags.args.isEmpty && !hasOwn then s.subcommands start else []
  let isGroup := flags.args.isEmpty && !hasOwn && s.command.children.any (·.info.isListed)
  match s.command.info.deed with
  | .help =>
    let (topic, rest) := (⟨root, []⟩ : Spot α).descend flags.args flags.args.length
    ⟨if (unknownWord topic rest).isSome then [] else topic.subcommands start, .noFiles, none⟩
  | _ => ⟨below, if isGroup || !s.command.info.takesFiles then .noFiles else .files, none⟩

/-- How the arguments of a command can go on after `args` with something that begins with `start`. -/
def choices (s : Spot α) (root : Command α) (args : List Text) (start : Text) : Choices :=
  let u := s.unfinished args start
  let read (args : List Text) : Except Text Flags :=
    if s.command.info.keepsFlags then .ok ⟨s.known, [], args⟩
    else (⟨s.known, [], []⟩ : Flags).readAll args
  match read u.before with
  | .error e => .failed ("Error while parsing flags from args " ++ listed u.before ++ ": " ++ e)
  | .ok flags =>
    let ended := (read (u.before ++ [("--" : Text)])).toOption.any fun more =>
      !s.command.info.keepsFlags && flags.args.length < more.args.length
    match u.complaint with
    | some c => if ended then s.nouns root flags u.start else .failed c
    | none =>
      if (flags.given? "help").isSome then ⟨[], .noFiles, none⟩
      else if u.flag.isSome then ⟨[], if ended && !s.command.info.takesFiles then .noFiles else .files, none⟩
      else if u.start.startsWith "-" && !(u.start.any fun g => g.is '=') && !ended then
        ⟨s.flagChoices flags u.start, .noFiles, none⟩
      else s.nouns root flags u.start

end Spot

/-- How a command line can go on whose last argument is not finished. -/
def Command.completed {α : Type} (root : Command α) (args : List Text) : Choices :=
  let words := args.dropLast
  let (spot, rest) := (⟨root, []⟩ : Spot α).descend words words.length
  match unknownWord spot rest with
  | some _ => .failed ("unable to find a command for arguments: " ++ Spot.listed words)
  | none => spot.choices root rest (args.getLast?.getD [])

/-! ### The commands that every program has -/

def helpCommand {α : Type} (program : String) : Command α :=
  .mk
    { use := "help [command]"
      short := "Help about any command"
      long :=
        "Help provides help for any command in the application.\nSimply type " ++ program ++
          " help [path to command] for full details."
      showsUsage := true
      deed := .help }
    []

/-- The name of the command that asks for completions with their descriptions. -/
def requestName : String := "__complete"

/-- The name of the command that asks for completions alone. -/
def plainRequestName : String := "__completeNoDesc"

def requestCommand {α : Type} : Command α :=
  .mk
    { use := requestName ++ " [command-line]"
      aliases := [plainRequestName]
      short := "Request shell completion choices for the specified command-line"
      long :=
        requestName ++ " is a special command that is used by the shell completion logic\n" ++
          "to request completion choices for the specified command-line."
      args := .atLeast 1
      keepsFlags := true
      namesFlags := false
      isListed := false
      showsUsage := true
      deed := .complete }
    []

/-- A shell and what a user has to know about its script. -/
structure Shell where
  name : String
  /-- What the script is for, after the words that all shells have in common. -/
  subject : String
  advice : String
  namesFlags : Bool := true

def newShell : String := "You will need to start a new shell for this setup to take effect.\n"

def shells (program : String) : List Shell :=
  let script (shell : String) : String := program ++ " completion " ++ shell
  [ { name := "bash"
      subject := "the bash shell"
      advice :=
        "This script depends on the 'bash-completion' package.\n" ++
          "If it is not installed already, you can install it via your OS's package manager.\n\n" ++
          "To load completions in your current shell session:\n\n" ++
          "\tsource <(" ++ script "bash" ++ ")\n\n" ++
          "To load completions for every new session, execute once:\n\n" ++
          "#### Linux:\n\n\t" ++ script "bash" ++ " > /etc/bash_completion.d/" ++ program ++ "\n\n" ++
          "#### macOS:\n\n\t" ++ script "bash" ++ " > $(brew --prefix)/etc/bash_completion.d/" ++
          program ++ "\n\n" ++ newShell
      namesFlags := false },
    { name := "fish"
      subject := "the fish shell"
      advice :=
        "To load completions in your current shell session:\n\n" ++
          "\t" ++ script "fish" ++ " | source\n\n" ++
          "To load completions for every new session, execute once:\n\n" ++
          "\t" ++ script "fish" ++ " > ~/.config/fish/completions/" ++ program ++ ".fish\n\n" ++
          newShell },
    { name := "powershell"
      subject := "powershell"
      advice :=
        "To load completions in your current shell session:\n\n" ++
          "\t" ++ script "powershell" ++ " | Out-String | Invoke-Expression\n\n" ++
          "To load completions for every new session, add the output of the above command\n" ++
          "to your powershell profile.\n" },
    { name := "zsh"
      subject := "the zsh shell"
      advice :=
        "If shell completion is not already enabled in your environment you will need\n" ++
          "to enable it.  You can execute the following once:\n\n" ++
          "\techo \"autoload -U compinit; compinit\" >> ~/.zshrc\n\n" ++
          "To load completions in your current shell session:\n\n" ++
          "\tsource <(" ++ script "zsh" ++ ")\n\n" ++
          "To load completions for every new session, execute once:\n\n" ++
          "#### Linux:\n\n\t" ++ script "zsh" ++ " > \"$\x7bfpath[1]\x7d/_" ++ program ++ "\"\n\n" ++
          "#### macOS:\n\n\t" ++ script "zsh" ++ " > $(brew --prefix)/share/zsh/site-functions/_" ++
          program ++ "\n\n" ++ newShell } ]

def Shell.command {α : Type} (s : Shell) : Command α :=
  .mk
    { use := s.name
      short := "Generate the autocompletion script for " ++ s.name
      long := "Generate the autocompletion script for " ++ s.subject ++ ".\n\n" ++ s.advice
      flags := [.switch "no-descriptions" "disable completion descriptions"]
      args := .none
      namesFlags := s.namesFlags
      takesFiles := false
      showsUsage := true
      deed := .script }
    []

/-- The command that stands for scripts by which a shell completes command lines. -/
def completionCommand {α : Type} (program : String) : Command α :=
  .mk
    { use := "completion"
      short := "Generate the autocompletion script for the specified shell"
      long :=
        "Generate the autocompletion script for " ++ program ++ " for the specified shell.\n" ++
          "See each sub-command's help for details on how to use the generated script.\n"
      args := .none
      takesFiles := false
      showsUsage := true
      deed := .nothing }
    ((shells program).map Shell.command)

namespace Command

variable {α : Type}

/-- The command that arguments lead to, and the arguments without its name. -/
def reached (c : Command α) (args : List Text) : Command α × List Text :=
  let (spot, rest) := (⟨c, []⟩ : Spot α).descend args args.length
  (spot.command, rest)

def isRequest (c : Command α) : Bool :=
  match c.info.deed with
  | .complete => true
  | _ => false

/-- A program as a command line finds it. The command for completions is there only if it is called. A
program with commands of its own has one for help and one for scripts; in a program without, the one for
scripts is there only if it is called or completed. -/
def prepared (c : Command α) (args : List Text) : Command α :=
  let program := Text.seen c.name
  let scripts : Command α := completionCommand program
  let helped := if c.children.isEmpty then c else c.joined [helpCommand program]
  let asked := helped.joined [requestCommand]
  let asked := if (asked.reached args).1.isRequest then asked else helped
  if !c.children.isEmpty then asked.joined [scripts]
  else
    let (found, rest) := (asked.joined [.mk scripts.info []]).reached args
    let completes := found.isRequest && 1 < rest.length && rest.head? == some scripts.name
    if found.name == scripts.name || completes then asked.joined [scripts] else asked

/-- A program without the command for completions, if that is its only one. -/
def unasked (c : Command α) : Command α :=
  match c.children with
  | [only] => if only.isRequest then .mk c.info [] else c
  | _ => c

end Command

end Anadil.Cli
