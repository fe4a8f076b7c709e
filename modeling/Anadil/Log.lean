import Anadil.Text.Glyph

/-! # Logs

A log is a list of records, each with a level, a message and named values. -/

namespace Anadil.Log

/-- How much a record matters. Four levels have names, and the others are named by their distance from
the next lower one. -/
abbrev Level := Int

namespace Level

def debug : Level := -4

def info : Level := 0

def warn : Level := 4

def error : Level := 8

/-- A name and, unless it is zero, a distance with its sign. -/
def named (name : String) (distance : Int) : Text :=
  if distance = 0 then name
  else if distance < 0 then name ++ Text.integer distance
  else name ++ .char '+' :: Text.integer distance

def name (l : Level) : Text :=
  if l < info then named "DEBUG" (l - debug)
  else if l < warn then named "INFO" (l - info)
  else if l < error then named "WARN" (l - warn)
  else named "ERROR" (l - error)

end Level

/-- One entry of a log. -/
structure Record where
  level : Level
  message : Text
  attributes : List (Text × Text)
  /-- Whether it ends with how long the thing took. -/
  timed : Bool
deriving DecidableEq, Repr

/-- A record for readers who look for faults in the program itself. -/
def debug (message : Text) (attributes : List (Text × Text)) : Record :=
  ⟨Level.debug, message, attributes, false⟩

def info (message : Text) (attributes : List (Text × Text)) : Record :=
  ⟨Level.info, message, attributes, false⟩

def warn (message : Text) (attributes : List (Text × Text)) : Record :=
  ⟨Level.warn, message, attributes, false⟩

def error (message : Text) (attributes : List (Text × Text)) : Record :=
  ⟨Level.error, message, attributes, false⟩

/-- A record that ends with how long the thing took. -/
def Record.withTime (r : Record) : Record := { r with timed := true }

end Anadil.Log
