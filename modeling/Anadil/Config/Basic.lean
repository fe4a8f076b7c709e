import Anadil.Fault
import Anadil.Number.Integer

/-! # Settings -/

namespace Anadil

namespace Config

/-- A program outside, and how long it may run. -/
structure Program where
  command : Text
  timeoutSeconds : Int
deriving DecidableEq, Repr

/-- How Python is written. -/
structure Generator where
  indent : Int
  constructor : Text
deriving DecidableEq, Repr

/-- Where the store is. -/
structure Database where
  path : Text
deriving DecidableEq, Repr

/-- How a corpus is written. -/
structure Dataset where
  instruction : Text
  output : Text
deriving DecidableEq, Repr

/-- How files are watched. -/
structure Watch where
  debounceMs : Int
  extensions : List Text
deriving DecidableEq, Repr

end Config

/-- All settings. -/
structure Config where
  compiler : Config.Program
  python : Config.Program
  generator : Config.Generator
  database : Config.Database
  dataset : Config.Dataset
  watch : Config.Watch
deriving DecidableEq, Repr

namespace Config

/-- The settings without a file. -/
def default : Config where
  compiler := ⟨"turkc", 10⟩
  python := ⟨"python3", 10⟩
  generator := ⟨4, "kurucu"⟩
  database := ⟨"turkpy.db"⟩
  dataset := ⟨"Aşağıdaki istek için Türkçe anahtar kelimeli bir program yaz.", "dataset.jsonl"⟩
  watch := ⟨200, [".tr"]⟩

/-- How long a program may run, in nanoseconds of 64 bits. -/
def Program.timeout (p : Program) : Int := Number.wrap (p.timeoutSeconds * 1000000000)

/-- How long a file has to be quiet, in nanoseconds of 64 bits. -/
def Watch.debounce (w : Watch) : Int := Number.wrap (w.debounceMs * 1000000)

def atLeast (name bound : Text) (least n : Int) : Except Fault Unit :=
  if n < least then .error (.plain (name ++ ": want " ++ bound ++ ", got " ++ Text.integer n))
  else .ok ()

/-- Refuses settings with which the tools cannot run. -/
def validate (c : Config) : Except Fault Unit := do
  (atLeast "generator.indent" "at least 1" 1 c.generator.indent).mapError
    (Fault.hinted "the default is 4")
  atLeast "compiler.timeout_seconds" "at least 1" 1 c.compiler.timeoutSeconds
  atLeast "python.timeout_seconds" "at least 1" 1 c.python.timeoutSeconds
  atLeast "watch.debounce_ms" "0 or more" 0 c.watch.debounceMs

end Config

end Anadil
