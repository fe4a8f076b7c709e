import Anadil.Files
import Anadil.Log
import Anadil.Text.Case

/-! # Watching files

A watcher is told what changes on a disk. It keeps the paths of changed files that it cares for until
they have been quiet for a while. -/

namespace Anadil

/-- What can happen to a file. -/
inductive Change where
  | create
  | remove
  | write
  | opened
  | read
  | closedAfterWriting
  | closedAfterReading
  | rename
  | chmod
deriving DecidableEq, Repr

def Change.all : List Change :=
  [create, remove, write, opened, read, closedAfterWriting, closedAfterReading, rename, chmod]

def Change.name : Change → String
  | create => "CREATE"
  | remove => "REMOVE"
  | write => "WRITE"
  | opened => "OPEN"
  | read => "READ"
  | closedAfterWriting => "CLOSE_WRITE"
  | closedAfterReading => "CLOSE_READ"
  | rename => "RENAME"
  | chmod => "CHMOD"

/-- A file and what happened to it. -/
structure FileEvent where
  path : Text
  changes : List Change
deriving DecidableEq, Repr

namespace FileEvent

/-- Whether something happened. -/
def has (e : FileEvent) (c : Change) : Bool := e.changes.contains c

/-- What happened, in words. -/
def text (e : FileEvent) : Text :=
  if e.changes.isEmpty then "[no events]"
  else Text.join "|" ((Change.all.filter e.has).map fun c => c.name)

end FileEvent

/-- What a watcher cares for, and what it waits for. -/
structure Watcher where
  /-- How many nanoseconds a file has to be quiet. -/
  debounce : Int
  /-- Extensions in small letters; without any, every file counts. -/
  extensions : List Text
  /-- The changed files, in order. -/
  pending : List Text
deriving DecidableEq, Repr

namespace Watcher

/-- How long a file has to be quiet if nothing is said. -/
def defaultDebounce : Int := 200000000

/-- An extension with its point, in small letters. -/
def extension (t : Text) : Text :=
  Text.lower (if t.isEmpty || t.startsWith "." then t else "." ++ t)

def new (debounce : Int) (extensions : List Text) : Watcher :=
  ⟨if debounce ≤ 0 then defaultDebounce else debounce, extensions.map extension, []⟩

/-- Whether a file counts. -/
def cares (w : Watcher) (path : Text) : Bool :=
  w.extensions.isEmpty || w.extensions.contains (Text.lower (Path.ext path))

/-- Takes a path under watch. A directory is taken with those below it. -/
def add (fs : Files) (path : Text) : Except Fault (List Log.Record) :=
  match fs.status "stat" path with
  | .error f => .error (f.behind "watch")
  | .ok (.file _) => .ok []
  | .ok .directory => .ok ((fs.walk path).map fun d => Log.debug "watch" [("dir", d)])

def addAppeared (fs : Files) (path : Text) : List Log.Record :=
  match add fs path with
  | .ok log => log
  | .error f => [Log.warn "watch" [("dir", path), ("error", f.inline)]]

def receive (w : Watcher) (fs : Files) (e : FileEvent) : Watcher × List Log.Record :=
  if e.has .create && fs.entry? e.path == some .directory then (w, addAppeared fs e.path)
  else if (e.has .write || e.has .create) && w.cares e.path then
    ({ w with pending := Text.insert e.path w.pending },
      [Log.debug "watch" [("file", e.path), ("op", e.text)]])
  else (w, [])

/-- Waits for nothing more. -/
def stop (w : Watcher) : Watcher := { w with pending := [] }

end Watcher

end Anadil
