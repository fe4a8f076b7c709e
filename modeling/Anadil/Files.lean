import Anadil.Fault
import Anadil.Path

/-! # Files

Texts under paths. A volume in memory makes a directory whenever a file needs one, of a file too; a disk
has to be asked for it, and follows a path part by part. A volume that is read only refuses every
change. -/

namespace Anadil

/-- Where files are kept. -/
inductive Volume where
  | memory
  | disk
deriving DecidableEq, Repr

/-- Files and directories under shortest paths. On a disk a directory is also there if something lies in
it. In memory an entry is found by its path, and listed only where a directory has it among its own. -/
structure Files where
  volume : Volume
  /-- The directory of a disk that relative paths start from. -/
  workDir : Text
  readOnly : Bool
  files : List (Text × Text)
  directories : List Text
  /-- In memory, the entries that directories list: the directory, then what is in it. -/
  listed : List (Text × Text)
deriving DecidableEq, Repr

namespace Files

def memory : Files := ⟨.memory, "/", false, [], ["/"], []⟩

/-- The null device of a disk, a file that stays empty whatever is written to it. -/
def nullDevice : Text := "/dev/null"

/-- A disk with nothing on it but the working directory, the null device and a place for passing
files. -/
def disk (workDir : Text) : Files := ⟨.disk, workDir, false, [(nullDevice, [])], ["/tmp"], []⟩

/-! ### Looking -/

/-- The path that stands for all spellings of a path. On a disk it starts at the root; in memory, the
places around the working directory are the root. -/
def key (fs : Files) (path : Text) : Text :=
  match fs.volume with
  | .memory =>
    let p := Path.clean path
    if p == Path.here || p == Path.up then "/" else p
  | .disk => if Path.isAbsolute path then Path.clean path else Path.clean (fs.workDir ++ "/" ++ path)

def at? (fs : Files) (key : Text) : Option Text := (fs.files.find? fun (p, _) => p == key).map (·.2)

def lies (path directory : Text) : Bool :=
  if directory == ("/" : Text) then Path.isAbsolute path && path != ("/" : Text)
  else path.startsWith (directory ++ "/")

def hasDirectory (fs : Files) (key : Text) : Bool :=
  fs.directories.contains key ||
    match fs.volume with
    | .memory => false
    | .disk =>
      key == ("/" : Text) || fs.files.any (fun (p, _) => lies p key) ||
        fs.directories.any (lies · key) || fs.workDir == key || lies fs.workDir key

/-- The most bytes that a part of a path has on a disk. -/
def longestName : Nat := 255

def longestPath : Nat := 4095

/-- Follows the parts of a path from a place on a disk. What a part is looked for in has to be a
directory. -/
def follow (fs : Files) (place : Text) : List Text → Except FileFlaw Text
  | [] => .ok place
  | part :: rest =>
    if !fs.hasDirectory place then
      .error (if (fs.at? place).isSome then .notDirectory else .absent)
    else if longestName < part.width then .error .nameTooLong
    else fs.follow (Path.clean (place ++ "/" ++ part)) rest

/-- The place that a path leads to on a disk. Something is there, or could be put there. -/
def place (fs : Files) (path : Text) : Except FileFlaw Text :=
  if path.any (·.is '\x00') then .error .invalidName
  else if path.isEmpty then .error .absent
  else if longestPath < path.width then .error .nameTooLong
  else fs.follow (if Path.isAbsolute path then "/" else fs.workDir) (Path.parts path)

/-- What a path names. -/
inductive Entry where
  | file (text : Text)
  | directory
deriving DecidableEq, Repr

/-- What is under a shortest path, if anything is. -/
def entryAt? (fs : Files) (key : Text) : Option Entry :=
  if fs.hasDirectory key then some .directory else (fs.at? key).map .file

/-- What is under a path, or why nothing is. -/
def entry (fs : Files) (path : Text) : Except FileFlaw Entry :=
  match fs.volume with
  | .memory => (fs.entryAt? (fs.key path)).elim (.error .unknown) .ok
  | .disk => do (fs.entryAt? (← fs.place path)).elim (.error .absent) .ok

/-- What is under a path, if anything is. -/
def entry? (fs : Files) (path : Text) : Option Entry := (fs.entry path).toOption

/-- Whether a path ends in a slash, as a directory's may. -/
def endsInSlash (path : Text) : Bool := (path.getLast?.map (·.is '/')).getD false

/-- The directories around a path from the innermost out, fewer than `fuel` of them. -/
def around : Nat → Text → List Text
  | 0, _ => []
  | fuel + 1, p =>
    let d := Path.dir p
    if d == p then [] else d :: around fuel d

/-! ### Walking -/

/-- All directories but the root, in order. -/
def allDirectories (fs : Files) : List Text :=
  let named := fs.directories ++ (fs.files.map (·.1) ++ fs.directories).flatMap fun p =>
    around (p.length + 2) p
  (named.filter (· != ("/" : Text))).foldl (fun ds d => Text.insert d ds) []

def partsBelow (directory path : Text) : List Text :=
  (Path.parts path).drop (Path.parts (Path.withoutSlashes directory)).length

/-- Whether a directory comes before another when each is followed at once by what lies in it. -/
def precedes : List Text → List Text → Bool
  | [], _ => true
  | _ :: _, [] => false
  | a :: as, b :: bs => if a = b then precedes as bs else Text.before a b

def isHidden (name : Text) : Bool := name.startsWith "."

/-- A directory and all below it that are not hidden and in no hidden one, each followed at once by what
lies in it. The first has the spelling that is given. -/
def walk (fs : Files) (path : Text) : List Text :=
  let k := fs.key path
  let below := ((fs.allDirectories.filter (lies · k)).map (partsBelow k)).filter fun ps =>
    !ps.any isHidden
  path :: (below.mergeSort precedes).map fun ps => Path.join (path :: ps)

/-- The files that are listed at a path and below it, within a number of steps down. -/
def listFrom (fs : Files) : Nat → Text → List (Text × Text)
  | 0, _ => []
  | fuel + 1, path =>
    let k := fs.key path
    if fs.hasDirectory k then
      (fs.listed.filter (·.1 == k)).flatMap fun (_, entry) =>
        fs.listFrom fuel (Path.join [path, Path.base entry])
    else ((fs.at? k).map fun t => (path, t)).toList

/-- The files in memory that are listed, from the working directory and from the root. -/
def list (fs : Files) : List (Text × Text) :=
  let depth := fs.listed.length + 2
  fs.listFrom depth Path.here ++ fs.listFrom depth "/"

/-! ### Faults -/

def refused : Fault := .outside "operation not permitted"

def spelled (fs : Files) (path : Text) : Text :=
  match fs.volume with
  | .memory => fs.key path
  | .disk => path

/-! ### Reading -/

/-- What is known of a path, for an operation that needs it. -/
def status (fs : Files) (operation path : Text) : Except Fault Entry :=
  (fs.entry path).mapError (.unusable operation (fs.spelled path))

/-- The text of a file. A directory in memory reads as the file that it was before, or as an empty
one. -/
def read (fs : Files) (path : Text) : Except Fault Text := do
  match ← fs.status "open" path, fs.volume with
  | .file t, _ => .ok t
  | .directory, .memory => .ok ((fs.at? (fs.key path)).getD [])
  | .directory, .disk => .error (.unusable "read" path .isDirectory)

/-! ### Writing -/

def put (fs : Files) (key text : Text) : Files :=
  { fs with
    files :=
      if (fs.at? key).isSome then fs.files.map fun (p, t) => (p, if p == key then text else t)
      else fs.files ++ [(key, text)] }

def addDirectory (fs : Files) (key : Text) : Files :=
  if fs.directories.contains key then fs else { fs with directories := fs.directories ++ [key] }

/-- Lists an entry of a volume in memory where it lies. What it lies in becomes a directory, and so do
those around it that are missing, fewer than `fuel` of them. -/
def register : Nat → Text → Files → Files
  | 0, _, fs => fs
  | fuel + 1, k, fs =>
    let d := fs.key (Path.dir k)
    if d == k then fs
    else
      let fs := if (fs.entryAt? d).isNone then register fuel d (fs.addDirectory d) else fs.addDirectory d
      if fs.listed.contains (d, k) then fs else { fs with listed := fs.listed ++ [(d, k)] }

/-- Puts a new entry of a volume in memory where it lies. -/
def enlist (fs : Files) (key : Text) : Files := register (key.length + 2) key fs

/-- Makes an empty file in memory, in place of what was there. What lay in a directory that it replaces
is listed no more. -/
def renew (fs : Files) (key : Text) : Files :=
  let fs := fs.put key []
  { fs with
    directories := fs.directories.filter (· != key)
    listed := fs.listed.filter (·.1 != key) }.enlist key

def target (fs : Files) (path : Text) : Except FileFlaw Text := do
  let bare := Path.withoutSlashes path
  let k ← fs.place (if bare.isEmpty then path else bare)
  if endsInSlash path || fs.hasDirectory k then .error .isDirectory else .ok k

/-- Writes a file, over what was there. -/
def write (fs : Files) (path text : Text) : Except Fault Files :=
  if fs.readOnly then .error refused
  else
    match fs.volume with
    | .memory =>
      let k := fs.key path
      .ok ((if (fs.entryAt? k).isSome then fs else fs.renew k).put k text)
    | .disk =>
      match fs.target path with
      | .ok k => .ok (if k == nullDevice then fs else fs.put k text)
      | .error flaw => .error (.unusable "open" path flaw)

/-- Makes an empty file, in place of what was there. -/
def create (fs : Files) (path : Text) : Except Fault Files :=
  match fs.volume with
  | .memory => if fs.readOnly then .error refused else .ok (fs.renew (fs.key path))
  | .disk => fs.write path []

/-- Makes directories on a disk, each of them in one that is there by then. -/
def makeEach (fs : Files) : List Text → Except Fault Files
  | [] => .ok fs
  | path :: rest =>
    match fs.entry path with
    | .ok .directory => fs.makeEach rest
    | .ok (.file _) => .error (.unusable "mkdir" path .notDirectory)
    | .error _ =>
      match fs.place path with
      | .error flaw => .error (.unusable "mkdir" path flaw)
      | .ok k => (fs.addDirectory k).makeEach rest

/-- Makes a directory and those around it. One that is there already will do. -/
def makeDirectory (fs : Files) (path : Text) : Except Fault Files :=
  if fs.readOnly then .error refused
  else
    match fs.volume with
    | .memory =>
      let k := fs.key path
      .ok (if (fs.entryAt? k).isSome then fs else (fs.addDirectory k).enlist k)
    | .disk => fs.makeEach ((around (path.length + 2) path).reverse ++ [path])

end Files

end Anadil
