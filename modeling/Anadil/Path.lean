import Anadil.Text.Glyph

/-! # Paths

Names of files, with their parts divided by `/`. -/

namespace Anadil.Path

/-- Whether a path starts at the root. -/
def isAbsolute (p : Text) : Bool :=
  match p with
  | g :: _ => g.is '/'
  | [] => false

/-- The parts of a path, the empty ones included. -/
def parts (p : Text) : List Text := p.splitAt '/'

/-- A part that stays where it is. -/
def here : Text := "."

/-- A part that goes up. -/
def up : Text := ".."

/-- The parts that are left when those that stay or go back have been worked off, the last first. A
path from the root cannot go above it. -/
def reduce (rooted : Bool) (done : List Text) : List Text → List Text
  | [] => done
  | p :: rest =>
    if p.isEmpty || p == here then reduce rooted done rest
    else if p == up then
      match done with
      | d :: ds => if d == up then reduce rooted (up :: done) rest else reduce rooted ds rest
      | [] => if rooted then reduce rooted [] rest else reduce rooted [up] rest
    else reduce rooted (p :: done) rest

/-- The shortest path to the same place. -/
def clean (p : Text) : Text :=
  let rooted := isAbsolute p
  let body := Text.join "/" (reduce rooted [] (parts p)).reverse
  if rooted then .char '/' :: body else if body.isEmpty then here else body

/-- Paths one inside the other; empty ones are passed over. -/
def join (ps : List Text) : Text :=
  let ps := ps.filter fun p => !p.isEmpty
  if ps.isEmpty then [] else clean (Text.join "/" ps)

def withoutSlashes (p : Text) : Text := Text.trimEnd (·.is '/') p

/-- The last part of a path. -/
def base (p : Text) : Text :=
  if p.isEmpty then here
  else
    match (parts (withoutSlashes p)).getLast? with
    | none => "/"
    | some t => if t.isEmpty then "/" else t

/-- All but the last part of a path. -/
def dir (p : Text) : Text :=
  clean (((p.reverse.dropWhile fun g => !g.is '/')).reverse)

/-- The end of the last part from its last `.` on. -/
def ext (p : Text) : Text :=
  let last := ((parts p).getLast?).getD []
  let tail := last.reverse.takeWhile fun g => !g.is '.'
  if tail.length = last.length then [] else .char '.' :: tail.reverse

def withoutExt (p : Text) : Text := p.take (p.length - (ext p).length)

end Anadil.Path
