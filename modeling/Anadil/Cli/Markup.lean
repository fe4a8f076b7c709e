import Anadil.Text.Glyph

/-! # Colours in texts for a terminal

A text for a terminal can hold tags, `<red>like this</>`, and codes of colours. Without colours they are
left out. -/

namespace Anadil.Cli.Markup

def holds (part : Text) : Text → Bool
  | [] => part.isEmpty
  | g :: t => part.isPrefixOf (g :: t) || holds part t

/-- A text without the parts whose length `mark?` tells at their front, after the first `skip` glyphs,
which belong to such a part. -/
def strip (mark? : Text → Option Nat) : Nat → Text → Text
  | _, [] => []
  | skip + 1, _ :: t => strip mark? skip t
  | 0, g :: t =>
    match mark? (g :: t) with
    | some (n + 1) => strip mark? n t
    | _ => g :: strip mark? 0 t

/-! ### Tags -/

def closingTag : Text := "</>"

def isTagGlyph (g : Glyph) : Bool :=
  match g with
  | .char c => c.isAlphanum || c == '_' || c == '=' || c == ',' || c == ';'
  | .byte _ => false

def tag? (t : Text) : Option Nat :=
  match t with
  | g :: rest =>
    if g.is '<' then
      let slash := if (rest.head?.any (·.is '/')) then 1 else 0
      let name := ((rest.drop slash).takeWhile isTagGlyph).length
      if ((rest.drop (slash + name)).head?.any (·.is '>')) then some (slash + name + 2) else none
    else none
  | [] => none

/-- A text without its tags. Where no tag ends a colour, there are none. -/
def withoutTags (t : Text) : Text := if holds closingTag t then strip tag? 0 t else t

/-- How often tags are left out on the way to the terminal. -/
def passes : Nat := 4

def plain (t : Text) : Text := (List.range passes).foldl (fun t _ => withoutTags t) t

/-! ### Codes -/

/-- The length of the code of a colour at the front of a text. -/
def code? (t : Text) : Option Nat :=
  if t.startsWith "\x1b[" then
    let body := ((t.drop 2).takeWhile fun g => g.seen.isDigit || g.is ';' || g.is '?').length
    if body ≠ 0 ∧ (t.drop (2 + body)).head?.any (·.is 'm') then some (body + 3) else none
  else none

/-- A text without codes of colours. Where no code ends a colour, there are none. -/
def withoutCodes (t : Text) : Text := if holds "[0m" t then strip code? 0 t else t

/-! ### Announcements -/

/-- A message behind a label; its other lines stand below the first. -/
def labelled (label message : Text) : Text :=
  let lines := (Text.trimEnd (·.is '\n') (plain message)).splitAt '\n'
  let indent := Text.blanks label.length
  label ++ Text.join ("\n" ++ indent) (lines.map fun l => withoutCodes (plain l)) ++ "\n"

end Anadil.Cli.Markup
