import Anadil.Text.Glyph

/-! # Where a database lies

The path of a database is read as an address is: a byte may be written by its number, as in `%2e`, and a
`?` or a `#` ends the path. Other paths stand for themselves. -/

namespace Anadil.Store

def digitValue? (b : UInt8) : Option UInt8 :=
  if 0x30 ≤ b ∧ b ≤ 0x39 then some (b - 0x30)
  else if 0x61 ≤ b ∧ b ≤ 0x66 then some (b - 0x57)
  else if 0x41 ≤ b ∧ b ≤ 0x46 then some (b - 0x37)
  else none

/-- The byte whose number two digits at the front write. -/
def numbered? : List UInt8 → Option UInt8
  | a :: b :: _ => do return (← digitValue? a) * 16 + (← digitValue? b)
  | _ => none

/-- The bytes of the path in an address; `skip` bytes at its front are the digits of a number that has been
read. A byte with number zero ends the path. -/
def locationBytes : Nat → List UInt8 → List UInt8
  | _, [] => []
  | skip + 1, _ :: rest => locationBytes skip rest
  | 0, b :: rest =>
    if b = 0x3F ∨ b = 0x23 then []
    else if b = 0x25 then
      match numbered? rest with
      | none => b :: locationBytes 0 rest
      | some n => if n = 0 then [] else n :: locationBytes 2 rest
    else b :: locationBytes 0 rest

/-- The path of the file in which the database of a path lies. -/
def location (path : Text) : Text := Text.ofBytes (locationBytes 0 path.bytes)

end Anadil.Store
