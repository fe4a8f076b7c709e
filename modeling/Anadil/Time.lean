import Anadil.Text.Glyph

/-! # Times

Times are whole seconds, and are written as dates of the Gregorian calendar: `2001-02-03T04:05:06Z`. -/

namespace Anadil

/-- Seconds since the start of 1970 in universal time. -/
abbrev Instant := Int

namespace Time

/-! ### Calendar -/

/-- Days from the start of 1970 to a date. The year is counted from March, so that a leap day is the
last of its year. -/
def daysOfDate (year month day : Int) : Int :=
  let y := if month ≤ 2 then year - 1 else year
  let era := y.fdiv 400
  let yearOfEra := y - era * 400
  let monthFromMarch := (month + 9) % 12
  let dayOfYear := (153 * monthFromMarch + 2) / 5 + day - 1
  let dayOfEra := yearOfEra * 365 + yearOfEra / 4 - yearOfEra / 100 + dayOfYear
  era * 146097 + dayOfEra - 719468

/-- The year, month and day of a number of days from the start of 1970. -/
def dateOfDays (days : Int) : Int × Int × Int :=
  let z := days + 719468
  let era := z.fdiv 146097
  let dayOfEra := z - era * 146097
  let yearOfEra := (dayOfEra - dayOfEra / 1460 + dayOfEra / 36524 - dayOfEra / 146096) / 365
  let dayOfYear := dayOfEra - (365 * yearOfEra + yearOfEra / 4 - yearOfEra / 100)
  let monthFromMarch := (5 * dayOfYear + 2) / 153
  let day := dayOfYear - (153 * monthFromMarch + 2) / 5 + 1
  let month := if monthFromMarch < 10 then monthFromMarch + 3 else monthFromMarch - 9
  let year := yearOfEra + era * 400
  (if month ≤ 2 then year + 1 else year, month, day)

/-- The start of the year one, which stands for no time at all. -/
def zero : Instant := daysOfDate 1 1 1 * 86400

/-! ### Writing -/

/-- A number in at least `width` digits, with a minus sign below zero. -/
def digits (width : Nat) (n : Int) : Text :=
  let t := Text.decimal n.natAbs
  let sign : Text := if n < 0 then "-" else []
  sign ++ List.replicate (width - t.length) (.char '0') ++ t

/-- The distance of a place's clock from universal time, in seconds. -/
abbrev Offset := Int

def offsetText (o : Offset) : Text :=
  if o = 0 then "Z"
  else
    let minutes := o.natAbs / 60
    (if o < 0 then "-" else "+") ++ digits 2 (minutes / 60 : Nat) ++ ":" ++
      digits 2 (minutes % 60 : Nat)

def text (t : Instant) (o : Offset) : Text :=
  let shown := t + o
  let days := shown.fdiv 86400
  let seconds := shown - days * 86400
  let (year, month, day) := dateOfDays days
  digits 4 year ++ "-" ++ digits 2 month ++ "-" ++ digits 2 day ++ "T" ++ digits 2 (seconds / 3600) ++
    ":" ++ digits 2 (seconds / 60 % 60) ++ ":" ++ digits 2 (seconds % 60) ++ offsetText o

/-! ### Reading -/

/-- A number of exactly `width` digits at the front of a text, and the rest. -/
def readDigits (width : Nat) (t : Text) : Option (Int × Text) :=
  let front := t.take width
  if front.length = width ∧ front.all (fun g => g.seen.isDigit) then
    some (front.foldl (fun n g => n * 10 + ((g.seen.toNat : Int) - 48)) 0, t.drop width)
  else none

def readMark (c : Char) : Text → Option Text
  | g :: t => if g.is c then some t else none
  | [] => none

def readOffset (t : Text) : Option Offset := do
  match t with
  | [g] => if g.is 'Z' then some 0 else none
  | g :: rest =>
    let sign : Int ← if g.is '+' then some 1 else if g.is '-' then some (-1) else none
    let (hours, rest) ← readDigits 2 rest
    let rest ← readMark ':' rest
    let (minutes, rest) ← readDigits 2 rest
    if rest.isEmpty then some (sign * (hours * 3600 + minutes * 60)) else none
  | [] => none

/-- A time and its offset. Parts of seconds are dropped. -/
def read? (t : Text) : Option (Instant × Offset) := do
  let (year, t) ← readDigits 4 t
  let t ← readMark '-' t
  let (month, t) ← readDigits 2 t
  let t ← readMark '-' t
  let (day, t) ← readDigits 2 t
  let t ← readMark 'T' t
  let (hour, t) ← readDigits 2 t
  let t ← readMark ':' t
  let (minute, t) ← readDigits 2 t
  let t ← readMark ':' t
  let (second, t) ← readDigits 2 t
  let t :=
    match t with
    | g :: rest => if g.is '.' then rest.dropWhile (fun g => g.seen.isDigit) else t
    | [] => t
  let offset ← readOffset t
  return (daysOfDate year month day * 86400 + hour * 3600 + minute * 60 + second - offset, offset)

/-- Whether a time comes before another as their texts do. Years of four digits come in order. -/
def before (a b : Instant) : Bool := Text.before (text a 0) (text b 0)

/-- A time as it is read back after it was written down. A year that has not four digits is lost, and no
time at all is read. -/
def reread (t : Instant) : Instant := ((read? (text t 0)).map (·.1)).getD zero

end Time

end Anadil
