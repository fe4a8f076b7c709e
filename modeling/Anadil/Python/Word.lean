import Anadil.Text.Quoted

/-! # Words and literals of Python -/

namespace Anadil.Python

/-- Names that Python code cannot use. Words that are reserved only in some places, such as `match`, are
ordinary names. -/
def reserved : List String := [
    "False", "None", "True", "and", "as", "assert", "async", "await", "break", "class", "continue",
    "def", "del", "elif", "else", "except", "finally", "for", "from", "global", "if", "import", "in",
    "is", "lambda", "nonlocal", "not", "or", "pass", "raise", "return", "try", "while", "with", "yield"]

def isReserved (name : Text) : Bool := reserved.any fun w => (w : Text) == name

/-- A character inside double quotation marks. Characters outside ASCII stand as they are. -/
def escapedChar (c : Char) : Text :=
  match c with
  | '\\' => "\\\\"
  | '"' => "\\\""
  | '\n' => "\\n"
  | '\r' => "\\r"
  | '\t' => "\\t"
  | _ => if c.toNat < 0x20 ∨ c.toNat = 0x7f then "\\x" ++ Text.hex 2 c.toNat else [.char c]

/-- A text as a literal in double quotation marks. A stray byte is written as U+FFFD. -/
def string (t : Text) : Text :=
  .char '"' :: t.flatMap (fun g => escapedChar g.seen) ++ [.char '"']

/-- A number as a literal: an integer loses the zeros in front, which Python refuses. -/
def number (digits : Text) : Text :=
  if digits.any (·.is '.') then digits
  else
    match digits.dropWhile (·.is '0') with
    | [] => "0"
    | rest => rest

end Anadil.Python
