import Anadil.Python.Expr
import Anadil.Python.Word

/-! # Reading Python expressions

A reader of the expressions of Python, as far as names, literals, calls, members and the operators that
the language has go; it refuses everything else. `scan` divides a text into pieces, the words among them
have to be names (`isIdentifier`), and `term` reads the pieces tier by tier: `or`, `and`, `not`, comparisons,
sums, products, `-`, and calls and members. Operators of a tier group to the left, but a comparison behind a
comparison goes on with it. -/

namespace Anadil.Python

/-! ### Pieces -/

/-- An operator between two operands. -/
inductive Op where
  | or | and | eq | ne | lt | le | gt | ge | add | sub | mul | div | mod
deriving DecidableEq, Repr

/-- A piece of an expression. -/
inductive Piece where
  | name (text : Text)
  | op (o : Op)
  | not
  | truth (value : Bool)
  | none
  | integer (value : Nat)
  | decimal (digits : Text)
  | string (content : Text)
  | leftParen
  | rightParen
  | comma
  | dot
deriving DecidableEq, Repr

/-- Whether a glyph belongs to a word. Beyond ASCII any character does, whether or not the word is a name then. -/
def isWordGlyph : Glyph → Bool
  | .char c => c.isAlphanum || c == '_' || 0x80 ≤ c.toNat
  | .byte _ => false

/-- A digit of ASCII. -/
def isDigitGlyph : Glyph → Bool
  | .char c => c.isDigit
  | .byte _ => false

/-- The piece that a word is. Words that start something else are refused. -/
def wordPiece (word : Text) : Option Piece :=
  if word = ("or" : Text) then some (.op .or)
  else if word = ("and" : Text) then some (.op .and)
  else if word = ("not" : Text) then some .not
  else if word = ("True" : Text) then some (.truth true)
  else if word = ("False" : Text) then some (.truth false)
  else if word = ("None" : Text) then some .none
  else if isReserved word then Option.none
  else some (.name word)

/-- Whether a text starts with a glyph that satisfies `p`. -/
def startsWithAny (p : Glyph → Bool) : Text → Bool
  | [] => false
  | g :: _ => p g

/-- A word at the front. It does not touch a string literal, whose kind it would change. -/
def lexWord (t : Text) : Option (Piece × Text) :=
  let rest := t.dropWhile isWordGlyph
  if startsWithAny (fun g => g == .char '"' || g == .char '\'') rest then none
  else (wordPiece (t.takeWhile isWordGlyph)).map (·, rest)

/-- The number that decimal digits are. -/
def valueOf (digits : Text) : Nat := digits.foldl (fun n g => 10 * n + (g.seen.toNat - 48)) 0

/-- A number at the front: a decimal, or an integer without superfluous zeros. No word touches it. -/
def lexNumber (t : Text) : Option (Piece × Text) :=
  let whole := t.takeWhile isDigitGlyph
  match t.dropWhile isDigitGlyph with
  | .char '.' :: rest =>
    let behind := rest.dropWhile isDigitGlyph
    if startsWithAny isWordGlyph behind then none
    else some (.decimal (whole ++ .char '.' :: rest.takeWhile isDigitGlyph), behind)
  | rest =>
    if startsWithAny isWordGlyph rest || (whole.head? == some (.char '0') && 1 < whole.length) then none
    else some (.integer (valueOf whole), rest)

/-- The value of a hexadecimal digit. -/
def hexValue? (c : Char) : Option Nat :=
  if '0' ≤ c ∧ c ≤ '9' then some (c.toNat - '0'.toNat)
  else if 'a' ≤ c ∧ c ≤ 'f' then some (c.toNat - 'a'.toNat + 10)
  else none

/-- The character that a backslash, an `x` and two hexadecimal digits write. -/
def hexChar? (a b : Char) : Option Char := do
  let high ← hexValue? a
  let low ← hexValue? b
  return Char.ofNat (16 * high + low)

/-- The character that a backslash and a letter write. -/
def escaped? : Char → Option Char
  | '\\' => some '\\'
  | '"' => some '"'
  | 'n' => some '\n'
  | 'r' => some '\r'
  | 't' => some '\t'
  | _ => none

/-- A character in front of the content of a string literal. -/
def addChar (c : Char) : Text × Text → Text × Text
  | (t, behind) => (.char c :: t, behind)

/-- The content of a string literal up to its closing mark, and what stands behind it. -/
def content : Text → Option (Text × Text)
  | [] => none
  | .byte _ :: _ => none
  | .char c :: rest =>
    if c = '"' then some ([], rest)
    else if c = '\\' then
      match rest with
      | .char 'x' :: .char a :: .char b :: rest =>
        match hexChar? a b with
        | some d => (content rest).map (addChar d)
        | none => none
      | .char e :: rest =>
        match escaped? e with
        | some d => (content rest).map (addChar d)
        | none => none
      | _ => none
    else if c = '\n' ∨ c = '\r' then none
    else (content rest).map (addChar c)

/-- A string literal at the front, behind its opening mark. No other literal touches it. -/
def lexString (t : Text) : Option (Piece × Text) :=
  match content t with
  | some (t, rest) => if startsWithAny (· == .char '"') rest then none else some (.string t, rest)
  | none => none

/-- A piece that ends where none of `others` follows, which would make it longer. -/
def lone (others : List Char) (p : Piece) (rest : Text) : Option (Piece × Text) :=
  if startsWithAny (fun g => others.any fun c => g == .char c) rest then none else some (p, rest)

/-- A sign at the front, behind its first character. -/
def lexSign (c : Char) (rest : Text) : Option (Piece × Text) :=
  match c, rest with
  | '=', .char '=' :: rest => some (.op .eq, rest)
  | '!', .char '=' :: rest => some (.op .ne, rest)
  | '<', .char '=' :: rest => some (.op .le, rest)
  | '>', .char '=' :: rest => some (.op .ge, rest)
  | '<', rest => lone ['<', '>'] (.op .lt) rest
  | '>', rest => lone ['>'] (.op .gt) rest
  | '+', rest => lone ['='] (.op .add) rest
  | '-', rest => lone ['=', '>'] (.op .sub) rest
  | '*', rest => lone ['=', '*'] (.op .mul) rest
  | '/', rest => lone ['=', '/'] (.op .div) rest
  | '%', rest => lone ['='] (.op .mod) rest
  | '(', rest => some (.leftParen, rest)
  | ')', rest => some (.rightParen, rest)
  | ',', rest => some (.comma, rest)
  | '.', rest => if startsWithAny isDigitGlyph rest then none else some (.dot, rest)
  | _, _ => none

/-- The piece at the front, and what stands behind it. -/
def lex : Text → Option (Piece × Text)
  | [] => none
  | .byte _ :: _ => none
  | .char c :: rest =>
    if c.isDigit then lexNumber (.char c :: rest)
    else if isWordGlyph (.char c) then lexWord (.char c :: rest)
    else if c = '"' then lexString rest
    else lexSign c rest

/-- The pieces of a text. Blanks stand between them. -/
def scan (t : Text) : Option (List Piece) :=
  match t with
  | [] => some []
  | g :: rest =>
    if g = .char ' ' then scan rest
    else
      match lex (g :: rest) with
      | some (p, behind) =>
        if behind.length < (g :: rest).length then (scan behind).map (p :: ·) else none
      | none => none
termination_by t.length
decreasing_by
  · exact Nat.lt_succ_self _
  · assumption

/-! ### Names -/

/-- Letters that stand in no name. Of these only U+2E2F is its own compatibility form. -/
def barredLetters : Text.Ranges := [
    (0x037A, 0x037A), (0x2E2F, 0x2E2F), (0xFC5E, 0xFC63), (0xFDFA, 0xFDFB), (0xFE70, 0xFE70), (0xFE72, 0xFE72),
    (0xFE74, 0xFE74), (0xFE76, 0xFE76), (0xFE78, 0xFE78), (0xFE7A, 0xFE7A), (0xFE7C, 0xFE7C), (0xFE7E, 0xFE7E)]

/-- Letters that may stand in a name, but not in front. -/
def trailingLetters : Text.Ranges := [(0x0E33, 0x0E33), (0x0EB3, 0x0EB3), (0xFF9E, 0xFF9F)]

/-- Characters other than letters that may start a name. -/
def letterLikes : Text.Ranges := [
    (0x16EE, 0x16F0), (0x1885, 0x1886), (0x2118, 0x2118), (0x212E, 0x212E), (0x2160, 0x2182), (0x2185, 0x2188),
    (0x3007, 0x3007), (0x3021, 0x3029), (0x3038, 0x303A), (0xA6E6, 0xA6EF), (0x10140, 0x10174), (0x10341, 0x10341),
    (0x1034A, 0x1034A), (0x103D1, 0x103D5), (0x12400, 0x1246E)]

/-- Characters other than letters, digits and marks that may stand in a name. -/
def connectors : Text.Ranges := [
    (0x00B7, 0x00B7), (0x0387, 0x0387), (0x1369, 0x1371), (0x19DA, 0x19DA), (0x203F, 0x2040), (0x2054, 0x2054),
    (0xFE33, 0xFE34), (0xFE4D, 0xFE4F), (0xFF3F, 0xFF3F)]

/-- Whether a name may start with a character: an underscore, or one with the property XID_Start. -/
def startsName (c : Char) : Bool :=
  c == '_' || (Text.isLetter c && !barredLetters.has c.toNat && !trailingLetters.has c.toNat) ||
    letterLikes.has c.toNat

/-- Whether a character may stand in a name behind the first: one with the property XID_Continue. -/
def goesOnName (c : Char) : Bool :=
  startsName c || ((Text.isLetter c || Text.isDecimalDigit c || Text.isMark c) && !barredLetters.has c.toNat) ||
    connectors.has c.toNat

/-- Whether a word is a name. -/
def isIdentifier : Text → Bool
  | [] => false
  | g :: t => startsName g.seen && t.all fun g => goesOnName g.seen

/-- The name that a piece is. -/
def Piece.name? : Piece → Option Text
  | name text => some text
  | _ => Option.none

/-- The words among pieces that have to be names. -/
def namesIn (ps : List Piece) : List Text := ps.filterMap Piece.name?

/-! ### Trees -/

/-- An expression of Python. -/
inductive Term where
  | binary (op : Op) (left right : Term)
  /-- A comparison that goes on behind the comparison on its left. -/
  | chain (op : Op) (left right : Term)
  | not (operand : Term)
  | negate (operand : Term)
  | call (callee : Term) (args : List Term)
  | member (object : Term) (name : Text)
  | name (text : Text)
  | truth (value : Bool)
  | none
  | integer (value : Nat)
  | decimal (digits : Text)
  | string (content : Text)

/-- The tiers of expressions, the weakest first. -/
inductive Tier where
  | or | and | not | comparison | sum | product | negation | access
deriving DecidableEq, Repr

namespace Tier

/-- How strongly an expression of a tier holds together. -/
def strength : Tier → Nat
  | or => 1
  | and => 2
  | not => 3
  | comparison => 4
  | sum => 5
  | product => 6
  | negation => 7
  | access => 8

/-- The tier that holds together more strongly. -/
def next : Tier → Tier
  | or => and
  | and => not
  | not => comparison
  | comparison => sum
  | sum => product
  | product => negation
  | negation => access
  | access => access

end Tier

/-- The tier of the expressions that an operator makes. -/
def Op.tier : Op → Tier
  | .or => .or
  | .and => .and
  | .eq | .ne | .lt | .le | .gt | .ge => .comparison
  | .add | .sub => .sum
  | .mul | .div | .mod => .product

/-- Two operands joined; `compared` says that the left one is a comparison without parentheses. -/
def Term.join (compared : Bool) (op : Op) (left right : Term) : Term :=
  if compared && op.tier == .comparison then .chain op left right else .binary op left right

/-- The operator that stands in front of an expression of a tier. -/
def leading? : Tier → List Piece → Option ((Term → Term) × List Piece)
  | .not, .not :: rest => some (.not, rest)
  | .negation, .op .sub :: rest => some (.negate, rest)
  | _, _ => none

theorem Tier.strength_next {tier : Tier} (h : tier ≠ .access) :
    10 - tier.next.strength < 10 - tier.strength := by
  cases tier <;> first | contradiction | decide

mutual

/-- Reads an expression of a tier, and gives what stands behind it. -/
def term (tier : Tier) (ps : List Piece) : Option (Term × List Piece) :=
  match leading? tier ps with
  | some (operator, rest) =>
    if rest.length < ps.length then (term tier rest).map fun (t, behind) => (operator t, behind) else none
  | none =>
    match if _ : tier = .access then atom ps else term tier.next ps with
    | some (t, rest) => if rest.length < ps.length then goOn tier false t rest else none
    | none => none
termination_by (ps.length, 10 - tier.strength)
decreasing_by
  · exact .left _ _ ‹_›
  · exact .right _ (‹tier = .access› ▸ by decide)
  · exact .right _ (Tier.strength_next ‹_›)
  · exact .left _ _ ‹_›

/-- Reads what goes on behind an expression on its tier. -/
def goOn (tier : Tier) (compared : Bool) (left : Term) (ps : List Piece) : Option (Term × List Piece) :=
  match ps with
  | .op o :: rest =>
    if o.tier = tier then
      match term tier.next rest with
      | some (right, behind) =>
        if behind.length < rest.length then goOn tier true (.join compared o left right) behind else none
      | none => none
    else some (left, .op o :: rest)
  | .leftParen :: rest =>
    if tier = .access then
      match args rest with
      | some (as, behind) =>
        if behind.length < rest.length + 1 then goOn tier false (.call left as) behind else none
      | none => none
    else some (left, .leftParen :: rest)
  | .dot :: .name n :: rest =>
    if tier = .access then goOn tier false (.member left n) rest else some (left, .dot :: .name n :: rest)
  | ps => some (left, ps)
termination_by (ps.length, 0)
decreasing_by all_goals (simp_wf; omega)

/-- Reads an expression that no operator is part of. -/
def atom (ps : List Piece) : Option (Term × List Piece) :=
  match ps with
  | .leftParen :: rest =>
    match term .or rest with
    | some (t, .rightParen :: behind) => some (t, behind)
    | _ => none
  | .name n :: rest => some (.name n, rest)
  | .truth b :: rest => some (.truth b, rest)
  | .none :: rest => some (.none, rest)
  | .integer n :: rest => some (.integer n, rest)
  | .decimal d :: rest => some (.decimal d, rest)
  | .string s :: rest => some (.string s, rest)
  | _ => none
termination_by (ps.length, 0)
decreasing_by all_goals (simp_wf; omega)

/-- Reads arguments up to the closing parenthesis. -/
def args (ps : List Piece) : Option (List Term × List Piece) :=
  match ps with
  | .rightParen :: rest => some ([], rest)
  | ps =>
    match term .or ps with
    | some (t, rest) =>
      if rest.length < ps.length then (moreArgs rest).map fun (ts, behind) => (t :: ts, behind) else none
    | none => none
termination_by (ps.length, 20)
decreasing_by all_goals omega

/-- Reads what follows an argument, up to the closing parenthesis. -/
def moreArgs (ps : List Piece) : Option (List Term × List Piece) :=
  match ps with
  | .rightParen :: rest => some ([], rest)
  | .comma :: rest =>
    match term .or rest with
    | some (t, behind) =>
      if behind.length < rest.length then (moreArgs behind).map fun (ts, r) => (t :: ts, r) else none
    | none => none
  | _ => none
termination_by (ps.length, 0)
decreasing_by all_goals (simp_wf; omega)

end

/-- Reads pieces that are one expression. -/
def readPieces (ps : List Piece) : Option Term :=
  match term .or ps with
  | some (t, []) => some t
  | _ => none

/-- Reads a text that is one expression. -/
def read (t : Text) : Option Term :=
  (scan t).bind fun ps => if (namesIn ps).all isIdentifier then readPieces ps else none

end Anadil.Python
