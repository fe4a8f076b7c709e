import Anadil.Python.Word
import Anadil.Tree.Basic

/-! # Expressions in Python

An expression is written with parentheses only where Python needs them to read the same tree. -/

namespace Anadil.Python

/-- Why a tree cannot be written in Python. -/
inductive Failure where
  | noProgram
  | absentStatement
  | absentExpression
  | binaryOperator (kind : Kind)
  | unaryOperator (kind : Kind)
  | literalKind (kind : Text)
  /-- A constructor, named so in the source, returns a value at a line and a column. -/
  | constructorReturns (name : Text) (line column : Int)
  /-- A level of nesting has to be indented by at least one blank. -/
  | indent (spaces : Int)
deriving DecidableEq, Repr

/-! ### Strength -/

/-- How strongly an expression of Python holds together; a greater number is stronger. -/
abbrev Strength := Nat

namespace Strength

def or : Strength := 1

def and : Strength := 2

def not : Strength := 3

def comparison : Strength := 4

def sum : Strength := 5

def product : Strength := 6

def negation : Strength := 7

def access : Strength := 8

def atom : Strength := 9

end Strength

/-- How Python spells a binary operator, and how strong it is. -/
def binaryOperator? : Kind → Option (String × Strength)
  | .orWord | .orOr => some ("or", Strength.or)
  | .andWord | .andAnd => some ("and", Strength.and)
  | .equal => some ("==", Strength.comparison)
  | .notEqual => some ("!=", Strength.comparison)
  | .less => some ("<", Strength.comparison)
  | .lessEqual => some ("<=", Strength.comparison)
  | .greater => some (">", Strength.comparison)
  | .greaterEqual => some (">=", Strength.comparison)
  | .plus => some ("+", Strength.sum)
  | .minus => some ("-", Strength.sum)
  | .star => some ("*", Strength.product)
  | .slash => some ("/", Strength.product)
  | .percent => some ("%", Strength.product)
  | _ => none

/-! ### Writing -/

/-- A text with the strength of its outermost operator. -/
structure Written where
  text : Text
  strength : Strength

/-- The text, in parentheses where they are needed. -/
def Written.guarded (w : Written) (needed : Bool) : Text :=
  if needed then "(" ++ w.text ++ ")" else w.text

/-- Two operands joined. Python chains comparisons, so one inside another is always in parentheses. -/
def joined (operator : String) (strength : Strength) (left right : Written) : Written where
  text :=
    left.guarded (left.strength < strength ||
      (strength == Strength.comparison && left.strength == Strength.comparison)) ++
      " " ++ operator ++ " " ++ right.guarded (right.strength ≤ strength)
  strength := strength

def leading (kind : Kind) (operand : Written) : Except Failure Written :=
  match kind with
  | .notWord | .bang =>
    .ok ⟨"not " ++ operand.guarded (operand.strength < Strength.not), Strength.not⟩
  | .minus => .ok ⟨"-" ++ operand.guarded (operand.strength < Strength.negation), Strength.negation⟩
  | k => .error (.unaryOperator k)

def literal : Literal → Except Failure Text
  | .string content => .ok (string content)
  | .number digits => .ok (number digits)
  | .boolean true => .ok "True"
  | .boolean false => .ok "False"
  | .null => .ok "None"
  | .other kind => .error (.literalKind kind)

/-- Whether an expression is a number, to which no `.` may be added. -/
def isNumber : Expr → Bool
  | .literal _ (.number _) => true
  | _ => false

mutual

def written : Expr → Except Failure Written
  | .binary _ op l r =>
    match binaryOperator? op with
    | none => .error (.binaryOperator op)
    | some (operator, strength) => do
      let left ← written l
      let right ← written r
      return joined operator strength left right
  | .unary _ op e => do
    let operand ← written e
    leading op operand
  | .call _ f args => do
    let callee ← written f
    let args ← writtenArgs args
    return ⟨callee.guarded (callee.strength < Strength.access) ++ "(" ++ Text.join ", " args ++ ")",
      Strength.access⟩
  | .member _ o name => do
    let object ← written o
    return ⟨object.guarded (object.strength < Strength.access || isNumber o) ++ "." ++ name,
      Strength.access⟩
  | .name _ n => return ⟨n, Strength.atom⟩
  | .self _ => return ⟨"self", Strength.atom⟩
  | .literal _ v => return ⟨← literal v, Strength.atom⟩
  | .absent => .error .absentExpression

def writtenArgs : List Expr → Except Failure (List Text)
  | [] => return []
  | e :: es => do
    let w ← written e
    let ws ← writtenArgs es
    return w.text :: ws

end

def exprText (e : Expr) : Except Failure Text := (written e).map (·.text)

end Anadil.Python
