import Anadil.Proofs.Tree.Legal

/-! # Writing trees as tokens

The words of a tree, with parentheses only where the grammar needs them to group operands as the tree
does. -/

namespace Anadil

open Anadil.Parser

/-- A token without its place: its kind and its text. -/
abbrev Word := Kind × Text

/-- What a token says, without its place. -/
def Token.word (t : Token) : Word := (t.kind, t.text)

/-- The tokens that say words, at no place. -/
def Token.ofWords (ws : List Word) : List Token := ws.map fun w => ⟨⟨w.1, w.2, .none⟩, []⟩

/-- The word of a kind that is always spelled the same. -/
def sign (k : Kind) : Word := (k, k.spelling)

/-! ### Levels -/

namespace Parser.Level

/-- The levels in order, the loosest first. -/
def rank : Level → Nat
  | or => 0
  | and => 1
  | not => 2
  | comparison => 3
  | sum => 4
  | product => 5
  | negation => 6
  | access => 7

/-- The level at which an operator joins its operands. -/
def ofJoining : Kind → Level
  | .orWord | .orOr => or
  | .andWord | .andAnd => and
  | .equal | .notEqual | .less | .lessEqual | .greater | .greaterEqual => comparison
  | .plus | .minus => sum
  | .star | .slash | .percent => product
  | _ => access

/-- The level at which an operator stands in front of its operand. -/
def ofLeading : Kind → Level
  | .notWord | .bang => not
  | .minus => negation
  | _ => access

end Parser.Level

/-- The level of an expression: that of its outermost operator. -/
def Expr.level : Expr → Level
  | .binary _ op .. => .ofJoining op
  | .unary _ op _ => .ofLeading op
  | _ => .access

/-! ### Expressions -/

/-- Words in parentheses. -/
def parens (ws : List Word) : List Word := sign .leftParen :: ws ++ [sign .rightParen]

/-- The words of an operand where an expression of `level` is wanted, and what it is has the level `own`. -/
def operand (level own : Level) (ws : List Word) : List Word :=
  if own.rank < level.rank then parens ws else ws

/-- The word of a literal. -/
def Literal.word : Literal → Word
  | .string content => (.string, content)
  | .number digits => (.number, digits)
  | .boolean true => sign .trueWord
  | .boolean false => sign .falseWord
  | .null => sign .nullWord
  | .other kind => (.none, kind)

mutual

/-- The words of an expression. The left operand of a binary operator may be of the operator's own level,
the right one has to be tighter. -/
def Expr.words : Expr → List Word
  | .binary _ op l r =>
    operand (.ofJoining op) l.level l.words ++
      sign op :: operand (Level.ofJoining op).tighter r.level r.words
  | .unary _ op e => sign op :: operand (.ofLeading op) e.level e.words
  | .call _ f args => operand .access f.level f.words ++ parens (argWords args)
  | .member _ o name => operand .access o.level o.words ++ [sign .dot, (.identifier, name)]
  | .name _ name => [(.identifier, name)]
  | .self _ => [sign .thisWord]
  | .literal _ v => [v.word]
  | .absent => []

/-- The words of arguments, with commas between them. -/
def argWords : List Expr → List Word
  | [] => []
  | [e] => e.words
  | e :: es => e.words ++ sign .comma :: argWords es

end

/-! ### Statements -/

/-- What the grammar leaves open: whether an `eğer` that is alone in an else comes right behind the
`değilse` or stands in braces, and whether a `;` stands behind a method. -/
structure Manner where
  chained : Stmt → Bool
  closed : Function Stmt → Bool

/-- Whether a statement is an `eğer`. -/
def Stmt.isBranch : Stmt → Bool
  | .branch .. => true
  | _ => false

/-- Words in braces. -/
def braces (ws : List Word) : List Word := sign .leftBrace :: ws ++ [sign .rightBrace]

/-- The words of parameters, with commas between them. -/
def paramWords : List Text → List Word
  | [] => []
  | [name] => [(.identifier, name)]
  | name :: names => (.identifier, name) :: sign .comma :: paramWords names

mutual

/-- The words of a statement, without the `;` behind it. -/
def Stmt.words (m : Manner) : Stmt → List Word
  | .function f => functionWords m f
  | .classDef _ name methods =>
    sign .classWord :: (.identifier, name) :: braces (methodWords m methods)
  | .branch _ c body none => sign .ifWord :: c.words ++ braces (stmtWords m body)
  | .branch _ c body (some otherwise) =>
    sign .ifWord :: c.words ++ braces (stmtWords m body) ++ sign .elseWord :: elseWords m otherwise
  | .loop _ c body => sign .whileWord :: c.words ++ braces (stmtWords m body)
  | .ret _ none => [sign .returnWord]
  | .ret _ (some e) => sign .returnWord :: e.words
  | .print _ e => sign .printWord :: parens e.words
  | .expression _ e => e.words
  | .assign _ target e => target.words ++ sign .assign :: e.words
  | .breakLoop _ => [sign .breakWord]
  | .continueLoop _ => [sign .continueWord]
  | .absent => []

/-- The words of statements, each with a `;` behind it. -/
def stmtWords (m : Manner) : List Stmt → List Word
  | [] => []
  | s :: ss => s.words m ++ sign .semicolon :: stmtWords m ss

/-- The words behind a `değilse`. -/
def elseWords (m : Manner) : List Stmt → List Word
  | [] => braces []
  | [s] => if s.isBranch && m.chained s then s.words m else braces (s.words m ++ [sign .semicolon])
  | s :: ss => braces (s.words m ++ sign .semicolon :: stmtWords m ss)

/-- The words of a function. -/
def functionWords (m : Manner) : Function Stmt → List Word
  | ⟨_, name, params, body⟩ =>
    sign .functionWord :: (.identifier, name) :: parens (paramWords params) ++ braces (stmtWords m body)

/-- The words of methods, each with a `;` behind it or none. -/
def methodWords (m : Manner) : List (Function Stmt) → List Word
  | [] => []
  | f :: fs => functionWords m f ++ (if m.closed f then [sign .semicolon] else []) ++ methodWords m fs

end

end Anadil
