import Anadil.Proofs.Python.Phrase
import Anadil.Proofs.Python.Scanning
import Anadil.Proofs.Tree.Induction
import Anadil.Proofs.Tree.Legal

/-! # Expressions read back

The text of an expression, read by the rules of Python, is the same expression (`read_exprText`): the
parentheses that are written are enough. Only the spelling of `ve`, `veya` and `değil`, of `bu`, and of
zeros in front of integers is lost. A name has to be one for Python too, which U+2E2F is not. -/

namespace Anadil

open Anadil.Parser

variable {dot : Bool} {rest w n name : Text} {p : Piece} {c : Char} {e : Expr} {t : Term}

/-! ### The trees on both sides -/

/-- Whether some source has a token of a kind and a text. -/
def Produced (kind : Kind) (text : Text) : Prop :=
  ∃ source tokens, tokenize source = .ok tokens ∧ ∃ t ∈ tokens, t.kind = kind ∧ t.text = text

/-- A name of the language that is no reserved word of Python. -/
def IsPlainName (name : Text) : Prop := Produced .identifier name ∧ Python.isReserved name = false

/-- A literal of the language; a string may hold any characters. -/
def Literal.IsPlain : Literal → Prop
  | .string content => content.isClean = true
  | .number digits => Produced .number digits
  | .boolean _ | .null => True
  | .other _ => False

mutual

/-- An expression with the operators, names and literals of the language. Anything can be called, and
anything has members. -/
def Expr.IsPlain : Expr → Prop
  | .binary _ op l r => op ∈ joiningKinds ∧ l.IsPlain ∧ r.IsPlain
  | .unary _ op e => op ∈ leadingKinds ∧ e.IsPlain
  | .call _ f args => f.IsPlain ∧ allPlain args
  | .member _ o name => o.IsPlain ∧ IsPlainName name
  | .name _ name => IsPlainName name
  | .self _ => True
  | .literal _ v => v.IsPlain
  | .absent => False

/-- Expressions with the operators, names and literals of the language. -/
def allPlain : List Expr → Prop
  | [] => True
  | e :: es => e.IsPlain ∧ allPlain es

end

namespace Python

/-- The operator of Python that an operator of the language is. -/
def Op.ofKind? : Kind → Option Op
  | .orWord | .orOr => some .or
  | .andWord | .andAnd => some .and
  | .equal => some .eq
  | .notEqual => some .ne
  | .less => some .lt
  | .lessEqual => some .le
  | .greater => some .gt
  | .greaterEqual => some .ge
  | .plus => some .add
  | .minus => some .sub
  | .star => some .mul
  | .slash => some .div
  | .percent => some .mod
  | _ => none

/-- The literal of Python that a literal is. An integer is its value. -/
def Term.ofLiteral : Literal → Option Term
  | .string content => some (.string content)
  | .number digits => some (if digits.any (·.is '.') then .decimal digits else .integer (valueOf digits))
  | .boolean value => some (.truth value)
  | .null => some .none
  | .other _ => Option.none

mutual

/-- The expression of Python that an expression is, as trees. -/
def Term.ofExpr : Expr → Option Term
  | .binary _ op l r => do
    let o ← Op.ofKind? op
    let left ← ofExpr l
    let right ← ofExpr r
    return .binary o left right
  | .unary _ op e => do
    let operand ← ofExpr e
    match op with
    | .notWord | .bang => return .not operand
    | .minus => return .negate operand
    | _ => Option.none
  | .call _ f args => do
    let callee ← ofExpr f
    let args ← ofExprs args
    return .call callee args
  | .member _ o n => do
    let object ← ofExpr o
    return .member object n
  | .name _ n => return .name n
  | .self _ => return .name "self"
  | .literal _ v => ofLiteral v
  | .absent => Option.none

/-- The expressions of Python that expressions are. -/
def Term.ofExprs : List Expr → Option (List Term)
  | [] => return []
  | e :: es => do
    let t ← ofExpr e
    let ts ← ofExprs es
    return t :: ts

end

mutual

/-- Whether a comparison goes on behind a comparison somewhere in an expression. -/
def Term.chained : Term → Bool
  | .chain .. => true
  | .binary _ l r => l.chained || r.chained
  | .not t | .negate t | .member t _ => t.chained
  | .call f args => f.chained || chainedAny args
  | _ => false

/-- Whether a comparison goes on behind a comparison somewhere in expressions. -/
def Term.chainedAny : List Term → Bool
  | [] => false
  | t :: ts => t.chained || chainedAny ts

end

mutual

/-- The names in an expression, in order. -/
def Term.names : Term → List Text
  | .binary _ l r | .chain _ l r => l.names ++ r.names
  | .not t | .negate t => t.names
  | .member t n => t.names ++ [n]
  | .call f args => f.names ++ namesAll args
  | .name n => [n]
  | _ => []

/-- The names in expressions, in order. -/
def Term.namesAll : List Term → List Text
  | [] => []
  | t :: ts => t.names ++ namesAll ts

end

/-- A number of either kind. -/
def Piece.isNumber : Piece → Bool
  | .integer _ | .decimal _ => true
  | _ => false

/-- Whether a dot stands right behind a number somewhere. -/
def glued : List Piece → Bool
  | p :: q :: rest => (p.isNumber && q == .dot) || glued (q :: rest)
  | _ => false

/-! ### What may stand behind an expression -/

/-- Nothing, a blank, a parenthesis, a comma, or, if it may, a dot. -/
def Behind (dot : Bool) (rest : Text) : Prop :=
  ∀ g ∈ rest.head?, g ∈ [Glyph.char ' ', .char '(', .char ')', .char ','] ∨ (dot = true ∧ g = .char '.')

theorem behind_nil (dot : Bool) : Behind dot [] := by
  intro g hg
  cases hg

theorem behind_cons {g : Glyph}
    (hg : g ∈ [Glyph.char ' ', .char '(', .char ')', .char ','] ∨ (dot = true ∧ g = .char '.')) :
    Behind dot (g :: rest) := by
  intro g' hg'
  cases hg'
  exact hg

theorem Behind.mono (h : Behind false rest) (dot : Bool) : Behind dot rest := by
  intro g hg
  exact .inl ((h g hg).resolve_right (by simp))

theorem Behind.starts (h : Behind dot rest) {p : Glyph → Bool}
    (hp : [Glyph.char ' ', .char '(', .char ')', .char ','].all (fun g => !p g) = true)
    (hdot : dot = true → p (.char '.') = false) : startsWithAny p rest = false := by
  cases rest with
  | nil => rfl
  | cons g t =>
    rcases h g rfl with hg | ⟨hd, rfl⟩
    · show p g = false
      simpa using List.all_eq_true.mp hp g hg
    · exact hdot hd

theorem Behind.ends (h : Behind dot rest) : Ends rest :=
  ⟨h.starts (by decide) (fun _ => by decide), h.starts (by decide) (fun _ => by decide)⟩

/-! ### Written expressions -/

/-- A text whose pieces are an expression of a strength. `dot` says that a dot may stand behind it. -/
structure Spells (text : Text) (strength : Nat) (dot : Bool) (ps : List Piece) (t : Term) : Prop where
  first : ∃ c rest, text = .char c :: rest ∧ c ≠ '=' ∧ c ≠ '>'
  scans : ∀ rest, Behind dot rest → scan (text ++ rest) = (scan rest).map (ps ++ ·)
  reads : Reads strength ps t
  dot_first : ps.head? ≠ some .dot
  number_last : dot = true → ∀ p ∈ ps.getLast?, p.isNumber = false
  unglued : glued ps = false
  names : namesIn ps = t.names

theorem namesIn_append (ps qs : List Piece) : namesIn (ps ++ qs) = namesIn ps ++ namesIn qs := List.filterMap_append

theorem namesIn_cons (p : Piece) (ps : List Piece) : namesIn (p :: ps) = p.name?.toList ++ namesIn ps := by
  rw [namesIn, List.filterMap_cons]
  cases p.name? <;> rfl

theorem glued_append {xs ys : List Piece}
    (h : ys.head? ≠ some .dot ∨ ∀ p ∈ xs.getLast?, p.isNumber = false) :
    glued (xs ++ ys) = (glued xs || glued ys) := by
  induction xs with
  | nil => rfl
  | cons p xs ih =>
    cases xs with
    | nil =>
      cases ys with
      | nil => rfl
      | cons q ys =>
        have hpq : (p.isNumber && q == .dot) = false := by
          rcases h with h | h
          · simp only [Bool.and_eq_false_iff, beq_eq_false_iff_ne]
            exact .inr fun hq => h (hq ▸ rfl)
          · rw [h p rfl, Bool.false_and]
        simp [glued, hpq]
    | cons q xs =>
      have hrest := ih (h.imp_right fun h p hp => h p (by simpa using hp))
      show ((p.isNumber && q == .dot) || glued (q :: xs ++ ys)) = _
      rw [hrest, ← Bool.or_assoc]
      rfl

theorem glued_cons {ps : List Piece} (h : p.isNumber = false) : glued (p :: ps) = glued ps := by
  cases ps <;> simp [glued, h]

section Spells
variable {text : Text} {strength : Nat} {dot : Bool} {ps : List Piece} {t : Term}

/-- A piece that is an atom is spelled by its text. -/
theorem Spells.of_piece (hfirst : c ≠ '=' ∧ c ≠ '>')
    (hscan : ∀ rest, Behind dot rest → scan (.char c :: w ++ rest) = (scan rest).map (p :: ·))
    (hatom : ∀ rest, atom (p :: rest) = some (t, rest)) (hnumber : dot = true → p.isNumber = false)
    (hp : p ∉ [.rightParen, .not, .op .sub, .dot]) (hnames : namesIn [p] = t.names) :
    Spells (.char c :: w) 9 dot [p] t := by
  simp only [List.mem_cons, List.not_mem_nil, or_false, not_or] at hp
  obtain ⟨hparen, hnot, hminus, hdot⟩ := hp
  exact ⟨⟨c, w, rfl, hfirst⟩, hscan,
    .of_atom (by simp) (by simpa using hparen) (by simpa using hnot) (by simpa using hminus) hatom,
    by simpa using hdot, fun hd => by simpa using hnumber hd, rfl, hnames⟩

/-- In parentheses an expression is as strong as can be. -/
theorem Spells.paren (h : Spells text strength dot ps t) (hs : 1 ≤ strength) :
    Spells ("(" ++ text ++ ")") 9 true (.leftParen :: ps ++ [.rightParen]) t := by
  have htext : ∀ rest, ("(" ++ text ++ ")" ++ rest : Text) = .char '(' :: (text ++ .char ')' :: rest) := by
    intro rest
    simp [Text.ofString]
  refine ⟨⟨'(', _, rfl, by decide⟩, fun rest hrest => ?_, h.reads.paren hs, by simp, fun _ p hp => ?_, ?_, ?_⟩
  · rw [htext, scan_leftParen, h.scans _ (behind_cons (.inl (by simp))), scan_rightParen]
    simp [Option.map_map, Function.comp_def]
  · rw [List.getLast?_concat] at hp
    cases hp
    rfl
  · rw [glued_append (.inl (by simp)), glued_cons rfl, h.unglued]
    rfl
  · rw [namesIn_append, namesIn_cons, h.names]
    exact List.append_nil _

/-- In brackets or not, what is spelled stays spelled. -/
theorem Spells.guarded {w : Written} (h : Spells w.text w.strength dot ps t) (hs : 1 ≤ w.strength)
    (needed : Bool) :
    ∃ qs, Spells (w.guarded needed) (if needed then 9 else w.strength) (needed || dot) qs t := by
  cases needed with
  | false => exact ⟨ps, h⟩
  | true => exact ⟨_, h.paren hs⟩

theorem Spells.first_append (h : Spells text strength dot ps t) (more : Text) :
    ∃ c rest, text ++ more = .char c :: rest ∧ c ≠ '=' ∧ c ≠ '>' := by
  obtain ⟨c, w, rfl, hc⟩ := h.first
  exact ⟨c, w ++ more, rfl, hc⟩

/-- Two operands, the left one at least as strong as the operator and the right one stronger. -/
theorem Spells.joined {o : Op} {left right : Nat} {dot₁ dot₂ : Bool} {text₁ text₂ : Text}
    {ps₁ ps₂ : List Piece} {l r : Term} (hl : Spells text₁ left dot₁ ps₁ l)
    (hr : Spells text₂ right dot₂ ps₂ r) (hleft : o.tier.strength ≤ left)
    (hcompared : o.tier = .comparison → left ≠ Tier.comparison.strength)
    (hright : o.tier.strength < right) :
    Spells (text₁ ++ " " ++ (o.spelling : Text) ++ " " ++ text₂) o.tier.strength false
      (ps₁ ++ .op o :: ps₂) (.binary o l r) := by
  have hbehind : ∀ rest, Behind dot₁ (" " ++ (o.spelling : Text) ++ " " ++ rest) := fun rest =>
    behind_cons (g := .char ' ') (.inl (by simp))
  refine ⟨?_, fun rest hrest => ?_, hl.reads.joined hr.reads hleft hcompared hright, ?_, by simp, ?_, ?_⟩
  · simpa using hl.first_append _
  · have htext : (text₁ ++ " " ++ (o.spelling : Text) ++ " " ++ text₂ ++ rest : Text) =
        text₁ ++ (" " ++ (o.spelling : Text) ++ " " ++ (text₂ ++ rest)) := by
      simp
    rw [htext, hl.scans _ (hbehind _), scan_operator, hr.scans rest (hrest.mono dot₂)]
    simp [Option.map_map, Function.comp_def]
  · rw [head?_append hl.reads.ne_nil]
    exact hl.dot_first
  · rw [glued_append (.inl (by simp)), glued_cons rfl, hl.unglued, hr.unglued]
    rfl
  · rw [namesIn_append, namesIn_cons, hl.names, hr.names]
    rfl

theorem Spells.not (h : Spells text strength dot ps t) (hs : Tier.not.strength ≤ strength) :
    Spells ("not " ++ text) Tier.not.strength false (.not :: ps) (.not t) := by
  refine ⟨⟨'n', _, rfl, by decide⟩, fun rest hrest => ?_, h.reads.leading (.inl ⟨rfl, rfl, rfl⟩) hs, by simp,
    by simp, ?_, h.names⟩
  · rw [List.append_assoc, scan_not, h.scans rest (hrest.mono dot)]
    simp [Option.map_map, Function.comp_def]
  · rw [glued_cons rfl, h.unglued]

theorem Spells.negate (h : Spells text strength dot ps t) (hs : Tier.negation.strength ≤ strength) :
    Spells ("-" ++ text) Tier.negation.strength false (.op .sub :: ps) (.negate t) := by
  refine ⟨⟨'-', _, rfl, by decide⟩, fun rest hrest => ?_, h.reads.leading (.inr ⟨rfl, rfl, rfl⟩) hs, by simp,
    by simp, ?_, h.names⟩
  · obtain ⟨c, w, rfl, hc⟩ := h.first
    show scan (.char '-' :: .char c :: (w ++ rest)) = _
    rw [scan_minus hc, ← List.cons_append, h.scans rest (hrest.mono dot)]
    simp [Option.map_map, Function.comp_def]
  · rw [glued_cons rfl, h.unglued]

/-- A field is spelled behind what binds as tightly as access does. -/
theorem Spells.member (h : Spells text strength true ps t) (hs : Tier.access.strength ≤ strength)
    (hn : n.IsName) (hreserved : isReserved n = false) :
    Spells (text ++ "." ++ n) Tier.access.strength true (ps ++ [.dot, .name n]) (.member t n) := by
  refine ⟨?_, fun rest hrest => ?_, h.reads.member hs n, ?_, fun _ p hp => ?_, ?_, ?_⟩
  · simpa using h.first_append _
  · have htext : (text ++ "." ++ n ++ rest : Text) = text ++ .char '.' :: (n ++ rest) := by
      simp [Text.ofString]
    have hdot : scan (.char '.' :: (n ++ rest)) = (scan (n ++ rest)).map (.dot :: ·) := by
      obtain ⟨d, m, rfl, hd, -⟩ := isName_glyphs hn
      refine scan_append (w := [.char '.']) (by simp) (by simp) ?_
      show (if startsWithAny isDigitGlyph (.char d :: m ++ rest) then none else some (_, _)) = _
      exact if_neg (by simp [startsWithAny, isDigitGlyph, hd])
    rw [htext, h.scans _ (behind_cons (.inr ⟨rfl, rfl⟩)), hdot, scan_name hn hreserved hrest.ends]
    simp [Option.map_map, Function.comp_def]
  · rw [head?_append h.reads.ne_nil]
    exact h.dot_first
  · rw [List.getLast?_append] at hp
    cases hp
    rfl
  · rw [glued_append (.inr (h.number_last rfl)), h.unglued]
    rfl
  · rw [namesIn_append, h.names]
    rfl

/-- An argument as it is written: its text, its pieces and its tree. -/
structure Part where
  text : Text
  pieces : List Piece
  tree : Term

/-- An argument is written so that it is read back. -/
def Part.Spelled (p : Part) : Prop := ∃ n d, 1 ≤ n ∧ Spells p.text n d p.pieces p.tree

section Args
variable {parts : List Part} (hparts : ∀ p ∈ parts, p.Spelled)
include hparts

theorem scan_args (rest : Text) :
    scan (Text.join ", " (parts.map Part.text) ++ .char ')' :: rest) =
      (scan rest).map (argPieces (parts.map Part.pieces) ++ .rightParen :: ·) := by
  induction parts with
  | nil => exact scan_rightParen rest
  | cons part parts ih =>
    obtain ⟨⟨n, d, -, hpart⟩, hparts⟩ := List.forall_mem_cons.mp hparts
    cases parts with
    | nil =>
      show scan (part.text ++ .char ')' :: rest) = _
      rw [hpart.scans _ (behind_cons (.inl (by simp))), scan_rightParen]
      simp [Option.map_map, Function.comp_def, argPieces]
    | cons next parts =>
      have htext : (Text.join ", " ((part :: next :: parts).map Part.text) ++ .char ')' :: rest : Text) =
          part.text ++ .char ',' :: .char ' ' ::
            (Text.join ", " ((next :: parts).map Part.text) ++ .char ')' :: rest) := by
        simp [Text.join, Text.ofString]
      rw [htext, hpart.scans _ (behind_cons (.inl (by simp))), scan_comma, scan_blank, ih hparts]
      simp [Option.map_map, Function.comp_def, argPieces]

theorem glued_moreArgs : glued ((parts.map Part.pieces).flatMap (.comma :: ·)) = false ∧
    ((parts.map Part.pieces).flatMap (.comma :: ·)).head? ≠ some .dot := by
  induction parts with
  | nil => simp [glued]
  | cons part parts ih =>
    obtain ⟨⟨n, d, -, hpart⟩, hparts⟩ := List.forall_mem_cons.mp hparts
    obtain ⟨hglued, hhead⟩ := ih hparts
    refine ⟨?_, by simp⟩
    rw [List.map_cons, List.flatMap_cons, glued_append (.inl hhead), glued_cons rfl, hpart.unglued, hglued]
    rfl

theorem glued_args : glued (argPieces (parts.map Part.pieces)) = false := by
  cases parts with
  | nil => rfl
  | cons part parts =>
    obtain ⟨⟨n, d, -, hpart⟩, hparts⟩ := List.forall_mem_cons.mp hparts
    obtain ⟨hglued, hhead⟩ := glued_moreArgs hparts
    rw [List.map_cons, argPieces, glued_append (.inl hhead), hpart.unglued, hglued]
    rfl

theorem names_moreArgs :
    namesIn ((parts.map Part.pieces).flatMap (.comma :: ·)) = Term.namesAll (parts.map Part.tree) := by
  induction parts with
  | nil => rfl
  | cons part parts ih =>
    obtain ⟨⟨n, d, -, hpart⟩, hparts⟩ := List.forall_mem_cons.mp hparts
    rw [List.map_cons, List.flatMap_cons, namesIn_append, namesIn_cons, hpart.names, ih hparts]
    rfl

theorem names_args : namesIn (argPieces (parts.map Part.pieces)) = Term.namesAll (parts.map Part.tree) := by
  cases parts with
  | nil => rfl
  | cons part parts =>
    obtain ⟨⟨n, d, -, hpart⟩, hparts⟩ := List.forall_mem_cons.mp hparts
    rw [List.map_cons, argPieces, namesIn_append, hpart.names, names_moreArgs hparts]
    rfl

/-- So is a call with its arguments. -/
theorem Spells.call (h : Spells text strength dot ps t) (hs : Tier.access.strength ≤ strength) :
    Spells (text ++ "(" ++ Text.join ", " (parts.map Part.text) ++ ")") Tier.access.strength true
      (ps ++ .leftParen :: (argPieces (parts.map Part.pieces) ++ [.rightParen]))
      (.call t (parts.map Part.tree)) := by
  refine ⟨?_, fun rest _ => ?_, ?_, ?_, fun _ p hp => ?_, ?_, ?_⟩
  · simpa using h.first_append _
  · have htext : (text ++ "(" ++ Text.join ", " (parts.map Part.text) ++ ")" ++ rest : Text) =
        text ++ .char '(' :: (Text.join ", " (parts.map Part.text) ++ .char ')' :: rest) := by
      simp [Text.ofString]
    rw [htext, h.scans _ (behind_cons (.inl (by simp))), scan_leftParen, scan_args hparts]
    simp [Option.map_map, Function.comp_def]
  · exact .call (fun p hp => (hparts p hp).elim fun n h => h.elim fun _ h => ⟨n, h.1, h.2.reads⟩) h.reads hs
  · rw [head?_append h.reads.ne_nil]
    exact h.dot_first
  · rw [List.getLast?_append, List.getLast?_cons, List.getLast?_concat] at hp
    cases hp
    rfl
  · rw [glued_append (.inl (by simp)), glued_cons rfl, glued_append (.inl (by simp)), h.unglued,
      glued_args hparts]
    rfl
  · rw [namesIn_append, namesIn_cons, namesIn_append, h.names, names_args hparts]
    exact congrArg _ (List.append_nil _)

end Args

end Spells

/-! ### Every expression -/

theorem isName_of_produced (h : Produced .identifier name) : name.IsName := by
  obtain ⟨source, tokens, htokens, t, ht, hkind, rfl⟩ := h
  exact (tokenize_spelled htokens t ht).name hkind

theorem isNumeral_of_produced {digits : Text} (h : Produced .number digits) : digits.IsNumeral := by
  obtain ⟨source, tokens, htokens, t, ht, hkind, rfl⟩ := h
  exact (tokenize_spelled htokens t ht).numeral hkind

theorem binaryOperator?_eq (kind : Kind) :
    binaryOperator? kind = (Op.ofKind? kind).map fun o => (o.spelling, o.tier.strength) := by
  cases kind <;> rfl

theorem ofKind?_isSome {kind : Kind} (h : kind ∈ joiningKinds) : ∃ o, Op.ofKind? kind = some o := by
  simp only [joiningKinds, List.mem_cons, List.not_mem_nil, or_false] at h
  rcases h with rfl | rfl | rfl | rfl | rfl | rfl | rfl | rfl | rfl | rfl | rfl | rfl | rfl | rfl | rfl <;>
    exact ⟨_, rfl⟩

/-- The names in an expression are names of the language, but for the one that stands for `bu`. -/
def Term.Named (t : Term) : Prop := ∀ n ∈ t.names, n = "self" ∨ IsPlainName n

/-- An expression is written so that it is read back. -/
def IsSpelled (e : Expr) : Prop :=
  ∃ w ps t, written e = .ok w ∧ Term.ofExpr e = some t ∧ 1 ≤ w.strength ∧ t.Named ∧
    Spells w.text w.strength (decide (8 ≤ w.strength) && !isNumber e) ps t

theorem IsSpelled.intro {text : Text} {strength : Nat} {ps : List Piece}
    (h : Spells text strength dot ps t) (hwritten : written e = .ok ⟨text, strength⟩)
    (hterm : Term.ofExpr e = some t) (hnamed : t.Named) (hs : 1 ≤ strength)
    (hdot : (decide (8 ≤ strength) && !isNumber e) = dot) : IsSpelled e :=
  ⟨_, ps, t, hwritten, hterm, hs, hnamed, hdot ▸ h⟩

theorem isSpelled_of_piece
    (hwritten : written e = .ok ⟨.char c :: w, Strength.atom⟩) (hterm : Term.ofExpr e = some t)
    (hfirst : c ≠ '=' ∧ c ≠ '>')
    (hscan : ∀ rest, Behind (!isNumber e) rest → scan (.char c :: w ++ rest) = (scan rest).map (p :: ·))
    (hatom : ∀ rest, atom (p :: rest) = some (t, rest)) (hnumber : isNumber e = false → p.isNumber = false)
    (hp : p ∉ [.rightParen, .not, .op .sub, .dot]) (hnames : namesIn [p] = t.names) (hnamed : t.Named) :
    IsSpelled e := by
  have hpiece : Spells _ 9 (!isNumber e) [p] t :=
    .of_piece hfirst hscan hatom (fun h => hnumber (by simpa using h)) hp hnames
  exact .intro hpiece hwritten hterm hnamed (by decide) rfl

theorem isSpelled_word
    (hwritten : written e = .ok ⟨.char c :: w, Strength.atom⟩) (hterm : Term.ofExpr e = some t)
    (hword : wordPiece (.char c :: w) = some p) (hc : c.isDigit = false)
    (hglyphs : ∀ g ∈ .char c :: w, isWordGlyph g = true) (hatom : ∀ rest, atom (p :: rest) = some (t, rest))
    (hnumber : p.isNumber = false) (hp : p ∉ [.rightParen, .not, .op .sub, .dot])
    (hnames : namesIn [p] = t.names) (hnamed : t.Named) : IsSpelled e := by
  have hfirst : isWordGlyph (.char c) = true := hglyphs _ List.mem_cons_self
  refine isSpelled_of_piece hwritten hterm ⟨?_, ?_⟩ (fun rest hrest => scan_word hword hc hglyphs hrest.ends)
    hatom (fun _ => hnumber) hp hnames hnamed
  · rintro rfl
    exact absurd hfirst (by decide)
  · rintro rfl
    exact absurd hfirst (by decide)

theorem named_of_names (h : t.names = []) : t.Named := by
  intro n hn
  rw [h] at hn
  cases hn

theorem named_name (h : n = "self" ∨ IsPlainName n) : Term.Named (.name n) :=
  fun _ hm => List.mem_singleton.mp hm ▸ h

theorem isSpelled_name (span : Span) (h : IsPlainName name) : IsSpelled (.name span name) := by
  obtain ⟨c, w, rfl, hc, hglyphs⟩ := isName_glyphs (isName_of_produced h.1)
  exact isSpelled_word rfl rfl (wordPiece_name h.2) hc hglyphs (fun rest => by rw [atom]) rfl (by simp) rfl
    (named_name (.inr h))

theorem isSpelled_self (span : Span) : IsSpelled (.self span) :=
  isSpelled_word (c := 's') (w := "elf") (p := .name "self") rfl rfl rfl (by decide) (by decide)
    (fun rest => by rw [atom]) rfl (by simp) rfl (named_name (.inl rfl))

theorem isSpelled_number (span : Span) {digits : Text} (h : digits.IsNumeral) :
    IsSpelled (.literal span (.number digits)) := by
  obtain ⟨c, w, hw, hc⟩ := number_first h
  have hdigit : ∀ d : Char, d.isDigit = false → c ≠ d := by
    rintro d hd rfl
    simp [hd] at hc
  refine isSpelled_of_piece (p := numberPiece digits) (by rw [← hw]; rfl) rfl
    ⟨hdigit '=' (by decide), hdigit '>' (by decide)⟩ (fun rest hrest => ?_) (fun rest => ?_)
    (by simp [isNumber]) ?_ ?_ (named_of_names ?_)
  · rw [← hw]
    exact scan_number h (hrest.starts (by decide) fun _ => by decide)
      (hrest.starts (by decide) (by simp [isNumber]))
  · unfold numberPiece
    split <;> rw [atom]
  · unfold numberPiece
    split <;> simp
  · unfold numberPiece
    split <;> rfl
  · split <;> rfl

theorem isSpelled_literal (span : Span) {v : Literal} (h : v.IsPlain) : IsSpelled (.literal span v) := by
  match v with
  | .boolean true =>
    exact isSpelled_word (c := 'T') (w := "rue") rfl rfl rfl (by decide) (by decide) (fun rest => by rw [atom])
      rfl (by simp) rfl (named_of_names rfl)
  | .boolean false =>
    exact isSpelled_word (c := 'F') (w := "alse") rfl rfl rfl (by decide) (by decide) (fun rest => by rw [atom])
      rfl (by simp) rfl (named_of_names rfl)
  | .null =>
    exact isSpelled_word (c := 'N') (w := "one") rfl rfl rfl (by decide) (by decide) (fun rest => by rw [atom])
      rfl (by simp) rfl (named_of_names rfl)
  | .string content =>
    exact isSpelled_of_piece (c := '"') (p := .string content) rfl rfl (by decide)
      (fun _ hrest => scan_string h (hrest.starts (by decide) fun _ => by decide)) (fun rest => by rw [atom])
      (fun _ => rfl) (by simp) rfl (named_of_names rfl)
  | .number digits => exact isSpelled_number span (isNumeral_of_produced h)
  | .other _ => exact h.elim

/-- The left operand is strong enough, and no comparison on the left of one is left open. -/
theorem left_strength {n s : Nat} (hs : s ≤ 8) :
    s ≤ (if decide (n < s) || (s == 4 && n == 4) then 9 else n) ∧
      (s = 4 → (if decide (n < s) || (s == 4 && n == 4) then 9 else n) ≠ 4) := by
  split
  · omega
  · rename_i h
    simp only [Bool.or_eq_true, decide_eq_true_eq, Bool.and_eq_true, beq_iff_eq] at h
    omega

theorem isSpelled_binary {op : Kind} {l r : Expr} (span : Span) (hop : op ∈ joiningKinds)
    (hl : IsSpelled l) (hr : IsSpelled r) : IsSpelled (.binary span op l r) := by
  obtain ⟨o, ho⟩ := ofKind?_isSome hop
  obtain ⟨w₁, ps₁, t₁, hw₁, ht₁, hs₁, hn₁, hl⟩ := hl
  obtain ⟨w₂, ps₂, t₂, hw₂, ht₂, hs₂, hn₂, hr⟩ := hr
  have hle : o.tier.strength ≤ 6 := by cases o <;> decide
  obtain ⟨qs₁, hl⟩ := hl.guarded hs₁ (decide (w₁.strength < o.tier.strength) ||
    (o.tier.strength == Strength.comparison && w₁.strength == Strength.comparison))
  obtain ⟨qs₂, hr⟩ := hr.guarded hs₂ (decide (w₂.strength ≤ o.tier.strength))
  have hleft := @left_strength w₁.strength o.tier.strength (by omega)
  have hright : o.tier.strength < (if decide (w₂.strength ≤ o.tier.strength) then 9 else w₂.strength : Nat) := by
    split
    · omega
    · rename_i h
      exact Nat.lt_of_not_le fun hn => h (decide_eq_true hn)
  have hjoined := hl.joined hr hleft.1 (fun hc => hleft.2 (hc ▸ rfl)) hright
  refine .intro hjoined ?_ ?_ (List.forall_mem_append.mpr ⟨hn₁, hn₂⟩) (by cases o <;> decide) ?_
  · rw [written, binaryOperator?_eq, ho]
    simp only [Option.map_some, hw₁, hw₂]
    rfl
  · rw [Term.ofExpr, ho, ht₁, ht₂]
    rfl
  · -- no operator is as strong as an access, so no dot may follow
    rw [decide_eq_false (by omega), Bool.false_and]

theorem operand_strength {n s : Nat} (hs : s ≤ 8) : s ≤ (if decide (n < s) then 9 else n) := by
  split
  · omega
  · rename_i h
    exact Nat.le_of_not_lt fun hn => h (decide_eq_true hn)

theorem isSpelled_unary {op : Kind} (span : Span) (hop : op ∈ leadingKinds)
    (h : IsSpelled e) : IsSpelled (.unary span op e) := by
  obtain ⟨w, ps, t, hw, ht, hs, hn, h⟩ := h
  obtain ⟨qs, hnot⟩ := h.guarded hs (decide (w.strength < Strength.not))
  obtain ⟨qs', hnegate⟩ := h.guarded hs (decide (w.strength < Strength.negation))
  have hnot := hnot.not (operand_strength (by decide))
  have hnegate := hnegate.negate (operand_strength (by decide))
  simp only [leadingKinds, List.mem_cons, List.not_mem_nil, or_false] at hop
  rcases hop with rfl | rfl | rfl
  · exact .intro hnot (by rw [written, hw]; rfl) (by rw [Term.ofExpr, ht]; rfl) hn (by decide) rfl
  · exact .intro hnot (by rw [written, hw]; rfl) (by rw [Term.ofExpr, ht]; rfl) hn (by decide) rfl
  · exact .intro hnegate (by rw [written, hw]; rfl) (by rw [Term.ofExpr, ht]; rfl) hn (by decide) rfl

theorem isSpelled_member {o : Expr} (span : Span) (h : IsSpelled o) (hname : IsPlainName name) :
    IsSpelled (.member span o name) := by
  obtain ⟨w, ps, t, hw, ht, hs, hn, h⟩ := h
  -- a number is in parentheses, so a dot may stand behind whatever is written here
  have hobject : ∃ qs n, Tier.access.strength ≤ n ∧
      Spells (w.guarded (decide (w.strength < Strength.access) || isNumber o)) n true qs t := by
    rcases Bool.eq_false_or_eq_true (decide (w.strength < Strength.access) || isNumber o) with
      hneeded | hneeded <;> rw [hneeded]
    · exact ⟨_, 9, by decide, h.paren hs⟩
    · rw [Bool.or_eq_false_iff, decide_eq_false_iff_not, Nat.not_lt] at hneeded
      refine ⟨ps, w.strength, hneeded.1, ?_⟩
      rw [hneeded.2, decide_eq_true (p := 8 ≤ w.strength) hneeded.1] at h
      exact h
  obtain ⟨qs, n, hstrength, hobject⟩ := hobject
  have hmember := hobject.member hstrength (isName_of_produced hname.1) hname.2
  exact .intro hmember (by rw [written, hw]; rfl) (by rw [Term.ofExpr, ht]; rfl)
    (List.forall_mem_append.mpr ⟨hn, named_name (.inr hname)⟩) (by decide) rfl

/-- Arguments that are spelled one by one are spelled with commas between them. -/
theorem isSpelled_args {args : List Expr} (h : ∀ e ∈ args, IsSpelled e) :
    ∃ parts : List Part, writtenArgs args = .ok (parts.map Part.text) ∧
      Term.ofExprs args = some (parts.map Part.tree) ∧ (∀ p ∈ parts, p.Spelled) ∧
      ∀ n ∈ Term.namesAll (parts.map Part.tree), n = "self" ∨ IsPlainName n := by
  induction args with
  | nil => exact ⟨[], rfl, rfl, nofun, nofun⟩
  | cons e es ih =>
    obtain ⟨⟨w, ps, t, hw, ht, hs, hn, he⟩, hes⟩ := List.forall_mem_cons.mp h
    obtain ⟨parts, hws, hts, hparts, hns⟩ := ih hes
    refine ⟨⟨w.text, ps, t⟩ :: parts, ?_, ?_, List.forall_mem_cons.mpr ⟨⟨_, _, hs, he⟩, hparts⟩,
      List.forall_mem_append.mpr ⟨hn, hns⟩⟩
    · rw [writtenArgs, hw, hws]
      rfl
    · rw [Term.ofExprs, ht, hts]
      rfl

theorem isSpelled_call {f : Expr} {args : List Expr} (span : Span) (h : IsSpelled f)
    (hargs : ∀ e ∈ args, IsSpelled e) : IsSpelled (.call span f args) := by
  obtain ⟨w, ps, t, hw, ht, hs, hn, h⟩ := h
  obtain ⟨parts, hws, hts, hparts, hns⟩ := isSpelled_args hargs
  obtain ⟨qs, hcallee⟩ := h.guarded hs (decide (w.strength < Strength.access))
  have hcall := hcallee.call hparts (operand_strength (by decide))
  exact .intro hcall (by rw [written, hw, hws]; rfl) (by rw [Term.ofExpr, ht, hts]; rfl)
    (List.forall_mem_append.mpr ⟨hn, hns⟩) (by decide) rfl

theorem allPlain_iff {es : List Expr} : allPlain es ↔ ∀ e ∈ es, e.IsPlain := by
  induction es with
  | nil => simp [allPlain]
  | cons e es ih => rw [allPlain, ih, List.forall_mem_cons]

theorem isSpelled (e : Expr) (h : e.IsPlain) : IsSpelled e := by
  induction e using Expr.induct with
  | binary span op l r ihl ihr => exact isSpelled_binary span h.1 (ihl h.2.1) (ihr h.2.2)
  | unary span op e ih => exact isSpelled_unary span h.1 (ih h.2)
  | call span f args ihf ihargs =>
    exact isSpelled_call span (ihf h.1) fun e he => ihargs e he (allPlain_iff.mp h.2 e he)
  | member span o name ih => exact isSpelled_member span (ih h.1) h.2
  | name span name => exact isSpelled_name span h
  | self span => exact isSpelled_self span
  | literal span v => exact isSpelled_literal span h
  | absent => exact h.elim

theorem chainedAny_ofExprs {es : List Expr} {ts : List Term}
    (hone : ∀ e ∈ es, ∀ t, Term.ofExpr e = some t → t.chained = false)
    (h : Term.ofExprs es = some ts) : Term.chainedAny ts = false := by
  induction es generalizing ts with
  | nil =>
    cases h
    rfl
  | cons e es ih =>
    obtain ⟨hone, hall⟩ := List.forall_mem_cons.mp hone
    simp only [Term.ofExprs, Option.bind_eq_bind, Option.bind_eq_some_iff] at h
    obtain ⟨t, ht, ts, hts, h⟩ := h
    cases h
    rw [Term.chainedAny, hone t ht, ih hall hts]
    rfl

theorem chained_ofExpr (e : Expr) (h : Term.ofExpr e = some t) : t.chained = false := by
  induction e using Expr.induct generalizing t with
  | binary span op l r ihl ihr =>
    simp only [Term.ofExpr, Option.bind_eq_bind, Option.bind_eq_some_iff] at h
    obtain ⟨o, -, left, hl, right, hr, h⟩ := h
    cases h
    rw [Term.chained, ihl hl, ihr hr]
    rfl
  | unary span op e ih =>
    simp only [Term.ofExpr, Option.bind_eq_bind, Option.bind_eq_some_iff] at h
    obtain ⟨operand, ho, h⟩ := h
    split at h <;> cases h
    all_goals
      rw [Term.chained]
      exact ih ho
  | call span f args ihf ihargs =>
    simp only [Term.ofExpr, Option.bind_eq_bind, Option.bind_eq_some_iff] at h
    obtain ⟨callee, hf, ts, hts, h⟩ := h
    cases h
    rw [Term.chained, ihf hf, chainedAny_ofExprs (fun e he t => ihargs e he) hts]
    rfl
  | member span o name ih =>
    simp only [Term.ofExpr, Option.bind_eq_bind, Option.bind_eq_some_iff] at h
    obtain ⟨object, ho, h⟩ := h
    cases h
    rw [Term.chained]
    exact ih ho
  | name span name =>
    cases h
    rfl
  | self span =>
    cases h
    rfl
  | literal span v =>
    cases v <;> cases h
    case number.refl digits => cases digits.any (·.is '.') <;> rfl
    all_goals rfl
  | absent => cases h

/-! ### Names of Python -/

/-- A word of letters, digits, marks and underscores with no digit or mark in front. -/
def isOrdinary : Text → Bool
  | [] => false
  | g :: t => Lexer.isNameStart g.seen && t.all fun g => Lexer.isNamePart g.seen

/-- Letters that are barred from names, or from their front, have a compatibility form, all but one. -/
theorem has_compatibilities (h : barredLetters.has c.toNat = true ∨ trailingLetters.has c.toNat = true)
    (hc : c ≠ 'ⸯ') : (decide (0x80 ≤ c.toNat) && (Text.decompose c.toNat).any Text.compatibilities.has) = true := by
  have hall : (barredLetters.points ++ trailingLetters.points).all (fun n =>
      n == 0x2E2F || (decide (0x80 ≤ n) && (Text.decompose n).any Text.compatibilities.has)) = true := by
    decide +kernel
  have hmem := List.mem_append.mpr (h.imp Text.Ranges.mem_points Text.Ranges.mem_points)
  rcases Bool.or_eq_true_iff.mp (List.all_eq_true.mp hall _ hmem) with heq | hone
  · have hchar : c = Char.ofNat 0x2E2F := by rw [← beq_iff_eq.mp heq, Char.ofNat_toNat]
    exact absurd hchar hc
  · exact hone

/-- A name of the language is one of Python if it is made of letters, digits and marks, and not of U+2E2F. Normal
form C can make other characters of letters and marks. -/
theorem isIdentifier_of_isOrdinary (h : n = "self" ∨ IsPlainName n) (hordinary : isOrdinary n = true)
    (htilde : .char 'ⸯ' ∉ n) : isIdentifier n = true := by
  rcases h with rfl | ⟨⟨source, tokens, htokens, t, ht, hkind, rfl⟩, -⟩
  · decide +kernel
  obtain ⟨d, ds, htext, -, -⟩ := (tokenize_spelled htokens t ht).name hkind
  have hstable := (tokenize_spelled htokens t ht).stable hkind
  rw [Text.hasCompatibility, Bool.or_eq_false_iff, List.any_eq_false] at hstable
  have hfree : ∀ c ∈ d :: ds, barredLetters.has c.toNat = false ∧ trailingLetters.has c.toNat = false := by
    intro c hc
    have hmem : Glyph.char c ∈ t.text := htext ▸ List.mem_map_of_mem hc
    have hstable := hstable.1 c (by simpa [Text.chars, Glyph.seen] using ⟨_, hmem, rfl⟩)
    have hno := mt (fun h => has_compatibilities h fun heq => htilde (heq ▸ hmem)) hstable
    exact ⟨Bool.eq_false_iff.mpr fun h => hno (.inl h), Bool.eq_false_iff.mpr fun h => hno (.inr h)⟩
  rw [htext] at hordinary ⊢
  simp only [isOrdinary, List.map_cons, Glyph.seen, Lexer.isNameStart, Lexer.isNamePart, Bool.and_eq_true,
    Bool.or_eq_true, beq_iff_eq, List.all_map, List.all_eq_true, Function.comp_apply] at hordinary
  obtain ⟨hfirst, hrest⟩ := hordinary
  simp only [isIdentifier, List.map_cons, Glyph.seen, Bool.and_eq_true, List.all_map, List.all_eq_true,
    Function.comp_apply]
  refine ⟨?_, fun c hc => ?_⟩
  · obtain ⟨hbarred, htrailing⟩ := hfree d List.mem_cons_self
    rcases hfirst with rfl | hletter
    · rfl
    · simp [startsName, hletter, hbarred, htrailing]
  · obtain ⟨hbarred, -⟩ := hfree c (List.mem_cons_of_mem d hc)
    rcases hrest c hc with ((rfl | hletter) | hdigit) | hmark
    · rfl
    · simp [goesOnName, hletter, hbarred]
    · simp [goesOnName, hdigit, hbarred]
    · simp [goesOnName, hmark, hbarred]

/-- What Python makes of the text of an expression. -/
structure ReadBack (e : Expr) (text : Text) (t : Term) : Prop where
  written : exprText e = .ok text
  tree : Term.ofExpr e = some t
  /-- The whole text is read as the same expression if its names are names of Python. -/
  reads : (∀ n ∈ t.names, isIdentifier n = true) → read text = some t
  refused : ∀ n ∈ t.names, isIdentifier n = false → read text = none
  ordinary : ∀ n ∈ t.names, isOrdinary n = true → .char 'ⸯ' ∉ n → isIdentifier n = true
  unchained : t.chained = false
  /-- No number has a dot right behind it. -/
  unglued : ∃ ps, scan text = some ps ∧ glued ps = false

/-- Every expression is written, and Python reads the whole text as the same expression, or refuses it because of a
name. It has no chained comparison, and no number with a dot right behind it. -/
theorem read_exprText {e : Expr} (h : e.IsPlain) : ∃ text t, ReadBack e text t := by
  obtain ⟨w, ps, t, hw, ht, hs, hnamed, hspells⟩ := isSpelled e h
  have hscan : scan w.text = some ps := by simpa [scan_nil] using hspells.scans [] (behind_nil _)
  have hreads : term .or (ps ++ []) = some (t, []) := hspells.reads.whole .or hs (by simp [Stops])
  rw [List.append_nil] at hreads
  refine ⟨w.text, t, by rw [exprText, hw]; rfl, ht, fun hnames => ?_, fun n hn hno => ?_, fun n hn => ?_,
    chained_ofExpr e ht, ps, hscan, hspells.unglued⟩
  · rw [read, hscan, Option.bind_some, if_pos (by rwa [hspells.names, List.all_eq_true]), readPieces, hreads]
  · rw [read, hscan, Option.bind_some, if_neg]
    rw [hspells.names, List.all_eq_true]
    exact fun hall => absurd (hall n hn) (by simp [hno])
  · exact isIdentifier_of_isOrdinary (hnamed n hn)

theorem produced_of_any {kind : Kind} {text : Text} (source : Text)
    (h : (tokenize source).toOption.any (fun ts => ts.any fun t => t.kind == kind && t.text == text) = true) :
    Produced kind text := by
  cases htokens : tokenize source with
  | error e => simp [htokens, Except.toOption] at h
  | ok tokens =>
    simp only [htokens, Except.toOption, Option.any_some, List.any_eq_true, Bool.and_eq_true, beq_iff_eq] at h
    obtain ⟨t, ht, hkind, htext⟩ := h
    exact ⟨source, tokens, htokens, t, ht, hkind, htext⟩

/-- Two comparisons, one inside the other, and a member of a number: `(a < b) < (7).c`. -/
def nestedComparison : Expr :=
  .binary default .less
    (.binary default .less (.name default "a") (.name default "b"))
    (.member default (.literal default (.number "007")) "c")

theorem isPlain_nestedComparison : nestedComparison.IsPlain := by
  have hname : ∀ name ∈ [("a" : Text), "b", "c"], IsPlainName name := by
    intro name hname
    simp only [List.mem_cons, List.not_mem_nil, or_false] at hname
    rcases hname with rfl | rfl | rfl
    · exact ⟨produced_of_any "a" (by decide +kernel), by decide +kernel⟩
    · exact ⟨produced_of_any "b" (by decide +kernel), by decide +kernel⟩
    · exact ⟨produced_of_any "c" (by decide +kernel), by decide +kernel⟩
  have hdigits : Produced .number "007" := produced_of_any "007" (by decide +kernel)
  exact ⟨by decide, ⟨by decide, hname _ (by simp), hname _ (by simp)⟩, hdigits, hname _ (by simp)⟩

theorem read_exprText_nestedComparison :
    nestedComparison.IsPlain ∧ exprText nestedComparison = .ok "(a < b) < (7).c" ∧
      ∃ t, Term.ofExpr nestedComparison = some t ∧ read "(a < b) < (7).c" = some t ∧ t.chained = false := by
  have hwritten : exprText nestedComparison = .ok "(a < b) < (7).c" := rfl
  obtain ⟨text, t, hread⟩ := read_exprText isPlain_nestedComparison
  cases hwritten.symm.trans hread.written
  have hnames : t.names = [("a" : Text), "b", "c"] := by
    rw [← Option.some.inj hread.tree]
    rfl
  refine ⟨isPlain_nestedComparison, hwritten, t, hread.tree, hread.reads ?_, hread.unchained⟩
  rw [hnames]
  decide +kernel

/-- The raised tilde U+2E2F is a letter, and so a name, but none that Python reads. -/
theorem read_raisedTilde :
    Expr.IsPlain (.name default "ⸯ") ∧ exprText (.name default "ⸯ") = .ok "ⸯ" ∧
      isOrdinary "ⸯ" = true ∧ isIdentifier "ⸯ" = false ∧ read "ⸯ" = none := by
  have hplain : Expr.IsPlain (.name default "ⸯ") := ⟨produced_of_any "ⸯ" (by decide +kernel), by decide +kernel⟩
  have hno : isIdentifier "ⸯ" = false := by decide +kernel
  have hscan : scan ("ⸯ" : String) = some [.name "ⸯ"] := by
    have hends : Ends [] := (behind_nil false).ends
    have h := scan_name (isName_of_produced hplain.1) hplain.2 hends
    rwa [List.append_nil, scan_nil] at h
  refine ⟨hplain, rfl, by decide +kernel, hno, ?_⟩
  rw [read, hscan, Option.bind_some, if_neg]
  simp [namesIn, Piece.name?, hno]

end Python

end Anadil
