import Anadil.Proofs.Json.Spelling
import Anadil.Proofs.Token.Spelling
import Anadil.Proofs.Tree.Induction
import Anadil.Proofs.Tree.Soundness
import Anadil.Tree.Document

/-! # The numbers of a program

The numbers of a tree are those among its tokens, and a document writes them as they are spelled. The
language lets a number start with any zeros, and a document does not. -/

namespace Anadil

/-! ### Spellings -/

/-- A number with a zero in front of another digit. -/
def Text.IsPadded (t : Text) : Prop :=
  ∃ d u, Char.isDigit d = true ∧ t = .char '0' :: .char d :: u

instance : (t : Text) → Decidable t.IsPadded
  | .char c :: .char d :: u =>
    decidable_of_iff (Char.isDigit d = true ∧ c = '0')
      ⟨fun h => ⟨d, u, h.1, by rw [h.2]⟩, by rintro ⟨_, _, hd, ⟨⟩⟩; exact ⟨hd, rfl⟩⟩
  | [] | [_] | .byte _ :: _ | .char _ :: .byte _ :: _ => isFalse (by simp [Text.IsPadded])

namespace Json

variable {t whole fraction rest : Text}

theorem digits_of_isDigits (h : t.IsDigits) (hrest : ∀ g ∈ rest.head?, isDigit g = false) :
    digits (t ++ rest) = (t, rest) := by
  obtain ⟨ds, -, rfl, hds⟩ := h
  have hall : ∀ g ∈ ds.map Glyph.char, isDigit g = true := by
    simpa [isDigit, Glyph.seen] using hds
  have hstop : rest.takeWhile isDigit = [] ∧ rest.dropWhile isDigit = rest := by
    cases rest with
    | nil => exact ⟨rfl, rfl⟩
    | cons g rest => simp [hrest g rfl]
  rw [digits, List.takeWhile_append_of_pos hall, List.dropWhile_append_of_pos hall, hstop.1, hstop.2,
    List.append_nil]

theorem someDigits_of_isDigits (h : t.IsDigits) (lead : Text)
    (hrest : ∀ g ∈ rest.head?, isDigit g = false) :
    someDigits lead (t ++ rest) = .reaches (lead ++ t) rest := by
  have hne : t ≠ [] := by
    obtain ⟨ds, hne, rfl, -⟩ := h
    simpa using hne
  rw [someDigits_eq_reaches, digits_of_isDigits h hrest]
  exact ⟨hne, rfl, rfl⟩

theorem wholePart_of_isDigits (h : whole.IsDigits) (hpadded : ¬ whole.IsPadded)
    (hrest : ∀ g ∈ rest.head?, isDigit g = false) : wholePart (whole ++ rest) = .reaches whole rest := by
  have hsome := someDigits_of_isDigits h [] hrest
  obtain ⟨ds, hne, rfl, hds⟩ := h
  rcases ds with _ | ⟨c, ds⟩
  · exact absurd rfl hne
  rw [List.map_cons, List.cons_append, wholePart]
  by_cases hc : c = '0'
  · subst hc
    rcases ds with _ | ⟨d, ds⟩
    · rfl
    · exact absurd ⟨d, ds.map .char, hds d (by simp), rfl⟩ hpadded
  · rw [if_neg (by simpa [Glyph.is] using Ne.symm hc)]
    exact hsome

theorem fractionPart_of_isDigits (h : fraction.IsDigits) :
    fractionPart (.char '.' :: fraction) = .reaches (.char '.' :: fraction) [] := by
  have hsome := someDigits_of_isDigits h [.char '.'] (fun g (hg : g ∈ ([] : Text).head?) => by cases hg)
  rw [List.append_nil] at hsome
  exact hsome

theorem isPadded_append (h : whole.IsDigits) (hrest : ∀ g ∈ rest.head?, isDigit g = false) :
    (whole ++ rest).IsPadded ↔ whole.IsPadded := by
  constructor
  · rintro ⟨d, u, hd, heq⟩
    obtain ⟨ds, hne, rfl, -⟩ := h
    rcases ds with _ | ⟨c, _ | ⟨c', ds⟩⟩
    · exact absurd rfl hne
    · obtain ⟨-, rfl⟩ := List.cons.inj heq
      have := hrest (.char d) rfl
      simp [isDigit, Glyph.seen, hd] at this
    · simp only [List.map_cons, List.cons_append, List.cons.injEq, Glyph.char.injEq] at heq
      obtain ⟨rfl, rfl, -⟩ := heq
      exact ⟨c', _, hd, rfl⟩
  · rintro ⟨d, u, hd, rfl⟩
    exact ⟨d, u ++ rest, hd, rfl⟩

/-- A numeral without zeros in front goes to its end as a number without a sign. -/
theorem unsigned_of_isNumeral (h : t.IsNumeral) (hpadded : ¬ t.IsPadded) :
    ((wholePart t).andThen fractionPart).andThen exponentPart = .reaches t [] := by
  rcases h with h | ⟨whole, fraction, hwhole, hfraction, rfl⟩
  · have hpart := wholePart_of_isDigits h hpadded (fun g (hg : g ∈ ([] : Text).head?) => by cases hg)
    rw [List.append_nil] at hpart
    simp [hpart, Extent.andThen, fractionPart, exponentPart]
  · have hpoint : ∀ g ∈ (Glyph.char '.' :: fraction).head?, isDigit g = false := by
      rintro g ⟨⟩
      rfl
    rw [isPadded_append hwhole hpoint] at hpadded
    simp [wholePart_of_isDigits hwhole hpadded hpoint, Extent.andThen, fractionPart_of_isDigits hfraction,
      exponentPart]

theorem isNumeral_eq_cons (h : t.IsNumeral) : ∃ d u, Char.isDigit d = true ∧ t = .char d :: u := by
  have hdigits : ∀ {t : Text}, t.IsDigits → ∃ d u, Char.isDigit d = true ∧ t = .char d :: u := by
    rintro t ⟨_ | ⟨d, ds⟩, hne, rfl, hds⟩
    · exact absurd rfl hne
    · exact ⟨d, ds.map .char, hds d List.mem_cons_self, rfl⟩
  rcases h with h | ⟨whole, fraction, hwhole, -, rfl⟩
  · exact hdigits h
  · obtain ⟨d, u, hd, rfl⟩ := hdigits hwhole
    exact ⟨d, u ++ .char '.' :: fraction, hd, rfl⟩

theorem isNumber_of_isNumeral (h : t.IsNumeral) (hpadded : ¬ t.IsPadded) : isNumber t = true := by
  have hextent := unsigned_of_isNumeral h hpadded
  obtain ⟨d, u, hd, rfl⟩ := isNumeral_eq_cons h
  have hminus : Glyph.is '-' (.char d) = false := by
    rw [Glyph.is, beq_eq_false_iff_ne]
    rintro rfl
    cases hd
  simp only [isNumber, numberExtent, hminus, Bool.false_eq_true, ↓reduceIte, hextent, List.isEmpty_nil]

/-- A padded number would have to end behind its first zero. -/
theorem isNumber_of_isPadded (h : t.IsPadded) : isNumber t = false := by
  obtain ⟨d, u, hd, rfl⟩ := h
  have hne : ∀ c : Char, c.isDigit = false → Glyph.is c (.char d) = false := by
    intro c hc
    rw [Glyph.is, beq_eq_false_iff_ne]
    rintro rfl
    rw [hd] at hc
    cases hc
  have hextent : numberExtent (.char '0' :: .char d :: u) = .reaches [.char '0'] (.char d :: u) := by
    simp [numberExtent, wholePart, Glyph.is, Extent.andThen, fractionPart, exponentPart,
      show ('.' == d) = false from hne '.' rfl, show ('e' == d) = false from hne 'e' rfl,
      show ('E' == d) = false from hne 'E' rfl]
  simp [isNumber, hextent]

/-! ### Decimals -/

theorem toDigits_eq_cons {n : Nat} (h : n ≠ 0) : ∃ d ds, Nat.toDigits 10 n = d :: ds ∧ d ≠ '0' := by
  have hsmall : ∀ n < 10, n ≠ 0 → Nat.digitChar n ≠ '0' := by decide
  induction n using Nat.strongRecOn with
  | ind n ih =>
    rw [Nat.toDigits_eq_if (by decide)]
    split
    · rename_i hlt
      exact ⟨_, [], rfl, hsmall n hlt h⟩
    · obtain ⟨d, ds, heq, hd⟩ := ih (n / 10) (by omega) (by omega)
      exact ⟨d, _, by rw [heq, List.cons_append], hd⟩

theorem isDigits_decimal (n : Nat) : (Text.decimal n).IsDigits :=
  ⟨_, Nat.toDigits_ne_nil, rfl, fun _ => Nat.isDigit_of_mem_toDigits (by decide) (by decide)⟩

theorem not_isPadded_decimal (n : Nat) : ¬ (Text.decimal n).IsPadded := by
  rintro ⟨d, u, -, heq⟩
  by_cases hn : n = 0
  · subst hn
    cases heq
  · obtain ⟨c, ds, hdigits, hc⟩ := toDigits_eq_cons hn
    rw [Text.decimal, hdigits, List.map_cons, List.cons.injEq, Glyph.char.injEq] at heq
    exact hc heq.1

theorem isNumber_integer (i : Int) : isNumber (Text.integer i) = true := by
  cases i with
  | ofNat n => exact isNumber_of_isNumeral (.inl (isDigits_decimal n)) (not_isPadded_decimal n)
  | negSucc n =>
    have hextent := unsigned_of_isNumeral (.inl (isDigits_decimal (n + 1))) (not_isPadded_decimal (n + 1))
    have hminus : Glyph.is '-' (.char '-') = true := rfl
    simp only [isNumber, Text.integer, numberExtent, hminus, ↓reduceIte]
    rw [Extent.andThen]
    simp only [hextent, List.isEmpty_nil]

end Json

/-! ### Trees -/

/-- The number that a literal is, if it is one. -/
def Literal.numbers : Literal → List Text
  | .number digits => [digits]
  | _ => []

mutual

/-- The numbers of an expression, in the order of its document. -/
def Expr.numbers : Expr → List Text
  | .binary _ _ l r => l.numbers ++ r.numbers
  | .unary _ _ e => e.numbers
  | .call _ f args => exprsNumbers args ++ f.numbers
  | .member _ o _ => o.numbers
  | .literal _ v => v.numbers
  | .name .. | .self _ | .absent => []

/-- The numbers in expressions, in order. -/
def exprsNumbers : List Expr → List Text
  | [] => []
  | e :: es => e.numbers ++ exprsNumbers es

end

mutual

/-- The numbers of a statement, in the order of its document. -/
def Stmt.numbers : Stmt → List Text
  | .function f => functionNumbers f
  | .classDef _ _ methods => methodsNumbers methods
  | .branch _ c body none => c.numbers ++ stmtsNumbers body
  | .branch _ c body (some otherwise) => c.numbers ++ stmtsNumbers otherwise ++ stmtsNumbers body
  | .loop _ c body => stmtsNumbers body ++ c.numbers
  | .ret _ (some e) => e.numbers
  | .print _ e | .expression _ e => e.numbers
  | .assign _ target e => target.numbers ++ e.numbers
  | .ret _ none | .breakLoop _ | .continueLoop _ | .absent => []

/-- The numbers in statements, in order. -/
def stmtsNumbers : List Stmt → List Text
  | [] => []
  | s :: ss => s.numbers ++ stmtsNumbers ss

/-- The numbers in a function, in order. -/
def functionNumbers : Function Stmt → List Text
  | ⟨_, _, _, body⟩ => stmtsNumbers body

/-- The numbers in methods, in order. -/
def methodsNumbers : List (Function Stmt) → List Text
  | [] => []
  | f :: fs => functionNumbers f ++ methodsNumbers fs

end

/-! ### Tokens -/

/-- The numbers among tokens. -/
def Token.numbers (ts : List Token) : List Text := (ts.filter (·.kind = .number)).map (·.text)

section Tokens
variable {n : Text} {t : Token} {ts us : List Token}

theorem mem_numbers_cons : n ∈ Token.numbers (t :: ts) ↔ t.kind = .number ∧ n = t.text ∨ n ∈ Token.numbers ts := by
  by_cases h : t.kind = .number <;> simp [Token.numbers, h]

theorem mem_numbers_append : n ∈ Token.numbers (ts ++ us) ↔ n ∈ Token.numbers ts ∨ n ∈ Token.numbers us := by
  simp [Token.numbers]

end Tokens

namespace Grammar

/-- The numbers in a part of a program, in order. -/
def Part.numbers : Part → List Text
  | .program p => stmtsNumbers p.body
  | .statements body | .block body => stmtsNumbers body
  | .statement s | .branch s => s.numbers
  | .function f => functionNumbers f
  | .methods fs => methodsNumbers fs
  | .params _ | .names _ => []
  | .or e | .and e | .not e | .comparison e | .sum e | .product e | .negation e | .access e | .primary e =>
    e.numbers
  | .args es | .exprs es => exprsNumbers es

section Derivations
attribute [local simp] mem_numbers_cons mem_numbers_append Part.numbers Literal.numbers Expr.numbers exprsNumbers
  Stmt.numbers stmtsNumbers functionNumbers methodsNumbers

/-- A part has the numbers among its tokens: every other token is a mark, a word or a name. -/
theorem Derives.mem_numbers {part : Part} {ts : List Token} (h : Derives part ts) (n : Text) :
    n ∈ part.numbers ↔ n ∈ Token.numbers ts := by
  have hnil : n ∉ Token.numbers [] := List.not_mem_nil
  induction h with
  | orJoin _ ho | andJoin _ ho | comparisonJoin _ ho | sumJoin _ ho | productJoin _ ho | notLead ho =>
    have hne : ∀ {o : Token} {ops : List Kind}, o.kind ∈ ops → .number ∉ ops → o.kind ≠ .number := by
      rintro o ops ho hops heq
      exact hops (heq ▸ ho)
    have := hne ho (by decide)
    simp_all
  | branchElse | branchElseIf | loop | call =>
    -- a document has these parts in another order than the source
    simp_all [or_comm]
  | _ => simp_all

end Derivations

end Grammar

/-! ### Documents -/

namespace Json

/-- A spelling that a document cannot write. -/
def isUnfit (n : Text) : Bool := !(n.isEmpty || isNumber n)

theorem isUnfit_iff {n : Text} (h : n.IsNumeral) : isUnfit n = true ↔ n.IsPadded := by
  constructor
  · intro hunfit
    refine Classical.byContradiction fun hpadded => ?_
    rw [isUnfit, isNumber_of_isNumeral h hpadded, Bool.or_true] at hunfit
    cases hunfit
  · rintro hpadded
    rw [isUnfit, isNumber_of_isPadded hpadded]
    obtain ⟨d, u, -, rfl⟩ := hpadded
    rfl

/-- A value whose first number that cannot be written is the first such among numbers. -/
def Bears (v : Json) (numbers : List Text) : Prop := v.firstBadNumber = numbers.find? isUnfit

/-- Values whose first number that cannot be written is the first such among numbers. -/
def BearAll (vs : List Json) (numbers : List Text) : Prop := firstBadItem vs = numbers.find? isUnfit

theorem Bears.cons {v : Json} {vs : List Json} {numbers more : List Text} (hv : v.Bears numbers)
    (hvs : BearAll vs more) : BearAll (v :: vs) (numbers ++ more) := by
  rw [BearAll, firstBadItem, hv, hvs, List.find?_append]

theorem bears_number (n : Text) : (number n).Bears [n] := by
  cases hn : n.isEmpty || isNumber n <;> simp [Bears, firstBadNumber, isUnfit, hn]

end Json

namespace Document
open Anadil.Json Anadil.Parser

section Nodes
variable {known : Lexicon} {ctx : Context} (p : Bool) (s : Span)

-- positions can be written, so a node bears what its own fields do, in the order of their names
attribute [local simp] node field sortFields putField firstBadNumber firstBadField isNumber_integer
  List.find?_append

theorem bears_literal {v : Literal} (h : v.Legal known) :
    ∃ kind value, literal v = .ok (kind, value) ∧
      Bears (node p .literal s [field "kind" (.string kind), field "value" value]) v.numbers := by
  cases v with
  | number digits =>
    have hdigits := bears_number digits
    refine ⟨_, _, rfl, ?_⟩
    cases p <;> simp_all +decide [Literal.numbers, Bears]
  | other k => cases h
  | _ =>
    refine ⟨_, _, rfl, ?_⟩
    cases p <;> simp +decide [Literal.numbers, Bears]

/-- The document of an expression can be made and bears its numbers. -/
def ExprBears (e : Expr) : Prop := ∃ v, expr p e = .ok v ∧ v.Bears e.numbers

theorem exprs_bear {es : List Expr} (h : ∀ e ∈ es, ExprBears p e) :
    ∃ vs, exprs p es = .ok vs ∧ BearAll vs (exprsNumbers es) := by
  induction es with
  | nil => exact ⟨[], rfl, rfl⟩
  | cons e es ih =>
    obtain ⟨⟨v, hv, hbears⟩, hes⟩ := List.forall_mem_cons.mp h
    obtain ⟨vs, hvs, hall⟩ := ih hes
    exact ⟨v :: vs, bind_eq_ok.mpr ⟨v, hv, bind_eq_ok.mpr ⟨vs, hvs, rfl⟩⟩, hbears.cons hall⟩

theorem exprBears {e : Expr} (h : e.Legal known ctx) : ExprBears p e := by
  induction e using Expr.induct with
  | binary s op l r ihl ihr =>
    obtain ⟨left, hl, hleft⟩ := ihl h.2.1
    obtain ⟨right, hr, hright⟩ := ihr h.2.2
    refine ⟨_, bind_eq_ok.mpr ⟨left, hl, bind_eq_ok.mpr ⟨right, hr, rfl⟩⟩, ?_⟩
    cases p <;> simp_all +decide [Bears, Expr.numbers]
  | unary s op e ih =>
    obtain ⟨operand, he, hoperand⟩ := ih h.2
    refine ⟨_, bind_eq_ok.mpr ⟨operand, he, rfl⟩, ?_⟩
    cases p <;> simp_all +decide [Bears, Expr.numbers]
  | call s f args ihf ihargs =>
    obtain ⟨callee, hf, hcallee⟩ := ihf h.2.1
    obtain ⟨vs, hargs, hvs⟩ := exprs_bear p fun e he => ihargs e he (exprsLegal_iff.mp h.2.2 e he)
    refine ⟨_, bind_eq_ok.mpr ⟨callee, hf, bind_eq_ok.mpr ⟨vs, hargs, rfl⟩⟩, ?_⟩
    cases p <;> simp_all +decide [Bears, BearAll, Expr.numbers]
  | member s o name ih =>
    obtain ⟨object, ho, hobject⟩ := ih h.1
    refine ⟨_, bind_eq_ok.mpr ⟨object, ho, rfl⟩, ?_⟩
    cases p <;> simp_all +decide [Bears, Expr.numbers]
  | name s n => exact ⟨_, rfl, by cases p <;> simp +decide [Bears, Expr.numbers]⟩
  | self s => exact ⟨_, rfl, by cases p <;> simp +decide [Bears, Expr.numbers]⟩
  | literal s v =>
    obtain ⟨kind, value, hv, hbears⟩ := bears_literal p s h
    exact ⟨_, bind_eq_ok.mpr ⟨_, hv, rfl⟩, hbears⟩
  | absent => cases h

/-- The document of a statement that is legal in a context can be made and bears its numbers. -/
def StmtBears (known : Lexicon) (s : Stmt) : Prop :=
  ∀ ctx, s.Legal known ctx → ∃ v, stmt p s = .ok v ∧ v.Bears s.numbers

theorem stmts_bear {ss : List Stmt} (h : ∀ s ∈ ss, StmtBears p known s) (hlegal : stmtsLegal known ctx ss) :
    ∃ vs, stmts p ss = .ok vs ∧ BearAll vs (stmtsNumbers ss) := by
  induction ss with
  | nil => exact ⟨[], rfl, rfl⟩
  | cons s ss ih =>
    obtain ⟨hs, hss⟩ := List.forall_mem_cons.mp h
    obtain ⟨v, hv, hbears⟩ := hs ctx hlegal.1
    obtain ⟨vs, hvs, hall⟩ := ih hss hlegal.2
    exact ⟨v :: vs, bind_eq_ok.mpr ⟨v, hv, bind_eq_ok.mpr ⟨vs, hvs, rfl⟩⟩, hbears.cons hall⟩

/-- The tree of a function bears the numbers of its body. -/
theorem function_bears {isMethod : Bool} {f : Function Stmt} (h : ∀ s ∈ f.body, StmtBears p known s)
    (hlegal : functionLegal known ctx isMethod f) :
    ∃ v, function p f = .ok v ∧ v.Bears (functionNumbers f) := by
  obtain ⟨-, -, -, -, hbody⟩ := functionLegal_iff.mp hlegal
  obtain ⟨vs, hvs, hall⟩ := stmts_bear p h hbody
  obtain ⟨s, name, params, body⟩ := f
  have hparams : firstBadItem (params.map .string) = none := by
    rw [firstBadItem_eq_none]
    rintro v hv
    obtain ⟨n, -, rfl⟩ := List.mem_map.mp hv
    rfl
  refine ⟨_, bind_eq_ok.mpr ⟨vs, hvs, rfl⟩, ?_⟩
  cases p <;> simp_all +decide [Bears, BearAll, functionNumbers]

theorem functions_bear {fs : List (Function Stmt)} (h : ∀ f ∈ fs, ∀ s ∈ f.body, StmtBears p known s)
    (hlegal : methodsLegal known ctx fs) :
    ∃ vs, functions p fs = .ok vs ∧ BearAll vs (methodsNumbers fs) := by
  induction fs with
  | nil => exact ⟨[], rfl, rfl⟩
  | cons f fs ih =>
    obtain ⟨hf, hfs⟩ := List.forall_mem_cons.mp h
    obtain ⟨v, hv, hbears⟩ := function_bears p hf hlegal.1
    obtain ⟨vs, hvs, hall⟩ := ih hfs hlegal.2
    exact ⟨v :: vs, bind_eq_ok.mpr ⟨v, hv, bind_eq_ok.mpr ⟨vs, hvs, rfl⟩⟩, hbears.cons hall⟩

theorem stmtBears (s : Stmt) : StmtBears p known s := by
  induction s using Stmt.induct with
  | function f ih => exact fun ctx h => function_bears p ih h
  | classDef s name fs ih =>
    intro ctx h
    obtain ⟨vs, hvs, hall⟩ := functions_bear p ih h.2.2
    refine ⟨_, bind_eq_ok.mpr ⟨vs, hvs, rfl⟩, ?_⟩
    cases p <;> simp_all +decide [Bears, BearAll, Stmt.numbers]
  | branch s c body ih =>
    intro ctx h
    obtain ⟨condition, hc, hcondition⟩ := exprBears p h.1
    obtain ⟨vs, hvs, hall⟩ := stmts_bear p ih h.2
    refine ⟨_, bind_eq_ok.mpr ⟨condition, hc, bind_eq_ok.mpr ⟨vs, hvs, rfl⟩⟩, ?_⟩
    cases p <;> simp_all +decide [Bears, BearAll, Stmt.numbers]
  | branchElse s c body otherwise ih ih' =>
    intro ctx h
    obtain ⟨condition, hc, hcondition⟩ := exprBears p h.1
    obtain ⟨vs, hvs, hall⟩ := stmts_bear p ih h.2.1
    obtain ⟨ws, hws, hall'⟩ := stmts_bear p ih' h.2.2
    refine ⟨_, bind_eq_ok.mpr ⟨condition, hc, bind_eq_ok.mpr ⟨vs, hvs, bind_eq_ok.mpr ⟨ws, hws, rfl⟩⟩⟩, ?_⟩
    cases p <;> simp_all +decide [Bears, BearAll, Stmt.numbers]
  | loop s c body ih =>
    intro ctx h
    obtain ⟨condition, hc, hcondition⟩ := exprBears p h.1
    obtain ⟨vs, hvs, hall⟩ := stmts_bear p ih h.2
    refine ⟨_, bind_eq_ok.mpr ⟨condition, hc, bind_eq_ok.mpr ⟨vs, hvs, rfl⟩⟩, ?_⟩
    cases p <;> simp_all +decide [Bears, BearAll, Stmt.numbers]
  | ret s value =>
    intro ctx h
    cases value with
    | none => exact ⟨_, rfl, by cases p <;> simp +decide [Bears, Stmt.numbers]⟩
    | some e =>
      obtain ⟨value, he, hvalue⟩ := exprBears p h.2
      refine ⟨_, bind_eq_ok.mpr ⟨value, he, rfl⟩, ?_⟩
      cases p <;> simp_all +decide [Bears, Stmt.numbers]
  | print s e =>
    intro ctx h
    obtain ⟨value, he, hvalue⟩ := exprBears p h
    refine ⟨_, bind_eq_ok.mpr ⟨value, he, rfl⟩, ?_⟩
    cases p <;> simp_all +decide [Bears, Stmt.numbers]
  | expression s e =>
    intro ctx h
    obtain ⟨value, he, hvalue⟩ := exprBears p h
    refine ⟨_, bind_eq_ok.mpr ⟨value, he, rfl⟩, ?_⟩
    cases p <;> simp_all +decide [Bears, Stmt.numbers]
  | assign s target e =>
    intro ctx h
    obtain ⟨place, ht, hplace⟩ := exprBears p h.2.1
    obtain ⟨value, he, hvalue⟩ := exprBears p h.2.2
    refine ⟨_, bind_eq_ok.mpr ⟨place, ht, bind_eq_ok.mpr ⟨value, he, rfl⟩⟩, ?_⟩
    cases p <;> simp_all +decide [Bears, Stmt.numbers]
  | breakLoop s => exact fun ctx h => ⟨_, rfl, by cases p <;> simp +decide [Bears, Stmt.numbers]⟩
  | continueLoop s => exact fun ctx h => ⟨_, rfl, by cases p <;> simp +decide [Bears, Stmt.numbers]⟩
  | absent => exact fun ctx h => h.elim

/-- The document of a legal program can be made, and what it cannot write are numbers of the program. -/
theorem program_bears {q : Program} (h : stmtsLegal known ctx q.body) :
    ∃ v, program p q = .ok v ∧ v.Bears (stmtsNumbers q.body) := by
  obtain ⟨vs, hvs, hall⟩ := stmts_bear p (fun s _ => stmtBears p s) h
  refine ⟨_, bind_eq_ok.mpr ⟨vs, hvs, rfl⟩, ?_⟩
  cases p <;> simp_all +decide [Bears, BearAll]

end Nodes

end Document

end Anadil
