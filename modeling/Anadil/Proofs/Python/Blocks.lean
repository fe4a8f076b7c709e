import Anadil.Compile
import Anadil.Proofs.Python.Layout
import Anadil.Proofs.Python.Scanning
import Anadil.Proofs.Python.Scoping

/-! # Blocks read back

The Python text of a source shows the tree of its statements: each statement and each clause stands on a
line of its own behind the blanks of its depth, and Python finds the same blocks by the indentation
(`readBlocks_generate`). -/

namespace Anadil.Python

open Anadil.Parser

variable {ts : List Text} {t : Text} {cs : List Code} {ns : List Node}

/-! ### Texts on one line -/

/-- A line that opens no block. -/
def IsSimple (code : Text) : Prop := Tidy code ∧ opensBlock code = false

/-- A line that opens a block. -/
def IsHead (code : Text) : Prop := Tidy code ∧ opensBlock code = true

instance : DecidablePred IsSimple := fun _ => inferInstanceAs (Decidable (_ ∧ _))

instance : DecidablePred IsHead := fun _ => inferInstanceAs (Decidable (_ ∧ _))

section Texts
variable {a b : Text}

theorem opensBlock_append (hb : b ≠ []) : opensBlock (a ++ b) = opensBlock b := by
  rw [opensBlock, opensBlock, List.getLast?_append, List.getLast?_eq_some_getLast hb, Option.some_or]

theorem Tidy.append (ha : Tidy a) (hb : ∀ g ∈ b, isPrintable g = true) : Tidy (a ++ b) := by
  obtain ⟨g, rest, rfl, hg⟩ := ha.eq_cons
  exact ⟨List.forall_mem_append.mpr ⟨ha.printable, hb⟩, g, rfl, hg⟩

theorem IsSimple.append (ha : Tidy a) (hb : IsSimple b) : IsSimple (a ++ b) :=
  ⟨ha.append hb.1.printable, (opensBlock_append hb.1.ne_nil).trans hb.2⟩

theorem IsHead.append (ha : Tidy a) (hb : IsHead b) : IsHead (a ++ b) :=
  ⟨ha.append hb.1.printable, (opensBlock_append hb.1.ne_nil).trans hb.2⟩

/-- A text of printable characters without blanks and colons is simple. -/
theorem isSimple_of_all {p : Glyph → Bool} (hp : ∀ g, p g = true → isPrintable g = true)
    (hblank : p (.char ' ') = false) (hcolon : p (.char ':') = false) (hne : a ≠ [])
    (ha : ∀ g ∈ a, p g = true) : IsSimple a := by
  obtain ⟨g, rest, rfl⟩ := List.exists_cons_of_ne_nil hne
  refine ⟨⟨fun g hg => hp g (ha g hg), g, rfl, ?_⟩, ?_⟩
  · rintro rfl
    exact absurd (ha _ List.mem_cons_self) (by simp [hblank])
  · rw [opensBlock, beq_eq_false_iff_ne]
    intro hlast
    exact absurd (ha _ (List.mem_of_getLast? hlast)) (by simp [hcolon])

theorem printable_join {sep : Text} (hsep : ∀ g ∈ sep, isPrintable g = true)
    (hts : ∀ t ∈ ts, ∀ g ∈ t, isPrintable g = true) : ∀ g ∈ Text.join sep ts, isPrintable g = true := by
  induction ts with
  | nil => simp [Text.join]
  | cons t ts ih =>
    obtain ⟨ht, hts⟩ := List.forall_mem_cons.mp hts
    cases ts with
    | nil => exact ht
    | cons t' ts =>
      rw [Text.join, List.forall_mem_append, List.forall_mem_append]
      · exact ⟨⟨ht, hsep⟩, ih hts⟩
      · exact List.cons_ne_nil t' ts

theorem isSimple_join (hne : ts ≠ []) (hts : ∀ t ∈ ts, IsSimple t) : IsSimple (Text.join ", " ts) := by
  induction ts with
  | nil => exact absurd rfl hne
  | cons t ts ih =>
    obtain ⟨ht, hts⟩ := List.forall_mem_cons.mp hts
    cases ts with
    | nil => exact ht
    | cons t' ts =>
      rw [Text.join]
      · exact IsSimple.append (ht.1.append (by decide)) (ih (List.cons_ne_nil t' ts) hts)
      · exact List.cons_ne_nil t' ts

end Texts

/-! ### Names and literals -/

theorem isPrintable_beyond {c : Char} (h : 0x80 ≤ c.toNat) : isPrintable (.char c) = true := by
  simp only [isPrintable, Bool.and_eq_true, decide_eq_true_eq, bne_iff_ne]
  omega

theorem isPrintable_of_isWordGlyph (g : Glyph) (h : isWordGlyph g = true) : isPrintable g = true := by
  match g with
  | .char c =>
    by_cases hc : c.toNat < 0x80
    · have hp := @Lexer.ascii_all (fun c => !isWordGlyph (.char c) || isPrintable (.char c))
        (by decide +kernel) c hc
      simpa [h] using hp
    · exact isPrintable_beyond (Nat.le_of_not_lt hc)

theorem isSimple_name {name : Text} (h : name.IsName) : IsSimple name := by
  obtain ⟨c, t, rfl, -, hglyphs⟩ := isName_glyphs h
  exact isSimple_of_all isPrintable_of_isWordGlyph (by decide) (by decide) (List.cons_ne_nil _ _) hglyphs

theorem isSimple_digits {digits : Text} (h : digits.IsDigits) : IsSimple digits := by
  obtain ⟨c, t, rfl, -, hglyphs⟩ := isDigits_glyphs h
  exact isSimple_of_all isPrintable_of_isWordGlyph (by decide) (by decide) (List.cons_ne_nil _ _)
    fun g hg => isDigitGlyph_isWordGlyph (hglyphs g hg)

theorem isSimple_number {digits : Text} (h : digits.IsNumeral) : IsSimple (number digits) := by
  rcases h with h | ⟨whole, fraction, hwhole, hfraction, rfl⟩
  · exact isSimple_digits (number_integer h).1
  · rw [number, if_pos (by simp [Glyph.is]), List.append_cons]
    exact IsSimple.append ((isSimple_digits hwhole).1.append (by decide)) (isSimple_digits hfraction)

theorem printable_escapedChar (c : Char) : ∀ g ∈ escapedChar c, isPrintable g = true := by
  by_cases hc : c.toNat < 0x80
  · have hp := @Lexer.ascii_all (fun c => (escapedChar c).all isPrintable) (by decide +kernel) c hc
    exact List.all_eq_true.mp hp
  · unfold escapedChar
    split
    case h_6 =>
      rw [if_neg (by omega), List.forall_mem_singleton]
      exact isPrintable_beyond (Nat.le_of_not_lt hc)
    all_goals decide

theorem isSimple_string (content : Text) : IsSimple (string content) := by
  have hcontent : ∀ g ∈ content.flatMap (fun g => escapedChar g.seen), isPrintable g = true := by
    intro g hg
    obtain ⟨g', -, hg⟩ := List.mem_flatMap.mp hg
    exact printable_escapedChar g'.seen g hg
  have hopen : Tidy [.char '"'] := by decide
  exact IsSimple.append (hopen.append hcontent) (by decide)

/-! ### Expressions -/

/-- The texts of tokens: names and numbers are spelled as such. -/
def spelling : Lexicon := fun kind text =>
  (kind = .identifier → text.IsName) ∧ (kind = .number → text.IsNumeral)

theorem IsSimple.guarded {w : Written} (h : IsSimple w.text) (needed : Bool) : IsSimple (w.guarded needed) := by
  cases needed with
  | false => exact h
  | true =>
    have hopen : Tidy ("(" : Text) := by decide
    exact IsSimple.append (hopen.append h.1.printable) (by decide)

/-- Every operator is printable. -/
theorem printable_operator {kind : Kind} {operator : String} {strength : Strength}
    (h : binaryOperator? kind = some (operator, strength)) : ∀ g ∈ (operator : Text), isPrintable g = true := by
  cases kind <;> cases h <;> decide

/-- Two simple texts with an operator between them are simple, in brackets or not. -/
theorem IsSimple.joined {left right : Written} {operator : String} (strength : Strength)
    (hoperator : ∀ g ∈ (operator : Text), isPrintable g = true) (hl : IsSimple left.text)
    (hr : IsSimple right.text) : IsSimple (joined operator strength left right).text := by
  have hblank : ∀ g ∈ (" " : Text), isPrintable g = true := by decide
  exact IsSimple.append ((((hl.guarded _).1.append hblank).append hoperator).append hblank) (hr.guarded _)

theorem isSimple_leading {kind : Kind} {operand w : Written} (ho : IsSimple operand.text)
    (h : leading kind operand = .ok w) : IsSimple w.text := by
  have hnot : Tidy ("not " : Text) := by decide
  have hminus : Tidy ("-" : Text) := by decide
  unfold leading at h
  split at h <;> cases h
  · exact IsSimple.append hnot (ho.guarded _)
  · exact IsSimple.append hnot (ho.guarded _)
  · exact IsSimple.append hminus (ho.guarded _)

theorem isSimple_literal {v : Literal} (hv : v.Legal spelling) (h : literal v = .ok t) : IsSimple t := by
  unfold literal at h
  split at h <;> cases h
  · exact isSimple_string _
  · exact isSimple_number (hv.2 rfl)
  all_goals decide

/-- The text of a legal expression is simple. -/
def WritesSimply (e : Expr) : Prop :=
  ∀ ctx w, e.Legal spelling ctx → written e = .ok w → IsSimple w.text

theorem printable_writtenArgs {ctx : Context} {args : List Expr}
    (hargs : ∀ e ∈ args, WritesSimply e) (hlegal : exprsLegal spelling ctx args)
    (h : writtenArgs args = .ok ts) : ∀ t ∈ ts, ∀ g ∈ t, isPrintable g = true := by
  induction args generalizing ts with
  | nil =>
    cases h
    simp
  | cons e es ih =>
    obtain ⟨he, hes⟩ := List.forall_mem_cons.mp hargs
    simp only [writtenArgs, bind_eq_ok, pure_eq_ok] at h
    obtain ⟨w, hw, ws, hws, rfl⟩ := h
    exact List.forall_mem_cons.mpr ⟨(he ctx w hlegal.1 hw).1.printable, ih hes hlegal.2 hws⟩

theorem writesSimply (e : Expr) : WritesSimply e := by
  induction e using Expr.induct with
  | binary span op l r ihl ihr =>
    intro ctx w hlegal h
    rw [written] at h
    cases ho : binaryOperator? op with
    | none => simp [ho] at h
    | some o =>
      simp only [ho, bind_eq_ok, pure_eq_ok] at h
      obtain ⟨left, hl, right, hr, rfl⟩ := h
      exact (ihl ctx left hlegal.2.1 hl).joined o.2 (printable_operator ho) (ihr ctx right hlegal.2.2 hr)
  | unary span op e ih =>
    intro ctx w hlegal h
    simp only [written, bind_eq_ok] at h
    obtain ⟨operand, ho, h⟩ := h
    exact isSimple_leading (ih ctx operand hlegal.2 ho) h
  | call span f args ihf ihargs =>
    intro ctx w hlegal h
    simp only [written, bind_eq_ok, pure_eq_ok] at h
    obtain ⟨callee, hf, ts, hts, rfl⟩ := h
    have hargs := printable_writtenArgs ihargs hlegal.2.2 hts
    have hcallee := (ihf ctx callee hlegal.2.1 hf).guarded (callee.strength < Strength.access)
    exact IsSimple.append ((hcallee.1.append (by decide)).append (printable_join (by decide) hargs)) (by decide)
  | member span o name ih =>
    intro ctx w hlegal h
    simp only [written, bind_eq_ok, pure_eq_ok] at h
    obtain ⟨object, ho, rfl⟩ := h
    have hobject := (ih ctx object hlegal.1 ho).guarded (object.strength < Strength.access || isNumber o)
    exact IsSimple.append (hobject.1.append (by decide)) (isSimple_name (hlegal.2.2.1 rfl))
  | name span name =>
    intro ctx w hlegal h
    cases h
    exact isSimple_name (hlegal.2.1 rfl)
  | self span =>
    intro ctx w hlegal h
    cases h
    decide
  | literal span v =>
    intro ctx w hlegal h
    simp only [written, bind_eq_ok, pure_eq_ok] at h
    obtain ⟨t, ht, rfl⟩ := h
    exact isSimple_literal hlegal ht
  | absent => exact fun _ _ h => h.elim

theorem isSimple_exprText {ctx : Context} {e : Expr} (hlegal : e.Legal spelling ctx)
    (h : exprText e = .ok t) : IsSimple t := by
  cases hw : written e with
  | error f => simp [exprText, hw, Except.map] at h
  | ok w =>
    rw [exprText, hw] at h
    cases h
    exact writesSimply e ctx w hlegal hw

/-! ### Statements -/

theorem isBehindIf_of_first {c : Char} {rest : Text} (h : c ≠ 'e') : isBehindIf (.char c :: rest) = false := by
  simp [isBehindIf, Text.ofString, List.isPrefixOf, h, Ne.symm h]

theorem clausesNeat_of_isOpenIf {before head : Text} {cs : List (Clause Node)} (hopen : isOpenIf head = true)
    (h : clausesNeat before cs) : clausesNeat head cs := by
  cases cs with
  | nil => trivial
  | cons c cs => exact ⟨⟨hopen, h.1.2⟩, h.2⟩

theorem isBranch_eq_true (h : Code.isBranch cs = true) :
    ∃ c body otherwise, cs = [.branch c body otherwise] := by
  unfold Code.isBranch at h
  split at h
  · exact ⟨_, _, _, rfl⟩
  · cases h

/-- A branch is written as a block that begins with an `if`. -/
theorem branch_node {c : Expr} {body : List Code} {otherwise : Option (List Code)} {n : Node}
    (h : (Code.branch c body otherwise).node = .ok n) :
    ∃ t ns more, n = .block ⟨"if " ++ t ++ ":", ns⟩ more := by
  cases otherwise with
  | none =>
    simp only [Code.node, bind_eq_ok, pure_eq_ok] at h
    obtain ⟨t, -, ns, -, rfl⟩ := h
    exact ⟨t, ns, [], rfl⟩
  | some cs =>
    simp only [Code.node, bind_eq_ok, pure_eq_ok] at h
    obtain ⟨t, -, ns, -, rest, -, rfl⟩ := h
    exact ⟨t, ns, _, rfl⟩

/-- What is written for the other case of an `if` can be read as its clauses. -/
theorem elseClauses_neat {before : Text} (hopen : isOpenIf before = true)
    (h : Code.nodes cs = .ok ns) (hneat : ns ≠ [] ∧ allNeat ns) :
    clausesNeat before (Node.elseClauses (Code.isBranch cs) ns) := by
  cases hb : Code.isBranch cs with
  | false => exact ⟨⟨hopen, rfl⟩, ⟨(by decide : IsHead ("else:" : Text)), hneat⟩, trivial⟩
  | true =>
    obtain ⟨c, body, otherwise, rfl⟩ := isBranch_eq_true hb
    simp only [Code.nodes, bind_eq_ok, pure_eq_ok] at h
    obtain ⟨n, hn, _, rfl, rfl⟩ := h
    obtain ⟨t, ns, more, rfl⟩ := branch_node hn
    obtain ⟨⟨-, ⟨hhead, hbody⟩, hmore⟩, -⟩ := hneat.2
    -- an `if` that becomes an `elif` keeps its body, and what stood behind it still may
    have hel : Tidy ("el" : Text) := by decide
    have helif : IsHead ("el" ++ (("if " : Text) ++ t ++ ":")) := IsHead.append hel hhead
    exact ⟨⟨hopen, rfl⟩, ⟨helif, hbody⟩, clausesNeat_of_isOpenIf rfl hmore⟩

theorem orPass_neat (hcs : ∀ ns, Code.nodes cs = .ok ns → allNeat ns)
    (h : Code.nodes (Code.orPass cs) = .ok ns) : ns ≠ [] ∧ allNeat ns := by
  cases cs with
  | nil =>
    cases h
    exact ⟨by simp, (by decide : IsSimple ("pass" : Text)), trivial⟩
  | cons c cs =>
    have hne : ns ≠ [] := by
      simp only [Code.orPass, Code.nodes, bind_eq_ok, pure_eq_ok] at h
      obtain ⟨n, -, ns, -, rfl⟩ := h
      exact List.cons_ne_nil n ns
    exact ⟨hne, hcs ns h⟩

theorem allNeat_append {ms : List Node} (hms : allNeat ms) (hns : allNeat ns) : allNeat (ms ++ ns) := by
  rw [allNeat_iff] at hms hns ⊢
  exact List.forall_mem_append.mpr ⟨hms, hns⟩

section Statements
variable {style : Style} {outer : List Scope} {ctx : Context}

/-- A statement of a legal program is written as a neat tree. -/
def WritesNeatly (style : Style) (s : Stmt) : Prop :=
  ∀ outer ctx n, s.Legal spelling ctx → (Code.ofStmt style outer s).node = .ok n → n.IsNeat

/-- The lines of legal statements can be read back as blocks. -/
theorem stmts_neat {ss : List Stmt} (hss : ∀ s ∈ ss, WritesNeatly style s)
    (hlegal : stmtsLegal spelling ctx ss) (h : Code.nodes (Code.ofStmts style outer ss) = .ok ns) :
    allNeat ns := by
  induction ss generalizing ns with
  | nil =>
    cases h
    trivial
  | cons s ss ih =>
    obtain ⟨hs, hss⟩ := List.forall_mem_cons.mp hss
    simp only [Code.ofStmts, Code.nodes, bind_eq_ok, pure_eq_ok] at h
    obtain ⟨n, hn, ns, hns, rfl⟩ := h
    exact ⟨hs outer ctx n hlegal.1 hn, ih hss hlegal.2 hns⟩

theorem block_neat {ss : List Stmt} (hss : ∀ s ∈ ss, WritesNeatly style s)
    (hlegal : stmtsLegal spelling ctx ss) (h : Code.nodes (Code.orPass (Code.ofStmts style outer ss)) = .ok ns) :
    ns ≠ [] ∧ allNeat ns :=
  orPass_neat (fun _ => stmts_neat hss hlegal) h

theorem isSimple_declared {params : List Text} {body : List Stmt} (hlegal : stmtsLegal spelling ctx body)
    (d : Declaration) : ∀ x ∈ (Scope.ofBody outer params body).declared d, IsSimple x := by
  intro x hx
  obtain ⟨l, hl, hx⟩ := List.mem_flatMap.mp (mem_declared.mp hx).1
  obtain ⟨ctx', -, hlegal⟩ := legal_leavesAll (fun s _ => legalLeaves s) hlegal hl
  unfold Scoping.assigns at hx
  split at hx
  · obtain rfl := List.mem_singleton.mp hx
    exact isSimple_name (hlegal.2.1.2.1 rfl)
  · cases hx

theorem declarations_neat {params : List Text} {body : List Stmt} (hlegal : stmtsLegal spelling ctx body)
    (h : Code.nodes (Code.declarations (Scope.ofBody outer params body)) = .ok ns) : allNeat ns := by
  obtain ⟨ns₁, ns₂, h₁, h₂, rfl⟩ := nodes_append.mp h
  have hglobal : Tidy ("global " : Text) := by decide
  have hnonlocal : Tidy ("nonlocal " : Text) := by decide
  refine allNeat_append ?_ ?_
  · split at h₁
    · cases h₁
      trivial
    · cases h₁
      exact ⟨IsSimple.append hglobal (isSimple_join ‹_› (isSimple_declared hlegal .global)), trivial⟩
  · split at h₂
    · cases h₂
      trivial
    · cases h₂
      exact ⟨IsSimple.append hnonlocal (isSimple_join ‹_› (isSimple_declared hlegal .nonlocal)), trivial⟩

/-- A legal function is written as a block with at least one line in it. -/
theorem function_neat {isMethod : Bool} {f : Function Stmt} {n : Node} (hf : ∀ s ∈ f.body, WritesNeatly style s)
    (hlegal : functionLegal spelling ctx isMethod f)
    (h : (Code.ofFunction style outer isMethod f).node = .ok n) : n.IsNeat := by
  obtain ⟨span, name, params, body⟩ := f
  obtain ⟨⟨-, hname⟩, hparams, -, -, hbody⟩ := hlegal
  have hname : IsSimple (Code.nameOf style isMethod name) := by
    unfold Code.nameOf methodName
    split
    · split
      · decide
      · exact isSimple_name (hname.1 rfl)
    · exact isSimple_name (hname.1 rfl)
  have hparams : ∀ x ∈ Code.paramsOf isMethod params, IsSimple x := by
    have hgiven : ∀ x ∈ params, IsSimple x := fun x hx => isSimple_name ((hparams x hx).2.1 rfl)
    unfold Code.paramsOf
    split
    · exact List.forall_mem_cons.mpr ⟨by decide, hgiven⟩
    · exact hgiven
  simp only [Code.ofFunction, Code.node, bind_eq_ok, pure_eq_ok] at h
  obtain ⟨ns, hns, rfl⟩ := h
  obtain ⟨ns₁, ns₂, h₁, h₂, rfl⟩ := nodes_append.mp hns
  obtain ⟨hne, hneat⟩ := block_neat hf hbody h₂
  have hdef : Tidy ("def " : Text) := by decide
  have hopen := (hdef.append hname.1.printable).append (b := "(") (by decide)
  have hhead : IsHead ("def " ++ Code.nameOf style isMethod name ++ "(" ++
      Text.join ", " (Code.paramsOf isMethod params) ++ "):") :=
    IsHead.append (hopen.append (printable_join (by decide) fun x hx => (hparams x hx).1.printable)) (by decide)
  exact ⟨isBehindIf_of_first (c := 'd') (by decide), ⟨hhead, List.append_ne_nil_of_right_ne_nil _ hne,
    allNeat_append (declarations_neat hbody h₁) hneat⟩, trivial⟩

theorem methods_neat {fs : List (Function Stmt)}
    (hfs : ∀ f ∈ fs, ∀ s ∈ f.body, WritesNeatly style s) (hlegal : methodsLegal spelling ctx fs)
    (h : Code.nodes (Code.ofMethods style outer fs) = .ok ns) : allNeat ns := by
  induction fs generalizing ns with
  | nil =>
    cases h
    trivial
  | cons f fs ih =>
    obtain ⟨hf, hfs⟩ := List.forall_mem_cons.mp hfs
    simp only [Code.ofMethods, Code.nodes, bind_eq_ok, pure_eq_ok] at h
    obtain ⟨n, hn, ns, hns, rfl⟩ := h
    exact ⟨function_neat hf hlegal.1 hn, ih hfs hlegal.2 hns⟩

/-- An `if` is neat if its condition is simple and its clauses follow it. -/
theorem if_neat {more : List (Clause Node)} (ht : IsSimple t)
    (hbody : ns ≠ [] ∧ allNeat ns) (hmore : ∀ before, isOpenIf before = true → clausesNeat before more) :
    (Node.block ⟨"if " ++ t ++ ":", ns⟩ more).IsNeat := by
  have hif : Tidy ("if " : Text) := by decide
  have hhead : IsHead ("if " ++ t ++ ":") := IsHead.append (hif.append ht.1.printable) (by decide)
  exact ⟨isBehindIf_of_first (c := 'i') (by decide), ⟨hhead, hbody⟩, hmore _ rfl⟩

theorem writesNeatly (s : Stmt) : WritesNeatly style s := by
  induction s using Stmt.induct with
  | function f ih => exact fun outer ctx n hlegal h => function_neat ih hlegal h
  | classDef span name methods ih =>
    intro outer ctx n hlegal h
    simp only [Code.ofStmt, Code.node, bind_eq_ok, pure_eq_ok] at h
    obtain ⟨ns, hns, rfl⟩ := h
    have hbody := orPass_neat (fun ns => methods_neat ih hlegal.2.2) hns
    have hclass : Tidy ("class " : Text) := by decide
    have hname := isSimple_name (hlegal.2.1.1 rfl)
    exact ⟨isBehindIf_of_first (c := 'c') (by decide),
      ⟨IsHead.append (hclass.append hname.1.printable) (by decide), hbody⟩, trivial⟩
  | branch span c body ih =>
    intro outer ctx n hlegal h
    simp only [Code.ofStmt, Code.node, bind_eq_ok, pure_eq_ok] at h
    obtain ⟨t, ht, ns, hns, rfl⟩ := h
    exact if_neat (isSimple_exprText hlegal.1 ht) (block_neat ih hlegal.2 hns) fun _ _ => trivial
  | branchElse span c body otherwise ih ih' =>
    intro outer ctx n hlegal h
    simp only [Code.ofStmt, Code.node, bind_eq_ok, pure_eq_ok] at h
    obtain ⟨t, ht, ns, hns, rest, hrest, rfl⟩ := h
    exact if_neat (isSimple_exprText hlegal.1 ht) (block_neat ih hlegal.2.1 hns)
      fun _ hopen => elseClauses_neat hopen hrest (block_neat ih' hlegal.2.2 hrest)
  | loop span c body ih =>
    intro outer ctx n hlegal h
    simp only [Code.ofStmt, Code.node, bind_eq_ok, pure_eq_ok] at h
    obtain ⟨t, ht, ns, hns, rfl⟩ := h
    have hwhile : Tidy ("while " : Text) := by decide
    have hcondition := isSimple_exprText hlegal.1 ht
    exact ⟨isBehindIf_of_first (c := 'w') (by decide),
      ⟨IsHead.append (hwhile.append hcondition.1.printable) (by decide), block_neat ih hlegal.2 hns⟩, trivial⟩
  | ret span value =>
    intro outer ctx n hlegal h
    cases value with
    | none =>
      cases h
      exact (by decide : IsSimple ("return" : Text))
    | some e =>
      simp only [Code.ofStmt, Code.node, bind_eq_ok, pure_eq_ok] at h
      obtain ⟨t, ht, rfl⟩ := h
      have hreturn : Tidy ("return " : Text) := by decide
      exact IsSimple.append hreturn (isSimple_exprText hlegal.2 ht)
  | print span e =>
    intro outer ctx n hlegal h
    simp only [Code.ofStmt, Code.node, bind_eq_ok, pure_eq_ok] at h
    obtain ⟨t, ht, rfl⟩ := h
    have hprint : Tidy ("print(" : Text) := by decide
    exact IsSimple.append (hprint.append (isSimple_exprText hlegal ht).1.printable) (by decide)
  | expression span e =>
    intro outer ctx n hlegal h
    simp only [Code.ofStmt, Code.node, bind_eq_ok, pure_eq_ok] at h
    obtain ⟨t, ht, rfl⟩ := h
    exact isSimple_exprText hlegal ht
  | assign span target e =>
    intro outer ctx n hlegal h
    simp only [Code.ofStmt, Code.node, bind_eq_ok, pure_eq_ok] at h
    obtain ⟨t, ht, v, hv, rfl⟩ := h
    have htarget := isSimple_exprText hlegal.2.1 ht
    exact IsSimple.append (htarget.1.append (by decide)) (isSimple_exprText hlegal.2.2 hv)
  | breakLoop span =>
    intro outer ctx n hlegal h
    cases h
    exact (by decide : IsSimple ("break" : Text))
  | continueLoop span =>
    intro outer ctx n hlegal h
    cases h
    exact (by decide : IsSimple ("continue" : Text))
  | absent => exact fun _ _ _ h => h.elim

end Statements

/-! ### Programs -/

theorem legal_of_parseSource {source : Text} {p : Program} (h : parseSource source = .ok p) :
    stmtsLegal spelling Context.top p.body := by
  simp only [parseSource, bind_eq_ok, mapError_eq_ok] at h
  obtain ⟨tokens, htokens, hp⟩ := h
  have hspelled := tokenize_spelled htokens
  exact (parse_sound spelling (fun t ht => ⟨(hspelled t ht).name, (hspelled t ht).numeral⟩) hp).2

/-- The Python text of a source has one line for each statement and each clause of the tree, behind the
blanks of its depth and with no other end of a line in it, and its blocks by indentation are the tree. -/
theorem readBlocks_generate {source text : Text} {p : Program} {style : Style} (hp : parseSource source = .ok p)
    (h : generate style p = .ok text) :
    ∃ ns, Code.nodes (Code.ofProgram style p) = .ok ns ∧
      text = (Node.linesAll 0 ns).flatMap (Line.text style.indent.toNat) ∧
      (∀ l ∈ Node.linesAll 0 ns, Tidy l.code) ∧ readBlocks text = some ns := by
  by_cases hindent : style.indent < 1
  · simp [generate, hindent, bind, Except.bind] at h
  · simp only [generate, hindent, ↓reduceIte, bind_eq_ok, pure_eq_ok] at h
    obtain ⟨ls, hls, rfl⟩ := h
    obtain ⟨ns, hns, rfl⟩ := lines_eq hls
    have hneat := stmts_neat (fun s _ => writesNeatly s) (legal_of_parseSource hp) hns
    exact ⟨ns, hns, rfl, fun l hl => (tidy_linesAll 0 hneat l hl).2, readBlocks_lines (by omega) hneat⟩

/-- A class whose initialiser assigns a tab to a variable of the module, in an `elif` chain. -/
def chainSource : Text :=
  "x = 1 sınıf C \x7b fonksiyon kurucu(a) \x7b eğer a < 1 \x7b x = \"\t\" \x7d " ++
    "değilse eğer a \x7b \x7d değilse \x7b dön \x7d \x7d \x7d"

/-- A class whose initialiser declares a name and branches. -/
def chainText : Text :=
  "x = 1\nclass C:\n  def __init__(self, a):\n    global x\n    if a < 1:\n      x = \"\\t\"\n    elif a:\n" ++
    "      pass\n    else:\n      return\n"

theorem readBlocks_generate_chain :
    ∃ p ns, parseSource chainSource = .ok p ∧ generate ⟨2, "kurucu"⟩ p = .ok chainText ∧
      Code.nodes (Code.ofProgram ⟨2, "kurucu"⟩ p) = .ok ns ∧
      chainText = (Node.linesAll 0 ns).flatMap (Line.text 2) ∧
      (∀ l ∈ Node.linesAll 0 ns, Tidy l.code) ∧ readBlocks chainText = some ns := by
  have hrun : ((parseSource chainSource).toOption.bind fun p => (generate ⟨2, "kurucu"⟩ p).toOption) =
      some chainText := by
    decide +kernel
  simp only [Option.bind_eq_some_iff, toOption_eq_some] at hrun
  obtain ⟨p, hp, htext⟩ := hrun
  obtain ⟨ns, hns⟩ := readBlocks_generate hp htext
  exact ⟨p, ns, hp, htext, hns⟩

end Anadil.Python
