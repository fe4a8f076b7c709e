import Anadil.Proofs.Outcome
import Anadil.Proofs.Text.Normal
import Anadil.Token.Lexer

/-! # How a source is divided

`Shape` says what the pieces of a source look like, whatever stands behind them, and `Scans` how pieces
follow one another: white space and comments, then a token, and so on up to the end. A source has the
tokens that `tokenize` gives exactly when `Scans` says so. -/

namespace Anadil

theorem Place.afterAll_append (p : Place) (cells cells' : List Cell) :
    p.afterAll (cells ++ cells') = (p.afterAll cells).afterAll cells' := List.foldl_append

namespace Lexer

variable {c : Cell} {kind : Kind} {front rest cs : List Cell}

/-! ### Shapes -/

/-- What a piece of a kind looks like. -/
inductive Shape : Kind → List Cell → Prop
  | space {c : Cell} {cs : List Cell} (hc : Text.isSpace c.seen = true)
      (hcs : ∀ d ∈ cs, Text.isSpace d.seen = true) : Shape .space (c :: cs)
  | comment {c : Cell} {cs : List Cell} (hc : c.seen = '/') (hcs : ∀ d ∈ cs, d.seen ≠ '\n') :
      Shape .comment (c :: cs)
  | name {c : Cell} {cs : List Cell} (hc : isNameStart c.seen = true)
      (hcs : ∀ d ∈ cs, isNamePart d.seen = true) : Shape .identifier (c :: cs)
  | whole {c : Cell} {cs : List Cell} (hc : isDigit c.seen = true)
      (hcs : ∀ d ∈ cs, isDigit d.seen = true) : Shape .number (c :: cs)
  | fraction {c point digit : Cell} {cs ds : List Cell} (hc : isDigit c.seen = true)
      (hcs : ∀ d ∈ cs, isDigit d.seen = true) (hpoint : point.seen = '.')
      (hdigit : isDigit digit.seen = true) (hds : ∀ d ∈ ds, isDigit d.seen = true) :
      Shape .number (c :: (cs ++ point :: digit :: ds))
  | string {c quote : Cell} {cs : List Cell} (hc : c.seen = '"')
      (hcs : ∀ d ∈ cs, d.seen ≠ '"' ∧ d.seen ≠ '\n') (hquote : quote.seen = '"') :
      Shape .string (c :: (cs ++ [quote]))
  | double {c d : Cell} {kind : Kind} (h : double? c.seen d.seen = some kind) : Shape kind [c, d]
  | single {c : Cell} {kind : Kind} (h : single? c.seen = some kind) : Shape kind [c]

/-- A piece of a kind stands in front of `rest`. -/
def Piece (kind : Kind) (front rest : List Cell) : Prop :=
  ∃ c cells more, munch c cells = .piece kind more ∧ front = c :: cells.take more ∧
    rest = cells.drop more

/-- The kinds that are no signs. -/
def wordKinds : List Kind := [.space, .comment, .identifier, .number, .string, .endOfInput]

theorem double?_ne {a b : Char} (h : double? a b = some kind) : kind ∉ wordKinds := by
  unfold double? at h
  split at h <;> cases h <;> decide

theorem single?_ne {c : Char} (h : single? c = some kind) : kind ∉ wordKinds := by
  unfold single? at h
  split at h <;> cases h <;> decide

/-- A name by its characters. -/
theorem Shape.of_identifier (h : Shape .identifier front) :
    ∃ c cs, front = c :: cs ∧ isNameStart c.seen = true ∧ ∀ d ∈ cs, isNamePart d.seen = true := by
  cases h with
  | name hc hcs => exact ⟨_, _, rfl, hc, hcs⟩
  | double h => exact (double?_ne h (by decide)).elim
  | single h => exact (single?_ne h (by decide)).elim

theorem take_run (p : Char → Bool) (cells : List Cell) :
    cells.take (run p cells) = cells.takeWhile fun c => p c.seen := by
  induction cells with
  | nil => rfl
  | cons c cells ih =>
    simp only [run, List.takeWhile_cons] at ih ⊢
    split
    · simp [ih]
    · rfl

theorem all_take_run (p : Char → Bool) (cells : List Cell) :
    ∀ d ∈ cells.take (run p cells), p d.seen = true := by
  rw [take_run]
  exact List.all_eq_true.mp List.all_takeWhile

theorem shape_number (hc : isDigit c.seen = true) (rest : List Cell) :
    Shape .number (c :: rest.take (numberRun rest)) := by
  unfold numberRun
  dsimp only
  split
  · rename_i point digit more hdrop
    split
    · rename_i hpoint
      simp only [Bool.and_eq_true, beq_iff_eq] at hpoint
      have htake : rest.take (run isDigit rest + 2 + run isDigit more) =
          rest.take (run isDigit rest) ++ point :: digit :: more.take (run isDigit more) := by
        rw [Nat.add_assoc, List.take_add, hdrop, Nat.add_comm 2]
        rfl
      rw [htake]
      exact .fraction hc (all_take_run _ _) hpoint.1 hpoint.2 (all_take_run _ _)
    · exact .whole hc (all_take_run _ _)
  · exact .whole hc (all_take_run _ _)

theorem Piece.shape (h : Piece kind front rest) : Shape kind front := by
  obtain ⟨c, cells, more, h, rfl, rfl⟩ := h
  unfold munch at h
  dsimp only at h
  split at h
  · cases h
    exact .space ‹_› (all_take_run _ _)
  split at h
  · rename_i hslash
    cases h
    simp only [Bool.and_eq_true, beq_iff_eq] at hslash
    exact .comment hslash.1 fun d hd => bne_iff_ne.mp (all_take_run (· != '\n') cells d hd)
  split at h
  · cases h
    exact .name ‹_› (all_take_run _ _)
  split at h
  · cases h
    exact shape_number ‹_› cells
  split at h
  · rename_i hquote
    split at h
    · rename_i quote behind hdrop
      split at h
      · rename_i hclose
        cases h
        rw [List.take_add, hdrop]
        refine .string (beq_iff_eq.mp hquote) (fun d hd => ?_) (beq_iff_eq.mp hclose)
        have hcontent := all_take_run (fun d => d != '"' && d != '\n') cells d hd
        simpa using hcontent
      · cases h
    · cases h
  split at h
  · rename_i kind' hdouble
    cases h
    obtain ⟨b, hb, hdouble⟩ := Option.bind_eq_some_iff.mp hdouble
    cases cells with
    | nil => cases hb
    | cons d cells =>
      cases hb
      exact .double hdouble
  split at h
  · cases h
    exact .single ‹_›
  · cases h

/-! ### White space

White space starts no piece but its own, and goes on none of the others. -/

theorem ascii_all {p : Char → Bool} (h : (List.range 0x80).all (fun n => p (Char.ofNat n)) = true) {c : Char}
    (hc : c.toNat < 0x80) : p c = true := by
  have := List.all_eq_true.mp h c.toNat (List.mem_range.mpr hc)
  rwa [Char.ofNat_toNat] at this

theorem space_all {p : Char → Bool} (h : Text.spaces.points.all (fun n => p (Char.ofNat n)) = true) {c : Char}
    (hc : Text.isSpace c = true) : p c = true := by
  have hp := List.all_eq_true.mp h c.toNat (Text.Ranges.mem_points hc)
  rwa [Char.ofNat_toNat] at hp

theorem seen_ne_of {p : Char → Bool} {d : Char} (hp : p d = false) (hc : p c.seen = true) : c.seen ≠ d := by
  rintro rfl
  rw [hp] at hc
  cases hc

/-- The characters that signs and string literals are made of. -/
def marks : List Char :=
  ['(', ')', '\x7b', '\x7d', ',', '.', ';', '+', '-', '*', '/', '%', '=', '!', '<', '>', '&', '|', '"']

theorem mark_ne {d : Char} (hd : marks.contains d = false) (hc : c.seen ∈ marks) : c.seen ≠ d :=
  seen_ne_of hd (List.contains_iff_mem.mpr hc)

theorem not_of_isSpace {c : Char} (h : Text.isSpace c = true) :
    isNamePart c = false ∧ isDigit c = false ∧ c ∉ marks := by
  have hp := @space_all (fun c => !isNamePart c && !isDigit c && !marks.contains c) (by decide +kernel) c h
  simpa [and_assoc] using hp

theorem double?_marks {a b : Char} (h : double? a b = some kind) : a ∈ marks ∧ b ∈ marks := by
  unfold double? at h
  split at h <;> cases h <;> decide

theorem single?_mark {c : Char} (h : single? c = some kind) : c ∈ marks := by
  unfold single? at h
  split at h <;> cases h <;> decide

theorem marks_plain :
    marks.all (fun c => !Text.isSpace c && !isNameStart c && !isDigit c) = true := by decide +kernel

theorem not_of_mark {c : Char} (h : c ∈ marks) :
    Text.isSpace c = false ∧ isNameStart c = false ∧ isDigit c = false := by
  have hp := List.all_eq_true.mp marks_plain c h
  simpa [and_assoc] using hp

theorem isNamePart_of_isNameStart {c : Char} (h : isNameStart c = true) : isNamePart c = true := by
  simp only [isNameStart, isNamePart, Bool.or_eq_true] at h ⊢
  exact .inl (.inl h)

theorem not_of_isNameStart {c : Char} (h : isNameStart c = true) : Text.isSpace c = false ∧ c ≠ '/' := by
  refine ⟨Bool.eq_false_iff.mpr fun hspace => ?_, ?_⟩
  · have hpart := isNamePart_of_isNameStart h
    rw [(not_of_isSpace hspace).1] at hpart
    cases hpart
  · rintro rfl
    exact absurd h (by decide)

theorem not_of_isDigit {c : Char} (h : isDigit c = true) :
    Text.isSpace c = false ∧ c ≠ '/' ∧ isNameStart c = false := by
  have hascii : c.toNat < 0x80 := by
    simp only [isDigit, Char.isDigit, Bool.and_eq_true, decide_eq_true_eq, UInt32.le_iff_toNat_le] at h
    exact Nat.lt_of_le_of_lt h.2 (by decide)
  have hp := @ascii_all (fun c => !isDigit c || (!Text.isSpace c && c != '/' && !isNameStart c))
    (by decide +kernel) c hascii
  simpa [h, and_assoc] using hp

/-- What the first character of a piece may be. -/
def isStart (c : Char) : Bool := Text.isSpace c || isNameStart c || isDigit c || marks.contains c

theorem isStart_of_mark {c : Char} (h : c ∈ marks) : isStart c = true := by
  simp [isStart, h]

/-- A piece has a first character, and only white space starts with white space. -/
theorem Shape.head (h : Shape kind front) :
    ∃ c cs, front = c :: cs ∧ isStart c.seen = true ∧ (kind ≠ .space → Text.isSpace c.seen = false) := by
  have hmark : ∀ (c : Cell) (cs : List Cell), c.seen ∈ marks → ∃ d ds, c :: cs = d :: ds ∧
      isStart d.seen = true ∧ (kind ≠ .space → Text.isSpace d.seen = false) := fun c cs hc =>
    ⟨c, cs, rfl, isStart_of_mark hc, fun _ => (not_of_mark hc).1⟩
  cases h with
  | space hc hcs => exact ⟨_, _, rfl, by simp [isStart, hc], fun h => absurd rfl h⟩
  | comment hc hcs => exact hmark _ _ (by rw [hc]; decide)
  | name hc hcs => exact ⟨_, _, rfl, by simp [isStart, hc], fun _ => (not_of_isNameStart hc).1⟩
  | whole hc hcs => exact ⟨_, _, rfl, by simp [isStart, hc], fun _ => (not_of_isDigit hc).1⟩
  | fraction hc => exact ⟨_, _, rfl, by simp [isStart, hc], fun _ => (not_of_isDigit hc).1⟩
  | string hc hcs hquote => exact hmark _ _ (by rw [hc]; decide)
  | double h => exact hmark _ _ (double?_marks h).1
  | single h => exact hmark _ _ (single?_mark h)

/-! ### Pieces with white space behind them -/

theorem run_append {p : Char → Bool} (hcs : ∀ d ∈ cs, p d.seen = true)
    (hrest : ∀ d ∈ rest.head?, p d.seen = false) : run p (cs ++ rest) = cs.length := by
  have hstop : rest.takeWhile (fun c => p c.seen) = [] := by
    cases rest with
    | nil => rfl
    | cons c rest => simp [hrest c rfl]
  unfold run
  rw [List.takeWhile_append_of_pos hcs, hstop, List.append_nil]

theorem piece_of_munch (h : munch c (cs ++ rest) = .piece kind cs.length) : Piece kind (c :: cs) rest :=
  ⟨c, cs ++ rest, cs.length, h, by rw [List.take_left], by rw [List.drop_left]⟩

theorem munch_digit (hc : isDigit c.seen = true) (rest : List Cell) :
    munch c rest = .piece .number (numberRun rest) := by
  obtain ⟨hspace, hslash, hname⟩ := not_of_isDigit hc
  simp [munch, hspace, hslash, hname, hc]

theorem munch_string {quote : Cell} (hc : c.seen = '"')
    (hcs : ∀ d ∈ cs, d.seen ≠ '"' ∧ d.seen ≠ '\n') (hquote : quote.seen = '"') (rest : List Cell) :
    munch c ((cs ++ [quote]) ++ rest) = .piece .string (cs ++ [quote]).length := by
  have hrun : run (fun d => d != '"' && d != '\n') (cs ++ quote :: rest) = cs.length := by
    refine run_append (by simpa using hcs) fun d hd => ?_
    obtain rfl := Option.mem_some.mp hd
    simp [hquote]
  obtain ⟨hspace, hname, hdigit⟩ := not_of_mark (show '"' ∈ marks by decide)
  rw [List.append_assoc, List.singleton_append]
  simp [munch, hc, hspace, hname, hdigit, hrun, hquote]

theorem munch_double {d : Cell} (h : double? c.seen d.seen = some kind) (rest : List Cell) :
    munch c ([d] ++ rest) = .piece kind 1 := by
  obtain ⟨hspace, hname, hdigit⟩ := not_of_mark (double?_marks h).1
  have hquote : c.seen ≠ '"' := by
    intro hc
    rw [hc] at h
    cases h
  have hslash : c.seen ≠ '/' := by
    intro hc
    rw [hc] at h
    cases h
  simp [munch, hspace, hslash, hname, hdigit, hquote, h]

/-- The end of the source, or white space. -/
def Clear (rest : List Cell) : Prop := ∀ c ∈ rest.head?, Text.isSpace c.seen = true

section Clear
variable (hrest : Clear rest)
include hrest

theorem Clear.ahead {d : Char} (hd : rest.head?.map Cell.seen = some d) : Text.isSpace d = true := by
  obtain ⟨c, hc, rfl⟩ := Option.map_eq_some_iff.mp hd
  exact hrest c hc

theorem numberRun_whole (hcs : ∀ d ∈ cs, isDigit d.seen = true) : numberRun (cs ++ rest) = cs.length := by
  have hrun := run_append hcs fun d hd => (not_of_isSpace (hrest d hd)).2.1
  unfold numberRun
  dsimp only
  rw [hrun, List.drop_left]
  split
  · rename_i point digit more
    have hpoint : point.seen ≠ '.' := fun h =>
      (not_of_isSpace (hrest point rfl)).2.2 (by rw [h]; decide)
    simp [hpoint]
  · rfl

theorem numberRun_fraction {ds : List Cell} {point digit : Cell}
    (hcs : ∀ d ∈ cs, isDigit d.seen = true) (hpoint : point.seen = '.') (hdigit : isDigit digit.seen = true)
    (hds : ∀ d ∈ ds, isDigit d.seen = true) :
    numberRun (cs ++ point :: digit :: (ds ++ rest)) = (cs ++ point :: digit :: ds).length := by
  have hfirst : run isDigit (cs ++ point :: digit :: (ds ++ rest)) = cs.length := by
    refine run_append hcs fun d hd => ?_
    obtain rfl := Option.mem_some.mp hd
    rw [hpoint]
    decide
  have hsecond := run_append hds fun d hd => (not_of_isSpace (hrest d hd)).2.1
  unfold numberRun
  dsimp only
  rw [hfirst, List.drop_left]
  dsimp only
  rw [if_pos (by simp [hpoint, hdigit]), hsecond]
  simp only [List.length_append, List.length_cons]
  omega

theorem munch_name (hc : isNameStart c.seen = true)
    (hcs : ∀ d ∈ cs, isNamePart d.seen = true) : munch c (cs ++ rest) = .piece .identifier cs.length := by
  obtain ⟨hspace, hslash⟩ := not_of_isNameStart hc
  have hrun := run_append hcs fun d hd => (not_of_isSpace (hrest d hd)).1
  simp [munch, hspace, hslash, hc, hrun]

/-- A sign of one character goes on into nothing that is white. -/
theorem munch_single (h : single? c.seen = some kind) : munch c rest = .piece kind 0 := by
  obtain ⟨hspace, hname, hdigit⟩ := not_of_mark (single?_mark h)
  have hquote : c.seen ≠ '"' := by
    intro hc
    rw [hc] at h
    cases h
  have hahead : rest.head?.map Cell.seen ≠ some '/' := fun hd =>
    (not_of_isSpace (Clear.ahead hrest hd)).2.2 (by decide)
  have hdouble : (rest.head?.map Cell.seen).bind (double? c.seen) = none := by
    rw [Option.bind_eq_none_iff]
    intro d hd
    cases hpair : double? c.seen d with
    | none => rfl
    | some k => exact absurd (double?_marks hpair).2 (not_of_isSpace (Clear.ahead hrest hd)).2.2
  simp only [munch, hspace, hname, hdigit, hdouble, h]
  simp [hquote, hahead]

/-- What has the shape of a token is one wherever white space or nothing stands behind it. -/
theorem Shape.piece (h : Shape kind front) (hkind : kind.isTrivia = false) : Piece kind front rest := by
  cases h with
  | space => cases hkind
  | comment => cases hkind
  | name hc hcs => exact piece_of_munch (munch_name hrest hc hcs)
  | whole hc hcs =>
    refine piece_of_munch ?_
    rw [munch_digit hc, numberRun_whole hrest hcs]
  | fraction hc hcs hpoint hdigit hds =>
    refine piece_of_munch ?_
    rw [munch_digit hc, List.append_assoc, List.cons_append, List.cons_append,
      numberRun_fraction hrest hcs hpoint hdigit hds]
  | string hc hcs hquote => exact piece_of_munch (munch_string hc hcs hquote rest)
  | double h => exact piece_of_munch (munch_double h rest)
  | single h => exact piece_of_munch (munch_single hrest h)

end Clear

/-! ### Tokens after tokens -/

/-- White space and comments `ls` stand between two places of a source. -/
inductive Skips : Place → List Cell → List Lexeme → Place → List Cell → Prop
  | done (p : Place) (cells : List Cell) : Skips p cells [] p cells
  | piece {p p' : Place} {kind : Kind} {front rest cells : List Cell} {ls : List Lexeme}
      (h : Piece kind front rest) (hkind : kind.isTrivia = true)
      (more : Skips (p.afterAll front) rest ls p' cells) :
      Skips p (front ++ rest) (lexeme kind p front :: ls) p' cells

/-- A source has tokens from a place on. -/
inductive Scans : Place → List Cell → List Token → Prop
  | stop {p p' : Place} {cells : List Cell} {ls : List Lexeme} (h : Skips p cells ls p' []) :
      Scans p cells [endToken p' ls]
  | token {p p' : Place} {kind : Kind} {cells front rest : List Cell} {ls : List Lexeme} {t : Token}
      {ts : List Token} (h : Skips p cells ls p' (front ++ rest)) (piece : Piece kind front rest)
      (hkind : kind.isTrivia = false) (finished : finish (lexeme kind p' front) ls = .ok t)
      (more : Scans (p'.afterAll front) rest ts) : Scans p cells (t :: ts)

section Step
variable {name : Text} {trivia ls : List Lexeme} {p p' : Place} {cells : List Cell} {t : Token}
  {ts : List Token}

theorem Piece.cons (h : Piece kind front rest) : ∃ c cells more, front ++ rest = c :: cells ∧
    munch c cells = .piece kind more ∧ front = c :: cells.take more ∧ rest = cells.drop more := by
  obtain ⟨c, cells, more, h, rfl, rfl⟩ := h
  exact ⟨c, cells, more, by rw [List.cons_append, List.take_append_drop], h, rfl, rfl⟩

theorem next_trivia (h : Piece kind front rest) (hkind : kind.isTrivia = true) (name : Text)
    (trivia : List Lexeme) (p : Place) :
    ∃ log, next name trivia p (front ++ rest) =
      (next name (trivia ++ [lexeme kind p front]) (p.afterAll front) rest).behind log := by
  obtain ⟨c, cells, more, hcells, hmunch, rfl, rfl⟩ := h.cons
  rw [hcells, next, hmunch]
  exact ⟨_, if_pos hkind⟩

theorem next_token (h : Piece kind front rest) (hkind : kind.isTrivia = false) (name : Text)
    (trivia : List Lexeme) (p : Place) :
    (next name trivia p (front ++ rest)).outcome =
        (finish (lexeme kind p front) trivia).mapError (Refusal.mk p) ∧
      (next name trivia p (front ++ rest)).place = p.afterAll front ∧
      (next name trivia p (front ++ rest)).rest = rest := by
  obtain ⟨c, cells, more, hcells, hmunch, rfl, rfl⟩ := h.cons
  rw [hcells, next, hmunch]
  simp only [hkind]
  exact ⟨rfl, rfl, rfl⟩

theorem Skips.passed (h : Skips p cells ls p' rest) :
    ∃ passed, cells = passed ++ rest ∧ p' = p.afterAll passed := by
  induction h with
  | done p cells => exact ⟨[], rfl, rfl⟩
  | @piece p p' kind front rest cells ls h hkind more ih =>
    obtain ⟨passed, rfl, rfl⟩ := ih
    exact ⟨front ++ passed, (List.append_assoc ..).symm, (Place.afterAll_append ..).symm⟩

/-- Passing white space and comments only changes the log and what stands in front of the token. -/
theorem Skips.next (h : Skips p cells ls p' rest) (name : Text) (trivia : List Lexeme) :
    ∃ log, next name trivia p cells = (Lexer.next name (trivia ++ ls) p' rest).behind log := by
  induction h generalizing trivia with
  | done p cells => exact ⟨[], by rw [List.append_nil]; rfl⟩
  | piece h hkind more ih =>
    obtain ⟨log, hlog⟩ := next_trivia h hkind name trivia _
    obtain ⟨log', hlog'⟩ := ih (trivia ++ [_])
    rw [hlog, hlog', List.append_assoc]
    exact ⟨log ++ log', by simp only [Step.behind, List.append_assoc, List.singleton_append]⟩

theorem Shape.kind_ne (h : Shape kind front) : kind ≠ .endOfInput := by
  rintro rfl
  cases h with
  | double h => exact double?_ne h (by decide)
  | single h => exact single?_ne h (by decide)

/-- The kind of a name is one of a reserved word, or `identifier`. -/
theorem ofName_ne (hkeyword : kind ∉ Kind.keywords) (hname : kind ≠ .identifier) (t : Text) :
    Kind.ofName t ≠ kind := by
  unfold Kind.ofName
  cases h : Kind.keywords.find? fun k => (k.spelling : Text) == t with
  | none => exact hname.symm
  | some k =>
    rintro rfl
    exact hkeyword (List.mem_of_find?_eq_some h)

/-- What `finish` keeps of a piece, and that the end of input is none. -/
theorem finish_ok {piece : Lexeme} (h : finish piece trivia = .ok t) :
    t.span = piece.span ∧ t.trivia = trivia ∧ (piece.kind ≠ .endOfInput → t.kind ≠ .endOfInput) := by
  unfold finish at h
  split at h
  · dsimp only at h
    split at h
    · cases h
    · cases h
      exact ⟨rfl, rfl, fun _ => ofName_ne (by decide) (by decide) _⟩
  · cases h
    exact ⟨rfl, rfl, id⟩
  · cases h
    exact ⟨rfl, rfl, id⟩

theorem token_kind_ne (h : Piece kind front rest) (hfinish : finish (lexeme kind p front) trivia = .ok t) :
    t.kind ≠ .endOfInput := (finish_ok hfinish).2.2 h.shape.kind_ne

/-- What a look at the source gives where its last token is. -/
theorem Skips.next_stop (h : Skips p cells ls p' []) (name : Text) :
    (Lexer.next name [] p cells).outcome = .ok (endToken p' ls) := by
  obtain ⟨log, hlog⟩ := h.next name []
  rw [hlog, List.nil_append, Lexer.next]
  rfl

/-- What a look at the source gives where another token is. -/
theorem Skips.next_token (h : Skips p cells ls p' (front ++ rest)) (piece : Piece kind front rest)
    (hkind : kind.isTrivia = false) (finished : finish (lexeme kind p' front) ls = .ok t) (name : Text) :
    (Lexer.next name [] p cells).outcome = .ok t ∧
      (Lexer.next name [] p cells).place = p'.afterAll front ∧
      (Lexer.next name [] p cells).rest = rest := by
  obtain ⟨log, hlog⟩ := h.next name []
  obtain ⟨houtcome, hplace, hrest⟩ := Lexer.next_token piece hkind name ls p'
  rw [hlog, List.nil_append]
  refine ⟨?_, hplace, hrest⟩
  rw [Step.behind, houtcome, finished]
  rfl

/-- A look at the source that gives a token has passed white space and comments to it. -/
theorem next_eq_ok (h : (next name trivia p cells).outcome = .ok t) : ∃ ls p',
    (Skips p cells ls p' [] ∧ t = endToken p' (trivia ++ ls)) ∨
      ∃ kind front rest, Skips p cells ls p' (front ++ rest) ∧ Piece kind front rest ∧
        kind.isTrivia = false ∧ finish (lexeme kind p' front) (trivia ++ ls) = .ok t ∧
        (next name trivia p cells).place = p'.afterAll front ∧ (next name trivia p cells).rest = rest := by
  fun_induction next name trivia p cells with
  | case1 trivia p =>
    cases h
    exact ⟨[], p, .inl ⟨.done p [], by rw [List.append_nil]⟩⟩
  | case2 trivia p c cells kind more hmunch piece log p' hkind ih =>
    have hpiece : Piece kind (c :: cells.take more) (cells.drop more) := ⟨c, cells, more, hmunch, rfl, rfl⟩
    have hcells : c :: cells = (c :: cells.take more) ++ cells.drop more := by
      rw [List.cons_append, List.take_append_drop]
    obtain ⟨ls, q, ih⟩ := ih h
    refine ⟨piece :: ls, q, ?_⟩
    rw [List.append_assoc, List.singleton_append] at ih
    rw [hcells]
    rcases ih with ⟨hskips, ht⟩ | ⟨kind', front, rest, hskips, hrest⟩
    · exact .inl ⟨.piece hpiece hkind hskips, ht⟩
    · exact .inr ⟨kind', front, rest, .piece hpiece hkind hskips, hrest⟩
  | case3 trivia p c cells kind more hmunch piece log p' hkind =>
    have hcells : (c :: cells.take more) ++ cells.drop more = c :: cells := by
      rw [List.cons_append, List.take_append_drop]
    refine ⟨[], p, .inr ⟨kind, c :: cells.take more, cells.drop more, ?_, ⟨c, cells, more, hmunch, rfl, rfl⟩,
      Bool.eq_false_iff.mpr hkind, ?_, rfl, rfl⟩⟩
    · rw [hcells]
      exact .done _ _
    · rw [List.append_nil]
      exact mapError_eq_ok.mp h
  | case4 trivia p c cells more _ => cases h
  | case5 trivia p c cells _ flaw => cases h

theorem Scans.tokensFrom (h : Scans p cells ts) : (tokensFrom name p cells).1 = .ok ts := by
  induction h with
  | stop h =>
    have hnext := h.next_stop name
    rw [Lexer.tokensFrom]
    dsimp only
    split
    · rename_i e he
      rw [hnext] at he
      cases he
    · rename_i t ht
      rw [hnext] at ht
      cases ht
      rfl
  | token h piece hkind finished more ih =>
    obtain ⟨houtcome, hplace, hrest⟩ := h.next_token piece hkind finished name
    have hne := token_kind_ne piece finished
    rw [Lexer.tokensFrom]
    dsimp only
    split
    · rename_i e he
      rw [houtcome] at he
      cases he
    · rename_i t ht
      rw [houtcome] at ht
      cases ht
      rw [dif_neg hne, hplace, hrest, ih]
      rfl

theorem scans_of_tokensFrom (h : (tokensFrom name p cells).1 = .ok ts) : Scans p cells ts := by
  fun_induction Lexer.tokensFrom name p cells generalizing ts with
  | case1 p cells s e => cases h
  | case2 p cells s t hs =>
    rename_i hk
    cases h
    rcases next_eq_ok hs with ⟨ls, p', ⟨hskips, rfl⟩ | ⟨kind, front, rest, -, hpiece, -, hfinish, -⟩⟩
    · exact .stop hskips
    · exact absurd hk (token_kind_ne hpiece hfinish)
  | case3 p cells s t hs hk _ more =>
    rename_i ih
    obtain ⟨ts', hmore, rfl⟩ := map_eq_ok.mp h
    rcases next_eq_ok hs with
      ⟨ls, p', ⟨-, rfl⟩ | ⟨kind, front, rest, hskips, hpiece, hkind, hfinish, hplace, hrest⟩⟩
    · exact absurd rfl hk
    · have hrec := ih hmore
      rw [hplace, hrest] at hrec
      exact .token hskips hpiece hkind hfinish hrec

/-- A token of a source is made of a piece, unless it is the end of input. -/
theorem Scans.made (h : Scans p cells ts) :
    ∀ t ∈ ts, t.kind ≠ .endOfInput → ∃ passed kind front rest trivia, cells = passed ++ (front ++ rest) ∧
      Piece kind front rest ∧ kind.isTrivia = false ∧
      finish (lexeme kind (p.afterAll passed) front) trivia = .ok t := by
  induction h with
  | stop h =>
    intro t ht hkind
    obtain rfl := List.mem_singleton.mp ht
    exact absurd rfl hkind
  | @token p p' kind cells front rest ls t' ts h piece hkind finished more ih =>
    obtain ⟨passed, rfl, rfl⟩ := h.passed
    intro t ht htkind
    rcases List.mem_cons.mp ht with rfl | ht
    · exact ⟨passed, _, _, _, _, rfl, piece, hkind, finished⟩
    · obtain ⟨passed', kind', front', rest', trivia, rfl, hpiece, hkind', hfinish⟩ := ih t ht htkind
      refine ⟨passed ++ (front ++ passed'), kind', front', rest', trivia, ?_, hpiece, hkind', ?_⟩
      · simp only [List.append_assoc]
      · rwa [Place.afterAll_append, Place.afterAll_append]

/-- The tokens that are found are those that follow one another in the source. -/
theorem tokensFrom_eq_ok_iff : (Lexer.tokensFrom name p cells).1 = .ok ts ↔ Scans p cells ts :=
  ⟨scans_of_tokensFrom, Scans.tokensFrom⟩

end Step

end Lexer

theorem tokenize_eq_ok_iff {source : Text} {tokens : List Token} :
    tokenize source = .ok tokens ↔ Lexer.Scans Place.first (Cell.ofText source) tokens :=
  Lexer.tokensFrom_eq_ok_iff

end Anadil
