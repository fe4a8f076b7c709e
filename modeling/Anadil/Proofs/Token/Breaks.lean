import Anadil.Proofs.Text.Lines
import Anadil.Proofs.Token.Positions
import Mathlib.Data.List.Chain

/-! # Where lines end

Lines end in white space only: neither a token nor a comment goes on to another line. So what comes first on a line
is white space or starts a piece, and a character that starts none comes first on no line. -/

namespace Anadil

namespace Cell

theorem seen_ne_newline {g : Glyph} {c : Cell} (hc : c.seen ≠ '\n') (hg : g ∈ c.text) : g ≠ .char '\n' := by
  cases c with
  | glyph g' =>
    obtain rfl := List.mem_singleton.mp hg
    exact fun h => hc (Glyph.seen_eq_newline.mpr h)
  | crlf => exact absurd rfl hc

end Cell

theorem Place.afterAll_line {cells : List Cell} (h : ∀ c ∈ cells, c.seen ≠ '\n') (p : Place) :
    (p.afterAll cells).line = p.line ∧ (p.afterAll cells).column = p.column + cells.length := by
  induction cells generalizing p with
  | nil => exact ⟨rfl, rfl⟩
  | cons c cells ih =>
    obtain ⟨hc, hcells⟩ := List.forall_mem_cons.mp h
    have hafter : p.after c = ⟨p.line, p.column + 1, p.offset + c.width⟩ := if_neg hc
    obtain ⟨hline, hcolumn⟩ := ih hcells (p.after c)
    rw [hafter] at hline hcolumn
    refine ⟨?_, ?_⟩
    · rw [← hline, ← hafter]
      rfl
    · rw [List.length_cons, ← Nat.add_assoc, Nat.add_right_comm, ← hcolumn, ← hafter]
      rfl

namespace Lexer

theorem Shape.oneLine {kind : Kind} {front : List Cell} (h : Shape kind front) (hkind : kind ≠ .space) :
    ∀ c ∈ front, c.seen ≠ '\n' := by
  have hdigit : ∀ c : Cell, isDigit c.seen = true → c.seen ≠ '\n' := fun c => seen_ne_of (by decide)
  have hmark : ∀ c : Cell, c.seen ∈ marks → c.seen ≠ '\n' := fun c => mark_ne (by decide)
  cases h with
  | space => exact absurd rfl hkind
  | comment hc hcs => exact List.forall_mem_cons.mpr ⟨hmark _ (by rw [hc]; decide), hcs⟩
  | name hc hcs =>
    refine List.forall_mem_cons.mpr ⟨seen_ne_of (by decide) hc, fun d hd => ?_⟩
    exact seen_ne_of (by decide) (hcs d hd)
  | whole hc hcs => exact List.forall_mem_cons.mpr ⟨hdigit _ hc, fun d hd => hdigit d (hcs d hd)⟩
  | fraction hc hcs hpoint hfirst hds =>
    refine List.forall_mem_cons.mpr ⟨hdigit _ hc, List.forall_mem_append.mpr ⟨fun d hd => hdigit d (hcs d hd), ?_⟩⟩
    refine List.forall_mem_cons.mpr ⟨hmark _ (by rw [hpoint]; decide), ?_⟩
    exact List.forall_mem_cons.mpr ⟨hdigit _ hfirst, fun d hd => hdigit d (hds d hd)⟩
  | string hc hcs hquote =>
    refine List.forall_mem_cons.mpr ⟨hmark _ (by rw [hc]; decide), List.forall_mem_append.mpr ⟨?_, ?_⟩⟩
    · exact fun d hd => (hcs d hd).2
    · exact List.forall_mem_singleton.mpr (hmark _ (by rw [hquote]; decide))
  | double h =>
    exact List.forall_mem_cons.mpr ⟨hmark _ (double?_marks h).1,
      List.forall_mem_singleton.mpr (hmark _ (double?_marks h).2)⟩
  | single h => exact List.forall_mem_singleton.mpr (hmark _ (single?_mark h))

theorem Shape.blank {front : List Cell} (h : Shape .space front) : ∀ c ∈ front, Text.isSpace c.seen = true := by
  cases h with
  | space hc hcs => exact List.forall_mem_cons.mpr ⟨hc, hcs⟩
  | double h => exact (double?_ne h (by decide)).elim
  | single h => exact (single?_ne h (by decide)).elim

end Lexer

/-! ### What comes first on a line -/

/-- A character comes first on no line of a text. -/
structure Text.Inside (c : Char) (t : Text) : Prop where
  head : t.head? ≠ some (.char c)
  chain : t.IsChain fun g h => g = .char '\n' → h ≠ .char c

namespace Text.Inside
variable {c : Char} {t u : Text}

theorem nil : Inside c [] := ⟨nofun, .nil⟩

theorem append (ht : Inside c t) (hu : Inside c u) : Inside c (t ++ u) := by
  refine ⟨?_, List.isChain_append.mpr ⟨ht.chain, hu.chain, fun g _ h hh _ heq => ?_⟩⟩
  · cases t with
    | nil => exact hu.head
    | cons g t => exact ht.head
  · rw [heq] at hh
    exact hu.head hh

theorem left (h : Inside c (t ++ u)) : Inside c t := by
  refine ⟨fun hhead => h.head ?_, List.IsChain.left_of_append h.chain⟩
  cases t with
  | nil => cases hhead
  | cons g t => exact hhead

theorem of_notMem (h : .char c ∉ t) : Inside c t := by
  refine ⟨fun hhead => h (List.mem_of_head? hhead), ?_⟩
  refine List.Pairwise.isChain (List.pairwise_of_forall_mem_list fun g _ g' hg' _ heq => ?_)
  exact h (heq ▸ hg')

theorem of_oneLine (hhead : t.head? ≠ some (.char c)) (h : ∀ g ∈ t, g ≠ .char '\n') : Inside c t :=
  ⟨hhead, List.Pairwise.isChain (List.pairwise_of_forall_mem_list fun g hg _ _ heq => absurd heq (h g hg))⟩

theorem head_firstLine {g : Glyph} (h : (firstLine t).head? = some g) : t.head? = some g := by
  obtain ⟨rest, hrest⟩ : firstLine t <+: t := List.takeWhile_prefix _
  rw [← hrest]
  cases hline : firstLine t with
  | nil =>
    rw [hline] at h
    cases h
  | cons g' line =>
    rw [hline] at h
    exact h

/-- The lines behind the first start right behind a line feed. -/
theorem parts {parts : List Text} (h : t.IsChain fun g h => g = .char '\n' → h ≠ .char c)
    (hparts : t.splitAt '\n' = firstLine t :: parts) : ∀ l ∈ parts, l.head? ≠ some (.char c) := by
  induction t generalizing parts with
  | nil =>
    cases hparts
    exact List.forall_mem_nil _
  | cons g t ih =>
    obtain ⟨hhead, hchain⟩ := List.isChain_cons.mp h
    obtain ⟨more, hmore⟩ := splitAt_eq_cons t
    by_cases hg : g = .char '\n'
    · subst hg
      rw [splitAt_newline, hmore] at hparts
      obtain ⟨-, rfl⟩ := List.cons.inj hparts
      exact List.forall_mem_cons.mpr ⟨fun hline => hhead _ (head_firstLine hline) rfl rfl, ih hchain hmore⟩
    · rw [splitAt_cons hg hmore] at hparts
      obtain ⟨-, rfl⟩ := List.cons.inj hparts
      exact ih hchain hmore

theorem lines (h : Inside c t) : ∀ l ∈ t.splitAt '\n', l.head? ≠ some (.char c) := by
  obtain ⟨more, hmore⟩ := splitAt_eq_cons t
  rw [hmore]
  exact List.forall_mem_cons.mpr ⟨fun hline => h.head (head_firstLine hline), parts h.chain hmore⟩

end Text.Inside

namespace Lexer

/-- A character that starts no piece comes first on no line of one. -/
theorem Shape.inside {kind : Kind} {front : List Cell} (h : Shape kind front) {c : Char} (hc : isStart c = false) :
    Text.Inside c (Cell.join front) := by
  have hspace : Text.isSpace c = false := by
    simp only [isStart, Bool.or_eq_false_iff] at hc
    exact hc.1.1.1
  by_cases hkind : kind = .space
  · subst hkind
    refine .of_notMem fun hmem => ?_
    obtain ⟨d, hd, hmem⟩ := List.mem_flatMap.mp hmem
    have hblank := h.blank d hd
    cases d with
    | glyph g =>
      obtain rfl := List.mem_singleton.mp hmem
      exact absurd hblank (Bool.eq_false_iff.mp hspace)
    | crlf =>
      have hcrlf : ∀ g ∈ Cell.crlf.text, Text.isSpace g.seen = true := by decide
      exact absurd (hcrlf _ hmem) (Bool.eq_false_iff.mp hspace)
  · refine .of_oneLine (fun hhead => ?_) fun g hg => ?_
    · obtain ⟨d, ds, rfl, hstart, -⟩ := h.head
      have hd : d.seen = c := by
        cases d with
        | glyph g => exact congrArg Glyph.seen (Option.some.inj hhead)
        | crlf => exact absurd rfl (h.oneLine hkind _ List.mem_cons_self)
      rw [hd, hc] at hstart
      cases hstart
    · obtain ⟨d, hd, hmem⟩ := List.mem_flatMap.mp hg
      exact Cell.seen_ne_newline (h.oneLine hkind d hd) hmem

section Source
variable {p p' : Place} {cells rest : List Cell} {ls : List Lexeme} {ts : List Token} {c : Char}

theorem Skips.inside (h : Skips p cells ls p' rest) (hc : isStart c = false) :
    ∃ passed, cells = passed ++ rest ∧ Text.Inside c (Cell.join passed) := by
  induction h with
  | done p cells => exact ⟨[], rfl, .nil⟩
  | piece h hkind more ih =>
    obtain ⟨passed, rfl, hpassed⟩ := ih
    refine ⟨_ ++ passed, (List.append_assoc ..).symm, ?_⟩
    rw [Cell.join_append]
    exact (h.shape.inside hc).append hpassed

theorem Scans.inside (h : Scans p cells ts) (hc : isStart c = false) : Text.Inside c (Cell.join cells) := by
  induction h with
  | stop h =>
    obtain ⟨passed, rfl, hpassed⟩ := h.inside hc
    rwa [List.append_nil]
  | token h piece hkind finished more ih =>
    obtain ⟨passed, rfl, hpassed⟩ := h.inside hc
    rw [Cell.join_append, Cell.join_append]
    exact hpassed.append ((piece.shape.inside hc).append ih)

end Source

end Lexer

/-- A character that starts no piece comes first on no line of a source that has tokens. -/
theorem tokenize_inside {source : Text} {tokens : List Token} (h : tokenize source = .ok tokens) {c : Char}
    (hc : Lexer.isStart c = false) : source.Inside c := by
  have hinside := (tokenize_eq_ok_iff.mp h).inside hc
  rwa [Cell.join_ofText] at hinside

end Anadil
