import Anadil.Pipeline.Export
import Anadil.Proofs.Json.Unique
import Anadil.Proofs.Text.Split
import Mathlib.Data.List.TakeWhile

/-! # Corpora are read back

A corpus has one line for each sample, and what is read of it are the records of the samples. A record is written
with every line break in it escaped, so that its line ends where it is to end, and between the braces at its ends
nothing is trimmed. Lines of white space may stand anywhere between the records. -/

namespace Anadil

namespace Text

variable {ls : List Text} {t : Text}

/-! ### Lines -/

/-- Lines, each with a line feed behind it. -/
def ended (ls : List Text) : Text := ls.flatMap (· ++ [.char '\n'])

/-- A glyph that stays on its line: neither a control character nor one of the separators of lines and paragraphs. -/
def staysOnLine (g : Glyph) : Bool := 0x20 ≤ g.seen.toNat && !(g.is '\u2028' || g.is '\u2029')

theorem splitAt_ended (h : ∀ l ∈ ls, ∀ g ∈ l, g.is '\n' = false) : (ended ls).splitAt '\n' = ls ++ [[]] := by
  induction ls with
  | nil => rfl
  | cons l ls ih =>
    obtain ⟨hl, hls⟩ := List.forall_mem_cons.mp h
    rw [ended, List.flatMap_cons, List.append_assoc, List.singleton_append, splitAt_append,
      splitAt_of_notMem (notMem_iff.mpr hl)]
    exact congrArg (l :: ·) (ih hls)

theorem staysOnLine_ne {g : Glyph} (h : staysOnLine g = true) : g.is '\n' = false := by
  cases g with
  | byte b => rfl
  | char c =>
    refine Bool.eq_false_iff.mpr fun heq => ?_
    obtain rfl : '\n' = c := beq_iff_eq.mp heq
    exact absurd h (by decide)

/-! ### Trimming -/

theorem trim_of_isBlank (h : t.isBlank = true) : t.trim = [] := by
  have hdrop : t.dropWhile (fun g => isSpace g.seen) = [] :=
    List.dropWhile_eq_nil_iff.mpr fun g hg => List.all_eq_true.mp h g hg
  rw [trim, hdrop]
  rfl

theorem trim_between {a b : Char} (ha : isSpace a = false) (hb : isSpace b = false) (t : Text) :
    trim (.char a :: (t ++ [.char b])) = .char a :: (t ++ [.char b]) := by
  rw [trim, List.dropWhile_cons_of_neg (by rw [Glyph.seen, ha]; exact Bool.false_ne_true), trimEnd]
  simp [Glyph.seen, hb]

/-! ### Texts without stray bytes -/

theorem isClean_iff_forall : t.isClean = true ↔ ∀ g ∈ t, isClean [g] = true := by
  simp [isClean]

theorem isClean_trimEnd (h : t.isClean = true) (p : Glyph → Bool) : (t.trimEnd p).isClean = true := by
  refine isClean_iff_forall.mpr fun g hg => isClean_iff_forall.mp h g ?_
  exact List.mem_reverse.mp ((List.dropWhile_sublist p).subset (List.mem_reverse.mp hg))

theorem isClean_of_isBlank (h : t.isBlank = true) : t.isClean = true := by
  refine isClean_iff_forall.mpr fun g hg => ?_
  have hspace := List.all_eq_true.mp h g hg
  cases g with
  | char c => rfl
  | byte b => exact absurd hspace (by decide : ¬ isSpace Glyph.replacement = true)

theorem isClean_ended (h : ∀ l ∈ ls, l.isClean = true) : (ended ls).isClean = true := by
  refine isClean_iff_forall.mpr fun g hg => ?_
  obtain ⟨l, hl, hg⟩ := List.mem_flatMap.mp hg
  exact isClean_iff_forall.mp (Json.isClean_append.mpr ⟨h l hl, rfl⟩) g hg

end Text

namespace Json

theorem staysOnLine_numbered : ∀ n ∈ numbered, ∀ g ∈ Text.hex 4 n, Text.staysOnLine g = true := by decide

theorem staysOnLine_escapedChar (c : Char) : ∀ g ∈ escapedChar c, Text.staysOnLine g = true := by
  unfold escapedChar
  split
  iterate 7 decide
  split
  · rename_i hnumber
    intro g hg
    rcases List.mem_append.mp hg with hg | hg
    · exact (by decide : ∀ g ∈ (("\\u" : String) : Text), Text.staysOnLine g = true) g hg
    · exact staysOnLine_numbered c.toNat (mem_numbered hnumber) g hg
  · rename_i hnumber
    simp only [not_or, Nat.not_lt] at hnumber
    simp [Text.staysOnLine, Glyph.seen, Glyph.is, hnumber.1, Ne.symm hnumber.2.1, Ne.symm hnumber.2.2]

theorem staysOnLine_quoted (s : Text) : ∀ g ∈ quoted s, Text.staysOnLine g = true := by
  intro g hg
  rcases List.mem_append.mp hg with hg | hg
  · rcases List.mem_cons.mp hg with rfl | hg
    · decide
    · obtain ⟨g', -, hg⟩ := List.mem_flatMap.mp hg
      exact staysOnLine_escapedChar g'.seen g hg
  · rw [List.mem_singleton.mp hg]
    decide

theorem readWhole_written {v : Json} (hgood : v.firstBadNumber = none) (hdepth : v.nesting ≤ deepest) :
    readWhole (v.written .compact 0) = .ok v.plain := by
  obtain ⟨c, t, ht, hc⟩ := written_head hgood .compact 0
  have hread : readValue (2 * (v.written .compact 0).length + 2) deepest (v.written .compact 0 ++ []) =
      .ok (v.plain, []) :=
    readsBack (l := .compact) trivial v hgood 0 deepest _ hdepth (Nat.le_add_right _ _) fun g hg => by cases hg
  rw [List.append_nil] at hread
  rw [readWhole, readFirst, ht, skipBlanks_char hc.isBlank]
  dsimp only
  rw [← ht, hread]
  rfl

end Json

namespace Corpus

/-! ### Records -/

/-- The line of a record. -/
def line (r : Record) : Text := (toJson r).written .compact 0

theorem write_eq (rs : List Record) : write rs = Text.ended (rs.map line) := by
  simp only [write, Text.ended, List.flatMap_map]
  rfl

/-- The fields of a record, without the braces. -/
def inner (r : Record) : Text :=
  Text.join "," (Json.writtenFields .compact 1
    [("instruction", .string r.instruction), ("input", .string r.input), ("output", .string r.output)])

theorem line_eq (r : Record) : line r = .char '\x7b' :: (inner r ++ [.char '\x7d']) := by
  simp [line, inner, toJson, Json.written, Json.writtenFields, Json.Layout.enclose, Json.Layout.newLine, Text.ofString]

theorem forall_mem_line {P : Glyph → Prop} (hquoted : ∀ t, ∀ g ∈ Json.quoted t, P g)
    (hmarks : ∀ g ∈ (("\x7b:,\x7d" : String) : Text), P g) (r : Record) : ∀ g ∈ line r, P g := by
  have hfield : ∀ n t : Text, ∀ g ∈ Json.quoted n ++ (":" : String) ++ Json.quoted t, P g := by
    intro n t g hg
    rcases List.mem_append.mp hg with hg | hg
    · rcases List.mem_append.mp hg with hg | hg
      · exact hquoted n g hg
      · exact hmarks g (List.mem_singleton.mp hg ▸ by decide)
    · exact hquoted t g hg
  have hinner : ∀ g ∈ inner r, P g := by
    intro g hg
    rw [inner, Json.writtenFields_eq, List.map_cons, Json.join_cons] at hg
    rcases List.mem_append.mp hg with hg | hg
    · exact hfield _ _ g hg
    · obtain ⟨part, hpart, hg⟩ := List.mem_flatMap.mp hg
      rcases List.mem_append.mp hg with hg | hg
      · exact hmarks g (List.mem_singleton.mp hg ▸ by decide)
      · simp only [List.map_cons, List.map_nil, List.mem_cons, List.not_mem_nil, or_false] at hpart
        rcases hpart with rfl | rfl
        · exact hfield _ _ g hg
        · exact hfield _ _ g hg
  intro g hg
  rw [line_eq] at hg
  rcases List.mem_cons.mp hg with rfl | hg
  · exact hmarks _ (by decide)
  · rcases List.mem_append.mp hg with hg | hg
    · exact hinner g hg
    · exact hmarks g (List.mem_singleton.mp hg ▸ by decide)

theorem staysOnLine_line (r : Record) : ∀ g ∈ line r, Text.staysOnLine g = true :=
  forall_mem_line Json.staysOnLine_quoted (by decide) r

theorem isClean_line (r : Record) : (line r).isClean = true :=
  Text.isClean_iff_forall.mpr
    (forall_mem_line (fun t => Text.isClean_iff_forall.mp (Json.isClean_quoted t)) (by decide) r)

/-- A record without stray bytes. -/
structure Clean (r : Record) : Prop where
  instruction : r.instruction.isClean = true
  input : r.input.isClean = true
  output : r.output.isClean = true

theorem ofJson_plain {r : Record} (h : Clean r) : ofJson (toJson r).plain = .ok r := by
  have hplain : (toJson r).plain = toJson r := by
    rw [toJson, Json.plain, Json.plainFields_eq]
    simp only [List.map_cons, List.map_nil, Json.plain, Text.clean_of_isClean h.instruction,
      Text.clean_of_isClean h.input, Text.clean_of_isClean h.output]
    rfl
  rw [hplain]
  rfl

theorem trim_line (r : Record) : (line r).trim = line r := by
  rw [line_eq]
  exact Text.trim_between (by decide) (by decide) _

theorem decode_line {r : Record} (h : Clean r) : (decode (line r)).bind ofJson = .ok r := by
  have hgood : (toJson r).firstBadNumber = none := rfl
  have hdepth : (toJson r).nesting ≤ Json.deepest := by
    change 1 ≤ 10000
    decide
  rw [decode, line, Json.readWhole_written hgood hdepth]
  exact ofJson_plain h

/-! ### Reading -/

/-- Lines with lines of white space put in, none of which is too long to be read. -/
inductive Spaced : List Text → List Text → Prop where
  | nil : Spaced [] []
  | line (l : Text) {ls ls' : List Text} (h : Spaced ls ls') : Spaced (l :: ls) (l :: ls')
  | blank {b : Text} (hblank : b.isBlank = true) (hone : ∀ g ∈ b, g.is '\n' = false) (hfits : b.width < longestLine)
      {ls ls' : List Text} (h : Spaced ls ls') : Spaced ls (b :: ls')

theorem Spaced.refl : ∀ ls : List Text, Spaced ls ls
  | [] => .nil
  | l :: ls => .line l (Spaced.refl ls)

theorem lines_ended (h : ∀ l ∈ ls, ∀ g ∈ l, g.is '\n' = false) : lines (Text.ended ls) = ls := by
  simp [lines, Text.splitAt_ended h]

/-- Written lines are read back, with blank lines between them or not. -/
theorem readLines_spaced {rs : List Record} (h : Spaced (rs.map line) ls) (hclean : ∀ r ∈ rs, Clean r)
    (hfits : ∀ r ∈ rs, (line r).width < longestLine) (n : Nat) : readLines n ls = (rs, none) := by
  generalize hlines : rs.map line = written at h
  induction h generalizing rs n with
  | nil =>
    rw [List.map_eq_nil_iff.mp hlines]
    rfl
  | line l h ih =>
    obtain ⟨r, rs, rfl, rfl, hrest⟩ := List.map_eq_cons_iff.mp hlines
    obtain ⟨hr, hrs⟩ := List.forall_mem_cons.mp hclean
    obtain ⟨hrfits, hrsfits⟩ := List.forall_mem_cons.mp hfits
    have hfull : (line r).isEmpty = false := by
      rw [line_eq]
      rfl
    rw [readLines, if_neg (Nat.not_le_of_lt hrfits)]
    simp only [trim_line, hfull, decode_line hr, ih hrs hrsfits (n + 1) hrest, Bool.false_eq_true, if_false]
  | blank hblank hone hbfits h ih =>
    rw [readLines, if_neg (Nat.not_le_of_lt hbfits)]
    simp only [Text.trim_of_isBlank hblank, List.isEmpty_nil, if_true]
    exact ih hclean hfits (n + 1) hlines

theorem Spaced.forall {P : Text → Prop} {ls' : List Text} (h : Spaced ls ls') (hlines : ∀ l ∈ ls, P l)
    (hblank : ∀ b : Text, b.isBlank = true → (∀ g ∈ b, g.is '\n' = false) → P b) : ∀ l ∈ ls', P l := by
  induction h with
  | nil => exact hlines
  | line l h ih =>
    obtain ⟨hl, hls⟩ := List.forall_mem_cons.mp hlines
    exact List.forall_mem_cons.mpr ⟨hl, ih hls⟩
  | blank hb hone _ h ih => exact List.forall_mem_cons.mpr ⟨hblank _ hb hone, ih hlines⟩

/-- So is a file of them. -/
theorem read_spaced {rs : List Record} (h : Spaced (rs.map line) ls) (hclean : ∀ r ∈ rs, Clean r)
    (hfits : ∀ r ∈ rs, (line r).width < longestLine) : read (Text.ofBytes (Text.ended ls).bytes) = (rs, none) := by
  have hlines : ∀ l ∈ ls, l.isClean = true ∧ ∀ g ∈ l, g.is '\n' = false := by
    refine h.forall (fun l hl => ?_) fun b hb hone => ⟨Text.isClean_of_isBlank hb, hone⟩
    obtain ⟨r, -, rfl⟩ := List.mem_map.mp hl
    exact ⟨isClean_line r, fun g hg => Text.staysOnLine_ne (staysOnLine_line r g hg)⟩
  rw [Text.ofBytes_of_isClean (Text.isClean_ended fun l hl => (hlines l hl).1), read,
    lines_ended fun l hl => (hlines l hl).2]
  exact readLines_spaced h hclean hfits 1

end Corpus

namespace Pipeline

theorem isClean_formatOutput {code output : Text} (hcode : code.isClean = true) (houtput : output.isClean = true) :
    (Corpus.formatOutput code output).isClean = true :=
  Json.isClean_append.mpr ⟨Json.isClean_append.mpr ⟨Json.isClean_append.mpr ⟨by decide, Text.isClean_trimEnd hcode _⟩,
    by decide⟩, houtput⟩

/-- The records that are listed are those of the samples, if the work is not called off meanwhile. -/
theorem records_eq {s : State} {filter : Store.Filter} {samples : List Store.Sample}
    (hlisted : s.store.listSamples s.context filter = .ok samples) (hlease : s.spend.canceled = false)
    (instruction : Text) :
    records instruction filter s = .ok (samples.map (recordOf (instructionOr instruction))) s.spend := by
  have hlist : explain (Fault.behind "list samples") (ask fun store ctx => store.listSamples ctx filter) s =
      .ok samples s.spend := by
    rw [explain, ask, hlisted]
  unfold records
  simp only [bind, EStateM.bind, hlist]
  change (if (s.spend.canceled && !samples.isEmpty) = true then _ else _ : Work (List Record)) s.spend = _
  rw [hlease]
  rfl

/-- A corpus has one line for each sample, in the order in which they are listed, and none of its lines has a break
inside. Its bytes are read as the records of the samples, and so are they with lines of white space between them. -/
theorem records_readBack {s : State} {filter : Store.Filter} {samples : List Store.Sample} {instruction : Text}
    (hlisted : s.store.listSamples s.context filter = .ok samples) (hlease : s.spend.canceled = false)
    (hinstruction : instruction.isClean = true)
    (hclean : ∀ a ∈ samples, a.request.isClean = true ∧ a.source.isClean = true ∧ a.expected.isClean = true)
    (hfits : ∀ a ∈ samples, (Corpus.line (recordOf (instructionOr instruction) a)).width < Corpus.longestLine) :
    ∃ rs, records instruction filter s = .ok rs s.spend ∧ rs = samples.map (recordOf (instructionOr instruction)) ∧
      (Corpus.write rs).splitAt '\n' = rs.map Corpus.line ++ [[]] ∧
      (∀ r ∈ rs, ∀ g ∈ Corpus.line r, Text.staysOnLine g = true) ∧
      Corpus.read (Text.ofBytes (Corpus.write rs).bytes) = (rs, none) ∧
      ∀ ls, Corpus.Spaced (rs.map Corpus.line) ls →
        Corpus.read (Text.ofBytes (Text.ended ls).bytes) = (rs, none) := by
  have hdefault : (instructionOr instruction).isClean = true := by
    unfold instructionOr
    split
    · exact Text.isClean_iff.mpr ⟨_, rfl⟩
    · exact hinstruction
  have hrecords : ∀ r ∈ samples.map (recordOf (instructionOr instruction)),
      Corpus.Clean r ∧ (Corpus.line r).width < Corpus.longestLine := by
    intro r hr
    obtain ⟨a, ha, rfl⟩ := List.mem_map.mp hr
    obtain ⟨hrequest, hsource, hexpected⟩ := hclean a ha
    exact ⟨⟨hdefault, hrequest, isClean_formatOutput hsource hexpected⟩, hfits a ha⟩
  have hread := fun ls (hls : Corpus.Spaced _ ls) => Corpus.read_spaced hls (fun r hr => (hrecords r hr).1)
    fun r hr => (hrecords r hr).2
  refine ⟨_, records_eq hlisted hlease instruction, rfl, ?_, fun r _ => Corpus.staysOnLine_line r, ?_, hread⟩
  · rw [Corpus.write_eq]
    refine Text.splitAt_ended fun l hl g hg => ?_
    obtain ⟨r, -, rfl⟩ := List.mem_map.mp hl
    exact Text.staysOnLine_ne (Corpus.staysOnLine_line r g hg)
  · rw [Corpus.write_eq]
    exact hread _ (.refl _)

/-- Samples with texts that have quotation marks, breaks of every kind and control characters in them. -/
def unruly : List Store.Sample :=
  [⟨1, none, "a", "1", "\"x\\n\"\r\n\u2028\u2029", "yaz(\"\\\")\n\n", "\\\r\n", [], 0⟩,
    ⟨2, none, "b", "2", "\x00\t\x7f </a>", "\uFEFFyaz(1)", [], [], 0⟩]

theorem records_readBack_unruly :
    let s : State := { State.start 0 .memory with store := { Store.empty with samples := ⟨unruly, 2⟩ } }
    ∃ first second, records [] ⟨none, false⟩ s = .ok [first, second] s.spend ∧
      Corpus.read (Text.ofBytes (Text.ended ["", Corpus.line first, " \t\r", "\u00A0", Corpus.line second]).bytes) =
        ([first, second], none) := by
  intro s
  have hlisted : s.store.listSamples s.context ⟨none, false⟩ = .ok unruly := rfl
  have hclean : Text.isClean [] = true := rfl
  obtain ⟨rs, hrecords, rfl, -, -, -, hread⟩ :=
    records_readBack hlisted rfl hclean (by decide) (by decide +kernel)
  refine ⟨_, _, hrecords, hread _ ?_⟩
  refine .blank (by decide) (by decide) (by decide) (.line _ (.blank (by decide) (by decide) (by decide) ?_))
  exact .blank (by decide) (by decide) (by decide) (.refl _)

end Pipeline

end Anadil
