import Anadil.Pipeline.Ingest
import Anadil.Pipeline.Worker
import Anadil.Proofs.Path

/-! # Names of files

The name under which a source is stored is made of a name that anybody may choose. Whatever that is, the stored
name is one element of a path, and its end tells how the digest of the source starts. The Python of a sample
goes beside its source, under the same name with another extension, or under the number of the sample. -/

namespace Anadil

open Anadil.Path (Unslashed IsElement)

variable {t name : Text} {batch : Int}

/-! ### Elements -/

namespace Path

theorem isElement_of_plain (hne : t ≠ []) (h : ∀ g ∈ t, g.is '/' = false ∧ g.is '.' = false) :
    IsElement t where
  nonempty := hne
  unslashed g hg := (h g hg).1
  not_here := by
    rintro rfl
    cases (h (.char '.') List.mem_cons_self).2
  not_up := by
    rintro rfl
    cases (h (.char '.') List.mem_cons_self).2

theorem isElement_of_length (h : Unslashed t) (hlength : 2 < t.length) : IsElement t where
  nonempty := List.ne_nil_of_length_pos (by omega)
  unslashed := h
  not_here := by
    rintro rfl
    revert hlength
    decide
  not_up := by
    rintro rfl
    revert hlength
    decide

theorem unslashed_append {u : Text} (ht : Unslashed t) (hu : Unslashed u) : Unslashed (t ++ u) :=
  fun g hg => (List.mem_append.mp hg).elim (ht g) (hu g)

end Path

namespace Text

theorem decimal_inj {m n : Nat} (h : decimal m = decimal n) : m = n := by
  have hdigits : Nat.toDigits 10 m = Nat.toDigits 10 n := (List.map_inj_right fun _ _ => Glyph.char.inj).mp h
  calc
    m = Nat.ofDigitChars 10 (Nat.toDigits 10 m) 0 := Nat.ofDigitChars_ten_toDigits.symm
    _ = Nat.ofDigitChars 10 (Nat.toDigits 10 n) 0 := by rw [hdigits]
    _ = n := Nat.ofDigitChars_ten_toDigits

theorem isDigit_of_mem_decimal {n : Nat} {g : Glyph} (h : g ∈ decimal n) : ∃ c, g = .char c ∧ c.isDigit = true := by
  obtain ⟨c, hc, rfl⟩ := List.mem_map.mp h
  exact ⟨c, rfl, Nat.isDigit_of_mem_toDigits (by decide) (by decide) hc⟩

theorem decimal_ne_minus {m : Nat} : decimal m ≠ .char '-' :: t := by
  intro h
  have hmem : Glyph.char '-' ∈ decimal m := h ▸ List.mem_cons_self
  obtain ⟨c, hc, hdigit⟩ := isDigit_of_mem_decimal hmem
  rw [← Glyph.char.inj hc] at hdigit
  cases hdigit

theorem integer_inj {i j : Int} (h : integer i = integer j) : i = j := by
  cases i with
  | ofNat m =>
    cases j with
    | ofNat n => exact congrArg Int.ofNat (decimal_inj h)
    | negSucc n => exact absurd h decimal_ne_minus
  | negSucc m =>
    cases j with
    | ofNat n => exact absurd h.symm decimal_ne_minus
    | negSucc n => rw [Nat.succ.inj (decimal_inj (List.cons.inj h).2)]

theorem is_of_isDigit {c d : Char} (hc : c.isDigit = true) (hd : d.isDigit = false) :
    (Glyph.char c).is d = false := by
  refine beq_eq_false_iff_ne.mpr ?_
  rintro rfl
  rw [hd] at hc
  cases hc

theorem isElement_integer (i : Int) : IsElement (integer i) := by
  have hdecimal : ∀ n : Nat, ∀ g ∈ decimal n, g.is '/' = false ∧ g.is '.' = false := by
    intro n g hg
    obtain ⟨c, rfl, hc⟩ := isDigit_of_mem_decimal hg
    exact ⟨is_of_isDigit hc rfl, is_of_isDigit hc rfl⟩
  cases i with
  | ofNat n => exact Path.isElement_of_plain (by simp [integer, decimal, Nat.toDigits_ne_nil]) (hdecimal n)
  | negSucc n =>
    exact Path.isElement_of_plain (List.cons_ne_nil _ _) (List.forall_mem_cons.mpr ⟨⟨rfl, rfl⟩, hdecimal (n + 1)⟩)

theorem takeBytes_append {rest : Text} (h : ∀ g ∈ t, g.width = 1) : takeBytes t.length (t ++ rest) = t := by
  induction t with
  | nil => rw [List.length_nil, takeBytes]
  | cons g t ih =>
    obtain ⟨hg, ht⟩ := List.forall_mem_cons.mp h
    rw [List.length_cons, List.cons_append, takeBytes, hg, if_pos (by omega), Nat.add_sub_cancel, ih ht]

end Text

/-! ### Digests -/

theorem Digest.wordText_plain (w : UInt32) : ∀ g ∈ wordText w, g.width = 1 ∧ g.is '/' = false := by
  have hdigit : ∀ n < 16, (Glyph.char (Nat.digitChar n)).width = 1 ∧ (Glyph.char (Nat.digitChar n)).is '/' = false := by
    decide
  intro g hg
  obtain ⟨i, -, rfl⟩ := List.mem_map.mp hg
  exact hdigit _ (Nat.mod_lt _ (by decide))

theorem Store.takeBytes_digest (source : Text) : ∃ w, (Store.digest source).takeBytes 8 = Digest.wordText w := by
  let ws := Digest.words (Digest.padded source.bytes)
  let w := (Digest.absorbAll ws.length .first ws).a
  exact ⟨w, Text.takeBytes_append (t := Digest.wordText w) fun g hg => (Digest.wordText_plain w g hg).1⟩

theorem Store.length_takeBytes_digest (source : Text) : ((Store.digest source).takeBytes 8).length = 8 := by
  obtain ⟨w, hw⟩ := takeBytes_digest source
  rw [hw]
  exact List.length_map _

namespace Pipeline

/-! ### Stored names -/

/-- A stem, the start of a digest, and an extension. -/
def label (stem source ext : Text) : Text := stem ++ "." ++ (Store.digest source).takeBytes 8 ++ ext

section Labels
variable {stem stem' source source' ext ext' : Text}

theorem length_label (stem source ext : Text) : (label stem source ext).length = stem.length + 9 + ext.length := by
  have hdot : (Text.ofString ".").length = 1 := rfl
  rw [label, List.length_append, List.length_append, List.length_append, Store.length_takeBytes_digest, hdot]

theorem isElement_label (hstem : Unslashed stem) (hext : Unslashed ext) (source : Text) :
    IsElement (label stem source ext) := by
  have hdigest : Unslashed ((Store.digest source).takeBytes 8) := by
    obtain ⟨w, hw⟩ := Store.takeBytes_digest source
    rw [hw]
    exact fun g hg => (Digest.wordText_plain w g hg).2
  have hdot : Unslashed "." := by decide
  refine Path.isElement_of_length (Path.unslashed_append (Path.unslashed_append
    (Path.unslashed_append hstem hdot) hdigest) hext) ?_
  rw [length_label]
  omega

/-- The end of a label tells the start of the digest and the extension. -/
theorem label_inj (h : label stem source ext = label stem' source' ext') (hlength : ext.length = ext'.length) :
    (Store.digest source).takeBytes 8 = (Store.digest source').takeBytes 8 ∧ ext = ext' := by
  obtain ⟨hrest, hext⟩ := List.append_inj' h hlength
  have hsame : ((Store.digest source).takeBytes 8).length = ((Store.digest source').takeBytes 8).length := by
    rw [Store.length_takeBytes_digest, Store.length_takeBytes_digest]
  exact ⟨(List.append_inj' hrest hsame).2, hext⟩

end Labels

theorem base_cases (p : Text) : Path.base p = ("/" : Text) ∨ Unslashed (Path.base p) := by
  unfold Path.base
  split
  · exact .inr (by decide)
  · split
    · exact .inl rfl
    · rename_i t hlast
      split
      · exact .inl rfl
      · exact .inr (Path.unslashed_of_mem_parts (List.mem_of_getLast? hlast))

/-- Whatever a file is called, its source is stored under a label. -/
theorem standardFilename_eq (filename source : Text) :
    ∃ stem, Unslashed stem ∧ standardFilename filename (Store.digest source) = label stem source sourceExt := by
  unfold standardFilename
  dsimp only
  split
  · exact ⟨"sample", by decide, rfl⟩
  · rename_i hstem
    refine ⟨_, ?_, rfl⟩
    rcases base_cases filename with hbase | hbase
    · rw [hbase] at hstem
      exact absurd (by decide) hstem
    · exact fun g hg => hbase g (List.mem_of_mem_take hg)

theorem isElement_batches : IsElement "batches" := by decide

theorem isElement_translations : IsElement "translations" := by decide

/-- A name in the directory of a batch. -/
def inBatch (batch : Int) (name : Text) : List Text := ["batches", Text.integer batch, name]

theorem isElement_of_mem_inBatch (h : IsElement name) : ∀ x ∈ inBatch batch name, IsElement x := by
  simp [inBatch, isElement_batches, Text.isElement_integer, h]

theorem inBatch_inj {batch' : Int} {name' : Text} (h : inBatch batch name = inBatch batch' name') :
    name = name' := (List.cons.inj (List.cons.inj (List.cons.inj h).2).2).1 
theorem samplePath_eq (batch : Int) (h : IsElement name) :
    samplePath batch name = Text.join "/" (inBatch batch name) :=
  Path.join_elements (List.cons_ne_nil _ _) (isElement_of_mem_inBatch h)

/-! ### Where Python goes -/

/-- The extension of Python sources. -/
def pythonExt : Text := ".py"

theorem length_pythonExt : pythonExt.length = 3 := rfl

theorem length_sourceExt : sourceExt.length = 3 := rfl

theorem label_ne {stem stem' source source' : Text} : label stem source pythonExt ≠ label stem' source' sourceExt := by
  intro h
  -- `rfl` between the two lengths would first compare the two texts
  have hext : pythonExt = sourceExt := (label_inj h (length_pythonExt.trans length_sourceExt.symm)).2
  exact absurd hext (by decide)

/-- The elements of the path of a sample's Python that has no source beside it. -/
def unfiled (id : Int) : List Text := ["translations", Text.integer id ++ pythonExt]

theorem isElement_of_mem_unfiled (id : Int) : ∀ x ∈ unfiled id, IsElement x := by
  have hpython : IsElement (Text.integer id ++ pythonExt) := by
    refine Path.isElement_of_length (Path.unslashed_append (Text.isElement_integer id).unslashed (by decide)) ?_
    rw [List.length_append, length_pythonExt]
    omega
  simp [unfiled, isElement_translations, hpython]

theorem unfiled_inj {id id' : Int} (h : unfiled id = unfiled id') : id = id' :=
  Text.integer_inj (List.append_cancel_right (List.cons.inj (List.cons.inj h).2).1)

theorem unfiled_ne_inBatch {id : Int} : unfiled id ≠ inBatch batch name := by
  intro h
  have hlength : 2 = 3 := congrArg List.length h
  omega

theorem Worker.pythonPath_unfiled (w : Worker) {a : Store.Sample} (h : a.path = []) :
    w.pythonPath a = Path.join [w.dataDir, Text.join "/" (unfiled a.id)] := by
  rw [pythonPath, h]
  exact Path.join_cons_elements w.dataDir (List.cons_ne_nil _ _) (isElement_of_mem_unfiled a.id)

/-- The Python of a sample that is filed goes beside its source. -/
theorem Worker.pythonPath_filed (w : Worker) {a : Store.Sample} {stem source : Text}
    (hstem : Unslashed stem) (h : a.path = Text.join "/" (inBatch batch (label stem source sourceExt))) :
    w.pythonPath a = Path.join [w.dataDir, Text.join "/" (inBatch batch (label stem source pythonExt))] := by
  have hold : IsElement (label stem source sourceExt) := isElement_label hstem (by decide) source
  have hnew : IsElement (label stem source pythonExt) := isElement_label hstem (by decide) source
  have hbatch : ∀ x ∈ ([("batches" : Text), Text.integer batch] : List Text), IsElement x := by
    simp [isElement_batches, Text.isElement_integer]
  have hpath : ¬ a.path.isEmpty = true := by
    rw [h, List.isEmpty_iff, Path.join_eq_nil fun x hx => (isElement_of_mem_inBatch hold x hx).nonempty]
    exact List.cons_ne_nil _ _
  rw [pythonPath, if_neg hpath, h]
  obtain ⟨front, hfront⟩ : ∃ front, ∀ ext, label stem source ext = front ++ ext := ⟨_, fun _ => rfl⟩
  rw [hfront] at hold hnew ⊢
  rw [hfront]
  exact Path.withoutExt_below w.dataDir hbatch (by decide) hold hnew

end Pipeline

end Anadil
