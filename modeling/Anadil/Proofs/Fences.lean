import Anadil.Corpus
import Anadil.Proofs.Json.Unique
import Anadil.Proofs.Token.Breaks
import Anadil.Proofs.Translation

/-! # Fenced blocks are unambiguous

A record holds a program between two fences and its output behind them. No line of a program starts with a back
quote, since none starts a piece. So the first line that is a fence ends the program, whatever was printed, and both
texts are read back from the record. -/

namespace Anadil

namespace Text

theorem eq_trimEnd_append (t : Text) :
    ∃ n, t = trimEnd (·.is '\n') t ++ List.replicate n (.char '\n') := by
  obtain ⟨w, hw, ht⟩ := exists_trimEnd_append (·.is '\n') t
  rw [List.eq_replicate_length.mpr fun g hg => is_iff.mp (hw g hg)] at ht
  exact ⟨_, ht⟩

theorem trimEnd_append_newlines (t : Text) (n : Nat) :
    trimEnd (·.is '\n') (t ++ List.replicate n (.char '\n')) = trimEnd (·.is '\n') t :=
  trimEnd_append_of_forall (fun _ hg => is_iff.mpr (List.eq_of_mem_replicate hg)) t

theorem bytes_newlines (n : Nat) : bytes (List.replicate n (.char '\n')) = List.replicate n 0x0A := by
  induction n with
  | zero => rfl
  | succ n ih =>
    rw [List.replicate_succ, bytes_cons, ih]
    rfl

end Text

namespace Corpus

/-- The line that closes a block. -/
def fence : Text := "```"

/-- What a record tells: the lines between its first one and the first fence are the program, and those behind the
heading of the output are the output. -/
def readOutput (t : Text) : Text × Text :=
  let ls := (t.splitAt '\n').tail
  (Text.join "\n" (ls.takeWhile (· != fence)), Text.join "\n" ((ls.dropWhile (· != fence)).drop 3))

/-- A program that can be told from the fence below it: no line of it starts with a back quote. -/
abbrev Fenceless (code : Text) : Prop := code.Inside '\x60'

/-- The lines of a formatted output. -/
theorem splitAt_formatOutput (code output : Text) : (formatOutput code output).splitAt '\n' =
    Text.ofString "```turkpy" :: ((Text.trimEnd (·.is '\n') code).splitAt '\n' ++
      fence :: [] :: Text.ofString "Çıktı:" :: output.splitAt '\n') := by
  have hform : formatOutput code output = Text.ofString "```turkpy" ++ .char '\n' ::
      (Text.trimEnd (·.is '\n') code ++ .char '\n' :: (fence ++ .char '\n' ::
        ([] ++ .char '\n' :: (Text.ofString "Çıktı:" ++ .char '\n' :: output)))) := by
    simp [formatOutput, fence, Text.ofString]
  rw [hform]
  iterate 5 rw [Text.splitAt_append]
  rfl

theorem Fenceless.trimEnd {code : Text} (h : Fenceless code) : Fenceless (code.trimEnd (·.is '\n')) := by
  obtain ⟨n, hn⟩ := Text.eq_trimEnd_append code
  rw [hn] at h
  exact h.left

/-- Code without a fence is read back up to its last line, and the output as it is. -/
theorem readOutput_formatOutput {code : Text} (h : Fenceless code) (output : Text) :
    readOutput (formatOutput code output) = (code.trimEnd (·.is '\n'), output) := by
  have hlines : ∀ l ∈ (code.trimEnd (·.is '\n')).splitAt '\n', (l != fence) = true := by
    intro l hl
    refine bne_iff_ne.mpr fun hfence => h.trimEnd.lines l hl ?_
    rw [hfence]
    rfl
  have hfence : (fence != fence) = false := by decide
  rw [readOutput, splitAt_formatOutput]
  dsimp only [List.tail_cons]
  rw [List.takeWhile_append_of_pos hlines, List.dropWhile_append_of_pos hlines, List.takeWhile_cons,
    List.dropWhile_cons, hfence]
  simp only [Bool.false_eq_true, if_false, List.append_nil, List.drop_succ_cons, List.drop_zero]
  exact congrArg₂ Prod.mk (Text.join_splitAt _ _) (Text.join_splitAt _ _)

/-! ### Records of bytes -/

/-- The record of a program and its output, byte for byte. -/
def block (code output : List UInt8) : List UInt8 := (formatOutput (.ofBytes code) (.ofBytes output)).bytes

/-- A block of bytes, parted into its code and its output. -/
def readBlock (bytes : List UInt8) : List UInt8 × List UInt8 :=
  let (code, output) := readOutput (.ofBytes bytes)
  (code.bytes, output.bytes)

theorem ofBytes_trimEnd (bytes : List UInt8) :
    Text.ofBytes (Text.trimEnd (·.is '\n') (.ofBytes bytes)).bytes = Text.trimEnd (·.is '\n') (.ofBytes bytes) := by
  obtain ⟨n, hn⟩ := Text.eq_trimEnd_append (.ofBytes bytes)
  refine (Text.ofBytes_parts hn fun g hg => ⟨'\n', ?_⟩).1
  exact List.eq_of_mem_replicate (List.mem_of_head? hg)

theorem ofBytes_block (code output : List UInt8) :
    Text.ofBytes (block code output) = formatOutput (.ofBytes code) (.ofBytes output) := by
  have hclean : ∀ s : String, Text.isClean s = true := fun s => Text.isClean_iff.mpr ⟨_, rfl⟩
  have hbehind : ∀ y, Text.Bounded ((Text.ofString "\n```\n\nÇıktı:\n").bytes ++ y) := fun y =>
    Text.bounded_encode '\n' _
  rw [block, formatOutput, Text.bytes_append, Text.bytes_append, Text.bytes_append, List.append_assoc,
    List.append_assoc, Text.ofBytes_append_of_isClean (hclean _), Text.ofBytes_append (hbehind _), ofBytes_trimEnd,
    Text.ofBytes_append_of_isClean (hclean _), Text.bytes_ofBytes]
  simp only [List.append_assoc]

/-- Programs that are the same but for the line feeds at their ends. -/
def SameCode (code code' : List UInt8) : Prop :=
  ∃ common m n, code = common ++ List.replicate m 0x0A ∧ code' = common ++ List.replicate n 0x0A

theorem ofBytes_newlines (bytes : List UInt8) (n : Nat) :
    Text.ofBytes (bytes ++ List.replicate n 0x0A) = Text.ofBytes bytes ++ List.replicate n (.char '\n') := by
  have hclean : Text.isClean (List.replicate n (.char '\n')) = true := List.all_eq_true.mpr fun g hg => by
    rw [List.eq_of_mem_replicate hg]
  have hbounded : Text.Bounded (List.replicate n 0x0A) := fun b hb => by
    rw [List.eq_of_mem_replicate (List.mem_of_head? hb)]
    decide
  rw [Text.ofBytes_append hbounded, ← Text.bytes_newlines, Text.ofBytes_of_isClean hclean]

theorem trimEnd_newlines (bytes : List UInt8) (n : Nat) :
    Text.trimEnd (·.is '\n') (.ofBytes (bytes ++ List.replicate n 0x0A)) =
      Text.trimEnd (·.is '\n') (.ofBytes bytes) := by
  rw [ofBytes_newlines, Text.trimEnd_append_newlines]

theorem exists_newlines (bytes : List UInt8) :
    ∃ n, bytes = (Text.trimEnd (·.is '\n') (.ofBytes bytes)).bytes ++ List.replicate n 0x0A := by
  obtain ⟨n, hn⟩ := Text.eq_trimEnd_append (.ofBytes bytes)
  refine ⟨n, ?_⟩
  rw [← Text.bytes_newlines, ← Text.bytes_append, ← hn, Text.bytes_ofBytes]

theorem getLast?_bytes_trimEnd (bytes : List UInt8) :
    (Text.trimEnd (·.is '\n') (.ofBytes bytes)).bytes.getLast? ≠ some 0x0A := by
  intro hlast
  obtain ⟨init, hinit⟩ := List.getLast?_eq_some_iff.mp hlast
  have htext := (congrArg Text.ofBytes hinit).symm.trans (ofBytes_trimEnd bytes)
  refine Bool.false_ne_true (Text.getLast?_trimEnd (·.is '\n') (.ofBytes bytes) (.char '\n') ?_).symm
  rw [← htext, show [0x0A] = List.replicate 1 (0x0A : UInt8) from rfl, ofBytes_newlines]
  exact List.getLast?_concat

/-- Codes are the same if they differ in the newlines at their ends only. -/
theorem sameCode_iff {code code' : List UInt8} : SameCode code code' ↔
    Text.trimEnd (·.is '\n') (.ofBytes code) = Text.trimEnd (·.is '\n') (.ofBytes code') := by
  constructor
  · rintro ⟨common, m, n, rfl, rfl⟩
    rw [trimEnd_newlines, trimEnd_newlines]
  · intro h
    obtain ⟨m, hm⟩ := exists_newlines code
    obtain ⟨n, hn⟩ := exists_newlines code'
    exact ⟨_, m, n, hm, h ▸ hn⟩

/-- A back quote starts no piece, nor does a byte order mark start a fence. -/
theorem fenceless_of_tokenize {source : Text} {tokens : List Token}
    (h : tokenize (withoutMark source) = .ok tokens) : Fenceless source := by
  have hrest := tokenize_inside h (show Lexer.isStart '\x60' = false by decide +kernel)
  rcases mark_cases source with ⟨hnone, -⟩ | hmark
  · rwa [hnone] at hrest
  · rw [hmark]
    exact (Text.Inside.of_notMem (by decide)).append hrest

/-- The same for bytes. -/
theorem readBlock_block {code : List UInt8} (h : Fenceless (.ofBytes code)) (output : List UInt8) :
    readBlock (block code output) = ((Text.trimEnd (·.is '\n') (.ofBytes code)).bytes, output) := by
  rw [readBlock, ofBytes_block, readOutput_formatOutput h]
  exact congrArg (Prod.mk _) (Text.bytes_ofBytes output)

/-- Records of programs are equal exactly if their outputs are, and their programs up to the line feeds at the end.
A program without these, and its output, are read back from the record by cutting it at the first fence. -/
theorem block_unambiguous {code code' : List UInt8} {tokens tokens' : List Token}
    (h : tokenize (withoutMark (.ofBytes code)) = .ok tokens)
    (h' : tokenize (withoutMark (.ofBytes code')) = .ok tokens') (output output' : List UInt8) :
    (block code output = block code' output' ↔ SameCode code code' ∧ output = output') ∧
      ∃ common n, code = common ++ List.replicate n 0x0A ∧ common.getLast? ≠ some 0x0A ∧
        readBlock (block code output) = (common, output) := by
  have hread := readBlock_block (fenceless_of_tokenize h) output
  have hread' := readBlock_block (fenceless_of_tokenize h') output'
  constructor
  · constructor
    · intro heq
      rw [heq, hread', Prod.mk.injEq] at hread
      refine ⟨sameCode_iff.mpr ?_, hread.2.symm⟩
      rw [← ofBytes_trimEnd code, ← ofBytes_trimEnd code', hread.1]
    · rintro ⟨hcode, rfl⟩
      rw [block, formatOutput, sameCode_iff.mp hcode]
      rfl
  · obtain ⟨n, hn⟩ := exists_newlines code
    exact ⟨_, n, hn, getLast?_bytes_trimEnd code, hread⟩

/-- A program behind a byte order mark, with fences in a string and in a comment. -/
def quoting : List UInt8 := (Text.ofString "\uFEFFyazdır(\"```\")\n // ```\n\n").bytes

theorem block_unambiguous_quoting :
    (tokenize (withoutMark (.ofBytes quoting))).isOk = true ∧
      (block quoting fence.bytes = block (quoting ++ [0x0A]) fence.bytes) ∧
      ∃ common n, quoting = common ++ List.replicate n 0x0A ∧ common.getLast? ≠ some 0x0A ∧
        readBlock (block quoting fence.bytes) = (common, fence.bytes) := by
  have hok : (tokenize (withoutMark (.ofBytes quoting))).isOk = true := by decide +kernel
  have hok' : (tokenize (withoutMark (.ofBytes (quoting ++ [0x0A])))).isOk = true := by decide +kernel
  cases h : tokenize (withoutMark (.ofBytes quoting)) with
  | error e =>
    rw [h] at hok
    cases hok
  | ok tokens =>
    cases h' : tokenize (withoutMark (.ofBytes (quoting ++ [0x0A]))) with
    | error e =>
      rw [h'] at hok'
      cases hok'
    | ok tokens' =>
      obtain ⟨hiff, hread⟩ := block_unambiguous h h' fence.bytes fence.bytes
      exact ⟨rfl, hiff.mpr ⟨⟨quoting, 0, 1, (List.append_nil _).symm, rfl⟩, rfl⟩, hread⟩

end Corpus

end Anadil
