/-! # Primary composites

Characters of Unicode 15 that stand for two others and that normal form C writes in their place.
Hangul syllables are composed by arithmetic instead (`Anadil.Text.Normal`). -/

namespace Anadil.Text

/-- The second characters of composites in order. With each stand the composites that it makes, every one in front of
its first character: first capital letters, whose small letters are composed like them, then the others. -/
def marked : List (Nat × List Char × List Char) := [
    (0x0300, ['À', 'A', 'È', 'E', 'Ì', 'I', 'Ò', 'O', 'Ù', 'U', 'Ǜ', 'Ü', 'Ǹ', 'N', 'Ѐ', 'Е', 'Ѝ', 'И', 'Ḕ', 'Ē', 'Ṑ',
      'Ō', 'Ẁ', 'W', 'Ầ', 'Â', 'Ằ', 'Ă', 'Ề', 'Ê', 'Ồ', 'Ô', 'Ờ', 'Ơ', 'Ừ', 'Ư', 'Ỳ', 'Y', 'Ἂ', 'Ἀ', 'Ἃ', 'Ἁ', 'Ἒ',
      'Ἐ', 'Ἓ', 'Ἑ', 'Ἢ', 'Ἠ', 'Ἣ', 'Ἡ', 'Ἲ', 'Ἰ', 'Ἳ', 'Ἱ', 'Ὂ', 'Ὀ', 'Ὃ', 'Ὁ', 'Ὓ', 'Ὑ', 'Ὢ', 'Ὠ', 'Ὣ', 'Ὡ'], ['ὒ',
      'ὐ', 'ὰ', 'α', 'ὲ', 'ε', 'ὴ', 'η', 'ὶ', 'ι', 'ὸ', 'ο', 'ὺ', 'υ', 'ὼ', 'ω', 'Ὰ', 'Α', 'Ὲ', 'Ε', 'Ὴ', 'Η', '῍',
      '᾿', 'ῒ', 'ϊ', 'Ὶ', 'Ι', '῝', '῾', 'ῢ', 'ϋ', 'Ὺ', 'Υ', '῭', '¨', 'Ὸ', 'Ο', 'Ὼ', 'Ω']), (0x0301, ['Á', 'A', 'É',
      'E', 'Í', 'I', 'Ó', 'O', 'Ú', 'U', 'Ý', 'Y', 'Ć', 'C', 'Ĺ', 'L', 'Ń', 'N', 'Ŕ', 'R', 'Ś', 'S', 'Ź', 'Z', 'Ǘ',
      'Ü', 'Ǵ', 'G', 'Ǻ', 'Å', 'Ǽ', 'Æ', 'Ǿ', 'Ø', 'Ѓ', 'Г', 'Ќ', 'К', 'Ḉ', 'Ç', 'Ḗ', 'Ē', 'Ḯ', 'Ï', 'Ḱ', 'K', 'Ḿ',
      'M', 'Ṍ', 'Õ', 'Ṓ', 'Ō', 'Ṕ', 'P', 'Ṹ', 'Ũ', 'Ẃ', 'W', 'Ấ', 'Â', 'Ắ', 'Ă', 'Ế', 'Ê', 'Ố', 'Ô', 'Ớ', 'Ơ', 'Ứ',
      'Ư', 'Ἄ', 'Ἀ', 'Ἅ', 'Ἁ', 'Ἔ', 'Ἐ', 'Ἕ', 'Ἑ', 'Ἤ', 'Ἠ', 'Ἥ', 'Ἡ', 'Ἴ', 'Ἰ', 'Ἵ', 'Ἱ', 'Ὄ', 'Ὀ', 'Ὅ', 'Ὁ', 'Ὕ',
      'Ὑ', 'Ὤ', 'Ὠ', 'Ὥ', 'Ὡ'], ['΅', '¨', 'Ά', 'Α', 'Έ', 'Ε', 'Ή', 'Η', 'Ί', 'Ι', 'Ό', 'Ο', 'Ύ', 'Υ', 'Ώ', 'Ω', 'ΐ',
      'ϊ', 'ά', 'α', 'έ', 'ε', 'ή', 'η', 'ί', 'ι', 'ΰ', 'ϋ', 'ό', 'ο', 'ύ', 'υ', 'ώ', 'ω', 'ϓ', 'ϒ', 'ὔ', 'ὐ', '῎',
      '᾿', '῞', '῾']), (0x0302, ['Â', 'A', 'Ê', 'E', 'Î', 'I', 'Ô', 'O', 'Û', 'U', 'Ĉ', 'C', 'Ĝ', 'G', 'Ĥ', 'H', 'Ĵ',
      'J', 'Ŝ', 'S', 'Ŵ', 'W', 'Ŷ', 'Y', 'Ẑ', 'Z', 'Ậ', 'Ạ', 'Ệ', 'Ẹ', 'Ộ', 'Ọ'], []), (0x0303, ['Ã', 'A', 'Ñ', 'N',
      'Õ', 'O', 'Ĩ', 'I', 'Ũ', 'U', 'Ṽ', 'V', 'Ẫ', 'Â', 'Ẵ', 'Ă', 'Ẽ', 'E', 'Ễ', 'Ê', 'Ỗ', 'Ô', 'Ỡ', 'Ơ', 'Ữ', 'Ư',
      'Ỹ', 'Y'], []), (0x0304, ['Ā', 'A', 'Ē', 'E', 'Ī', 'I', 'Ō', 'O', 'Ū', 'U', 'Ǖ', 'Ü', 'Ǟ', 'Ä', 'Ǡ', 'Ȧ', 'Ǣ',
      'Æ', 'Ǭ', 'Ǫ', 'Ȫ', 'Ö', 'Ȭ', 'Õ', 'Ȱ', 'Ȯ', 'Ȳ', 'Y', 'Ӣ', 'И', 'Ӯ', 'У', 'Ḡ', 'G', 'Ḹ', 'Ḷ', 'Ṝ', 'Ṛ', 'Ᾱ',
      'Α', 'Ῑ', 'Ι', 'Ῡ', 'Υ'], []), (0x0306, ['Ă', 'A', 'Ĕ', 'E', 'Ğ', 'G', 'Ĭ', 'I', 'Ŏ', 'O', 'Ŭ', 'U', 'Ў', 'У',
      'Й', 'И', 'Ӂ', 'Ж', 'Ӑ', 'А', 'Ӗ', 'Е', 'Ḝ', 'Ȩ', 'Ặ', 'Ạ', 'Ᾰ', 'Α', 'Ῐ', 'Ι', 'Ῠ', 'Υ'], []), (0x0307, ['Ċ',
      'C', 'Ė', 'E', 'Ġ', 'G', 'Ż', 'Z', 'Ȧ', 'A', 'Ȯ', 'O', 'Ḃ', 'B', 'Ḋ', 'D', 'Ḟ', 'F', 'Ḣ', 'H', 'Ṁ', 'M', 'Ṅ',
      'N', 'Ṗ', 'P', 'Ṙ', 'R', 'Ṡ', 'S', 'Ṥ', 'Ś', 'Ṧ', 'Š', 'Ṩ', 'Ṣ', 'Ṫ', 'T', 'Ẇ', 'W', 'Ẋ', 'X', 'Ẏ', 'Y'], ['İ',
      'I', 'ẛ', 'ſ']), (0x0308, ['Ä', 'A', 'Ë', 'E', 'Ï', 'I', 'Ö', 'O', 'Ü', 'U', 'Ϊ', 'Ι', 'Ϋ', 'Υ', 'Ё', 'Е', 'Ї',
      'І', 'Ӓ', 'А', 'Ӛ', 'Ә', 'Ӝ', 'Ж', 'Ӟ', 'З', 'Ӥ', 'И', 'Ӧ', 'О', 'Ӫ', 'Ө', 'Ӭ', 'Э', 'Ӱ', 'У', 'Ӵ', 'Ч', 'Ӹ',
      'Ы', 'Ḧ', 'H', 'Ṏ', 'Õ', 'Ṻ', 'Ū', 'Ẅ', 'W', 'Ẍ', 'X'], ['ÿ', 'y', 'Ÿ', 'Y', 'ϔ', 'ϒ', 'ẗ', 't']),
    (0x0309, ['Ả', 'A', 'Ẩ', 'Â', 'Ẳ', 'Ă', 'Ẻ', 'E', 'Ể', 'Ê', 'Ỉ', 'I', 'Ỏ', 'O', 'Ổ', 'Ô', 'Ở', 'Ơ', 'Ủ', 'U', 'Ử',
      'Ư', 'Ỷ', 'Y'], []), (0x030A, ['Å', 'A', 'Ů', 'U'], ['ẘ', 'w', 'ẙ', 'y']), (0x030B, ['Ő', 'O', 'Ű', 'U', 'Ӳ',
      'У'], []), (0x030C, ['Č', 'C', 'Ď', 'D', 'Ě', 'E', 'Ľ', 'L', 'Ň', 'N', 'Ř', 'R', 'Š', 'S', 'Ť', 'T', 'Ž', 'Z',
      'Ǎ', 'A', 'Ǐ', 'I', 'Ǒ', 'O', 'Ǔ', 'U', 'Ǚ', 'Ü', 'Ǧ', 'G', 'Ǩ', 'K', 'Ȟ', 'H'], ['Ǯ', 'Ʒ', 'ǯ', 'ʒ', 'ǰ',
      'j']), (0x030F, ['Ȁ', 'A', 'Ȅ', 'E', 'Ȉ', 'I', 'Ȍ', 'O', 'Ȑ', 'R', 'Ȕ', 'U', 'Ѷ', 'Ѵ'], []), (0x0311, ['Ȃ', 'A',
      'Ȇ', 'E', 'Ȋ', 'I', 'Ȏ', 'O', 'Ȓ', 'R', 'Ȗ', 'U'], []), (0x0313, ['Ἀ', 'Α', 'Ἐ', 'Ε', 'Ἠ', 'Η', 'Ἰ', 'Ι', 'Ὀ',
      'Ο', 'Ὠ', 'Ω'], ['ὐ', 'υ', 'ῤ', 'ρ']), (0x0314, ['Ἁ', 'Α', 'Ἑ', 'Ε', 'Ἡ', 'Η', 'Ἱ', 'Ι', 'Ὁ', 'Ο', 'Ὑ', 'Υ',
      'Ὡ', 'Ω'], ['ῥ', 'ρ', 'Ῥ', 'Ρ']), (0x031B, ['Ơ', 'O', 'Ư', 'U'], []), (0x0323, ['Ḅ', 'B', 'Ḍ', 'D', 'Ḥ', 'H',
      'Ḳ', 'K', 'Ḷ', 'L', 'Ṃ', 'M', 'Ṇ', 'N', 'Ṛ', 'R', 'Ṣ', 'S', 'Ṭ', 'T', 'Ṿ', 'V', 'Ẉ', 'W', 'Ẓ', 'Z', 'Ạ', 'A',
      'Ẹ', 'E', 'Ị', 'I', 'Ọ', 'O', 'Ợ', 'Ơ', 'Ụ', 'U', 'Ự', 'Ư', 'Ỵ', 'Y'], []), (0x0324, ['Ṳ', 'U'], []),
    (0x0325, ['Ḁ', 'A'], []), (0x0326, ['Ș', 'S', 'Ț', 'T'], []), (0x0327, ['Ç', 'C', 'Ģ', 'G', 'Ķ', 'K', 'Ļ', 'L',
      'Ņ', 'N', 'Ŗ', 'R', 'Ş', 'S', 'Ţ', 'T', 'Ȩ', 'E', 'Ḑ', 'D', 'Ḩ', 'H'], []), (0x0328, ['Ą', 'A', 'Ę', 'E', 'Į',
      'I', 'Ų', 'U', 'Ǫ', 'O'], []), (0x032D, ['Ḓ', 'D', 'Ḙ', 'E', 'Ḽ', 'L', 'Ṋ', 'N', 'Ṱ', 'T', 'Ṷ', 'U'], []),
    (0x032E, ['Ḫ', 'H'], []), (0x0330, ['Ḛ', 'E', 'Ḭ', 'I', 'Ṵ', 'U'], []), (0x0331, ['Ḇ', 'B', 'Ḏ', 'D', 'Ḵ', 'K',
      'Ḻ', 'L', 'Ṉ', 'N', 'Ṟ', 'R', 'Ṯ', 'T', 'Ẕ', 'Z'], ['ẖ', 'h']), (0x0338, [], ['↚', '←', '↛', '→', '↮', '↔', '⇍',
      '⇐', '⇎', '⇔', '⇏', '⇒', '∄', '∃', '∉', '∈', '∌', '∋', '∤', '∣', '∦', '∥', '≁', '∼', '≄', '≃', '≇', '≅', '≉',
      '≈', '≠', '=', '≢', '≡', '≭', '≍', '≮', '<', '≯', '>', '≰', '≤', '≱', '≥', '≴', '≲', '≵', '≳', '≸', '≶', '≹',
      '≷', '⊀', '≺', '⊁', '≻', '⊄', '⊂', '⊅', '⊃', '⊈', '⊆', '⊉', '⊇', '⊬', '⊢', '⊭', '⊨', '⊮', '⊩', '⊯', '⊫', '⋠',
      '≼', '⋡', '≽', '⋢', '⊑', '⋣', '⊒', '⋪', '⊲', '⋫', '⊳', '⋬', '⊴', '⋭', '⊵']), (0x0342, ['Ἆ', 'Ἀ', 'Ἇ', 'Ἁ', 'Ἦ',
      'Ἠ', 'Ἧ', 'Ἡ', 'Ἶ', 'Ἰ', 'Ἷ', 'Ἱ', 'Ὗ', 'Ὑ', 'Ὦ', 'Ὠ', 'Ὧ', 'Ὡ'], ['ὖ', 'ὐ', 'ᾶ', 'α', '῁', '¨', 'ῆ', 'η', '῏',
      '᾿', 'ῖ', 'ι', 'ῗ', 'ϊ', '῟', '῾', 'ῦ', 'υ', 'ῧ', 'ϋ', 'ῶ', 'ω']), (0x0345, ['ᾈ', 'Ἀ', 'ᾉ', 'Ἁ', 'ᾊ', 'Ἂ', 'ᾋ',
      'Ἃ', 'ᾌ', 'Ἄ', 'ᾍ', 'Ἅ', 'ᾎ', 'Ἆ', 'ᾏ', 'Ἇ', 'ᾘ', 'Ἠ', 'ᾙ', 'Ἡ', 'ᾚ', 'Ἢ', 'ᾛ', 'Ἣ', 'ᾜ', 'Ἤ', 'ᾝ', 'Ἥ', 'ᾞ',
      'Ἦ', 'ᾟ', 'Ἧ', 'ᾨ', 'Ὠ', 'ᾩ', 'Ὡ', 'ᾪ', 'Ὢ', 'ᾫ', 'Ὣ', 'ᾬ', 'Ὤ', 'ᾭ', 'Ὥ', 'ᾮ', 'Ὦ', 'ᾯ', 'Ὧ'], ['ᾲ', 'ὰ', 'ᾳ',
      'α', 'ᾴ', 'ά', 'ᾷ', 'ᾶ', 'ᾼ', 'Α', 'ῂ', 'ὴ', 'ῃ', 'η', 'ῄ', 'ή', 'ῇ', 'ῆ', 'ῌ', 'Η', 'ῲ', 'ὼ', 'ῳ', 'ω', 'ῴ',
      'ώ', 'ῷ', 'ῶ', 'ῼ', 'Ω']), (0x0653, [], ['آ', 'ا']), (0x0654, [], ['أ', 'ا', 'ؤ', 'و', 'ئ', 'ي', 'ۀ', 'ە', 'ۂ',
      'ہ', 'ۓ', 'ے']), (0x0655, [], ['إ', 'ا']), (0x093C, [], ['ऩ', 'न', 'ऱ', 'र', 'ऴ', 'ळ']), (0x09BE, [], ['ো',
      'ে']), (0x09D7, [], ['ৌ', 'ে']), (0x0B3E, [], ['ୋ', 'େ']), (0x0B56, [], ['ୈ', 'େ']), (0x0B57, [], ['ୌ', 'େ']),
    (0x0BBE, [], ['ொ', 'ெ', 'ோ', 'ே']), (0x0BD7, [], ['ஔ', 'ஒ', 'ௌ', 'ெ']), (0x0C56, [], ['ై', 'ె']), (0x0CC2, [],
      ['ೊ', 'ೆ']), (0x0CD5, [], ['ೀ', 'ಿ', 'ೇ', 'ೆ', 'ೋ', 'ೊ']), (0x0CD6, [], ['ೈ', 'ೆ']), (0x0D3E, [], ['ൊ', 'െ',
      'ോ', 'േ']), (0x0D57, [], ['ൌ', 'െ']), (0x0DCA, [], ['ේ', 'ෙ', 'ෝ', 'ො']), (0x0DCF, [], ['ො', 'ෙ']), (0x0DDF, [],
      ['ෞ', 'ෙ']), (0x102E, [], ['ဦ', 'ဥ']), (0x1B35, [], ['ᬆ', 'ᬅ', 'ᬈ', 'ᬇ', 'ᬊ', 'ᬉ', 'ᬌ', 'ᬋ', 'ᬎ', 'ᬍ', 'ᬒ', 'ᬑ',
      'ᬻ', 'ᬺ', 'ᬽ', 'ᬼ', 'ᭀ', 'ᬾ', 'ᭁ', 'ᬿ', 'ᭃ', 'ᭂ']), (0x3099, [], ['が', 'か', 'ぎ', 'き', 'ぐ', 'く', 'げ', 'け', 'ご',
      'こ', 'ざ', 'さ', 'じ', 'し', 'ず', 'す', 'ぜ', 'せ', 'ぞ', 'そ', 'だ', 'た', 'ぢ', 'ち', 'づ', 'つ', 'で', 'て', 'ど', 'と', 'ば',
      'は', 'び', 'ひ', 'ぶ', 'ふ', 'べ', 'へ', 'ぼ', 'ほ', 'ゔ', 'う', 'ゞ', 'ゝ', 'ガ', 'カ', 'ギ', 'キ', 'グ', 'ク', 'ゲ', 'ケ', 'ゴ',
      'コ', 'ザ', 'サ', 'ジ', 'シ', 'ズ', 'ス', 'ゼ', 'セ', 'ゾ', 'ソ', 'ダ', 'タ', 'ヂ', 'チ', 'ヅ', 'ツ', 'デ', 'テ', 'ド', 'ト', 'バ',
      'ハ', 'ビ', 'ヒ', 'ブ', 'フ', 'ベ', 'ヘ', 'ボ', 'ホ', 'ヴ', 'ウ', 'ヷ', 'ワ', 'ヸ', 'ヰ', 'ヹ', 'ヱ', 'ヺ', 'ヲ', 'ヾ', 'ヽ']),
    (0x309A, [], ['ぱ', 'は', 'ぴ', 'ひ', 'ぷ', 'ふ', 'ぺ', 'へ', 'ぽ', 'ほ', 'パ', 'ハ', 'ピ', 'ヒ', 'プ', 'フ', 'ペ', 'ヘ', 'ポ',
      'ホ']), (0x110BA, [], ['𑂚', '𑂙', '𑂜', '𑂛', '𑂫', '𑂥']), (0x11127, [], ['𑄮', '𑄱', '𑄯', '𑄲']), (0x1133E, [], ['𑍋',
      '𑍇']), (0x11357, [], ['𑍌', '𑍇']), (0x114B0, [], ['𑒼', '𑒹']), (0x114BA, [], ['𑒻', '𑒹']), (0x114BD, [], ['𑒾',
      '𑒹']), (0x115AF, [], ['𑖺', '𑖸', '𑖻', '𑖹']), (0x11930, [], ['𑤸', '𑤵'])]

def pairs {α : Type} : List α → List (α × α)
  | c :: a :: rest => (c, a) :: pairs rest
  | _ => []

/-- The small letter of one of the capital letters in `marked`. -/
def smallLetter (n : Nat) : Nat :=
  if n < 0x100 then n + 32
  else if n < 0x391 then n + 1
  else if n < 0x430 then if 0x400 ≤ n ∧ n < 0x410 then n + 80 else n + 32
  else if n < 0x1F00 then n + 1
  else n - 8

/-- Primary composites, each with the two characters it stands for. -/
def composites : List (Nat × Nat × Nat) :=
  marked.flatMap fun (b, capital, other) =>
    ((pairs (capital.map Char.toNat)).flatMap fun (c, a) => [(c, a, b), (smallLetter c, smallLetter a, b)]) ++
      (pairs (other.map Char.toNat)).map fun (c, a) => (c, a, b)

end Anadil.Text
