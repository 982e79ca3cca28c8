import SqlTree.Proofs.Writing.Scans

namespace SqlTree

section

variable {rules : LexicalRules} {c : Char} {cs rest : List Char} {kind : TokenKind} {size : Nat}
  {text w : String}

/-- Where a mark begins that is no quote, it is scanned. -/
theorem scanToken_symbol (standard : rules.Standard) (noQuote : c ∉ quoteChars)
    (found : symbol? (c :: cs) = some (kind, size)) :
    scanToken rules (c :: cs) = ⟨.ok kind, (c :: cs).take size, (c :: cs).drop size⟩ := by
  obtain ⟨noName, noString⟩ := standard.plain c noQuote
  rw [scanToken, noName]
  simp only [noString, found, Bool.false_eq_true, if_false]

/-- Each mark is scanned as what it is to be. -/
theorem solid_mark (standard : rules.Standard) (known : (text, kind) ∈ marks) (number : Option Nat) :
    Sign.Solid rules ⟨text, kind, number⟩ := by
  have facts : ∀ m ∈ marks, m.2 ≠ .eof ∧ beginsMark m.1.toList = true := by decide
  obtain ⟨notEof, begins⟩ := facts _ known
  have scanned (rest : List Char) (ends : EndsToken rest) := symbol?_mark known ends
  obtain ⟨c, cs, eq⟩ : ∃ c cs, text.toList = c :: cs := by
    refine List.exists_cons_of_ne_nil fun none => ?_
    rw [none] at begins
    cases begins
  rw [eq] at begins scanned
  simp only [beginsMark, Bool.and_eq_true, Bool.or_eq_true, Bool.not_eq_true', bne_iff_ne,
    List.isEmpty_iff, List.contains_iff_mem, ← Bool.not_eq_true] at begins
  obtain ⟨⟨⟨sign, noQuote⟩, noHash⟩, alone⟩ := begins
  have notBehind (rest : List Char) (ends : EndsToken rest) (d : Char) (sign : d ∈ signChars)
      (short : cs = []) : (cs ++ rest).head? ≠ Option.some d := by
    intro first
    rw [short, List.nil_append] at first
    have white := ends d first
    rw [isWhiteSpace_signChar sign] at white
    cases white
  refine ⟨notEof, fun rest ends => ?_, fun rest ends => ?_⟩
  · rw [eq]
    exact scanLayout_ends (isWhiteSpace_signChar sign) noHash
      (fun dash => notBehind rest ends '-' (by decide) (alone.resolve_right fun other => other.1 dash))
      (fun slash => notBehind rest ends '*' (by decide)
        (alone.resolve_right fun other => other.2 slash)) _
  · have found : symbol? (c :: (cs ++ rest)) = Option.some (kind, (c :: cs).length) := scanned rest ends
    rw [eq, List.cons_append, scanToken_symbol standard noQuote found]
    simp

/-- What begins with a character of a word or a number begins no layout, mark or quote. -/
theorem scanLayout_plain (notWhite : isWhiteSpace c = false) (noSign : c ∉ signChars) (hash : Bool) :
    scanLayout hash .gap (c :: cs) = ⟨0, [], c :: cs⟩ := by
  have other {d : Char} (sign : d ∈ signChars) : c ≠ d := by
    rintro rfl
    exact noSign sign
  exact scanLayout_ends notWhite (other (by decide))
    (fun dash => absurd dash (other (by decide))) (fun slash => absurd slash (other (by decide))) hash

/-- What begins with no sign is scanned as a blob, a number or a word. -/
theorem scanToken_plain (standard : rules.Standard) (noSign : c ∉ signChars) :
    scanToken rules (c :: cs) =
      if (c = 'X' ∨ c = 'x') ∧ cs.head? = some '\'' then scanBlob [c, '\''] (cs.drop 1)
      else if c.isDigit then scanNumber (c :: cs)
      else if isAlphabetic c || c == '_' then scanWord rules.keywords (c :: cs)
      else ⟨.error ⟨.unexpectedCharacter c, 0⟩, [], c :: cs⟩ := by
  have sub : quoteChars ⊆ signChars := by decide
  have noQuote : c ∉ quoteChars := fun quote => noSign (sub quote)
  obtain ⟨noName, noString⟩ := standard.plain c noQuote
  rw [scanToken, noName]
  simp only [noString, symbol?_eq_none noSign, Bool.false_eq_true, if_false]

/-- A word is scanned as what it is without quotes. -/
theorem scanWord_eq (rules : LexicalRules) (cs : List Char) : scanWord rules.keywords cs =
    ⟨.ok (Sign.bare rules (String.ofList (cs.takeWhile isWordChar))).kind, cs.takeWhile isWordChar,
      cs.dropWhile isWordChar⟩ := rfl

/-- Characters in which a word or a number may end: none are left, or white space, a parenthesis or a comma
follows. -/
def Breaks (rest : List Char) : Prop := ∀ c ∈ rest.head?, isWhiteSpace c = true ∨ c ∈ ['(', ')', ',']

/-- A sign in front of some characters is scanned as what it is to be. -/
structure Sign.Scans (rules : LexicalRules) (sign : Sign) (rest : List Char) : Prop where
  notEof : sign.kind ≠ .eof
  layout : scanLayout rules.hashComments .gap (sign.text.toList ++ rest) = ⟨0, [], sign.text.toList ++ rest⟩
  scan : scanToken rules (sign.text.toList ++ rest) = ⟨.ok sign.kind, sign.text.toList, rest⟩

/-- White space ends every sign. -/
theorem Sign.solid_of_scans {sign : Sign} (scans : ∀ rest, Breaks rest → sign.Scans rules rest) :
    sign.Solid rules where
  notEof := (scans [] nofun).notEof
  layout rest ends := (scans rest fun c first => .inl (ends c first)).layout
  scan rest ends := (scans rest fun c first => .inl (ends c first)).scan

theorem Breaks.isWordChar (breaks : Breaks rest) : ∀ c ∈ rest.head?, isWordChar c = false := by
  intro c first
  rcases breaks c first with white | mark
  · exact isWordChar_of_isWhiteSpace white
  · simp only [List.mem_cons, List.not_mem_nil, or_false] at mark
    rcases mark with rfl | rfl | rfl <;> decide +kernel

theorem Breaks.isDigit (breaks : Breaks rest) : ∀ c ∈ rest.head?, c.isDigit = false := by
  intro c first
  rcases breaks c first with white | mark
  · exact isDigit_of_isWhiteSpace white
  · simp only [List.mem_cons, List.not_mem_nil, or_false] at mark
    rcases mark with rfl | rfl | rfl <;> rfl

theorem Breaks.ne (breaks : Breaks rest) {c : Char} (other : isWhiteSpace c = false)
    (noMark : c ∉ ['(', ')', ',']) : rest.head? ≠ some c := by
  intro first
  rcases breaks c first with white | mark
  · rw [other] at white
    cases white
  · exact noMark mark

/-- What begins a word is neither white space nor a mark or a digit. -/
theorem exists_cons_of_isBareWord (word : isBareWord w = true) :
    ∃ c cs, w.toList = c :: cs ∧ (isAlphabetic c || c == '_') = true ∧ c ∉ signChars ∧ c.isDigit = false ∧
      isWhiteSpace c = false ∧ ∀ d ∈ c :: cs, isWordChar d = true := by
  rw [isBareWord] at word
  cases eq : w.toList with
  | nil => simp [eq] at word
  | cons c cs =>
    simp only [eq, Bool.and_eq_true, List.all_eq_true] at word
    obtain ⟨first, others⟩ := word
    have firstChar : isWordChar c = true := by
      rw [isWordChar, isAlphanumeric]
      grind
    refine ⟨c, cs, rfl, first, fun sign => ?_, ?_, ?_, List.forall_mem_cons.mpr ⟨firstChar, others⟩⟩
    · rw [(signChar_not_word sign).1] at first
      cases first
    · refine Bool.eq_false_iff.mpr fun digit => ?_
      rw [isDigit_not_letter digit] at first
      cases first
    · refine Bool.eq_false_iff.mpr fun white => ?_
      rw [isWordChar_of_isWhiteSpace white] at firstChar
      cases firstChar

theorem scanBlob_kind {opening : List Char} (found : (scanBlob opening cs).value = .ok kind) :
    ∃ bytes, kind = .blob bytes := by
  simp only [scanBlob, Scan.behind] at found
  split at found
  · cases found
  · split at found <;> cases found
    exact ⟨_, rfl⟩

/-- A word is read up to what goes on with it no more, and a letter in front of a quote begins no word if it
begins a blob. -/
theorem scanToken_bare_iff (standard : rules.Standard) (word : isBareWord w = true) :
    scanToken rules (w.toList ++ rest) = ⟨.ok (Sign.bare rules w).kind, w.toList, rest⟩ ↔
      (∀ c ∈ rest.head?, isWordChar c = false) ∧ ¬(sameWord w "x" = true ∧ rest.head? = some '\'') := by
  obtain ⟨c, cs, eq, first, noSign, noDigit, -, all⟩ := exists_cons_of_isBareWord word
  have blob : (c = 'X' ∨ c = 'x') ∧ (cs ++ rest).head? = some '\'' ↔
      sameWord w "x" = true ∧ rest.head? = some '\'' := by
    rw [sameWord_iff_sameLetters, eq]
    constructor
    · rintro ⟨letter, quote⟩
      cases cs with
      | nil => exact ⟨.cons (by rcases letter with rfl | rfl <;> rfl) .nil, quote⟩
      | cons d cs =>
        obtain rfl := Option.some.inj quote
        exact absurd (all '\'' (by simp)) (by decide +kernel)
    · rintro ⟨_ | ⟨letter, _ | _⟩, quote⟩
      exact ⟨letter.eq_toLower_or_eq_toUpper.symm, quote⟩
  rw [eq, List.cons_append, scanToken_plain standard noSign, noDigit, if_neg Bool.false_ne_true, first,
    if_pos rfl]
  by_cases begun : sameWord w "x" = true ∧ rest.head? = some '\''
  · rw [if_pos (blob.mpr begun)]
    refine iff_of_false (fun same => ?_) fun ends => ends.2 begun
    obtain ⟨bytes, other⟩ := scanBlob_kind (congrArg Scan.value same)
    rcases Sign.bare_kind rules w with kind | ⟨k, -, kind⟩ <;> rw [kind] at other <;> cases other
  · rw [if_neg fun letter => begun (blob.mp letter), ← List.cons_append, scanWord_eq,
      List.takeWhile_append_of_pos all, List.dropWhile_append_of_pos all]
    constructor
    · intro same
      have taken : (c :: cs) ++ rest.takeWhile isWordChar = c :: cs := congrArg Scan.text same
      have none : rest.takeWhile isWordChar = [] := List.append_right_eq_self.mp taken
      refine ⟨fun d head => ?_, begun⟩
      obtain ⟨tail, rfl⟩ := List.head?_eq_some_iff.mp head
      simpa [List.takeWhile_cons] using none
    · rintro ⟨ends, -⟩
      obtain ⟨taken, left⟩ := takeWhile_of_ends (List.forall_mem_nil _) ends
      rw [List.nil_append] at taken left
      rw [taken, left, List.append_nil, ← eq, String.ofList_toList]

/-- A word is scanned in front of what ends it. -/
theorem scans_bare (standard : rules.Standard) (word : isBareWord w = true) (ends : Breaks rest) :
    (Sign.bare rules w).Scans rules rest := by
  have notEof : (Sign.bare rules w).kind ≠ .eof := by
    rcases Sign.bare_kind rules w with kind | ⟨k, -, kind⟩ <;> simp [kind]
  refine ⟨notEof, ?_, ?_⟩
  · obtain ⟨c, cs, eq, -, noSign, -, notWhite, -⟩ := exists_cons_of_isBareWord word
    rw [Sign.bare, eq]
    exact scanLayout_plain notWhite noSign _
  · refine (scanToken_bare_iff standard word).mpr ⟨ends.isWordChar, fun blob => ?_⟩
    exact ends.ne (by decide) (by decide) blob.2

theorem solid_bare (standard : rules.Standard) (word : isBareWord w = true) :
    (Sign.bare rules w).Solid rules := Sign.solid_of_scans fun _ => scans_bare standard word

/-- What stands behind a row of digits and does not go on with their number. -/
structure EndsNumber (rest : List Char) : Prop where
  digit : ∀ c ∈ rest.head?, c.isDigit = false
  letter : rest.head? ≠ some 'e' ∧ rest.head? ≠ some 'E'
  point : ∀ c behind, rest = '.' :: c :: behind → c.isDigit = false

theorem Breaks.endsNumber (ends : Breaks rest) : EndsNumber rest where
  digit := ends.isDigit
  letter := ⟨ends.ne (by decide) (by decide), ends.ne (by decide) (by decide)⟩
  point := by
    rintro c behind rfl
    exact absurd rfl (ends.ne (by decide) (by decide))

theorem scanFraction_of_ends (ends : EndsNumber rest) :
    NumberText.scanFraction rest = ([], rest) := by
  unfold NumberText.scanFraction
  split
  · rename_i d cs
    rw [ends.point d cs rfl, if_neg Bool.false_ne_true]
  · rfl

theorem scanMark_of_letter (letter : rest.head? ≠ some 'e' ∧ rest.head? ≠ some 'E') :
    NumberText.scanMark rest = ([], rest) := by
  cases rest with
  | nil => rfl
  | cons e cs =>
    have noMark : ¬(e = 'e' ∨ e = 'E') := by simpa using letter
    simp only [NumberText.scanMark, noMark, if_false]

theorem scan_digits {digits : List Char} (all : ∀ d ∈ digits, d.isDigit = true)
    (ends : EndsNumber rest) : NumberText.scan (digits ++ rest) = ⟨digits, [], [], [], rest⟩ := by
  obtain ⟨taken, left⟩ := takeWhile_of_ends all ends.digit
  simp only [NumberText.scan, taken, left, scanFraction_of_ends ends, scanMark_of_letter ends.letter,
    if_true]

/-- Digits are read as the number that they stand for. -/
theorem scanNumber_digits {digits : List Char} (all : ∀ d ∈ digits, d.isDigit = true)
    (small : decimalValue digits ≤ maxInteger) (ends : EndsNumber rest) :
    scanNumber (digits ++ rest) = ⟨.ok (.integer (decimalValue digits)), digits, rest⟩ := by
  have answer : NumberText.value ⟨digits, [], [], [], rest⟩ = .ok (.integer (decimalValue digits)) := by
    rw [NumberText.value, if_neg (fun exponent => exponent.1 rfl), if_pos ⟨rfl, rfl⟩]
    exact if_pos small
  simp only [scanNumber, scan_digits all ends, answer, NumberText.text, List.append_nil]

theorem not_sign_of_isDigit (digit : c.isDigit = true) : c ∉ signChars := fun sign => by
  rw [(signChar_not_word sign).2] at digit
  cases digit

/-- What begins with a digit that is no quote is scanned as a number. -/
theorem scanToken_digit (noName : rules.closingQuote? c = none)
    (noString : rules.isStringQuote c = false) (digit : c.isDigit = true) :
    scanToken rules (c :: cs) = scanNumber (c :: cs) := by
  have noBlob : ¬((c = 'X' ∨ c = 'x') ∧ cs.head? = some '\'') := by
    rintro ⟨rfl | rfl, -⟩ <;> exact absurd digit (by decide)
  rw [scanToken, noName]
  simp only [noString, symbol?_eq_none (not_sign_of_isDigit digit), noBlob, digit,
    Bool.false_eq_true, if_false, if_true]

theorem isDigit_of_mem_toDigits {n : Nat} : ∀ d ∈ Nat.toDigits 10 n, d.isDigit = true :=
  fun _ => Nat.isDigit_of_mem_toDigits (by decide) (by decide)

/-- A number in its digits has its own value. -/
theorem decimalValue_toDigits (n : Nat) : decimalValue (Nat.toDigits 10 n) = n :=
  Nat.ofDigitChars_toDigits (by decide) (by decide)

theorem scans_integer (standard : rules.Standard) {n : Nat} (small : n ≤ maxInteger) (ends : Breaks rest) :
    (Sign.integer n).Scans rules rest := by
  have digits : n.repr.toList = Nat.toDigits 10 n := Nat.toList_repr
  obtain ⟨c, cs, eq⟩ := List.exists_cons_of_ne_nil (Nat.toDigits_ne_nil (b := 10) (n := n))
  have first : c.isDigit = true :=
    isDigit_of_mem_toDigits c (by rw [eq]; exact List.mem_cons_self)
  have noSign := not_sign_of_isDigit first
  have notWhite : isWhiteSpace c = false := by
    rw [Bool.eq_false_iff]
    intro white
    rw [isDigit_of_isWhiteSpace white] at first
    cases first
  refine ⟨by simp [Sign.integer], ?_, ?_⟩
  · rw [Sign.integer, digits, eq]
    exact scanLayout_plain notWhite noSign _
  · have noQuote : c ∉ quoteChars := fun quote =>
      noSign ((by decide : quoteChars ⊆ signChars) quote)
    obtain ⟨noName, noString⟩ := standard.plain c noQuote
    have small' : decimalValue (Nat.toDigits 10 n) ≤ maxInteger := by rwa [decimalValue_toDigits]
    have number := scanNumber_digits isDigit_of_mem_toDigits small' ends.endsNumber
    rw [decimalValue_toDigits, eq, List.cons_append] at number
    rw [Sign.integer, digits, eq, List.cons_append, scanToken_digit noName noString first, number]

/-- An integer that is not too large is scanned as what it is to be. -/
theorem solid_integer (standard : rules.Standard) {n : Nat} (small : n ≤ maxInteger) :
    (Sign.integer n).Solid rules := Sign.solid_of_scans fun _ => scans_integer standard small

/-- A body of a string ends at its closing quote, behind which no other quote stands. -/
theorem scanStringBody_ends (escapes : Bool) {quote : Char} (ends : rest.head? ≠ some quote) :
    scanStringBody escapes quote (quote :: rest) = ⟨.ok [], [quote], rest⟩ := by
  cases rest with
  | nil => simp [scanStringBody]
  | cons d rest =>
    have noQuote : d ≠ quote := by simpa using ends
    rw [scanStringBody, if_pos rfl, if_neg noQuote]

/-- A string with its quotes doubled is read up to the quote that is not. -/
theorem scanStringBody_quoted (escapes : Bool) {quote : Char} (value : List Char)
    (ends : rest.head? ≠ some quote) :
    let body := value.flatMap fun c =>
      if c = quote ∨ escapes = true ∧ c = '\\' then [c, c] else [c]
    scanStringBody escapes quote (body ++ quote :: rest) = ⟨.ok value, body ++ [quote], rest⟩ := by
  induction value with
  | nil => exact scanStringBody_ends escapes ends
  | cons c value ih =>
    dsimp only at ih ⊢
    rw [List.flatMap_cons, List.append_assoc, List.append_assoc]
    by_cases same : c = quote
    · subst same
      rw [if_pos (.inl rfl), List.cons_append, List.cons_append, List.nil_append, scanStringBody,
        if_pos rfl, if_pos rfl, ih]
      rfl
    · by_cases escape : escapes = true ∧ c = '\\'
      · obtain ⟨rfl, rfl⟩ := escape
        rw [if_pos (.inr ⟨rfl, rfl⟩), List.cons_append, List.cons_append, List.nil_append,
          scanStringBody, if_neg same, ih]
        rfl
      · have plain : (escapes && c == '\\') = false := by
          rw [Bool.eq_false_iff]
          simpa using escape
        rw [if_neg (not_or.mpr ⟨same, escape⟩), List.cons_append, List.nil_append]
        obtain ⟨d, cs, eq⟩ := List.exists_cons_of_ne_nil (List.append_ne_nil_of_right_ne_nil
          (value.flatMap fun c => if c = quote ∨ escapes = true ∧ c = '\\' then [c, c] else [c])
          (List.cons_ne_nil quote rest))
        rw [eq] at ih ⊢
        rw [scanStringBody, if_neg same, plain, if_neg Bool.false_ne_true, ih]
        rfl

theorem scanLayout_quote {quote : Char} (known : quote ∈ ['"', '\'', '\x60']) (hash : Bool) :
    scanLayout hash .gap (quote :: cs) = ⟨0, [], quote :: cs⟩ := by
  simp only [List.mem_cons, List.not_mem_nil, or_false] at known
  rcases known with rfl | rfl | rfl <;>
    exact scanLayout_ends (by decide) (by decide) (fun same => absurd same (by decide))
      (fun same => absurd same (by decide)) hash

/-- A string is scanned as what it is to be, whatever stands in it. -/
theorem solid_string (standard : rules.Standard) (value : String) :
    (Sign.string rules value).Solid rules := by
  obtain ⟨noName, isString⟩ := standard.string
  refine ⟨by simp [Sign.string], fun rest ends => ?_, fun rest ends => ?_⟩
  · simp only [Sign.string, LexicalRules.quoteString, String.toList_ofList, List.cons_append]
    exact scanLayout_quote (by decide) _
  · have last : rest.head? ≠ some '\'' := fun quote => absurd (ends '\'' quote) (by decide)
    have body := scanStringBody_quoted rules.backslashEscapes value.toList last
    simp only [Sign.string, LexicalRules.quoteString, String.toList_ofList, List.cons_append,
      List.append_assoc, List.nil_append]
    dsimp only at body
    rw [scanToken, noName]
    simp only [isString, if_true, scanString, body, Scan.behind, String.ofList_toList,
      List.cons_append, List.nil_append]

/-- A name ends at its closing quote, behind which no other quote stands. -/
theorem scanQuotedName_quoted {closing : Char} (value : List Char)
    (ends : rest.head? ≠ some closing) :
    let body := value.flatMap fun c => if c = closing then [c, c] else [c]
    scanQuotedName closing (body ++ closing :: rest) = ⟨some value, body ++ [closing], rest⟩ := by
  induction value with
  | nil =>
    cases rest with
    | nil =>
      simp [scanQuotedName]
    | cons d rest =>
      have noQuote : d ≠ closing := by simpa using ends
      simp [scanQuotedName, noQuote]
  | cons c value ih =>
    dsimp only at ih ⊢
    rw [List.flatMap_cons, List.append_assoc, List.append_assoc]
    by_cases quote : c = closing
    · subst quote
      rw [if_pos rfl, List.cons_append, List.cons_append, List.nil_append, scanQuotedName,
        if_pos rfl, if_pos rfl, ih]
      rfl
    · obtain ⟨d, cs, eq⟩ := List.exists_cons_of_ne_nil (List.append_ne_nil_of_right_ne_nil
        (value.flatMap fun c => if c = closing then [c, c] else [c]) (List.cons_ne_nil closing rest))
      rw [if_neg quote, List.cons_append, List.nil_append]
      rw [eq] at ih ⊢
      rw [scanQuotedName, if_neg quote, ih]
      rfl

/-- A name is scanned as what it is to be, with its quotes or without. -/
theorem solid_name (standard : rules.Standard) {l : Label}
    (written : l.quoted = true ∨ isBareWord l.value = true) : (Sign.name rules l).Solid rules := by
  cases quoted : l.quoted with
  | false =>
    rw [Sign.name, quoted, if_neg Bool.false_ne_true]
    exact solid_bare standard (written.resolve_left (by rw [quoted]; exact Bool.false_ne_true))
  | true =>
    obtain ⟨quote, known, pair, opens⟩ := standard.name
    have signs : ['"', '\x60'] ⊆ signChars := by decide
    have quotes : ['"', '\x60'] ⊆ ['"', '\'', '\x60'] := by decide
    have noWhite := isWhiteSpace_signChar (signs known)
    rw [Sign.name, quoted, if_pos rfl]
    refine ⟨by simp, fun rest ends => ?_, fun rest ends => ?_⟩
    · simp only [LexicalRules.quoteIdentifier, pair, Option.getD_some, String.toList_ofList,
        List.cons_append]
      exact scanLayout_quote (quotes known) _
    · have noQuote : rest.head? ≠ some quote := by
        intro first
        rw [ends quote first] at noWhite
        cases noWhite
      have body := scanQuotedName_quoted l.value.toList noQuote
      simp only [LexicalRules.quoteIdentifier, pair, Option.getD_some, String.toList_ofList,
        List.cons_append, List.append_assoc, List.nil_append]
      dsimp only at body
      rw [scanToken, opens]
      simp only [scanQuotedIdentifier, body, Scan.behind, String.ofList_toList, List.cons_append,
        List.nil_append]

theorem hexValue?_digitChar : ∀ n < 16, hexValue? n.digitChar = some n ∧ n.digitChar ≠ '\'' := by
  decide

/-- The digits of a blob are read up to its closing quote. -/
theorem scanHexDigits_digits {digits : List Nat} (all : ∀ n ∈ digits, n < 16) :
    scanHexDigits (digits.map Nat.digitChar ++ '\'' :: rest) =
      ⟨.ok digits, digits.map Nat.digitChar ++ ['\''], rest⟩ := by
  induction digits with
  | nil => rfl
  | cons n digits ih =>
    obtain ⟨value, noQuote⟩ := hexValue?_digitChar n (all n List.mem_cons_self)
    rw [List.map_cons, List.cons_append, scanHexDigits, if_neg noQuote, value,
      ih fun n mem => all n (List.mem_cons_of_mem _ mem)]
    rfl

/-- The digits of bytes, two of each. -/
def digitsOfBytes (bytes : List UInt8) : List Nat :=
  bytes.flatMap fun b => [b.toNat / 16, b.toNat % 16]

theorem lt_of_mem_digitsOfBytes (bytes : List UInt8) : ∀ n ∈ digitsOfBytes bytes, n < 16 := by
  intro n mem
  obtain ⟨b, -, mem⟩ := List.mem_flatMap.mp mem
  have := b.toNat_lt
  simp only [List.mem_cons, List.not_mem_nil, or_false] at mem
  omega

/-- Two digits for each byte give the bytes again. -/
theorem bytesOfDigits?_digitsOfBytes (bytes : List UInt8) :
    bytesOfDigits? (digitsOfBytes bytes) = some bytes := by
  induction bytes with
  | nil => rfl
  | cons b bytes ih =>
    have whole : (16 * (b.toNat / 16) + b.toNat % 16).toUInt8 = b := by
      rw [Nat.div_add_mod]
      exact UInt8.ofNat_toNat
    rw [digitsOfBytes] at ih
    rw [digitsOfBytes, List.flatMap_cons, List.cons_append, List.cons_append, List.nil_append,
      bytesOfDigits?, ih, Option.map_some, whole]

theorem solid_blob (standard : rules.Standard) (bytes : List UInt8) :
    (Sign.blob bytes).Solid rules := by
  have written : (quoteBlob bytes).toList =
      'X' :: '\'' :: ((digitsOfBytes bytes).map Nat.digitChar ++ ['\'']) := by
    simp [quoteBlob, digitsOfBytes, List.map_flatMap]
  refine ⟨by simp [Sign.blob], fun rest ends => ?_, fun rest ends => ?_⟩
  · rw [Sign.blob, written]
    exact scanLayout_plain (by decide) (by decide) _
  · have body : scanHexDigits ((digitsOfBytes bytes).map Nat.digitChar ++ '\'' :: rest) =
        ⟨_, _, rest⟩ := scanHexDigits_digits (lt_of_mem_digitsOfBytes bytes)
    rw [Sign.blob, written, List.cons_append, List.cons_append, List.append_assoc,
      scanToken_plain standard (by decide), if_pos ⟨.inl rfl, rfl⟩]
    rw [List.drop_one, List.tail_cons, List.cons_append, List.nil_append, scanBlob, body]
    simp only [Scan.behind, bytesOfDigits?_digitsOfBytes]
    rfl

end

end SqlTree
