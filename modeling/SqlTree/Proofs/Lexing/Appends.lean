import SqlTree.Proofs.Lexing.Cuts

namespace SqlTree

section

variable {b : Char} {more : List Char}

/-- A name that is closed between its quotes ends there, whatever is put behind the text after a blank. -/
theorem scanQuotedName_blank {closing : Char} (plain : closing ≠ b) {cs : List Char}
    (closed : (scanQuotedName closing cs).value ≠ none) :
    scanQuotedName closing (cs ++ b :: more) =
      (scanQuotedName closing cs).followedBy ((scanQuotedName closing cs).rest ++ b :: more) := by
  fun_induction scanQuotedName closing cs with
  | case1 => exact absurd rfl closed
  | case2 => simp [scanQuotedName, plain.symm, Scan.followedBy]
  | case3 => exact absurd rfl closed
  | case4 cs ih =>
    have closed' : (scanQuotedName closing cs).value ≠ none := by simpa [Scan.behind] using closed
    have inner := ih closed'
    simp only [Scan.behind, List.cons_append] at inner ⊢
    rw [scanQuotedName, if_pos rfl, if_pos rfl, inner]
    rfl
  | case5 d cs other => simp [scanQuotedName, other, Scan.followedBy]
  | case6 c d cs other ih =>
    have closed' : (scanQuotedName closing (d :: cs)).value ≠ none := by
      simpa [Scan.behind] using closed
    have inner := ih closed'
    simp only [Scan.behind, List.cons_append] at inner ⊢
    rw [scanQuotedName, if_neg other, inner]
    rfl

/-- A string that is closed ends there. -/
theorem scanStringBody_blank {escapes : Bool} {quote : Char} (plain : quote ≠ b)
    {cs body : List Char} (closed : (scanStringBody escapes quote cs).value = .ok body) :
    scanStringBody escapes quote (cs ++ b :: more) =
      (scanStringBody escapes quote cs).followedBy
        ((scanStringBody escapes quote cs).rest ++ b :: more) := by
  fun_induction scanStringBody escapes quote cs generalizing body with
  | case1 => cases closed
  | case2 => simp [scanStringBody, plain.symm, Scan.followedBy]
  | case3 => cases closed
  | case4 cs ih =>
    obtain ⟨rest, closed', -⟩ := consString_ok closed
    have inner := ih closed'
    simp only [Scan.behind, List.cons_append] at inner ⊢
    rw [scanStringBody, if_pos rfl, if_pos rfl, inner]
    rfl
  | case5 d cs other => simp [scanStringBody, other, Scan.followedBy]
  | case6 c d cs other escaped value known ih =>
    obtain ⟨rest, closed', -⟩ := consString_ok closed
    have inner := ih closed'
    simp only [Scan.behind, List.cons_append] at inner ⊢
    rw [scanStringBody, if_neg other, if_pos escaped, known]
    simp only [inner]
    rfl
  | case7 => cases closed
  | case8 c d cs other unescaped ih =>
    obtain ⟨rest, closed', -⟩ := consString_ok closed
    have inner := ih closed'
    simp only [Scan.behind, List.cons_append] at inner ⊢
    rw [scanStringBody, if_neg other, if_neg unescaped, inner]
    rfl

theorem scanHexDigits_append {cs : List Char} {digits : List Nat}
    (closed : (scanHexDigits cs).value = .ok digits) :
    scanHexDigits (cs ++ more) = (scanHexDigits cs).followedBy ((scanHexDigits cs).rest ++ more) := by
  fun_induction scanHexDigits cs generalizing digits with
  | case1 => cases closed
  | case2 => simp [scanHexDigits, Scan.followedBy]
  | case3 c cs other digit known ih =>
    cases value : (scanHexDigits cs).value with
    | error => simp [Scan.behind, value, Except.map] at closed
    | ok rest =>
      have inner := ih value
      simp only [Scan.behind, List.cons_append] at inner ⊢
      rw [scanHexDigits, if_neg other, known]
      simp only [inner]
      rfl
  | case4 c cs other unknown white ih =>
    have inner := ih closed
    simp only [Scan.behind, List.cons_append] at inner ⊢
    rw [scanHexDigits, if_neg other, unknown]
    simp only [white, inner, if_true]
    rfl
  | case5 => cases closed

/-- What a text and a character behind it begin with, the text begins with, unless it is that character. -/
theorem begins_of_ne {c : Char} {cs tail : List Char} (other : c ≠ b)
    (begins : cs ++ b :: more = c :: tail) : ∃ rest, cs = c :: rest := by
  cases cs with
  | nil => exact absurd (List.cons.inj begins).1.symm other
  | cons d cs =>
    obtain ⟨rfl, -⟩ := List.cons.inj begins
    exact ⟨cs, rfl⟩

/-- No mark is white space. -/
theorem ne_of_white {c : Char} (white : isWhiteSpace b = true) (mark : isWhiteSpace c = false) : c ≠ b := by
  rintro rfl
  rw [mark] at white
  cases white

/-- A row of characters ends where one stands that does not belong to it. -/
theorem takeWhile_blank {p : Char → Bool} (ends : p b = false) (cs more : List Char) :
    (cs ++ b :: more).takeWhile p = cs.takeWhile p ∧
      (cs ++ b :: more).dropWhile p = cs.dropWhile p ++ b :: more := by
  induction cs with
  | nil => simp [ends]
  | cons c cs ih =>
    cases first : p c with
    | true => simp [first, ih]
    | false => simp [first]

namespace NumberText

theorem scanFraction_blank (white : isWhiteSpace b = true) (cs more : List Char) :
    scanFraction (cs ++ b :: more) = ((scanFraction cs).1, (scanFraction cs).2 ++ b :: more) := by
  fun_cases scanFraction cs with
  | case1 d cs digit =>
    obtain ⟨whole, rest⟩ := takeWhile_blank (p := Char.isDigit) (isDigit_of_isWhiteSpace white) (d :: cs) more
    simp only [List.cons_append] at whole rest ⊢
    rw [scanFraction, if_pos digit, whole, rest]
  | case2 d cs noDigit => exact if_neg noDigit
  | case3 cs other =>
    by_cases point : cs = ['.']
    · subst point
      exact if_neg (by simp [isDigit_of_isWhiteSpace white])
    · rw [scanFraction]
      intro d rest eq
      obtain ⟨behind, rfl⟩ := begins_of_ne (ne_of_white white rfl) eq
      cases behind with
      | nil => exact point rfl
      | cons e behind => exact other e behind rfl

theorem scanMark_blank (white : isWhiteSpace b = true) (cs more : List Char) :
    scanMark (cs ++ b :: more) = ((scanMark cs).1, (scanMark cs).2 ++ b :: more) := by
  fun_cases scanMark cs with
  | case1 =>
    have noLetter : ¬(b = 'e' ∨ b = 'E') := by
      rintro (rfl | rfl) <;> exact absurd white (by decide)
    exact if_neg noLetter
  | case2 e letter =>
    have noSign : ¬(b = '+' ∨ b = '-') := by
      rintro (rfl | rfl) <;> exact absurd white (by decide)
    simp [scanMark, letter, noSign]
  | case3 e letter s cs sign => simp [scanMark, letter, sign]
  | case4 e letter s cs noSign => simp [scanMark, letter, noSign]
  | case5 e cs noLetter => simp [scanMark, noLetter]

/-- No number goes on behind white space. -/
theorem scan_blank (white : isWhiteSpace b = true) (cs more : List Char) :
    scan (cs ++ b :: more) = { scan cs with rest := (scan cs).rest ++ b :: more } := by
  have digits := takeWhile_blank (p := Char.isDigit) (isDigit_of_isWhiteSpace white) cs more
  have points := scanFraction_blank white (cs.dropWhile Char.isDigit) more
  rcases point : scanFraction (cs.dropWhile Char.isDigit) with ⟨fraction, behindFraction⟩
  have letters := scanMark_blank white behindFraction more
  rcases letter : scanMark behindFraction with ⟨mark, behindMark⟩
  rw [point] at points
  rw [letter] at letters
  rw [scan_of_parts ⟨rfl, rfl⟩ point letter, scan_of_parts digits points letters]
  split
  · rfl
  · obtain ⟨exponent, rest⟩ := takeWhile_blank (p := Char.isDigit) (isDigit_of_isWhiteSpace white) behindMark more
    rw [exponent, rest]

end NumberText

theorem symbol?_blank (white : isWhiteSpace b = true) (cs : List Char) : symbol? (cs ++ b :: more) = symbol? cs := by
  fun_cases symbol? cs
  all_goals try rfl
  -- The marks of one character that others of two begin with.
  case case26 | case27 | case28 | case29 =>
    simp only [List.cons_append]
    rw [symbol?]
    all_goals
      intro tail eq
      obtain ⟨rest, rfl⟩ := begins_of_ne (ne_of_white white rfl) eq
      simp_all
  case case30 =>
    rw [symbol?]
    all_goals
      intro tail eq
      obtain ⟨rest, rfl⟩ := begins_of_ne (ne_of_white white rfl) eq
      first
      | grind
      | (obtain ⟨-, eq⟩ := List.cons.inj eq
         obtain ⟨rest, rfl⟩ := begins_of_ne (ne_of_white white rfl) eq
         grind)

theorem scanWord_blank (white : isWhiteSpace b = true) (keywords : KeywordTable) (cs more : List Char) :
    scanWord keywords (cs ++ b :: more) =
      (scanWord keywords cs).followedBy ((scanWord keywords cs).rest ++ b :: more) := by
  obtain ⟨whole, rest⟩ := takeWhile_blank (isWordChar_of_isWhiteSpace white) cs more
  simp only [scanWord, whole, rest, Scan.followedBy]

/-- White space that closes no name and no string. -/
structure LexicalRules.SafeAt (rules : LexicalRules) (b : Char) : Prop where
  white : isWhiteSpace b = true
  name : ∀ opening closing, rules.closingQuote? opening = some closing → closing ≠ b
  string : rules.isStringQuote b = false

/-- No name and no string is closed by the end of a line. -/
abbrev LexicalRules.LineSafe (rules : LexicalRules) : Prop := rules.SafeAt '\n'

/-- In the built-in dialects no name and no string is closed by white space. -/
theorem Dialect.safeAt_of_builtin {d : Dialect} (builtin : d ∈ Dialect.builtin)
    (white : isWhiteSpace b = true) : d.lexical.SafeAt b := by
  have each : ∀ d ∈ Dialect.builtin, d.lexical.identifierQuotes.map Prod.snd ⊆ signChars ∧
      d.lexical.stringQuotes ⊆ signChars := by decide
  obtain ⟨names, strings⟩ := each d builtin
  refine ⟨white, fun opening closing found => ?_, Bool.eq_false_iff.mpr fun quote => ?_⟩
  · obtain ⟨before, behind, split, -⟩ := List.lookup_eq_some_iff.mp found
    have mem : (opening, closing) ∈ d.lexical.identifierQuotes := by rw [split]; simp
    exact ne_of_white white (isWhiteSpace_signChar (names (List.mem_map_of_mem mem)))
  · exact ne_of_white white (isWhiteSpace_signChar (strings (List.contains_iff_mem.mp quote))) rfl

theorem Dialect.lineSafe_of_builtin {d : Dialect} (builtin : d ∈ Dialect.builtin) : d.lexical.LineSafe :=
  safeAt_of_builtin builtin rfl

/-- Where no blob begins, none begins if white space is put behind the text. -/
theorem noBlob_blank (white : isWhiteSpace b = true) {letter : Prop} {cs : List Char} (noBlob : ¬(letter ∧ cs.head? = some '\'')) :
    ¬(letter ∧ (cs ++ b :: more).head? = some '\'') := by
  rintro ⟨first, quote⟩
  obtain ⟨tail, eq⟩ := List.head?_eq_some_iff.mp quote
  obtain ⟨rest, rfl⟩ := begins_of_ne (ne_of_white white rfl) eq
  exact noBlob ⟨first, rfl⟩

/-- No token goes on behind white space unless it is put in quotes. -/
theorem scanToken_blank {rules : LexicalRules} (safe : rules.SafeAt b) {cs : List Char}
    {kind : TokenKind} (found : (scanToken rules cs).value = .ok kind) (notEof : kind ≠ .eof) :
    scanToken rules (cs ++ b :: more) =
      (scanToken rules cs).followedBy ((scanToken rules cs).rest ++ b :: more) := by
  revert found
  fun_cases scanToken rules cs with
  | case1 => exact fun found => absurd (Except.ok.inj found).symm notEof
  | case2 c cs closing quoted =>
    intro found
    have closed : (scanQuotedName closing cs).value ≠ none := by
      intro none
      simp [scanQuotedIdentifier, Scan.behind, none] at found
    simp only [List.cons_append, scanToken, quoted, scanQuotedIdentifier,
      scanQuotedName_blank (safe.name _ _ quoted) closed]
    rfl
  | case3 c cs unquoted quote =>
    intro found
    have plain : c ≠ b := by
      rintro rfl
      rw [safe.string] at quote
      cases quote
    cases body : (scanStringBody rules.backslashEscapes c cs).value with
    | error fault => cases fault <;> simp [scanString, Scan.behind, body] at found
    | ok value =>
      simp only [List.cons_append, scanToken, unquoted, quote, if_true, scanString,
        scanStringBody_blank plain body]
      rfl
  | case4 c cs unquoted noString kind size symbol =>
    intro _
    have same : symbol? (c :: (cs ++ b :: more)) = some (kind, size) :=
      (symbol?_blank safe.white (c :: cs)).trans symbol
    have within := symbol?_size_le symbol
    rw [List.cons_append]
    simp only [scanToken, unquoted, noString, same, Bool.false_eq_true, if_false]
    rw [← List.cons_append, List.take_append_of_le_length within, List.drop_append_of_le_length within]
    rfl
  | case5 c cs unquoted noString noSymbol letter =>
    intro found
    obtain ⟨letter, quote⟩ := letter
    obtain ⟨cs, rfl⟩ := List.head?_eq_some_iff.mp quote
    have none : symbol? (c :: '\'' :: (cs ++ b :: more)) = none :=
      (symbol?_blank safe.white (c :: '\'' :: cs)).trans noSymbol
    cases digits : (scanHexDigits cs).value with
    | error fault => simp [scanBlob, Scan.behind, digits] at found
    | ok value =>
      simp only [List.cons_append, scanToken, unquoted, noString, none, letter, List.head?_cons, and_self,
        if_true, Bool.false_eq_true, if_false, List.drop_succ_cons, List.drop_zero, scanBlob,
        scanHexDigits_append digits]
      rfl
  | case6 c cs unquoted noString noSymbol noBlob digit =>
    intro _
    have none : symbol? (c :: (cs ++ b :: more)) = none := (symbol?_blank safe.white (c :: cs)).trans noSymbol
    have scan := NumberText.scan_blank safe.white (c :: cs) more
    rw [List.cons_append] at scan ⊢
    simp only [scanToken, unquoted, noString, none, noBlob_blank safe.white noBlob, digit, if_true,
      Bool.false_eq_true, if_false, scanNumber, scan]
    rfl
  | case7 c cs unquoted noString noSymbol noBlob noDigit word =>
    intro _
    have none : symbol? (c :: (cs ++ b :: more)) = none := (symbol?_blank safe.white (c :: cs)).trans noSymbol
    have scan := scanWord_blank safe.white rules.keywords (c :: cs) more
    rw [List.cons_append] at scan ⊢
    simp only [scanToken, unquoted, noString, none, noBlob_blank safe.white noBlob, noDigit, word, if_true,
      Bool.false_eq_true, if_false, scan]
  | case8 => rintro ⟨⟩

theorem begins_no_comment {c : Char} (white : isWhiteSpace c = true) : c ≠ '-' ∧ c ≠ '/' := by
  constructor <;> rintro rfl <;> exact absurd white (by decide)

/-- Layout ends at the same place if white space is put behind what follows it. -/
theorem scanLayout_blank (white : isWhiteSpace b = true) {hash : Bool} {state : LayoutState} {cs : List Char}
    (left : (scanLayout hash state cs).rest ≠ []) :
    scanLayout hash state (cs ++ b :: more) =
      (scanLayout hash state cs).followedBy ((scanLayout hash state cs).rest ++ b :: more) := by
  fun_induction scanLayout hash state cs with
  | case1 => exact absurd rfl left
  | case2 cs ih =>
    have inner := ih left
    simp only [Scan.behind, List.cons_append] at inner ⊢
    rw [scanLayout, inner]
    rfl
  | case3 cs ih =>
    have inner := ih left
    simp only [Scan.behind, List.cons_append] at inner ⊢
    rw [scanLayout, inner]
    rfl
  | case4 c cs noLine noBlock first ih =>
    have inner := ih left
    obtain ⟨noDash, noSlash⟩ := begins_no_comment first
    simp only [Scan.behind, List.cons_append] at inner ⊢
    rw [scanLayout, if_pos first, inner]
    · rfl
    · exact fun _ dash => absurd dash noDash
    · exact fun _ slash => absurd slash noSlash
  | case5 c cs noLine noBlock noWhite comment ih =>
    have inner := ih left
    obtain ⟨-, sharp⟩ := Bool.and_eq_true_iff.mp comment
    obtain rfl := beq_iff_eq.mp sharp
    simp only [Scan.behind, List.cons_append] at inner ⊢
    rw [scanLayout, if_neg noWhite, if_pos comment, inner]
    · rfl
    · rintro _ ⟨⟩
    · rintro _ ⟨⟩
  | case6 c cs noLine noBlock noWhite noComment =>
    rw [List.cons_append, scanLayout, if_neg noWhite, if_neg noComment]
    · rfl
    · rintro tail rfl eq
      obtain ⟨rest, rfl⟩ := begins_of_ne (ne_of_white white rfl) eq
      exact noLine _ rfl rfl
    · rintro tail rfl eq
      obtain ⟨rest, rfl⟩ := begins_of_ne (ne_of_white white rfl) eq
      exact noBlock _ rfl rfl
  | case7 => exact absurd rfl left
  | case8 c cs ih =>
    have inner := ih left
    simp only [Scan.behind, List.cons_append] at inner ⊢
    rw [scanLayout, inner]
    rfl
  | case9 => exact absurd rfl left
  | case10 read cs ih =>
    have inner := ih left
    simp only [Scan.behind, List.cons_append] at inner ⊢
    rw [scanLayout, inner]
    rfl
  | case11 read c cs noEnd ih =>
    have inner := ih left
    simp only [Scan.behind, List.cons_append] at inner ⊢
    rw [scanLayout, inner]
    · rfl
    · rintro tail rfl eq
      obtain ⟨rest, rfl⟩ := begins_of_ne (ne_of_white white rfl) eq
      exact noEnd _ rfl rfl

/-- Where nothing but layout is left of a text, the end of a line behind it is layout, too, and what
follows stands behind it. -/
theorem scanLayout_ended {hash : Bool} {state : LayoutState} (cs : List Char)
    (begun : state ≠ .block 0) (closed : (scanLayout hash state cs).value = 0)
    (ended : (scanLayout hash state cs).rest = []) :
    scanLayout hash state (cs ++ '\n' :: more) =
      (scanLayout hash .gap more).behind (cs ++ ['\n']) id := by
  have behind (gap text : List Char) : ((scanLayout hash .gap more).behind text id).behind gap id =
      (scanLayout hash .gap more).behind (gap ++ text) id := by
    simp [Scan.behind]
  fun_induction scanLayout hash state cs with
  | case1 => rfl
  | case2 cs ih =>
    rw [List.cons_append, List.cons_append, scanLayout, ih (by simp) closed ended, behind]
    rfl
  | case3 cs ih =>
    rw [List.cons_append, List.cons_append, scanLayout, ih (by simp) closed ended, behind]
    rfl
  | case4 c cs noLine noBlock white ih =>
    obtain ⟨noDash, noSlash⟩ := begins_no_comment white
    rw [List.cons_append, scanLayout, if_pos white, ih (by simp) closed ended, behind]
    · rfl
    · exact fun _ dash => absurd dash noDash
    · exact fun _ slash => absurd slash noSlash
  | case5 c cs noLine noBlock noWhite comment ih =>
    obtain ⟨-, sharp⟩ := Bool.and_eq_true_iff.mp comment
    obtain rfl := beq_iff_eq.mp sharp
    rw [List.cons_append, scanLayout, if_neg noWhite, if_pos comment, ih (by simp) closed ended, behind]
    · rfl
    · rintro _ ⟨⟩
    · rintro _ ⟨⟩
  | case6 => cases ended
  | case7 => rfl
  | case8 c cs ih =>
    have inner := ih (by split <;> simp) closed ended
    rw [List.cons_append, scanLayout, inner, behind]
    rfl
  | case9 read =>
    obtain rfl : read = 0 := closed
    exact absurd rfl begun
  | case10 read cs ih =>
    rw [List.cons_append, List.cons_append, scanLayout, ih (by simp) closed ended, behind]
    rfl
  | case11 read c cs noEnd ih =>
    rw [List.cons_append, scanLayout, ih (by simp) closed ended, behind]
    · rfl
    · rintro tail rfl eq
      obtain ⟨rest, rfl⟩ := begins_of_ne (by decide) eq
      exact noEnd _ rfl rfl

end

end SqlTree
