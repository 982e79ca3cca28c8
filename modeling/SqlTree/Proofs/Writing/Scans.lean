import SqlTree.Proofs.Writing.Words

namespace SqlTree

/-- All white space, by its code points. -/
def whiteSpaceCodes : List Nat :=
  whiteSpaceRanges.flatMap fun range => List.range' range.1 (range.2 + 1 - range.1)

/-- All white space is listed here. -/
theorem mem_whiteSpaceCodes {c : Char} (white : isWhiteSpace c = true) :
    c.toNat ∈ whiteSpaceCodes := by
  obtain ⟨range, mem, least, most⟩ := inRanges_iff.mp white
  exact List.mem_flatMap.mpr ⟨range, mem, List.mem_range'_1.mpr (by omega)⟩

/-- What no white space passes is found by trying all of it. -/
theorem eq_false_of_isWhiteSpace {test : Char → Bool} {c : Char}
    (none : ∀ n ∈ whiteSpaceCodes, test (Char.ofNat n) = false) (white : isWhiteSpace c = true) :
    test c = false := by
  have := none c.toNat (mem_whiteSpaceCodes white)
  rwa [Char.ofNat_toNat] at this

theorem isWordChar_of_isWhiteSpace {c : Char} (white : isWhiteSpace c = true) :
    isWordChar c = false :=
  eq_false_of_isWhiteSpace (by decide +kernel) white

theorem isDigit_of_isWhiteSpace {c : Char} (white : isWhiteSpace c = true) : c.isDigit = false :=
  eq_false_of_isWhiteSpace (by decide +kernel) white

/-- The quotes and marks that a dialect knows. -/
def signChars : List Char :=
  ['"', '\'', '\x60', '[', ']', ':', '|', '<', '=', '>', '!', '(', ')', ',', ';', '+', '-', '*', '/',
    '%', '~', '?', '@', '.', '&', '#']

theorem isWhiteSpace_signChar {c : Char} (sign : c ∈ signChars) : isWhiteSpace c = false := by
  have all : signChars.all (fun c => !isWhiteSpace c) = true := by decide +kernel
  simpa using List.all_eq_true.mp all c sign

theorem signChar_not_word {c : Char} (sign : c ∈ signChars) :
    (isAlphabetic c || c == '_') = false ∧ c.isDigit = false := by
  have all : signChars.all (fun c => !(isAlphabetic c || c == '_') && !c.isDigit) = true := by
    decide +kernel
  have holds := List.all_eq_true.mp all c sign
  rwa [Bool.and_eq_true, Bool.not_eq_true', Bool.not_eq_true'] at holds

theorem isDigit_not_letter {c : Char} (digit : c.isDigit = true) :
    (isAlphabetic c || c == '_') = false := by
  have none : ∀ n ∈ List.range' 48 10,
      (isAlphabetic (Char.ofNat n) || Char.ofNat n == '_') = false := by decide
  have mem : c.toNat ∈ List.range' 48 10 := by
    rw [Char.isDigit, Bool.and_eq_true, decide_eq_true_iff, decide_eq_true_iff] at digit
    have least : 48 ≤ c.toNat := UInt32.le_iff_toNat_le.mp digit.1
    have most : c.toNat ≤ 57 := UInt32.le_iff_toNat_le.mp digit.2
    exact List.mem_range'_1.mpr (by omega)
  have := none c.toNat mem
  rwa [Char.ofNat_toNat] at this

/-- Where no sign stands, no mark is read. -/
theorem symbol?_eq_none {c : Char} (other : c ∉ signChars) (cs : List Char) :
    symbol? (c :: cs) = none := by
  unfold symbol?
  split
  all_goals
    first
    | rfl
    | (rename_i same; cases same; exact absurd (by decide) other)

/-- A row of characters is read up to what ends it. -/
theorem takeWhile_of_ends {p : Char → Bool} {word rest : List Char} (all : ∀ c ∈ word, p c = true)
    (stop : ∀ c ∈ rest.head?, p c = false) : (word ++ rest).takeWhile p = word ∧
      (word ++ rest).dropWhile p = rest := by
  rw [List.takeWhile_append_of_pos all, List.dropWhile_append_of_pos all]
  cases rest with
  | nil => simp
  | cons c rest => simp [stop c rfl]

section

variable {rules : LexicalRules} {c : Char} {cs rest gap : List Char} {w : String}

/-- Layout ends where something begins that is neither white space nor a comment. -/
theorem scanLayout_ends (notWhite : isWhiteSpace c = false) (notHash : c ≠ '#')
    (notLine : c = '-' → cs.head? ≠ some '-') (notBlock : c = '/' → cs.head? ≠ some '*')
    (hash : Bool) : scanLayout hash .gap (c :: cs) = ⟨0, [], c :: cs⟩ := by
  unfold scanLayout
  split
  all_goals simp_all

/-- White space in front of what ends layout is layout. -/
theorem scanLayout_gap (white : ∀ c ∈ gap, isWhiteSpace c = true) (hash : Bool)
    (ends : scanLayout hash .gap cs = ⟨0, [], cs⟩) :
    scanLayout hash .gap (gap ++ cs) = ⟨0, gap, cs⟩ := by
  induction gap with
  | nil => exact ends
  | cons w gap ih =>
    have whiteFirst := white w List.mem_cons_self
    have rest := ih fun c mem => white c (List.mem_cons_of_mem _ mem)
    have step : scanLayout hash .gap (w :: (gap ++ cs)) =
        (scanLayout hash .gap (gap ++ cs)).behind [w] id := by
      have notDash : w ≠ '-' := by rintro rfl; exact absurd whiteFirst (by decide)
      have notSlash : w ≠ '/' := by rintro rfl; exact absurd whiteFirst (by decide)
      rw [scanLayout.eq_def]
      split <;> simp_all
    rw [List.cons_append, step, rest]
    rfl

/-- A sign is scanned as what it is to be, up to the white space behind it. -/
structure Sign.Solid (rules : LexicalRules) (sign : Sign) : Prop where
  notEof : sign.kind ≠ .eof
  layout : ∀ rest, EndsToken rest → scanLayout rules.hashComments .gap (sign.text.toList ++ rest) =
    ⟨0, [], sign.text.toList ++ rest⟩
  scan : ∀ rest, EndsToken rest →
    scanToken rules (sign.text.toList ++ rest) = ⟨.ok sign.kind, sign.text.toList, rest⟩

/-- The operators and punctuation marks of expressions. -/
def marks : List (String × TokenKind) :=
  [("(", .leftParen), (")", .rightParen), (",", .comma), (".", .dot), (":", .colon),
    ("?", .question), ("-", .minus), ("~", .bitNot), ("+", .plus), ("*", .star), ("/", .slash),
    ("%", .percent), ("=", .eq), ("<>", .notEq), ("<", .lt), ("<=", .ltEq), (">", .gt),
    (">=", .gtEq), ("||", .concat), ("&", .bitAnd), ("|", .bitOr), ("<<", .leftShift),
    (">>", .rightShift)]

/-- Whether characters begin with a mark that is no quote, and with no comment. -/
def beginsMark : List Char → Bool
  | [] => false
  | c :: cs => signChars.contains c && !quoteChars.contains c && c != '#' &&
    (cs.isEmpty || c != '-' && c != '/')

/-- No longer mark can be read where white space follows. -/
theorem symbol?_mark {mark : String × TokenKind} (known : mark ∈ marks) (ends : EndsToken rest) :
    symbol? (mark.1.toList ++ rest) = some (mark.2, mark.1.toList.length) := by
  have other : ∀ c ∈ rest.head?, c ∉ signChars := fun c first sign => by
    have white := ends c first
    rw [isWhiteSpace_signChar sign] at white
    cases white
  cases rest with
  | nil =>
    rw [List.append_nil]
    revert mark
    decide
  | cons w rest =>
    have other := other w rfl
    simp only [signChars, List.mem_cons, List.not_mem_nil, or_false, not_or] at other
    -- Only these four begin a longer mark as well.
    have short : symbol? (':' :: w :: rest) = some (.colon, 1) ∧
        symbol? ('|' :: w :: rest) = some (.bitOr, 1) ∧
        symbol? ('<' :: w :: rest) = some (.lt, 1) ∧ symbol? ('>' :: w :: rest) = some (.gt, 1) := by
      simp [symbol?, other]
    simp only [marks, List.mem_cons, List.not_mem_nil, or_false] at known
    rcases known with rfl | rfl | rfl | rfl | rfl | rfl | rfl | rfl | rfl | rfl | rfl | rfl |
      rfl | rfl | rfl | rfl | rfl | rfl | rfl | rfl | rfl | rfl | rfl
    all_goals
      first
      | rfl
      | exact short.1
      | exact short.2.1
      | exact short.2.2.1
      | exact short.2.2.2

end

end SqlTree
