import SqlTree.Proofs.Lexing.Split
import SqlTree.Proofs.Text.Case
import SqlTree.Proofs.Writing.Scans

namespace SqlTree

/-- The same scan where `kept` is all that follows. -/
def Scan.followedBy {α : Type} (s : Scan α) (kept : List Char) : Scan α := { s with rest := kept }

/-- A relation of every character to itself, and else of letters to the same ones in another case. -/
structure Recasing (R : Char → Char → Prop) : Prop where
  refl : ∀ c, R c c
  sameLetter : ∀ {c c'}, R c c' → SameLetter c c'

/-- To leave every character as it is is a recasing. -/
theorem recasing_eq : Recasing Eq where
  refl _ := rfl
  sameLetter := by
    rintro c _ rfl
    exact .refl c

/-- What may stand in the place of what follows: a beginning of it, perhaps with letters in other cases. -/
inductive Replaces (R : Char → Char → Prop) : List Char → List Char → Prop
  | nil {rest} : Replaces R [] rest
  | cons {c c' rest kept} : R c c' → Replaces R kept rest → Replaces R (c' :: kept) (c :: rest)

/-- A recasing that keeps the quotes of some rules. -/
structure LexicalRules.Keeps (rules : LexicalRules) (R : Char → Char → Prop) : Prop extends
    Recasing R where
  name : ∀ {opening closing c c'}, rules.closingQuote? opening = some closing → R c c' → c' = closing →
    c = closing
  string : ∀ {quote c c'}, rules.isStringQuote quote = true → R c c' → c' = quote → c = quote

theorem LexicalRules.keeps_eq (rules : LexicalRules) : rules.Keeps Eq where
  toRecasing := recasing_eq
  name := fun _ same => same.trans
  string := fun _ same => same.trans

theorem isAlphabetic_of_isAlpha {c : Char} (alpha : c.isAlpha = true) : isAlphabetic c = true := by
  rw [isAlphabetic, if_pos (toNat_lt_of_isAlpha alpha), alpha]

theorem isDigit_of_isAlpha {c : Char} (alpha : c.isAlpha = true) : c.isDigit = false := by
  refine Bool.eq_false_iff.mpr fun digit => ?_
  have other := isDigit_not_letter digit
  simp [isAlphabetic_of_isAlpha alpha] at other

theorem isWordChar_of_isAlpha {c : Char} (alpha : c.isAlpha = true) : isWordChar c = true := by
  simp [isWordChar, isAlphanumeric, isAlphabetic_of_isAlpha alpha]

theorem isWhiteSpace_of_isAlpha {c : Char} (alpha : c.isAlpha = true) : isWhiteSpace c = false := by
  refine Bool.eq_false_iff.mpr fun white => ?_
  have other : c.isAlpha = false := eq_false_of_isWhiteSpace (by decide +kernel) white
  rw [alpha] at other
  cases other

namespace Replaces

variable {R : Char → Char → Prop} {kept rest : List Char}

theorem of_beginning (shorter : kept <+: rest) : Replaces Eq kept rest := by
  induction kept generalizing rest with
  | nil => exact .nil
  | cons c kept ih =>
    obtain ⟨more, rfl⟩ := shorter
    exact .cons rfl (ih (List.prefix_append kept more))

theorem eq_nil (replaces : Replaces R kept []) : kept = [] := by
  cases replaces
  rfl

theorem append (recasing : Recasing R) (front : List Char) (replaces : Replaces R kept rest) :
    Replaces R (front ++ kept) (front ++ rest) := by
  induction front with
  | nil => exact replaces
  | cons c front ih => exact .cons (recasing.refl c) ih

/-- What is no letter is what it is in the place where it stands. -/
theorem begins (recasing : Recasing R) {c : Char} (noLetter : c.isAlpha = false)
    (replaces : Replaces R (c :: kept) rest) : ∃ more, rest = c :: more ∧ Replaces R kept more := by
  cases replaces with
  | cons same replaces =>
    obtain rfl := ((recasing.sameLetter same).eq_iff noLetter).mp rfl
    exact ⟨_, rfl, replaces⟩

/-- What is no letter heads a text if it heads what stands in its place. -/
theorem head? (recasing : Recasing R) {c : Char} (noLetter : c.isAlpha = false)
    (replaces : Replaces R kept rest) (first : kept.head? = some c) : rest.head? = some c := by
  obtain ⟨tail, rfl⟩ := List.head?_eq_some_iff.mp first
  obtain ⟨more, rfl, -⟩ := replaces.begins recasing noLetter
  rfl

end Replaces

section

variable {R : Char → Char → Prop} {kept : List Char}

theorem scanQuotedName_text_ne_nil {closing : Char} {cs : List Char}
    (closed : (scanQuotedName closing cs).value ≠ none) : (scanQuotedName closing cs).text ≠ [] := by
  revert closed
  fun_cases scanQuotedName closing cs <;> simp [Scan.behind]

/-- A name between quotes is read again where less follows it. -/
theorem scanQuotedName_cut {closing : Char} {cs : List Char}
    (keeps : ∀ {c c'}, R c c' → c' = closing → c = closing)
    (closed : (scanQuotedName closing cs).value ≠ none)
    (replaces : Replaces R kept (scanQuotedName closing cs).rest) :
    scanQuotedName closing ((scanQuotedName closing cs).text ++ kept) =
      (scanQuotedName closing cs).followedBy kept := by
  fun_induction scanQuotedName closing cs with
  | case1 => exact absurd rfl closed
  | case2 =>
    obtain rfl := replaces.eq_nil
    simp [scanQuotedName, Scan.followedBy]
  | case3 => exact absurd rfl closed
  | case4 cs ih =>
    have closed' : (scanQuotedName closing cs).value ≠ none := by simpa [Scan.behind] using closed
    have inner := ih closed' replaces
    simp only [Scan.behind, List.cons_append, List.nil_append] at inner ⊢
    rw [scanQuotedName, if_pos rfl, if_pos rfl, inner]
    rfl
  | case5 d cs other =>
    cases replaces with
    | nil => simp [scanQuotedName, Scan.followedBy]
    | @cons _ c' _ _ same =>
      have other' : c' ≠ closing := fun first => other (keeps same first)
      simp [scanQuotedName, other', Scan.followedBy]
  | case6 c d cs other ih =>
    have closed' : (scanQuotedName closing (d :: cs)).value ≠ none := by
      simpa [Scan.behind] using closed
    have inner := ih closed' replaces
    obtain ⟨e, text, eq⟩ := List.exists_cons_of_ne_nil (scanQuotedName_text_ne_nil closed')
    simp only [Scan.behind, List.cons_append, List.nil_append] at inner ⊢
    rw [eq, List.cons_append] at inner ⊢
    rw [scanQuotedName, if_neg other, inner]
    simp [Scan.behind, Scan.followedBy, eq]

theorem scanStringBody_text_ne_nil {escapes : Bool} {quote : Char} {cs body : List Char}
    (closed : (scanStringBody escapes quote cs).value = .ok body) :
    (scanStringBody escapes quote cs).text ≠ [] := by
  revert closed
  fun_cases scanStringBody escapes quote cs <;> simp [Scan.behind]

theorem consString_ok {value body : List Char} {count : Nat}
    {result : Except StringFault (List Char)} (whole : consString value count result = .ok body) :
    ∃ rest, result = .ok rest ∧ body = value ++ rest := by
  rcases result with ⟨_ | _⟩ | rest
  · cases whole
  · cases whole
  · exact ⟨rest, rfl, (Except.ok.inj whole).symm⟩

theorem scanStringBody_cut {escapes : Bool} {quote : Char} {cs body : List Char}
    (keeps : ∀ {c c'}, R c c' → c' = quote → c = quote)
    (closed : (scanStringBody escapes quote cs).value = .ok body)
    (replaces : Replaces R kept (scanStringBody escapes quote cs).rest) :
    scanStringBody escapes quote ((scanStringBody escapes quote cs).text ++ kept) =
      (scanStringBody escapes quote cs).followedBy kept := by
  fun_induction scanStringBody escapes quote cs generalizing body with
  | case1 => cases closed
  | case2 =>
    obtain rfl := replaces.eq_nil
    simp [scanStringBody, Scan.followedBy]
  | case3 => cases closed
  | case4 cs ih =>
    obtain ⟨rest, closed', -⟩ := consString_ok closed
    have inner := ih closed' replaces
    simp only [Scan.behind, List.cons_append, List.nil_append] at inner ⊢
    rw [scanStringBody, if_pos rfl, if_pos rfl, inner]
    rfl
  | case5 d cs other =>
    cases replaces with
    | nil => simp [scanStringBody, Scan.followedBy]
    | @cons _ c' _ _ same =>
      have other' : c' ≠ quote := fun first => other (keeps same first)
      simp [scanStringBody, other', Scan.followedBy]
  | case6 c d cs other escaped value known ih =>
    obtain ⟨rest, closed', -⟩ := consString_ok closed
    have inner := ih closed' replaces
    simp only [Scan.behind, List.cons_append, List.nil_append] at inner ⊢
    rw [scanStringBody, if_neg other, if_pos escaped, known]
    simp only [inner]
    rfl
  | case7 => cases closed
  | case8 c d cs other plain ih =>
    obtain ⟨rest, closed', -⟩ := consString_ok closed
    have inner := ih closed' replaces
    obtain ⟨e, text, eq⟩ := List.exists_cons_of_ne_nil (scanStringBody_text_ne_nil closed')
    simp only [Scan.behind, List.cons_append, List.nil_append] at inner ⊢
    rw [eq, List.cons_append] at inner ⊢
    rw [scanStringBody, if_neg other, if_neg plain, inner]
    simp [Scan.behind, Scan.followedBy, eq]

theorem scanHexDigits_cut {cs : List Char} {digits : List Nat}
    (closed : (scanHexDigits cs).value = .ok digits) :
    scanHexDigits ((scanHexDigits cs).text ++ kept) = (scanHexDigits cs).followedBy kept := by
  fun_induction scanHexDigits cs generalizing digits with
  | case1 => cases closed
  | case2 => simp [scanHexDigits, Scan.followedBy]
  | case3 c cs other digit known ih =>
    cases value : (scanHexDigits cs).value with
    | error => simp [Scan.behind, value, Except.map] at closed
    | ok rest =>
      have inner := ih value
      simp only [Scan.behind, List.cons_append, List.nil_append] at inner ⊢
      rw [scanHexDigits, if_neg other, known]
      simp only [inner]
      rfl
  | case4 c cs other unknown white ih =>
    have inner := ih closed
    simp only [Scan.behind, List.cons_append, List.nil_append] at inner ⊢
    rw [scanHexDigits, if_neg other, unknown]
    simp only [white, inner, if_true]
    rfl
  | case5 => cases closed

/-- A beginning of what a row of characters was followed by follows it as well. -/
theorem takeWhile_cut {p : Char → Bool} {cs : List Char}
    (told : ∀ c c', R c c' → p c' = p c) (replaces : Replaces R kept (cs.dropWhile p)) :
    (cs.takeWhile p ++ kept).takeWhile p = cs.takeWhile p ∧
      (cs.takeWhile p ++ kept).dropWhile p = kept := by
  refine takeWhile_of_ends (List.all_eq_true.mp List.all_takeWhile) fun c first => ?_
  have head := List.head?_dropWhile_not p cs
  generalize cs.dropWhile p = rest at replaces head
  cases replaces with
  | nil => cases first
  | cons same =>
    obtain rfl := Option.some.inj first
    rw [told _ _ same]
    simpa using head

/-- A recasing keeps digits. -/
theorem Recasing.isDigit (recasing : Recasing R) {c c' : Char} (related : R c c') : c'.isDigit = c.isDigit :=
  (recasing.sameLetter related).test fun _ => isDigit_of_isAlpha

theorem Recasing.isWordChar (recasing : Recasing R) {c c' : Char} (related : R c c') :
    isWordChar c' = isWordChar c :=
  (recasing.sameLetter related).test fun _ => isWordChar_of_isAlpha

theorem Recasing.isWhiteSpace (recasing : Recasing R) {c c' : Char} (related : R c c') :
    isWhiteSpace c' = isWhiteSpace c :=
  (recasing.sameLetter related).test fun _ => isWhiteSpace_of_isAlpha

namespace NumberText

/-- The fraction of a number is the same where less follows it. -/
theorem scanFraction_cut (recasing : Recasing R) {cs : List Char}
    (replaces : Replaces R kept (scanFraction cs).2) :
    scanFraction ((scanFraction cs).1 ++ kept) = ((scanFraction cs).1, kept) := by
  revert replaces
  fun_cases scanFraction cs with
  | case1 d cs digit =>
    intro replaces
    obtain ⟨whole, rest⟩ := takeWhile_cut (p := Char.isDigit) (fun _ _ => recasing.isDigit) replaces
    have first : (d :: cs).takeWhile Char.isDigit = d :: cs.takeWhile Char.isDigit :=
      List.takeWhile_cons_of_pos digit
    rw [first] at whole rest ⊢
    simp only [List.cons_append] at whole rest ⊢
    rw [scanFraction, if_pos digit, whole, rest]
  | case2 d cs noDigit =>
    intro replaces
    cases replaces with
    | nil => rfl
    | cons point less =>
      obtain rfl := (recasing.sameLetter point).eq_of_not_isAlpha rfl
      cases less with
      | nil => rfl
      | cons same => exact if_neg (recasing.isDigit same ▸ noDigit)
  | case3 cs other =>
    intro replaces
    rw [List.nil_append, scanFraction]
    rintro d rest rfl
    obtain ⟨more, rfl, less⟩ := replaces.begins recasing rfl
    cases less with
    | cons => exact other _ _ rfl

theorem scanMark_cut (recasing : Recasing R) {cs : List Char}
    (replaces : Replaces R kept (scanMark cs).2) :
    scanMark ((scanMark cs).1 ++ kept) = ((scanMark cs).1, kept) := by
  revert replaces
  fun_cases scanMark cs with
  | case1 =>
    intro replaces
    obtain rfl := replaces.eq_nil
    rfl
  | case2 e letter =>
    intro replaces
    obtain rfl := replaces.eq_nil
    simp [scanMark, letter]
  | case3 e letter s cs sign =>
    intro _
    simp [scanMark, letter, sign]
  | case4 e letter s cs noSign =>
    intro replaces
    cases replaces with
    | nil => simp [scanMark, letter]
    | @cons _ s' _ _ same =>
      have noSign' : ¬ (s' = '+' ∨ s' = '-') := by
        rwa [(recasing.sameLetter same).eq_iff rfl, (recasing.sameLetter same).eq_iff rfl]
      simp [scanMark, letter, noSign']
  | case5 e cs noLetter =>
    intro replaces
    cases replaces with
    | nil => rfl
    | @cons _ e' _ _ same =>
      have noLetter' : ¬ (e' = 'e' ∨ e' = 'E') := by
        rintro (rfl | rfl)
        · exact noLetter (recasing.sameLetter same).eq_toLower_or_eq_toUpper
        · exact noLetter (recasing.sameLetter same).eq_toLower_or_eq_toUpper
      simp [scanMark, noLetter']

/-- A number is read part by part. -/
theorem scan_of_parts {cs whole behindWhole fraction behindFraction mark behindMark : List Char}
    (digits : cs.takeWhile Char.isDigit = whole ∧ cs.dropWhile Char.isDigit = behindWhole)
    (point : scanFraction behindWhole = (fraction, behindFraction))
    (letter : scanMark behindFraction = (mark, behindMark)) :
    scan cs = if mark = [] then ⟨whole, fraction, [], [], behindMark⟩
      else ⟨whole, fraction, mark, behindMark.takeWhile Char.isDigit,
        behindMark.dropWhile Char.isDigit⟩ := by
  obtain ⟨rfl, rfl⟩ := digits
  simp only [scan, point, letter]

/-- A number is the same where less follows it. -/
theorem scan_cut (recasing : Recasing R) {cs : List Char} (replaces : Replaces R kept (scan cs).rest) :
    scan ((scan cs).text ++ kept) = { scan cs with rest := kept } := by
  have fractionSplit := scanFraction_append (cs.dropWhile Char.isDigit)
  rcases point : scanFraction (cs.dropWhile Char.isDigit) with ⟨fraction, behindFraction⟩
  have markSplit := scanMark_append behindFraction
  rcases letter : scanMark behindFraction with ⟨mark, behindMark⟩
  rw [point] at fractionSplit
  rw [letter] at markSplit
  simp only at fractionSplit markSplit
  -- What is left of the text behind the digits, the fraction and the mark, whatever the exponent.
  have parts {left : List Char} (less : Replaces R left behindMark) :
      scan (cs.takeWhile Char.isDigit ++ (fraction ++ (mark ++ left))) =
        if mark = [] then ⟨cs.takeWhile Char.isDigit, fraction, [], [], left⟩
        else ⟨cs.takeWhile Char.isDigit, fraction, mark, left.takeWhile Char.isDigit,
          left.dropWhile Char.isDigit⟩ := by
    have lessMark : Replaces R (mark ++ left) behindFraction := by
      rw [← markSplit]
      exact less.append recasing mark
    have lessFraction : Replaces R (fraction ++ (mark ++ left)) (cs.dropWhile Char.isDigit) := by
      rw [← fractionSplit]
      exact lessMark.append recasing fraction
    have points := scanFraction_cut recasing
      (show Replaces R (mark ++ left) (scanFraction (cs.dropWhile Char.isDigit)).2 by rwa [point])
    have letters := scanMark_cut recasing (show Replaces R left (scanMark behindFraction).2 by rwa [letter])
    rw [point] at points
    rw [letter] at letters
    exact scan_of_parts (takeWhile_cut (fun _ _ => recasing.isDigit) lessFraction) points letters
  rw [scan_of_parts ⟨rfl, rfl⟩ point letter] at replaces ⊢
  by_cases none : mark = []
  · subst none
    simp only [if_true] at replaces parts ⊢
    simpa [text] using parts replaces
  · simp only [none, if_false] at replaces parts ⊢
    obtain ⟨whole, rest⟩ := takeWhile_cut (p := Char.isDigit) (fun _ _ => recasing.isDigit) replaces
    have less : Replaces R (behindMark.takeWhile Char.isDigit ++ kept) behindMark := by
      have both := replaces.append recasing (behindMark.takeWhile Char.isDigit)
      rwa [List.takeWhile_append_dropWhile] at both
    have all := parts less
    rw [whole, rest] at all
    simpa [text] using all

end NumberText

/-- No mark is told by more than its first two characters. -/
theorem symbol?_cut (recasing : Recasing R) {cs : List Char} {kind : TokenKind} {size : Nat}
    (found : symbol? cs = some (kind, size)) (replaces : Replaces R kept (cs.drop size)) :
    symbol? (cs.take size ++ kept) = some (kind, size) := by
  unfold symbol? at found
  split at found <;> cases found <;> try rfl
  -- The marks of one character that others of two begin with.
  all_goals
    simp only [List.drop_succ_cons, List.drop_zero] at replaces
    simp only [List.take_succ_cons, List.take_zero, List.singleton_append]
    rw [symbol?] <;> rintro tail rfl
    all_goals
      obtain ⟨more, rfl, -⟩ := replaces.begins recasing (by decide)
      simp_all

theorem symbol?_size_le {cs : List Char} {kind : TokenKind} {size : Nat}
    (found : symbol? cs = some (kind, size)) : size ≤ cs.length := by
  unfold symbol? at found
  split at found <;> cases found <;> simp

/-- A name between quotes is the same token where less follows it. -/
theorem scanQuotedIdentifier_cut {opening closing : Char} {cs : List Char} {kind : TokenKind}
    (keeps : ∀ {c c'}, R c c' → c' = closing → c = closing)
    (found : (scanQuotedIdentifier opening closing cs).value = .ok kind)
    (replaces : Replaces R kept (scanQuotedIdentifier opening closing cs).rest) :
    scanQuotedIdentifier opening closing ((scanQuotedName closing cs).text ++ kept) =
      (scanQuotedIdentifier opening closing cs).followedBy kept := by
  have closed : (scanQuotedName closing cs).value ≠ none := by
    intro none
    simp [scanQuotedIdentifier, Scan.behind, none] at found
  rw [scanQuotedIdentifier, scanQuotedName_cut keeps closed replaces]
  rfl

theorem scanString_cut {escapes : Bool} {quote : Char} {cs : List Char} {kind : TokenKind}
    (keeps : ∀ {c c'}, R c c' → c' = quote → c = quote)
    (found : (scanString escapes quote cs).value = .ok kind)
    (replaces : Replaces R kept (scanString escapes quote cs).rest) :
    scanString escapes quote ((scanStringBody escapes quote cs).text ++ kept) =
      (scanString escapes quote cs).followedBy kept := by
  cases body : (scanStringBody escapes quote cs).value with
  | error fault => cases fault <;> simp [scanString, Scan.behind, body] at found
  | ok value =>
    rw [scanString, scanStringBody_cut keeps body replaces]
    rfl

theorem scanBlob_cut {opening cs : List Char} {kind : TokenKind}
    (found : (scanBlob opening cs).value = .ok kind) :
    scanBlob opening ((scanHexDigits cs).text ++ kept) = (scanBlob opening cs).followedBy kept := by
  cases digits : (scanHexDigits cs).value with
  | error fault => simp [scanBlob, Scan.behind, digits] at found
  | ok value =>
    rw [scanBlob, scanHexDigits_cut digits]
    rfl

theorem scanWord_cut (recasing : Recasing R) {keywords : KeywordTable} {cs : List Char}
    (replaces : Replaces R kept (scanWord keywords cs).rest) :
    scanWord keywords ((scanWord keywords cs).text ++ kept) =
      (scanWord keywords cs).followedBy kept := by
  obtain ⟨whole, rest⟩ := takeWhile_cut (p := isWordChar) (fun _ _ => recasing.isWordChar) replaces
  simp only [scanWord, whole, rest, Scan.followedBy]

/-- Every token is the same where less follows it. -/
theorem scanToken_cut {rules : LexicalRules} (keeps : rules.Keeps R) {cs : List Char} {kind : TokenKind}
    (found : (scanToken rules cs).value = .ok kind)
    (replaces : Replaces R kept (scanToken rules cs).rest) :
    scanToken rules ((scanToken rules cs).text ++ kept) = (scanToken rules cs).followedBy kept := by
  revert found replaces
  fun_cases scanToken rules cs with
  | case1 =>
    intro _ replaces
    obtain rfl := replaces.eq_nil
    rfl
  | case2 c cs closing quoted =>
    intro found replaces
    have cut := scanQuotedIdentifier_cut (keeps.name quoted) found replaces
    simp only [scanQuotedIdentifier, Scan.behind, List.cons_append, List.nil_append] at cut ⊢
    simp only [scanToken, quoted, scanQuotedIdentifier, Scan.behind]
    exact cut
  | case3 c cs unquoted quote =>
    intro found replaces
    have cut := scanString_cut (keeps.string quote) found replaces
    simp only [scanString, Scan.behind, List.cons_append, List.nil_append] at cut ⊢
    simp only [scanToken, unquoted, quote, scanString, Scan.behind, if_true]
    exact cut
  | case4 c cs unquoted noString kind size symbol =>
    intro _ replaces
    have cut := symbol?_cut keeps.toRecasing symbol replaces
    have within := symbol?_size_le symbol
    have positive := (symbol?_size_pos symbol).1
    obtain ⟨size, rfl⟩ := Nat.exists_eq_succ_of_ne_zero (Nat.pos_iff_ne_zero.mp positive)
    have taken : (cs.take size).length = size :=
      List.length_take_of_le (Nat.le_of_succ_le_succ within)
    simp only [Nat.succ_eq_add_one, List.take_succ_cons, List.cons_append, List.drop_succ_cons] at cut ⊢
    simp [scanToken, unquoted, noString, cut, Scan.followedBy, List.take_left' taken,
      List.drop_left' taken]
  | case5 c cs unquoted noString noSymbol letter =>
    intro found _
    have cut : scanBlob [c, '\''] ((scanHexDigits (cs.drop 1)).text ++ kept) =
        (scanBlob [c, '\''] (cs.drop 1)).followedBy kept := scanBlob_cut found
    have noMark : ∀ tail, symbol? (c :: tail) = none := fun tail =>
      symbol?_eq_none (by rcases letter.1 with rfl | rfl <;> decide) tail
    have text : (scanBlob [c, '\''] (cs.drop 1)).text = c :: '\'' :: (scanHexDigits (cs.drop 1)).text :=
      rfl
    rw [text, List.cons_append, List.cons_append]
    simp only [scanToken, unquoted, noString, noMark, letter.1, List.head?_cons, and_self, if_true,
      List.drop_succ_cons, List.drop_zero, Bool.false_eq_true, if_false]
    exact cut
  | case6 c cs unquoted noString noSymbol noBlob digit =>
    intro _ replaces
    have cut := NumberText.scan_cut keeps.toRecasing replaces
    have noMark : ∀ tail, symbol? (c :: tail) = none := symbol?_eq_none fun sign => by
      rw [(signChar_not_word sign).2] at digit
      cases digit
    have noLetter : ¬ (c = 'X' ∨ c = 'x') := by
      rintro (rfl | rfl) <;> exact absurd digit (by decide)
    obtain ⟨digits, text⟩ : ∃ digits, (NumberText.scan (c :: cs)).text = c :: digits := by
      simp only [NumberText.scan, NumberText.text]
      split <;> simp [digit]
    simp only [scanNumber, text, List.cons_append] at cut ⊢
    simp only [scanToken, unquoted, noString, noMark, noLetter, false_and, digit, if_true, if_false,
      Bool.false_eq_true, scanNumber, cut]
    rw [← text]
    rfl
  | case7 c cs unquoted noString noSymbol noBlob noDigit word =>
    intro _ replaces
    have first : isWordChar c = true := by
      simp only [isWordChar, isAlphanumeric]
      grind
    have noMark : ∀ tail, symbol? (c :: tail) = none := symbol?_eq_none fun sign => by
      rw [(signChar_not_word sign).1] at word
      cases word
    have less : Replaces R (cs.takeWhile isWordChar ++ kept) cs := by
      have behind : Replaces R kept (cs.dropWhile isWordChar) := by simpa [scanWord, first] using replaces
      have both := behind.append keeps.toRecasing (cs.takeWhile isWordChar)
      rwa [List.takeWhile_append_dropWhile] at both
    have noBlob' : ¬ ((c = 'X' ∨ c = 'x') ∧
        (cs.takeWhile isWordChar ++ kept).head? = some '\'') := fun blob =>
      noBlob ⟨blob.1, less.head? keeps.toRecasing rfl blob.2⟩
    have cut : scanWord rules.keywords ((scanWord rules.keywords (c :: cs)).text ++ kept) =
        (scanWord rules.keywords (c :: cs)).followedBy kept := scanWord_cut keeps.toRecasing replaces
    have text : (scanWord rules.keywords (c :: cs)).text = c :: cs.takeWhile isWordChar :=
      List.takeWhile_cons_of_pos first
    rw [text, List.cons_append] at cut ⊢
    simp only [scanToken, unquoted, noString, noMark, noBlob', noDigit, word, if_true, if_false,
      Bool.false_eq_true]
    exact cut
  | case8 => rintro ⟨⟩

/-- Layout ends at the same place where less follows. -/
theorem scanLayout_cut (recasing : Recasing R) {hash : Bool} {state : LayoutState} {cs : List Char}
    (closed : (scanLayout hash state cs).value = 0)
    (replaces : Replaces R kept (scanLayout hash state cs).rest) :
    scanLayout hash state ((scanLayout hash state cs).text ++ kept) =
      (scanLayout hash state cs).followedBy kept := by
  fun_induction scanLayout hash state cs with
  | case1 =>
    obtain rfl := replaces.eq_nil
    rfl
  | case2 cs ih =>
    have inner := ih closed replaces
    simp only [Scan.behind, List.cons_append, List.nil_append] at inner ⊢
    rw [scanLayout, inner]
    rfl
  | case3 cs ih =>
    have inner := ih closed replaces
    simp only [Scan.behind, List.cons_append, List.nil_append] at inner ⊢
    rw [scanLayout, inner]
    rfl
  | case4 c cs noLine noBlock white ih =>
    have inner := ih closed replaces
    have noDash : c ≠ '-' := by rintro rfl; exact absurd white (by decide)
    have noSlash : c ≠ '/' := by rintro rfl; exact absurd white (by decide)
    simp only [Scan.behind, List.cons_append, List.nil_append] at inner ⊢
    rw [scanLayout, if_pos white, inner]
    · rfl
    · exact fun _ dash => absurd dash noDash
    · exact fun _ slash => absurd slash noSlash
  | case5 c cs noLine noBlock noWhite comment ih =>
    have inner := ih closed replaces
    obtain ⟨-, sharp⟩ := Bool.and_eq_true_iff.mp comment
    obtain rfl := beq_iff_eq.mp sharp
    simp only [Scan.behind, List.cons_append, List.nil_append] at inner ⊢
    rw [scanLayout, if_neg noWhite, if_pos comment, inner]
    · rfl
    · rintro _ ⟨⟩
    · rintro _ ⟨⟩
  | case6 c cs noLine noBlock noWhite noComment =>
    cases replaces with
    | nil => rfl
    | @cons _ c' _ _ same less =>
      have noWhite' := recasing.isWhiteSpace same ▸ noWhite
      have sharp : c' = '#' ↔ c = '#' := (recasing.sameLetter same).eq_iff rfl
      rw [List.nil_append, scanLayout, if_neg noWhite', if_neg (by simpa [sharp] using noComment)]
      · rfl
      · rintro tail rfl rfl
        obtain ⟨more, rfl, -⟩ := less.begins recasing rfl
        exact noLine _ (((recasing.sameLetter same).eq_iff rfl).mp rfl) rfl
      · rintro tail rfl rfl
        obtain ⟨more, rfl, -⟩ := less.begins recasing rfl
        exact noBlock _ (((recasing.sameLetter same).eq_iff rfl).mp rfl) rfl
  | case7 =>
    obtain rfl := replaces.eq_nil
    rfl
  | case8 c cs ih =>
    have inner := ih closed replaces
    simp only [Scan.behind, List.cons_append, List.nil_append] at inner ⊢
    rw [scanLayout, inner]
    rfl
  | case9 =>
    obtain rfl := replaces.eq_nil
    rfl
  | case10 read cs ih =>
    have inner := ih closed replaces
    simp only [Scan.behind, List.cons_append, List.nil_append] at inner ⊢
    rw [scanLayout, inner]
    rfl
  | case11 read c cs noEnd ih =>
    have inner := ih closed replaces
    have less := replaces.append recasing (scanLayout hash (.block (read + 1)) cs).text
    simp only [Scan.behind, List.cons_append, List.nil_append] at inner less ⊢
    rw [scanLayout_splits hash (.block (read + 1)) cs] at less
    rw [scanLayout, inner]
    · rfl
    · rintro tail rfl eq
      rw [eq] at less
      obtain ⟨more, rfl, -⟩ := less.begins recasing rfl
      exact noEnd _ rfl rfl

/-- No layout stands where layout ended. -/
theorem scanLayout_rest {hash : Bool} {state : LayoutState} {cs : List Char}
    (closed : (scanLayout hash state cs).value = 0) :
    scanLayout hash .gap (scanLayout hash state cs).rest =
      ⟨0, [], (scanLayout hash state cs).rest⟩ := by
  fun_induction scanLayout hash state cs with
  | case1 => rfl
  | case2 cs ih => exact ih closed
  | case3 cs ih => exact ih closed
  | case4 c cs noLine noBlock white ih => exact ih closed
  | case5 c cs noLine noBlock noWhite comment ih => exact ih closed
  | case6 c cs noLine noBlock noWhite noComment =>
    rw [scanLayout, if_neg noWhite, if_neg noComment]
    · exact noLine
    · exact noBlock
  | case7 => rfl
  | case8 c cs ih => exact ih closed
  | case9 => rfl
  | case10 read cs ih => exact ih closed
  | case11 read c cs noEnd ih => exact ih closed

end

end SqlTree
