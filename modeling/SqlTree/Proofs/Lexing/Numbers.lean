import Mathlib.Data.List.TakeWhile
import SqlTree.Dialect.Builtin
import SqlTree.Proofs.Lexing.Cuts
import SqlTree.Proofs.Writing.Solid

namespace SqlTree

namespace NumberText

/-- The form of a number: digits, perhaps a point with digits, and perhaps the letter of an exponent
with its sign and its digits, which may be missing. -/
structure Formed (n : NumberText) : Prop where
  begins : n.whole ≠ []
  digits : ∀ c ∈ n.whole ++ n.exponent, c.isDigit = true
  fraction : n.fraction = [] ∨ ∃ digits, n.fraction = '.' :: digits ∧ digits ≠ [] ∧
    ∀ c ∈ digits, c.isDigit = true
  mark : n.mark = [] ∧ n.exponent = [] ∨ ∃ e sign, n.mark = e :: sign ∧ (e = 'e' ∨ e = 'E') ∧
    (sign = [] ∨ sign = ['+'] ∨ sign = ['-'])

/-- A number at the beginning of a text, where no longer beginning has the form of a number. -/
structure Longest (n : NumberText) (cs : List Char) : Prop where
  formed : n.Formed
  split : n.text ++ n.rest = cs
  longest : ∀ other : NumberText, other.Formed → other.text <+: cs →
    other.text.length ≤ n.text.length

/-- What the lexer answers to a number that begins at a place. -/
inductive Answers (n : NumberText) (start : Position) : Except LexError Token → Prop
  | noExponent : n.mark ≠ [] → n.exponent = [] →
      Answers n start (.error ⟨.invalidNumber (String.ofList n.text), start⟩)
  | integer : n.text = n.whole → decimalValue n.whole < 2 ^ 63 →
      Answers n start (.ok ⟨.integer (decimalValue n.whole), String.ofList n.text,
        ⟨start, start.afterAll n.text⟩⟩)
  | tooLarge : n.text = n.whole → 2 ^ 63 ≤ decimalValue n.whole →
      Answers n start (.error ⟨.invalidNumber (String.ofList n.text), start⟩)
  | float : n.text ≠ n.whole → (n.mark ≠ [] → n.exponent ≠ []) →
      Answers n start (.ok ⟨.float n.floatValue, String.ofList n.text,
        ⟨start, start.afterAll n.text⟩⟩)

section

variable {n : NumberText} {c : Char} {cs : List Char}

theorem Formed.isDigit_whole (formed : n.Formed) : ∀ c ∈ n.whole, c.isDigit = true :=
  fun c mem => formed.digits c (List.mem_append_left _ mem)

theorem Formed.isDigit_exponent (formed : n.Formed) : ∀ c ∈ n.exponent, c.isDigit = true :=
  fun c mem => formed.digits c (List.mem_append_right _ mem)

/-- Where digits follow, no sign is read behind the letter of an exponent. -/
theorem Formed.scanMark (formed : n.Formed) :
    NumberText.scanMark (n.mark ++ n.exponent) = (n.mark, n.exponent) := by
  rcases formed.mark with ⟨mark, exponent⟩ | ⟨e, sign, mark, letter, signs⟩
  · rw [mark, exponent]
    rfl
  · rw [mark]
    rcases signs with rfl | rfl | rfl
    · cases digits : n.exponent with
      | nil => simp [NumberText.scanMark, letter]
      | cons d ds =>
        have digit := formed.isDigit_exponent d (by rw [digits]; exact List.mem_cons_self)
        have noSign : ¬(d = '+' ∨ d = '-') := by
          rintro (rfl | rfl) <;> exact absurd digit (by decide)
        simp [NumberText.scanMark, letter, noSign]
    · simp [NumberText.scanMark, letter]
    · simp [NumberText.scanMark, letter]

/-- No digit and no point stands behind the digits in front of an exponent. -/
theorem Formed.head_mark (formed : n.Formed) : ∀ c ∈ (n.mark ++ n.exponent).head?,
    c.isDigit = false ∧ c ≠ '.' := by
  rcases formed.mark with ⟨mark, exponent⟩ | ⟨e, sign, mark, letter, -⟩
  · rw [mark, exponent]
    nofun
  · rw [mark]
    rintro _ ⟨⟩
    rcases letter with rfl | rfl <;> decide

/-- The fraction of what has the form of a number ends where its exponent begins. -/
theorem Formed.scanFraction (formed : n.Formed) :
    NumberText.scanFraction (n.fraction ++ (n.mark ++ n.exponent)) =
      (n.fraction, n.mark ++ n.exponent) := by
  rcases formed.fraction with none | ⟨digits, point, some, all⟩
  · rw [none, List.nil_append]
    unfold NumberText.scanFraction
    split
    · rename_i eq
      exact absurd rfl (formed.head_mark '.' (by rw [eq]; rfl)).2
    · rfl
  · obtain ⟨d, ds, rfl⟩ := List.exists_cons_of_ne_nil some
    obtain ⟨taken, left⟩ := takeWhile_of_ends all fun c first => (formed.head_mark c first).1
    rw [point, List.cons_append, List.cons_append, NumberText.scanFraction,
      if_pos (all d List.mem_cons_self), ← List.cons_append, taken, left]

/-- What has the form of a number is read as that number. -/
theorem Formed.scan_text (formed : n.Formed) : scan n.text = { n with rest := [] } := by
  have behindWhole : ∀ c ∈ (n.fraction ++ (n.mark ++ n.exponent)).head?, c.isDigit = false := by
    rcases formed.fraction with none | ⟨digits, point, -, -⟩
    · rw [none]
      exact fun c first => (formed.head_mark c first).1
    · rw [point]
      rintro _ ⟨⟩
      rfl
  have whole := takeWhile_of_ends formed.isDigit_whole behindWhole
  have taken := List.takeWhile_eq_self_iff.mpr formed.isDigit_exponent
  have left := List.dropWhile_eq_nil_iff.mpr formed.isDigit_exponent
  rw [text, List.append_assoc, List.append_assoc,
    scan_of_parts whole formed.scanFraction formed.scanMark, taken, left]
  split
  · rename_i none
    rcases formed.mark with ⟨-, exponent⟩ | ⟨e, sign, mark, -⟩
    · rw [none, exponent]
    · rw [none] at mark
      cases mark
  · rfl

/-- What is read as a fraction is a point with digits, or nothing. -/
theorem scanFraction_formed (cs : List Char) : (NumberText.scanFraction cs).1 = [] ∨
    ∃ digits, (NumberText.scanFraction cs).1 = '.' :: digits ∧ digits ≠ [] ∧
      ∀ c ∈ digits, c.isDigit = true := by
  fun_cases NumberText.scanFraction cs with
  | case1 d cs digit =>
    refine .inr ⟨_, rfl, ?_, List.all_eq_true.mp List.all_takeWhile⟩
    rw [List.takeWhile_cons_of_pos digit]
    exact List.cons_ne_nil _ _
  | case2 => exact .inl rfl
  | case3 => exact .inl rfl

/-- What is read of an exponent in front of its digits is its letter, perhaps with a sign, or nothing. -/
theorem scanMark_formed (cs : List Char) : (NumberText.scanMark cs).1 = [] ∨
    ∃ e sign, (NumberText.scanMark cs).1 = e :: sign ∧ (e = 'e' ∨ e = 'E') ∧
      (sign = [] ∨ sign = ['+'] ∨ sign = ['-']) := by
  fun_cases NumberText.scanMark cs with
  | case1 => exact .inl rfl
  | case2 e letter => exact .inr ⟨e, [], rfl, letter, .inl rfl⟩
  | case3 e letter s cs sign =>
    exact .inr ⟨e, [s], rfl, letter, .inr (sign.imp (congrArg ([·])) (congrArg ([·])))⟩
  | case4 e letter => exact .inr ⟨e, [], rfl, letter, .inl rfl⟩
  | case5 => exact .inl rfl

/-- What is read behind a digit has the form of a number. -/
theorem scan_formed (digit : c.isDigit = true) : (scan (c :: cs)).Formed := by
  have fraction := scanFraction_formed ((c :: cs).dropWhile Char.isDigit)
  rcases point : NumberText.scanFraction ((c :: cs).dropWhile Char.isDigit) with
    ⟨digits, behindFraction⟩
  have mark := scanMark_formed behindFraction
  rcases letter : NumberText.scanMark behindFraction with ⟨sign, behindMark⟩
  rw [point] at fraction
  rw [letter] at mark
  have begins : (c :: cs).takeWhile Char.isDigit ≠ [] := by
    rw [List.takeWhile_cons_of_pos digit]
    exact List.cons_ne_nil _ _
  have whole : ∀ d ∈ (c :: cs).takeWhile Char.isDigit, d.isDigit = true :=
    List.all_eq_true.mp List.all_takeWhile
  rw [scan_of_parts ⟨rfl, rfl⟩ point letter]
  split
  · exact ⟨begins, by rwa [List.append_nil], fraction, .inl ⟨rfl, rfl⟩⟩
  · rename_i some
    refine ⟨begins, fun d mem => ?_, fraction, .inr (mark.resolve_left some)⟩
    rcases List.mem_append.mp mem with mem | mem
    · exact whole d mem
    · exact List.all_eq_true.mp List.all_takeWhile d mem

/-- Nothing that is longer than what is read has the form of a number: it would be read as a whole
by itself, but less of it is read. -/
theorem scan_longest (digit : c.isDigit = true) : (scan (c :: cs)).Longest (c :: cs) where
  formed := scan_formed digit
  split := scan_append (c :: cs)
  longest := by
    intro other formed begins
    refine Nat.le_of_not_lt fun longer => ?_
    have read : (scan (c :: cs)).text <+: c :: cs := ⟨_, scan_append (c :: cs)⟩
    obtain ⟨more, eq⟩ := List.prefix_of_prefix_length_le read begins (Nat.le_of_lt longer)
    have shorter : more <+: (scan (c :: cs)).rest := by
      rw [← List.prefix_append_right_inj (scan (c :: cs)).text, eq, scan_append]
      exact begins
    have cut := scan_cut recasing_eq (.of_beginning shorter)
    rw [eq, formed.scan_text] at cut
    have none : [] = more := congrArg NumberText.rest cut
    rw [← eq, ← none, List.append_nil] at longer
    exact Nat.lt_irrefl _ longer

theorem eq_of_parts {m : NumberText} (parts : { n with rest := [] } = { m with rest := [] })
    (sameRest : n.rest = m.rest) : n = m := by
  cases n
  cases m
  cases parts
  cases sameRest
  rfl

/-- What is read is the only number that is the longest one. -/
theorem longest_iff (digit : c.isDigit = true) :
    n.Longest (c :: cs) ↔ n = scan (c :: cs) := by
  constructor
  · intro ⟨formed, split, longest⟩
    have scanned : (scan (c :: cs)).Longest (c :: cs) := scan_longest digit
    obtain ⟨sameText, sameRest⟩ := List.append_inj (split.trans scanned.split.symm)
      (Nat.le_antisymm (scanned.longest n formed ⟨_, split⟩)
        (longest _ scanned.formed ⟨_, scanned.split⟩))
    have cut := scan_cut recasing_eq (.nil : Replaces Eq [] (scan (c :: cs)).rest)
    rw [List.append_nil, ← sameText, formed.scan_text] at cut
    exact eq_of_parts cut sameRest
  · rintro rfl
    exact scan_longest digit

/-- Only digits are read as an integer. -/
theorem text_eq_whole_iff (formed : n.Formed) :
    n.text = n.whole ↔ n.fraction = [] ∧ n.mark = [] := by
  rw [text, List.append_assoc, List.append_assoc, List.append_right_eq_self]
  simp only [List.append_eq_nil_iff]
  constructor
  · rintro ⟨fraction, mark, -⟩
    exact ⟨fraction, mark⟩
  · rintro ⟨fraction, mark⟩
    rcases formed.mark with ⟨-, exponent⟩ | ⟨e, sign, some, -⟩
    · exact ⟨fraction, mark, exponent⟩
    · rw [mark] at some
      cases some

end

end NumberText

section

variable {rules : LexicalRules} {c : Cursor} {gap cs : List Char} {d : Char}

/-- The token or the error that is made of a number which begins at a place. -/
def NumberText.token (n : NumberText) (start : Position) : Except LexError Token :=
  match n.value with
  | .ok kind => .ok ⟨kind, String.ofList n.text, ⟨start, start.afterAll n.text⟩⟩
  | .error fault => .error ⟨fault.kind, start.afterAll (n.text.take fault.before)⟩

/-- Where a digit begins a token, the lexer reads a number. -/
theorem nextToken_digit (begins : scanLayout rules.hashComments .gap c.rest = ⟨0, gap, d :: cs⟩)
    (digit : d.isDigit = true) (noName : rules.closingQuote? d = none)
    (noString : rules.isStringQuote d = false) {n : NumberText} (read : NumberText.scan (d :: cs) = n) :
    nextToken rules c = (n.token (c.position.afterAll gap),
      ⟨(c.position.afterAll gap).afterAll n.text, n.rest⟩) := by
  simp only [nextToken, begins, scanToken_digit noName noString digit, scanNumber, read, if_true]
  rfl

/-- What the lexer makes of a number is one of its answers to that number. -/
theorem NumberText.Formed.answers {n : NumberText} (formed : n.Formed) (start : Position) :
    n.Answers start (n.token start) := by
  rw [NumberText.token, NumberText.value]
  by_cases noExponent : n.mark ≠ [] ∧ n.exponent = []
  · rw [if_pos noExponent]
    exact .noExponent noExponent.1 noExponent.2
  rw [if_neg noExponent]
  by_cases only : n.fraction = [] ∧ n.mark = []
  · have text := (NumberText.text_eq_whole_iff formed).mpr only
    rw [if_pos only]
    by_cases small : decimalValue n.whole ≤ maxInteger
    · simp only [small, if_true]
      exact .integer text (Nat.lt_succ_of_le small)
    · simp only [small, if_false]
      exact .tooLarge text (Nat.succ_le_of_lt (Nat.lt_of_not_le small))
  · rw [if_neg only]
    exact .float (mt (NumberText.text_eq_whole_iff formed).mp only)
      fun some none => noExponent ⟨some, none⟩

/-- Digits alone are an integer or do not fit. -/
theorem token_digits (digits following : List Char) (start : Position) :
    NumberText.token ⟨digits, [], [], [], following⟩ start =
      if decimalValue digits < 2 ^ 63 then
        .ok ⟨.integer (decimalValue digits), String.ofList digits, ⟨start, start.afterAll digits⟩⟩
      else .error ⟨.invalidNumber (String.ofList digits), start⟩ := by
  have fits : decimalValue digits ≤ maxInteger ↔ decimalValue digits < 2 ^ 63 := Nat.lt_succ_iff.symm
  simp only [NumberText.token, NumberText.value, NumberText.text, List.append_nil, fits]
  by_cases small : decimalValue digits < 2 ^ 63
  · simp only [small, if_true]
    rfl
  · simp only [small, if_false]
    rfl

/-- Zeros in front of digits add nothing to their value. -/
theorem decimalValue_zeros (zeros : Nat) (digits : List Char) :
    decimalValue (List.replicate zeros '0' ++ digits) = decimalValue digits := by
  have nothing : (List.replicate zeros '0').foldl
      (fun n c => 10 * n + (c.toNat - '0'.toNat)) 0 = 0 := by
    induction zeros with
    | zero => rfl
    | succ zeros ih => exact ih
  rw [decimalValue, List.foldl_append, nothing]
  rfl

/-- Where a digit begins a token, the lexer reads the longest number that stands there, and nothing
behind it. A number that is written with any zeros in front of it is read as that number, if it is
one of those that fit. -/
theorem nextToken_number (begins : scanLayout rules.hashComments .gap c.rest = ⟨0, gap, d :: cs⟩)
    (digit : d.isDigit = true) (noName : rules.closingQuote? d = none)
    (noString : rules.isStringQuote d = false) :
    (∃ n : NumberText, (∀ m : NumberText, m.Longest (d :: cs) ↔ m = n) ∧
      n.Answers (c.position.afterAll gap) (nextToken rules c).1 ∧
      (nextToken rules c).2 = ⟨(c.position.afterAll gap).afterAll n.text, n.rest⟩) ∧
    ∀ zeros value following, EndsNumber following →
      d :: cs = List.replicate zeros '0' ++ Nat.toDigits 10 value ++ following →
      let text := List.replicate zeros '0' ++ Nat.toDigits 10 value
      let start := c.position.afterAll gap
      nextToken rules c =
        (if value < 2 ^ 63 then
          .ok ⟨.integer value, String.ofList text, ⟨start, start.afterAll text⟩⟩
        else .error ⟨.invalidNumber (String.ofList text), start⟩, ⟨start.afterAll text, following⟩) := by
  constructor
  · refine ⟨NumberText.scan (d :: cs), fun m => NumberText.longest_iff digit, ?_, ?_⟩
    · rw [nextToken_digit begins digit noName noString rfl]
      exact (NumberText.scan_formed digit).answers _
    · rw [nextToken_digit begins digit noName noString rfl]
  · intro zeros value following ends eq
    have all : ∀ e ∈ List.replicate zeros '0' ++ Nat.toDigits 10 value, e.isDigit = true := by
      intro e mem
      rcases List.mem_append.mp mem with zero | mem
      · rw [(List.mem_replicate.mp zero).2]
        rfl
      · exact isDigit_of_mem_toDigits e mem
    have read := scan_digits all ends
    rw [← eq] at read
    have known := decimalValue_zeros zeros (Nat.toDigits 10 value)
    rw [decimalValue_toDigits] at known
    rw [nextToken_digit begins digit noName noString read, token_digits, known]
    simp only [NumberText.text, List.append_nil]

end

/-- The largest integer, with zeros and a comment in front of it and a point behind it, and a number
whose exponent has a sign but no digits. -/
theorem nextToken_number_largest :
    nextToken Dialect.sqlite.lexical (.ofText "/**/009223372036854775807.x".toList) =
      (.ok ⟨.integer 9223372036854775807, "009223372036854775807", ⟨⟨4, 1, 5⟩, ⟨25, 1, 26⟩⟩⟩,
        ⟨⟨25, 1, 26⟩, ".x".toList⟩) ∧
    ∃ n : NumberText, (∀ m : NumberText, m.Longest "1.5e+.".toList ↔ m = n) ∧
      n.Answers .start (nextToken Dialect.sqlite.lexical (.ofText "1.5e+.".toList)).1 ∧
      (nextToken Dialect.sqlite.lexical (.ofText "1.5e+.".toList)).2 =
        ⟨Position.start.afterAll n.text, n.rest⟩ := by
  have ends : EndsNumber ".x".toList := ⟨by rintro _ ⟨⟩; rfl, by decide, by rintro _ _ ⟨⟩; rfl⟩
  have largest : scanLayout Dialect.sqlite.lexical.hashComments .gap
      "/**/009223372036854775807.x".toList =
        ⟨0, "/**/".toList, '0' :: "09223372036854775807.x".toList⟩ := rfl
  have unfinished : scanLayout Dialect.sqlite.lexical.hashComments .gap "1.5e+.".toList =
      ⟨0, [], '1' :: ".5e+.".toList⟩ := rfl
  refine ⟨?_, (nextToken_number (c := .ofText "1.5e+.".toList) unfinished rfl rfl rfl).1⟩
  refine ((nextToken_number (c := .ofText "/**/009223372036854775807.x".toList) largest rfl rfl rfl).2
    2 9223372036854775807 ".x".toList ends rfl).trans ?_
  rw [if_pos (by decide)]
  rfl

end SqlTree
