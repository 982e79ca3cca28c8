import SqlTree.Proofs.Diverging.Texts
import SqlTree.Proofs.Writing.Offers

namespace SqlTree

/-- A name between quotes is longer than what it is without them. -/
theorem scanQuotedName_length {closing : Char} {cs name : List Char}
    (found : (scanQuotedName closing cs).value = some name) :
    name.length < (scanQuotedName closing cs).text.length := by
  fun_induction scanQuotedName closing cs generalizing name with
  | case1 => cases found
  | case2 =>
    cases found
    exact Nat.zero_lt_one
  | case3 => cases found
  | case4 cs ih =>
    obtain ⟨inner, value, rfl⟩ := Option.map_eq_some_iff.mp found
    have := ih value
    simp only [Scan.behind, List.length_cons, List.length_append, List.length_nil]
    omega
  | case5 =>
    cases found
    exact Nat.zero_lt_one
  | case6 c d cs other ih =>
    obtain ⟨inner, value, rfl⟩ := Option.map_eq_some_iff.mp found
    have := ih value
    simp only [Scan.behind, List.length_cons, List.length_append, List.length_nil]
    omega

/-- No mark is a word. -/
theorem symbol?_not_isWord {cs : List Char} {kind : TokenKind} {size : Nat}
    (found : symbol? cs = some (kind, size)) : kind.isWord = false := by
  unfold symbol? at found
  split at found <;> cases found <;> rfl

theorem symbol?_leftParen {cs : List Char} {size : Nat} (found : symbol? cs = some (.leftParen, size)) :
    cs.take size = ['('] := by
  unfold symbol? at found
  split at found <;> cases found
  rfl

theorem NumberText.value_not_isWord (n : NumberText) {kind : TokenKind} (found : n.value = .ok kind) :
    kind.isWord = false ∧ kind ≠ .leftParen := by
  unfold value at found
  split at found
  · cases found
  · split at found
    · dsimp only at found
      split at found <;> cases found
      exact ⟨rfl, nofun⟩
    · cases found
      exact ⟨rfl, nofun⟩

section

variable {rules : LexicalRules} {cs : List Char} {kind : TokenKind} {c after : Cursor} {t : Token}

/-- What begins with a quote of strings is a string, if anything. -/
theorem scanString_kind {escapes : Bool} {quote : Char}
    (found : (scanString escapes quote cs).value = .ok kind) : ∃ value, kind = .string value := by
  simp only [scanString, Scan.behind] at found
  split at found <;> cases found
  exact ⟨_, rfl⟩

/-- A word is a name that is shorter than its text, or it is written without quotes. -/
theorem scanToken_isWord (found : (scanToken rules cs).value = .ok kind) (word : kind.isWord = true) :
    (∃ name, kind = .identifier (String.ofList name) ∧ name.length < (scanToken rules cs).text.length) ∨
      isBareWord (String.ofList (scanToken rules cs).text) = true ∧
        (Sign.bare rules (String.ofList (scanToken rules cs).text)).kind = kind := by
  revert found
  fun_cases scanToken rules cs with
  | case1 =>
    rintro ⟨⟩
    cases word
  | case2 c cs closing =>
    simp only [scanQuotedIdentifier, Scan.behind]
    split
    · rename_i name value
      rintro ⟨⟩
      have := scanQuotedName_length value
      exact .inl ⟨name, rfl, by simp only [List.length_append, List.length_singleton]; omega⟩
    · rintro ⟨⟩
  | case3 =>
    intro found
    obtain ⟨value, rfl⟩ := scanString_kind found
    cases word
  | case4 c cs noName noString kind size symbol =>
    rintro ⟨⟩
    rw [symbol?_not_isWord symbol] at word
    cases word
  | case5 =>
    intro found
    obtain ⟨bytes, rfl⟩ := scanBlob_kind found
    cases word
  | case6 =>
    intro found
    rw [(NumberText.value_not_isWord _ found).1] at word
    cases word
  | case7 c cs noName noString noSymbol noBlob noDigit letter =>
    intro found
    refine .inr ⟨?_, Except.ok.inj found⟩
    have first : isWordChar c = true := by
      rw [isWordChar, isAlphanumeric]
      grind
    simp only [scanWord, List.takeWhile_cons_of_pos first, isBareWord, String.toList_ofList, letter,
      List.all_takeWhile, Bool.and_self]
  | case8 => rintro ⟨⟩

/-- A parenthesis is written as one. -/
theorem scanToken_leftParen (found : (scanToken rules cs).value = .ok .leftParen) :
    (scanToken rules cs).text = ['('] := by
  revert found
  fun_cases scanToken rules cs with
  | case1 => rintro ⟨⟩
  | case2 =>
    simp only [scanQuotedIdentifier, Scan.behind]
    split <;> rintro ⟨⟩
  | case3 =>
    intro found
    obtain ⟨_, other⟩ := scanString_kind found
    cases other
  | case4 c cs noName noString kind size symbol =>
    rintro ⟨⟩
    exact symbol?_leftParen symbol
  | case5 =>
    intro found
    obtain ⟨_, other⟩ := scanBlob_kind found
    cases other
  | case6 => exact fun found => absurd rfl (NumberText.value_not_isWord _ found).2
  | case7 =>
    simp only [scanWord]
    split <;> rintro ⟨⟩
  | case8 => rintro ⟨⟩

/-- A word that is not between quotes is what it is wherever it is written. -/
theorem nextToken_bare (next : nextToken rules c = (.ok t, after)) (word : t.kind.isWord = true)
    (bare : t.isQuoted = false) : isBareWord t.text = true ∧ (Sign.bare rules t.text).Fits t := by
  obtain ⟨kind, _, text, rest, _, -, scan, rfl, -⟩ := nextToken_scans next
  have found : (scanToken rules rest).value = .ok kind := by rw [scan]
  have reads := scanToken_isWord found word
  rw [scan] at reads
  rcases reads with ⟨name, rfl, shorter⟩ | ⟨letters, same⟩
  · simp only [Token.isQuoted, bne_eq_false_iff_eq, String.ofList_inj] at bare
    rw [bare] at shorter
    exact absurd shorter (Nat.lt_irrefl _)
  · exact ⟨letters, ⟨same.symm, rfl⟩⟩

/-- The words among the tokens of a text that are not between quotes. -/
theorem Lexes.bare {tokens : List Token} {stop : Except LexError Token}
    (lexes : Lexes rules c tokens stop) :
    ∀ t ∈ tokens, t.kind.isWord = true → t.isQuoted = false →
      isBareWord t.text = true ∧ (Sign.bare rules t.text).Fits t := by
  induction lexes with
  | eof | fault => nofun
  | token next _ _ ih => exact List.forall_mem_cons.mpr ⟨nextToken_bare next, ih⟩

theorem nextToken_leftParen (next : nextToken rules c = (.ok t, after)) (left : t.kind = .leftParen) :
    t.text = "(" := by
  obtain ⟨_, _, text, rest, _, -, scan, rfl, -⟩ := nextToken_scans next
  subst left
  have found : (scanToken rules rest).value = .ok .leftParen := by rw [scan]
  have written := scanToken_leftParen found
  rw [scan] at written
  obtain rfl : text = ['('] := written
  rfl

end

end SqlTree
