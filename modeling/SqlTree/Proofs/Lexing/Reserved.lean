import SqlTree.Proofs.Lexing.Quoted
import SqlTree.Proofs.Lexing.Sequence
import SqlTree.Proofs.Writing.Words

namespace SqlTree

/-- No word begins with a quote. -/
theorem Keyword.spelling_head {k : Keyword} {c : Char} (first : k.spelling.toList.head? = some c) :
    c.toLower ∉ quoteChars := by
  have each : ∀ k ∈ all, k.spelling.toList.head?.all
      (fun c => !quoteChars.contains c.toLower) = true := by
    decide +kernel
  have holds := each k k.mem_all
  rw [first, Option.all_some, Bool.not_eq_true', ← Bool.not_eq_true, List.contains_iff_mem] at holds
  exact holds

/-- No mark is a name. -/
theorem symbol?_ne_identifier {cs : List Char} {name : String} {size : Nat} :
    symbol? cs ≠ some (.identifier name, size) := by
  intro found
  unfold symbol? at found
  split at found <;> cases found

theorem NumberText.value_ne_identifier (n : NumberText) {name : String} :
    n.value ≠ .ok (.identifier name) := by
  unfold value
  split
  · simp
  · split
    · dsimp only
      split <;> simp
    · simp

section

variable {rules : LexicalRules} {cs : List Char} {name : String} {k : Keyword}

/-- A name stands between two quotes that belong together, or it is a word that is not reserved. -/
theorem scanToken_identifier (found : (scanToken rules cs).value = .ok (.identifier name)) :
    (∃ opening closing, rules.closingQuote? opening = some closing ∧
      (scanToken rules cs).text = opening :: quotedBody closing name) ∨
    String.ofList (scanToken rules cs).text = name ∧ rules.keywords.classify? name = none := by
  revert found
  fun_cases scanToken rules cs with
  | case1 => simp
  | case2 c cs closing quoted =>
    simp only [scanQuotedIdentifier, Scan.behind]
    split
    · rename_i closed
      rintro ⟨⟩
      exact .inl ⟨c, closing, quoted, congrArg (c :: ·) (scanQuotedName_text closed)⟩
    · simp
  | case3 => simp only [scanString, Scan.behind]; split <;> simp
  | case4 c cs _ _ kind size symbol =>
    intro found
    cases found
    exact absurd symbol symbol?_ne_identifier
  | case5 =>
    simp only [scanBlob, Scan.behind]
    split
    · simp
    · split <;> simp
  | case6 => exact fun found => absurd found (NumberText.value_ne_identifier _)
  | case7 =>
    simp only [scanWord]
    split
    · simp
    · rename_i free
      rintro ⟨⟩
      exact .inr ⟨rfl, free⟩
  | case8 => simp

/-- A name spells no reserved word. -/
theorem nextToken_not_reserved (standard : rules.Standard) {c after : Cursor} {t : Token}
    (next : nextToken rules c = (.ok t, after)) (reserved : rules.keywords.reserves k = true)
    (name : t.isKeyword = false) : t.spells k = false := by
  rw [Bool.eq_false_iff]
  intro spells
  obtain ⟨kind, _, text, rest, _, -, scan, rfl, -⟩ := nextToken_scans next
  cases kind with
  | identifier written =>
    have same : sameWord (String.ofList text) k.spelling = true := spells
    have found : (scanToken rules rest).value = .ok (.identifier written) := by rw [scan]
    have reads := scanToken_identifier found
    rw [scan] at reads
    rcases reads with ⟨q, closing, pair, between⟩ | ⟨whole, free⟩
    · have quote : q ∈ quoteChars := by
        by_contra other
        rw [(standard.plain q other).1] at pair
        cases pair
      have first : text.head? = some q := congrArg List.head? between
      have lower := congrArg List.head? (beq_iff_eq.mp same)
      simp only [String.toList_ofList, List.head?_map, first, Option.map_some] at lower
      obtain ⟨letter, head, equal⟩ := Option.map_eq_some_iff.mp lower.symm
      have other := Keyword.spelling_head head
      have kept : ∀ c ∈ quoteChars, quoteChars.contains c.toLower = true :=
        List.all_eq_true.mp (by decide)
      exact other (equal ▸ List.contains_iff_mem.mp (kept q quote))
    · have known := Keyword.ofWord?_eq_of_sameWord same
      rw [Keyword.ofWord?_spelling] at known
      rw [← whole, classify?_eq_some.mpr ⟨known, reserved⟩] at free
      cases free
  | keyword j => cases name
  | _ => cases spells

/-- No name among the tokens of a text spells a reserved word. -/
theorem Lexes.not_reserved {c : Cursor} {tokens : List Token} {stop : Except LexError Token}
    (lexes : Lexes rules c tokens stop) (standard : rules.Standard)
    (reserved : rules.keywords.reserves k = true) :
    ∀ t ∈ tokens ++ stop.toOption.toList, t.isKeyword = false → t.spells k = false := by
  induction lexes with
  | eof next =>
    simpa [Except.toOption] using nextToken_not_reserved standard next reserved
  | fault => simp [Except.toOption]
  | token next _ _ ih =>
    exact List.forall_mem_cons.mpr ⟨nextToken_not_reserved standard next reserved, ih⟩

end

end SqlTree
