import SqlTree.Dialect.Builtin
import SqlTree.Proofs.Text.Case
import SqlTree.Proofs.Writing.Phrase

namespace SqlTree

theorem Keyword.mem_all (k : Keyword) : k ∈ all := by
  cases k <;> decide

/-- Every keyword is the one that its own spelling spells. -/
theorem Keyword.ofWord?_spelling (k : Keyword) : ofWord? k.spelling = some k := by
  have each : ∀ k ∈ all, ofWord? k.spelling = some k := by decide +kernel
  exact each k k.mem_all

/-- No word begins with one of the quotes that names stand between. -/
theorem Keyword.spelling_notQuoted {k : Keyword} {c : Char}
    (first : k.spelling.toList.head? = some c) : c.toLower ≠ '"' ∧ c.toLower ≠ '\x60' := by
  have each : ∀ k ∈ all, k.spelling.toList.head?.all
      (fun c => c.toLower != '"' && c.toLower != '\x60') = true := by
    decide +kernel
  have holds := each k k.mem_all
  rw [first, Option.all_some, Bool.and_eq_true, bne_iff_ne, bne_iff_ne] at holds
  exact holds

/-- The quotes around names and strings in the built-in dialects. -/
def quoteChars : List Char := ['"', '\'', '\x60', '[']

/-- What the words and the quotes of the built-in dialects have in common. -/
structure LexicalRules.Standard (rules : LexicalRules) : Prop where
  reserved : ∀ k ∈ [Keyword.SELECT, .DISTINCT, .AND, .OR, .NOT, .NULL, .AS, .CASE, .WHEN, .THEN,
    .ELSE, .END, .CAST], rules.keywords.reserves k = true
  plain : ∀ c, c ∉ quoteChars → rules.closingQuote? c = none ∧ rules.isStringQuote c = false
  string : rules.closingQuote? '\'' = none ∧ rules.isStringQuote '\'' = true
  name : ∃ quote ∈ ['"', '\x60'], rules.identifierQuotes.head? = some (quote, quote) ∧
    rules.closingQuote? quote = some quote

theorem lookup_eq_none {c : Char} {quotes : List (Char × Char)} (other : ∀ q ∈ quotes, q.1 ≠ c) :
    quotes.lookup c = none := by
  induction quotes with
  | nil => rfl
  | cons q quotes ih =>
    have first : (c == q.1) = false :=
      beq_eq_false_iff_ne.mpr (other q List.mem_cons_self).symm
    rw [List.lookup_cons, first]
    exact ih fun q mem => other q (List.mem_cons_of_mem _ mem)

/-- The built-in dialects agree in these words and quotes. -/
theorem Dialect.standard_of_builtin {d : Dialect} (builtin : d ∈ Dialect.builtin) :
    d.lexical.Standard := by
  have each : ∀ d ∈ Dialect.builtin,
      (∀ k ∈ [Keyword.SELECT, .DISTINCT, .AND, .OR, .NOT, .NULL, .AS, .CASE, .WHEN, .THEN, .ELSE,
        .END, .CAST], d.lexical.keywords.reserves k = true) ∧
      (d.lexical.identifierQuotes.map Prod.fst ⊆ quoteChars ∧
        d.lexical.stringQuotes ⊆ quoteChars) ∧
      (d.lexical.closingQuote? '\'' = none ∧ d.lexical.isStringQuote '\'' = true) ∧
      (d.lexical.identifierQuotes.head? = some ('"', '"') ∧
          d.lexical.closingQuote? '"' = some '"' ∨
        d.lexical.identifierQuotes.head? = some ('\x60', '\x60') ∧
          d.lexical.closingQuote? '\x60' = some '\x60') := by
    decide
  obtain ⟨reserved, ⟨names, strings⟩, string, name⟩ := each d builtin
  refine ⟨reserved, fun c other => ⟨lookup_eq_none ?_, ?_⟩, string, ?_⟩
  · rintro q mem rfl
    exact other (names (List.mem_map_of_mem mem))
  · rw [LexicalRules.isStringQuote, Bool.eq_false_iff, ne_eq, List.contains_iff_mem]
    exact fun mem => other (strings mem)
  · rcases name with name | name
    · exact ⟨'"', List.mem_cons_self, name⟩
    · exact ⟨'\x60', List.mem_cons_of_mem _ List.mem_cons_self, name⟩

section

variable {rules : LexicalRules} {w : String} {j k : Keyword} {l : Label}

/-- A word is a keyword where it spells one that is reserved. -/
theorem classify?_eq_some {table : KeywordTable} :
    table.classify? w = some k ↔ Keyword.ofWord? w = some k ∧ table.reserves k = true := by
  simp [KeywordTable.classify?, Option.filter_eq_some_iff]

/-- A word without quotes is a name, or the keyword that it spells. -/
theorem Sign.bare_kind (rules : LexicalRules) (w : String) :
    (bare rules w).kind = .identifier w ∨ ∃ k, rules.keywords.classify? w = some k ∧
      (bare rules w).kind = .keyword k := by
  rw [bare]
  cases rules.keywords.classify? w with
  | none => exact .inl rfl
  | some k => exact .inr ⟨k, rfl, rfl⟩

/-- A word without quotes spells no keyword but its own. -/
theorem Sign.ofWord?_of_spells (spells : (bare rules w).spells k = true) :
    Keyword.ofWord? w = some k := by
  rcases bare_kind rules w with kind | ⟨j, known, kind⟩
  · rw [Sign.spells, kind] at spells
    have same : sameWord w k.spelling = true := spells
    rw [Keyword.ofWord?_eq_of_sameWord same, Keyword.ofWord?_spelling]
  · rw [Sign.spells, kind] at spells
    obtain rfl : j = k := beq_iff_eq.mp spells
    exact (classify?_eq_some.mp known).1

/-- A sign that writes a word spells this word and no other. -/
theorem Sign.word_spells (rules : LexicalRules) (j k : Keyword) :
    (word rules j).spells k = decide (j = k) := by
  rw [Bool.eq_iff_iff, decide_eq_true_iff]
  constructor
  · intro spells
    have known := ofWord?_of_spells spells
    rw [Keyword.ofWord?_spelling] at known
    exact Option.some.inj known
  · rintro rfl
    rcases bare_kind rules j.spelling with kind | ⟨k, known, kind⟩
    · rw [Sign.spells, word, kind]
      exact beq_self_eq_true _
    · have known := (classify?_eq_some.mp known).1
      rw [Keyword.ofWord?_spelling] at known
      obtain rfl := Option.some.inj known
      rw [Sign.spells, word, kind]
      exact beq_self_eq_true _

theorem Sign.word_spells_self (rules : LexicalRules) (k : Keyword) :
    (word rules k).spells k = true := by
  rw [word_spells]
  exact decide_eq_true rfl

theorem Sign.word_spells_ne (rules : LexicalRules) (differ : j ≠ k) :
    (word rules j).spells k = false := by
  rw [word_spells]
  exact decide_eq_false differ

theorem Sign.word_kind_of_reserved (reserved : rules.keywords.reserves k = true) :
    (word rules k).kind = .keyword k := by
  have known := classify?_eq_some.mpr ⟨k.ofWord?_spelling, reserved⟩
  rw [word, bare, known]

/-- A quoted name spells no word. -/
theorem Sign.quoted_not_spells (standard : rules.Standard) (quoted : l.quoted = true) (k : Keyword) :
    (name rules l).spells k = false := by
  obtain ⟨quote, known, pair, -⟩ := standard.name
  rw [name, if_pos quoted, Bool.eq_false_iff]
  intro spells
  have same : sameWord (rules.quoteIdentifier l.value) k.spelling = true := spells
  have lower := congrArg List.head? (beq_iff_eq.mp same)
  simp only [LexicalRules.quoteIdentifier, pair, Option.getD_some, String.toList_ofList,
    List.cons_append, List.map_cons, List.head?_cons, List.head?_map] at lower
  obtain ⟨c, first, letter⟩ := Option.map_eq_some_iff.mp lower.symm
  have other := Keyword.spelling_notQuoted first
  simp only [List.mem_cons, List.not_mem_nil, or_false] at known
  rcases known with rfl | rfl
  · exact other.1 letter
  · exact other.2 letter

/-- A name spells no word that is reserved. -/
theorem Sign.name_not_spells (standard : rules.Standard) (legible : l.Legible rules)
    (other : l.quoted = false → rules.keywords.reserves k = true ∨ Keyword.ofWord? l.value ≠ some k) :
    (name rules l).spells k = false := by
  cases quoted : l.quoted with
  | true => exact quoted_not_spells standard quoted k
  | false =>
    rw [name, quoted, if_neg Bool.false_ne_true, Bool.eq_false_iff]
    intro spells
    have known := ofWord?_of_spells spells
    rcases other quoted with reserved | differs
    · rcases legible with quoted' | ⟨-, free⟩
      · rw [quoted] at quoted'
        cases quoted'
      · rw [classify?_eq_some.mpr ⟨known, reserved⟩] at free
        cases free
    · exact differs known

/-- A name that leads an expression spells no word that could be taken for a form. -/
theorem Label.Leads.not_spells (leads : l.Leads rules) (standard : rules.Standard)
    (other : k ∈ formWords ∨ rules.keywords.reserves k = true) :
    (Sign.name rules l).spells k = false := by
  refine Sign.name_not_spells standard leads.1 fun bare => ?_
  exact other.symm.imp_right (leads.2 bare k)

end

end SqlTree
