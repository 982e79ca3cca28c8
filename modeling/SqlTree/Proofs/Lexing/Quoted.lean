import SqlTree.Grammar.Symbol
import SqlTree.Proofs.Reading.Reachable
import SqlTree.Proofs.Writing.Solid

namespace SqlTree

/-- The quotes that a dialect writes around a name begin neither white space nor a comment. -/
structure LexicalRules.Quotes (rules : LexicalRules) (opening closing : Char) : Prop where
  first : rules.identifierQuotes.head? = some (opening, closing)
  noWhite : isWhiteSpace opening = false
  noLayout : opening ∉ ['-', '/', '#']

section

variable {rules : LexicalRules} {opening closing : Char} {name : String} {following : List Char}
  {st : State}

/-- The characters of a name between its quotes. -/
def quotedBody (closing : Char) (name : String) : List Char :=
  (name.toList.flatMap fun c => if c = closing then [c, c] else [c]) ++ [closing]

/-- How a name is written between quotes, character by character. -/
theorem quoteIdentifier_toList (first : rules.identifierQuotes.head? = some (opening, closing))
    (name : String) :
    (rules.quoteIdentifier name).toList = opening :: quotedBody closing name := by
  simp only [LexicalRules.quoteIdentifier, first, Option.getD_some, String.toList_ofList, quotedBody,
    List.cons_append]

/-- What is read as a name between quotes is written like that name. -/
theorem scanQuotedName_text {closing : Char} {cs name : List Char}
    (found : (scanQuotedName closing cs).value = some name) :
    (scanQuotedName closing cs).text = quotedBody closing (String.ofList name) := by
  simp only [quotedBody, String.toList_ofList]
  fun_induction scanQuotedName closing cs generalizing name with
  | case1 => cases found
  | case2 =>
    cases found
    rfl
  | case3 => cases found
  | case4 cs ih =>
    obtain ⟨inner, value, rfl⟩ := Option.map_eq_some_iff.mp found
    simp [Scan.behind, ih value]
  | case5 =>
    cases found
    rfl
  | case6 c d cs other ih =>
    obtain ⟨inner, value, rfl⟩ := Option.map_eq_some_iff.mp found
    simp [Scan.behind, ih value, other]

/-- The first pair of quotes is found by its opening quote. -/
theorem closingQuote?_of_head (first : rules.identifierQuotes.head? = some (opening, closing)) :
    rules.closingQuote? opening = some closing := by
  obtain ⟨others, pairs⟩ := List.head?_eq_some_iff.mp first
  rw [LexicalRules.closingQuote?, pairs, List.lookup_cons_self]

/-- Between quotes a name has more characters than without them. -/
theorem quoteIdentifier_ne (first : rules.identifierQuotes.head? = some (opening, closing))
    (name : String) : rules.quoteIdentifier name ≠ name := by
  have kept : name.toList.length ≤
      (name.toList.flatMap fun c => if c = closing then [c, c] else [c]).length := by
    induction name.toList with
    | nil => simp
    | cons c cs ih =>
      rw [List.flatMap_cons, List.length_append, List.length_cons]
      have one : 1 ≤ (if c = closing then [c, c] else [c]).length := by split <;> simp
      omega
  intro same
  have sizes := congrArg List.length (quoteIdentifier_toList first name)
  rw [same] at sizes
  simp only [quotedBody, List.length_cons, List.length_append, List.length_nil] at sizes
  omega

/-- The lexer reads a quoted name as one token, up to what follows it. -/
theorem nextToken_quoteIdentifier (quotes : rules.Quotes opening closing) (name : String)
    (ends : following.head? ≠ some closing) (p : Position) :
    nextToken rules ⟨p, (rules.quoteIdentifier name).toList ++ following⟩ =
      (.ok ⟨.identifier name, rules.quoteIdentifier name,
          ⟨p, p.afterAll (rules.quoteIdentifier name).toList⟩⟩,
        ⟨p.afterAll (rules.quoteIdentifier name).toList, following⟩) := by
  obtain ⟨first, noWhite, noLayout⟩ := quotes
  simp only [List.mem_cons, List.not_mem_nil, or_false, not_or] at noLayout
  obtain ⟨noDash, noSlash, noHash⟩ := noLayout
  have written := quoteIdentifier_toList first name
  have layout : scanLayout rules.hashComments .gap
      (opening :: (quotedBody closing name ++ following)) = ⟨0, [], _⟩ :=
    scanLayout_ends noWhite noHash (fun dash => absurd dash noDash)
      (fun slash => absurd slash noSlash) rules.hashComments
  have body : scanQuotedName closing (quotedBody closing name ++ following) =
      ⟨some name.toList, quotedBody closing name, following⟩ := by
    have scanned := scanQuotedName_quoted name.toList ends
    simpa only [quotedBody, List.append_assoc, List.singleton_append] using scanned
  have token : scanToken rules (opening :: (quotedBody closing name ++ following)) =
      ⟨.ok (.identifier name), opening :: quotedBody closing name, following⟩ := by
    simp only [scanToken, closingQuote?_of_head first, scanQuotedIdentifier, body, Scan.behind,
      String.ofList_toList, List.singleton_append]
  rw [written, List.cons_append]
  simp only [nextToken, layout, token, if_true, Position.afterAll_nil]
  rw [← written, String.ofList_toList]

/-- Every keyword begins with a letter. -/
theorem Keyword.spelling_letter (k : Keyword) :
    ∃ c cs, k.spelling.toList = c :: cs ∧ c.toLower.isAlpha = true := by
  have each : ∀ k ∈ Keyword.all, k.spelling.toList.head?.any (·.toLower.isAlpha) = true := by
    decide +kernel
  obtain ⟨c, head, letter⟩ := Option.any_eq_true _ _ |>.mp (each k k.mem_all)
  obtain ⟨cs, spelling⟩ := List.head?_eq_some_iff.mp head
  exact ⟨c, cs, spelling, letter⟩

/-- What begins with no letter is written like no word. -/
theorem not_sameWord_of_cons {written word : String} {cs : List Char} (begins : written.toList = opening :: cs)
    (noLetter : opening.isAlpha = false)
    (letter : ∃ c cs, word.toList = c :: cs ∧ c.toLower.isAlpha = true) : sameWord written word = false := by
  rw [Bool.eq_false_iff]
  intro same
  obtain ⟨c, cs, spelling, letter⟩ := letter
  have letters := beq_iff_eq.mp same
  rw [begins, spelling, List.map_cons, List.map_cons] at letters
  have heads : SameLetter opening c := (List.cons.inj letters).1
  rw [(SameLetter.toLower c).isAlpha_eq, ← heads.isAlpha_eq, noLetter] at letter
  cases letter

/-- A quoted name is written like no word, if its quote is no letter. -/
theorem not_sameWord_quoted (first : rules.identifierQuotes.head? = some (opening, closing))
    (noLetter : opening.isAlpha = false) (name : String) {word : String}
    (letter : ∃ c cs, word.toList = c :: cs ∧ c.toLower.isAlpha = true) :
    sameWord (rules.quoteIdentifier name) word = false :=
  not_sameWord_of_cons (quoteIdentifier_toList first name) noLetter letter

/-- A quoted name is no keyword, however it is spelled, if its quote is no letter. -/
theorem not_spells_quoted (first : rules.identifierQuotes.head? = some (opening, closing))
    (noLetter : opening.isAlpha = false) (name : String) (span : Span) (k : Keyword) :
    Token.spells ⟨.identifier name, rules.quoteIdentifier name, span⟩ k = false :=
  not_sameWord_quoted first noLetter name k.spelling_letter

/-- A state that shows a name takes it off its text. -/
theorem Tracks.identifier {s : Tape} {after : Cursor} {t : Token} (tracks : Tracks rules st s)
    (next : nextToken rules st.reader.cursor = (.ok t, after)) (kind : t.kind = .identifier name)
    (levels : List (Level Symbol)) :
    (SqlRule.identifier.eval rules levels st).1 = .ok ⟨name, t.isQuoted, t.span⟩ ∧
      (SqlRule.identifier.eval rules levels st).2.reader.cursor = after := by
  obtain ⟨tracks', reader, -⟩ := tracks.scan_snd
  have peeked : st.peek rules = (.ok t, (st.scan rules).2) := by
    simp only [State.peek, tracks.scan_fst, next]
    rfl
  have scanned : ((st.scan rules).2.scan rules).1 = ⟨.ok t, after⟩ := by
    rw [tracks'.scan_fst, reader, next]
  have bumped : ((st.scan rules).2.bump rules).1 = .ok t ∧
      ((st.scan rules).2.bump rules).2.reader.cursor = after := by
    simp only [State.bump, scanned, Reader.moveTo, and_self]
  rcases eq : (st.scan rules).2.bump rules with ⟨result, st'⟩
  rw [eq] at bumped
  obtain ⟨rfl, cursor⟩ := bumped
  simp only [SqlRule.identifier, Bind.bind, Pure.pure, Rule.eval, peeked, kind, eq, true_and]
  exact cursor

/-- What a quoted name in front of a state is taken for: one token, a name that counts as quoted,
and no keyword if its quote is no letter. -/
structure State.TakesName (rules : LexicalRules) (opening : Char) (name : String)
    (following : List Char) (st : State) : Prop where
  shows : (st.peek rules).1 = .ok ⟨.identifier name, rules.quoteIdentifier name,
    ⟨st.position, st.position.afterAll (rules.quoteIdentifier name).toList⟩⟩
  ident : ∀ levels, (SqlRule.identifier.eval rules levels st).1 =
    .ok ⟨name, true, ⟨st.position, st.position.afterAll (rules.quoteIdentifier name).toList⟩⟩
  behind : ∀ levels, (SqlRule.identifier.eval rules levels st).2.reader.cursor =
    ⟨st.position.afterAll (rules.quoteIdentifier name).toList, following⟩
  noKeyword : opening.isAlpha = false → ∀ k levels,
    ((Rule.checkKeyword k : SqlRule Bool).eval rules levels st).1 = .ok false

/-- Whatever state the grammar comes to, it takes a quoted name for that name. -/
theorem Reachable.takesName {text : List Char} {saved : List StateMark}
    (reach : Reachable rules text saved st) (quotes : rules.Quotes opening closing) (name : String)
    (ends : following.head? ≠ some closing)
    (rest : st.reader.cursor.rest = (rules.quoteIdentifier name).toList ++ following) :
    st.TakesName rules opening name following := by
  obtain ⟨tokens, stop, lexes⟩ := lexes_exists rules (.ofText text)
  obtain ⟨s, tracks, -⟩ := reach.tracks lexes
  have next := nextToken_quoteIdentifier quotes name ends st.reader.cursor.position
  rw [← rest] at next
  have peeked : (st.peek rules).1 = .ok ⟨.identifier name, rules.quoteIdentifier name,
      ⟨st.position, st.position.afterAll (rules.quoteIdentifier name).toList⟩⟩ := by
    rw [tracks.peek.result, ← tracks.nextToken_eq, next]
    rfl
  have quoted (span : Span) :
      Token.isQuoted ⟨.identifier name, rules.quoteIdentifier name, span⟩ = true :=
    bne_iff_ne.mpr (quoteIdentifier_ne quotes.first name)
  have taken := tracks.identifier next rfl
  refine ⟨peeked, fun levels => ?_, fun levels => (taken levels).2, fun noLetter k levels => ?_⟩
  · rw [(taken levels).1, quoted]
    rfl
  · rcases eq : st.peek rules with ⟨result, st'⟩
    rw [eq] at peeked
    subst peeked
    simp only [Rule.checkKeyword, Bind.bind, Pure.pure, Rule.eval, eq,
      not_spells_quoted quotes.first noLetter]

end

/-- The built-in dialects quote names, with no letter. -/
theorem Dialect.quotes_of_builtin {d : Dialect} (builtin : d ∈ Dialect.builtin) :
    ∃ quote, d.lexical.Quotes quote quote ∧ quote.isAlpha = false := by
  have each : ∀ d ∈ Dialect.builtin, d.lexical.identifierQuotes.head? = some ('"', '"') ∨
      d.lexical.identifierQuotes.head? = some ('\x60', '\x60') := by decide
  rcases each d builtin with first | first
  · exact ⟨'"', ⟨first, by decide, by decide⟩, by decide⟩
  · exact ⟨'\x60', ⟨first, by decide, by decide⟩, by decide⟩

/-- A name between the quotes that a dialect writes is read back, by the lexer wherever it stands
and by the grammar in every state that it can come to. All dialects have such quotes. -/
theorem quoteIdentifier_read :
    (∀ d ∈ Dialect.builtin, ∃ opening closing,
      d.lexical.Quotes opening closing ∧ opening.isAlpha = false) ∧
    ∀ (rules : LexicalRules) (opening closing : Char), rules.Quotes opening closing →
      ∀ (name : String) (following : List Char), following.head? ≠ some closing →
        (∀ p, nextToken rules ⟨p, (rules.quoteIdentifier name).toList ++ following⟩ =
          (.ok ⟨.identifier name, rules.quoteIdentifier name,
              ⟨p, p.afterAll (rules.quoteIdentifier name).toList⟩⟩,
            ⟨p.afterAll (rules.quoteIdentifier name).toList, following⟩)) ∧
        ∀ text saved st, Reachable rules text saved st →
          st.reader.cursor.rest = (rules.quoteIdentifier name).toList ++ following →
          st.TakesName rules opening name following := by
  constructor
  · intro d builtin
    obtain ⟨quote, quotes, noLetter⟩ := Dialect.quotes_of_builtin builtin
    exact ⟨quote, quote, quotes, noLetter⟩
  · intro rules opening closing quotes name following ends
    exact ⟨nextToken_quoteIdentifier quotes name ends,
      fun text saved st reach rest => reach.takesName quotes name ends rest⟩

/-- Brackets around a name that ends in one, and a word behind it. -/
theorem quoteIdentifier_read_brackets :
    let rules : LexicalRules := ⟨.ofList [.SELECT], [('[', ']'), ('"', '"')], ['\''], false, false⟩
    rules.Quotes '[' ']' ∧ (" x".toList).head? ≠ some ']' ∧
      (nextToken rules ⟨.start, (rules.quoteIdentifier "select]").toList ++ " x".toList⟩).2 =
        ⟨⟨10, 1, 11⟩, " x".toList⟩ ∧
      (State.ofText "[select]]] x".toList).TakesName rules '[' "select]" " x".toList := by
  intro rules
  have quotes : rules.Quotes '[' ']' := ⟨rfl, by decide, by decide⟩
  have ends : (" x".toList).head? ≠ some ']' := by decide
  obtain ⟨lexed, taken⟩ := quoteIdentifier_read.2 rules '[' ']' quotes "select]" " x".toList ends
  refine ⟨quotes, ends, ?_, taken _ _ _ .start (by decide +kernel)⟩
  rw [lexed]
  decide +kernel

end SqlTree
