import SqlTree.Proofs.Dialects.Extensions
import SqlTree.Proofs.Lexing.Words

namespace SqlTree

/-- What a word without quotes is, where a table says which keywords are reserved. -/
def KeywordTable.label (table : KeywordTable) (word : String) : TokenKind :=
  match Keyword.ofWord? word with
  | some k => if table.reserves k then .keyword k else .identifier word
  | none => .identifier word

/-- The same rules with another table of keywords. -/
def LexicalRules.reserving (rules : LexicalRules) (table : KeywordTable) : LexicalRules :=
  { rules with keywords := table }

/-- Whether a token is a word that is written without quotes. -/
def Token.isUnquotedWord (t : Token) : Bool := t.kind.isWord && !t.isQuoted

/-- What a piece of a text is under one table of keywords and under another one. -/
inductive Token.Relabels (table table' : KeywordTable) : Token → Token → Prop
  | word {w : String} {span : Span} : isBareWord w = true →
      Relabels table table' ⟨table.label w, w, span⟩ ⟨table'.label w, w, span⟩
  | other {t : Token} : t.isUnquotedWord = false → Relabels table table' t t

section

variable {rules : LexicalRules} {table table' : KeywordTable} {c after : Cursor} {t t' : Token}
  {k : Keyword} {w : String}

theorem Sign.bare_kind_eq_label (rules : LexicalRules) (w : String) :
    (Sign.bare rules w).kind = rules.keywords.label w := by
  unfold Sign.bare KeywordTable.classify? KeywordTable.label
  cases Keyword.ofWord? w with
  | none => rfl
  | some k => cases reserved : rules.keywords.reserves k <;> simp [Option.filter, reserved]

/-- A word is found to be spelled like a keyword whether or not the keyword is reserved. -/
theorem KeywordTable.spells_label (table : KeywordTable) (w : String) (span : Span) (k : Keyword) :
    Token.spells ⟨table.label w, w, span⟩ k = sameWord w k.spelling := by
  unfold KeywordTable.label
  cases found : Keyword.ofWord? w with
  | none => rfl
  | some j =>
    cases reserved : table.reserves j with
    | false => simp [reserved, Token.spells]
    | true =>
      simp only [reserved, if_true, Token.spells]
      rw [Bool.eq_iff_iff, beq_iff_eq]
      constructor
      · rintro rfl
        exact Keyword.sameWord_of_ofWord? found
      · intro same
        have spelled := Keyword.ofWord?_eq_of_sameWord same
        rw [found, Keyword.ofWord?_spelling] at spelled
        exact Option.some.inj spelled

/-- Whatever a table makes of a word, it is a word without quotes. -/
theorem KeywordTable.isUnquotedWord_label (table : KeywordTable) (w : String) (span : Span) :
    Token.isUnquotedWord ⟨table.label w, w, span⟩ = true := by
  unfold KeywordTable.label
  cases Keyword.ofWord? w with
  | none => simp [Token.isUnquotedWord, TokenKind.isWord, Token.isQuoted]
  | some k =>
    dsimp only
    split <;> simp [Token.isUnquotedWord, TokenKind.isWord, Token.isQuoted]

/-- A word is not the end of a text. -/
theorem KeywordTable.isEof_label (table : KeywordTable) (w : String) (span : Span) :
    Token.isEof ⟨table.label w, w, span⟩ = false := by
  unfold KeywordTable.label
  cases Keyword.ofWord? w with
  | none => rfl
  | some k =>
    dsimp only
    split <;> rfl

namespace Token.Relabels

/-- A word spells the same keyword under both tables. -/
theorem spells (relabels : t.Relabels table table' t') (k : Keyword) : t'.spells k = t.spells k := by
  cases relabels with
  | word => rw [table.spells_label, table'.spells_label]
  | other => rfl

theorem sameWord_of_isUnquotedWord (relabels : t.Relabels table table' t')
    (word : t.isUnquotedWord = true) (k : Keyword) : t.spells k = sameWord t.text k.spelling := by
  cases relabels with
  | word => exact table.spells_label ..
  | other noWord =>
    rw [noWord] at word
    cases word

/-- The end of a text is no word. -/
theorem eq_of_isEof (relabels : t.Relabels table table' t') (isEof : t.isEof = true) : t' = t := by
  cases relabels with
  | word =>
    rw [table.isEof_label] at isEof
    cases isEof
  | other => rfl

/-- The end of a text is one under both tables. -/
theorem isEof_eq (relabels : t.Relabels table table' t') : t'.isEof = t.isEof := by
  cases relabels with
  | word => rw [table.isEof_label, table'.isEof_label]
  | other => rfl

end Token.Relabels

/-- A scan looks at the table of keywords for a word only. -/
theorem scanToken_reserving (rules : LexicalRules) (table : KeywordTable) (cs : List Char) :
    scanToken (rules.reserving table) cs = scanToken rules cs ∨
      ∃ w rest, scanToken rules cs = ⟨.ok (rules.keywords.label (String.ofList w)), w, rest⟩ ∧
        scanToken (rules.reserving table) cs = ⟨.ok (table.label (String.ofList w)), w, rest⟩ := by
  rcases cs with _ | ⟨c, cs⟩
  · exact .inl rfl
  have names : (rules.reserving table).closingQuote? c = rules.closingQuote? c := rfl
  have strings : (rules.reserving table).isStringQuote c = rules.isStringQuote c := rfl
  have escapes : (rules.reserving table).backslashEscapes = rules.backslashEscapes := rfl
  rw [scanToken, scanToken, names, strings, escapes]
  split
  · exact .inl rfl
  split
  · exact .inl rfl
  split
  · exact .inl rfl
  split
  · exact .inl rfl
  split
  · exact .inl rfl
  split
  · have word := scanWord_eq rules (c :: cs)
    have word' := scanWord_eq (rules.reserving table) (c :: cs)
    rw [Sign.bare_kind_eq_label] at word word'
    exact .inr ⟨_, _, word, word'⟩
  · exact .inl rfl

/-- A word without quotes is what its table makes of it. -/
theorem nextToken_label (next : nextToken rules c = (.ok t, after)) (word : t.isUnquotedWord = true) :
    isBareWord t.text = true ∧ t.kind = rules.keywords.label t.text := by
  simp only [Token.isUnquotedWord, Bool.and_eq_true, Bool.not_eq_true'] at word
  obtain ⟨letters, fits⟩ := nextToken_bare next word.1 word.2
  exact ⟨letters, fits.kind.trans (Sign.bare_kind_eq_label rules t.text)⟩

/-- One token is read as the same token, up to what a word is. -/
theorem nextToken_relabels (table : KeywordTable) (next : nextToken rules c = (.ok t, after)) :
    ∃ t', nextToken (rules.reserving table) c = (.ok t', after) ∧
      t.Relabels rules.keywords table t' := by
  have found := next
  have layout : (rules.reserving table).hashComments = rules.hashComments := rfl
  rcases scanToken_reserving rules table (scanLayout rules.hashComments .gap c.rest).rest with
    same | ⟨w, rest, word, word'⟩
  · have next' : nextToken (rules.reserving table) c = (.ok t, after) := by
      rw [← next]
      simp only [nextToken, layout, same]
    refine ⟨t, next', ?_⟩
    cases unquoted : t.isUnquotedWord with
    | false => exact .other unquoted
    | true =>
      obtain ⟨letters, kind⟩ := nextToken_label next unquoted
      obtain ⟨-, kind'⟩ := nextToken_label next' unquoted
      have relabels : Token.Relabels rules.keywords table ⟨_, t.text, t.span⟩ ⟨_, t.text, t.span⟩ :=
        .word letters
      rwa [← kind, show table.label t.text = t.kind from kind'.symm] at relabels
  · simp only [nextToken, word] at next
    split at next
    case isFalse => cases next
    rename_i whole
    simp only [Prod.mk.injEq, Except.ok.injEq] at next
    obtain ⟨rfl, rfl⟩ := next
    refine ⟨⟨table.label (String.ofList w), String.ofList w, _⟩, ?_, .word ?_⟩
    · simp only [nextToken, layout, word', whole, if_true]
    · exact (nextToken_label found (rules.keywords.isUnquotedWord_label ..)).1

/-- What cannot be read cannot be read under any table. -/
theorem nextToken_error_reserving (table : KeywordTable) {e : LexError}
    (next : nextToken rules c = (.error e, after)) :
    nextToken (rules.reserving table) c = (.error e, after) := by
  have layout : (rules.reserving table).hashComments = rules.hashComments := rfl
  rcases scanToken_reserving rules table (scanLayout rules.hashComments .gap c.rest).rest with
    same | ⟨w, rest, word, word'⟩
  · rw [← next]
    simp only [nextToken, layout, same]
  · simp only [nextToken, layout, word, word'] at next ⊢
    split at next
    · cases next
    · rename_i unclosed
      rw [if_neg unclosed, next]

/-- The tokens of a text under another table, which end where the text does, or at the same fault. -/
theorem Lexes.relabels {tokens : List Token} {stop : Except LexError Token}
    (lexes : Lexes rules c tokens stop) (table : KeywordTable) :
    ∃ tokens', Lexes (rules.reserving table) c tokens' stop ∧
      List.Forall₂ (Token.Relabels rules.keywords table) tokens tokens' := by
  induction lexes with
  | eof next isEof =>
    obtain ⟨eof', next', relabels⟩ := nextToken_relabels table next
    obtain rfl := relabels.eq_of_isEof isEof
    exact ⟨[], .eof next' isEof, .nil⟩
  | fault next => exact ⟨[], .fault (nextToken_error_reserving table next), .nil⟩
  | token next notEof _ ih =>
    obtain ⟨t', next', relabels⟩ := nextToken_relabels table next
    obtain ⟨tokens', lexes', rest⟩ := ih
    exact ⟨t' :: tokens', .token next' (relabels.isEof_eq.trans notEof) lexes', .cons relabels rest⟩

/-- A state shows what the lexer reads at its place. -/
theorem Tracks.peek_eq_nextToken {st : State} {s : Tape} (tracks : Tracks rules st s) :
    (st.peek rules).1 = (nextToken rules st.reader.cursor).1.mapError Failure.lexical :=
  tracks.peek.result.trans tracks.nextToken_eq.symm

/-- The grammar finds a keyword where the next token spells it. -/
theorem checkKeyword_eval {Sym : Type → Type} (levels : List (Level Sym)) (st : State) (k : Keyword) :
    ((Rule.checkKeyword k : Rule Sym Bool).eval rules levels st).1 =
      (st.peek rules).1.map (·.spells k) := by
  simp only [Rule.checkKeyword, Bind.bind, Pure.pure, Rule.eval]
  rcases st.peek rules with ⟨_ | _, _⟩ <;> rfl

/-- Two states at one place of a text, read under two tables, find the same keyword there. -/
theorem Reachable.checkKeyword_reserving {text : List Char} {saved saved' : List StateMark}
    {st st' : State} (reach : Reachable rules text saved st)
    (reach' : Reachable (rules.reserving table) text saved' st') (place : st.position = st'.position)
    {Sym : Type → Type} (levels levels' : List (Level Sym)) (k : Keyword) :
    ((Rule.checkKeyword k : Rule Sym Bool).eval (rules.reserving table) levels' st').1 =
        ((Rule.checkKeyword k : Rule Sym Bool).eval rules levels st).1 ∧
      ∀ t, (st.peek rules).1 = .ok t → t.isUnquotedWord = true →
        ((Rule.checkKeyword k : Rule Sym Bool).eval rules levels st).1 =
          .ok (sameWord t.text k.spelling) := by
  obtain ⟨tokens, stop, lexes⟩ := lexes_exists rules (.ofText text)
  obtain ⟨tokens', stop', lexes'⟩ := lexes_exists (rules.reserving table) (.ofText text)
  obtain ⟨s, tracks, leads, -⟩ := reach.tracks lexes
  obtain ⟨s', tracks', leads', -⟩ := reach'.tracks lexes'
  have same : s.text = s'.text := leads.text.trans leads'.text.symm
  have cursor : st'.reader.cursor = st.reader.cursor :=
    (same ▸ tracks'.on).eq_of_offset_eq tracks.on (congrArg Position.offset place.symm)
  rw [checkKeyword_eval, checkKeyword_eval, tracks.peek_eq_nextToken, tracks'.peek_eq_nextToken, cursor]
  rcases next : nextToken rules st.reader.cursor with ⟨e | t, after⟩
  · rw [nextToken_error_reserving table next]
    exact ⟨rfl, fun t shown => by cases shown⟩
  · obtain ⟨t', next', relabels⟩ := nextToken_relabels table next
    rw [next']
    refine ⟨congrArg Except.ok (relabels.spells k), fun u shown word => ?_⟩
    obtain rfl : t = u := Except.ok.inj shown
    exact congrArg Except.ok (relabels.sameWord_of_isUnquotedWord word k)

end

/-- Two tables of keywords make the same fault of a text, or cut it into the same tokens, which differ in
what the words without quotes are; and wherever the grammar looks for a keyword, it finds it under both or
under none: a word without quotes is found if it is spelled like the keyword. -/
theorem tokenize_relabels (rules : LexicalRules) (table : KeywordTable) (text : String) :
    ((∃ e, tokenize rules text = .error e ∧ tokenize (rules.reserving table) text = .error e) ∨
      ∃ tokens tokens', tokenize rules text = .ok tokens ∧
        tokenize (rules.reserving table) text = .ok tokens' ∧
        List.Forall₂ (Token.Relabels rules.keywords table) tokens tokens') ∧
    ∀ saved st saved' st', Reachable rules text.toList saved st →
      Reachable (rules.reserving table) text.toList saved' st' → st.position = st'.position →
      ∀ (Sym : Type → Type) (levels levels' : List (Level Sym)) (k : Keyword),
        ((Rule.checkKeyword k : Rule Sym Bool).eval (rules.reserving table) levels' st').1 =
            ((Rule.checkKeyword k : Rule Sym Bool).eval rules levels st).1 ∧
          ∀ t, (st.peek rules).1 = .ok t → t.isUnquotedWord = true →
            ((Rule.checkKeyword k : Rule Sym Bool).eval rules levels st).1 =
              .ok (sameWord t.text k.spelling) := by
  refine ⟨?_, fun saved st saved' st' reach reach' place Sym levels levels' k =>
    reach.checkKeyword_reserving reach' place levels levels' k⟩
  obtain ⟨tokens, stop, lexes⟩ := lexes_exists rules (.ofText text.toList)
  obtain ⟨tokens', lexes', relabels⟩ := lexes.relabels table
  rw [lexes.tokenize, lexes'.tokenize]
  cases stop with
  | error e => exact .inl ⟨e, rfl, rfl⟩
  | ok eof =>
    have last : Token.Relabels rules.keywords table eof eof := by
      refine .other ?_
      have kind : eof.kind = .eof := by simpa [Token.isEof] using lexes.eof_of_ok
      rw [Token.isUnquotedWord, kind]
      rfl
    exact .inr ⟨_, _, rfl, rfl, List.rel_append relabels (.cons last .nil)⟩

/-- Rules that reserve two words. -/
def limitReserved : LexicalRules := .standard (.ofList [.SELECT, .LIMIT])

/-- Behind the first word of a text of two. -/
def behindFirst (rules : LexicalRules) : State := ((State.ofText "SELECT limit".toList).bump rules).2

theorem reachable_behindFirst (rules : LexicalRules) :
    Reachable rules "SELECT limit".toList [] (behindFirst rules) := .bump .start

/-- With LIMIT reserved and without, the grammar finds the word behind SELECT. -/
theorem tokenize_relabels_limit :
    (behindFirst limitReserved).position =
        (behindFirst (limitReserved.reserving (.ofList [.SELECT]))).position ∧
      ((behindFirst limitReserved).peek limitReserved).1 =
        .ok ⟨.keyword .LIMIT, "limit", ⟨⟨7, 1, 8⟩, ⟨12, 1, 13⟩⟩⟩ ∧
      ((behindFirst (limitReserved.reserving (.ofList [.SELECT]))).peek
          (limitReserved.reserving (.ofList [.SELECT]))).1 =
        .ok ⟨.identifier "limit", "limit", ⟨⟨7, 1, 8⟩, ⟨12, 1, 13⟩⟩⟩ ∧
      ((Rule.checkKeyword .LIMIT : SqlRule Bool).eval (limitReserved.reserving (.ofList [.SELECT])) []
        (behindFirst (limitReserved.reserving (.ofList [.SELECT])))).1 = .ok true := by
  have place : (behindFirst limitReserved).position =
      (behindFirst (limitReserved.reserving (.ofList [.SELECT]))).position := rfl
  have shown : ((behindFirst limitReserved).peek limitReserved).1 =
      .ok ⟨.keyword .LIMIT, "limit", ⟨⟨7, 1, 8⟩, ⟨12, 1, 13⟩⟩⟩ := rfl
  obtain ⟨same, word⟩ := (tokenize_relabels limitReserved (.ofList [.SELECT]) "SELECT limit").2 _ _ _ _
    (reachable_behindFirst _) (reachable_behindFirst _) place Symbol [] [] .LIMIT
  refine ⟨place, shown, rfl, same.trans ((word _ shown (by decide)).trans ?_)⟩
  exact congrArg Except.ok (by decide)

end SqlTree
