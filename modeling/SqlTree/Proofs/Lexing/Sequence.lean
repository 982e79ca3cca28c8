import SqlTree.Proofs.Lexing.Split

namespace SqlTree

/-- A token is what is scanned behind layout. -/
theorem nextToken_scans {rules : LexicalRules} {c after : Cursor} {t : Token}
    (next : nextToken rules c = (.ok t, after)) :
    ∃ kind layout text rest behind, scanLayout rules.hashComments .gap c.rest = ⟨0, layout, rest⟩ ∧
      scanToken rules rest = ⟨.ok kind, text, behind⟩ ∧
      t = ⟨kind, String.ofList text,
        ⟨c.position.afterAll layout, (c.position.afterAll layout).afterAll text⟩⟩ ∧
      after = ⟨(c.position.afterAll layout).afterAll text, behind⟩ := by
  rcases layoutScan : scanLayout rules.hashComments .gap c.rest with ⟨unclosed, layout, rest⟩
  rcases tokenScan : scanToken rules rest with ⟨value, text, behind⟩
  simp only [nextToken, layoutScan, tokenScan] at next
  split at next
  case isFalse => cases next
  rename_i whole
  subst whole
  cases value with
  | error => cases next
  | ok kind =>
    simp only [Prod.mk.injEq, Except.ok.injEq] at next
    obtain ⟨rfl, rfl⟩ := next
    exact ⟨kind, layout, text, rest, behind, rfl, tokenScan, rfl, rfl⟩

/-- How a token that was read lies in the characters in front of the cursor: behind layout, up to
the cursor's new place. Only the end of the text takes no characters. -/
theorem nextToken_ok {rules : LexicalRules} {c after : Cursor} {t : Token}
    (next : nextToken rules c = (.ok t, after)) :
    ∃ layout text, c.rest = layout ++ (text ++ after.rest) ∧ t.text = String.ofList text ∧
      t.span = ⟨c.position.afterAll layout, (c.position.afterAll layout).afterAll text⟩ ∧
      after.position = t.span.stop ∧ (t.isEof = true → text = [] ∧ after.rest = []) ∧
      (t.isEof = false → text ≠ []) := by
  obtain ⟨kind, layout, text, rest, behind, gap, scan, rfl, rfl⟩ := nextToken_scans next
  have outer := scanLayout_splits rules.hashComments .gap c.rest
  have inner := scanToken_splits rules rest
  have found : (scanToken rules rest).value = .ok kind := by rw [scan]
  have taken := scanToken_text_ne_nil found
  rw [Scan.Splits, gap] at outer
  rw [Scan.Splits, scan] at inner
  rw [scan] at taken
  refine ⟨layout, text, ?_, rfl, rfl, rfl, ?_, ?_⟩
  · exact (inner ▸ outer).symm
  · intro eof
    obtain rfl : kind = .eof := by simpa [Token.isEof] using eof
    rw [scanToken_eof found] at inner
    exact List.append_eq_nil_iff.mp inner
  · intro notEof
    exact taken (by simpa [Token.isEof] using notEof)

/-- The lexer moves on within its text. -/
theorem nextToken_on (rules : LexicalRules) {text : List Char} {c : Cursor} (on : c.On text) :
    (nextToken rules c).2.On text := by
  have outer := scanLayout_splits rules.hashComments .gap c.rest
  have inner := scanToken_splits rules (scanLayout rules.hashComments .gap c.rest).rest
  have behindLayout := on.afterAll outer.symm
  simp only [nextToken]
  split
  · exact behindLayout.afterAll inner.symm
  · exact behindLayout

/-- The end of the text is found again and again. -/
theorem nextToken_eof {rules : LexicalRules} {c after : Cursor} {eof : Token}
    (next : nextToken rules c = (.ok eof, after)) (isEof : eof.isEof = true) :
    nextToken rules after = (.ok eof, after) := by
  obtain ⟨layout, text, -, written, span, place, atEnd, -⟩ := nextToken_ok next
  obtain ⟨rfl, rest⟩ := atEnd isEof
  obtain ⟨position, _⟩ := after
  obtain ⟨kind, text, ⟨start, stop⟩⟩ := eof
  simp only [Token.isEof, beq_iff_eq] at isEof
  simp only [Span.mk.injEq, Position.afterAll_nil] at span
  simp only at rest place written
  obtain ⟨rfl, rfl⟩ := span
  subst rest place written isEof
  rfl

/-- The tokens from a cursor on, without the end of the text, and what ends them: the end of the
text or the first lexical error. -/
inductive Lexes (rules : LexicalRules) : Cursor → List Token → Except LexError Token → Prop
  | eof {c after eof} : nextToken rules c = (.ok eof, after) → eof.isEof = true →
      Lexes rules c [] (.ok eof)
  | fault {c after e} : nextToken rules c = (.error e, after) → Lexes rules c [] (.error e)
  | token {c after t tokens stop} : nextToken rules c = (.ok t, after) → t.isEof = false →
      Lexes rules after tokens stop → Lexes rules c (t :: tokens) stop

/-- Every text has its tokens. -/
theorem lexes_exists (rules : LexicalRules) (c : Cursor) : ∃ tokens stop, Lexes rules c tokens stop := by
  generalize size : c.rest.length = n
  induction n using Nat.strongRecOn generalizing c with
  | _ n ih =>
    rcases eq : nextToken rules c with ⟨answer, after⟩
    cases answer with
    | error e => exact ⟨_, _, .fault eq⟩
    | ok t =>
      cases isEof : t.isEof with
      | true => exact ⟨_, _, .eof eq isEof⟩
      | false =>
        obtain ⟨layout, text, split, -, -, -, -, taken⟩ := nextToken_ok eq
        have nonempty := List.length_pos_iff.mpr (taken isEof)
        have whole := congrArg List.length split
        simp only [List.length_append] at whole
        obtain ⟨tokens, stop, rest⟩ := ih _ (by omega) after rfl
        exact ⟨_, _, .token eq isEof rest⟩

/-- Tokens behind an offset that follow each other in the text without touching their
neighbours' characters. -/
def Ordered : Nat → List Token → Prop
  | _, [] => True
  | offset, t :: tokens =>
    offset ≤ t.span.start.offset ∧ t.span.start.offset < t.span.stop.offset ∧
      Ordered t.span.stop.offset tokens

/-- Tokens stand in the text in their order, one behind the other. -/
theorem Lexes.ordered {rules : LexicalRules} {c : Cursor} {tokens : List Token}
    {stop : Except LexError Token} (lexes : Lexes rules c tokens stop) :
    Ordered c.position.offset tokens := by
  induction lexes with
  | eof => trivial
  | fault => trivial
  | token next notEof _ ih =>
    obtain ⟨layout, text, -, -, span, place, -, taken⟩ := nextToken_ok next
    have size := byteSize_pos (taken notEof)
    rw [place] at ih
    refine ⟨?_, ?_, ih⟩
    · rw [span]
      simp
    · rw [span]
      simp only [Position.afterAll_offset]
      omega

/-- No token of a text is its end. -/
theorem Lexes.notEof {rules : LexicalRules} {c : Cursor} {tokens : List Token}
    {stop : Except LexError Token} (lexes : Lexes rules c tokens stop) :
    ∀ t ∈ tokens, t.isEof = false := by
  induction lexes with
  | eof => simp
  | fault => simp
  | token _ notEof _ ih => exact List.forall_mem_cons.mpr ⟨notEof, ih⟩

/-- The tokens of a text are closed by its end unless the lexer fails. -/
theorem Lexes.eof_of_ok {rules : LexicalRules} {c : Cursor} {tokens : List Token} {eof : Token}
    (lexes : Lexes rules c tokens (.ok eof)) : eof.isEof = true := by
  generalize same : Except.ok eof = stop at lexes
  induction lexes with
  | eof _ isEof => cases same; exact isEof
  | fault => cases same
  | token _ _ _ ih => exact ih same

/-- Asking for all tokens at once gives the same ones as asking for one after the other. -/
theorem Lexes.tokensFrom {rules : LexicalRules} {c : Cursor} {tokens : List Token}
    {stop : Except LexError Token} (lexes : Lexes rules c tokens stop) {fuel : Nat}
    (enough : c.rest.length < fuel) :
    (SqlTree.tokensFrom rules fuel c).1 = stop.map (fun eof => tokens ++ [eof]) := by
  induction lexes generalizing fuel with
  | eof next isEof =>
    obtain ⟨fuel, rfl⟩ := Nat.exists_eq_succ_of_ne_zero (by omega : fuel ≠ 0)
    simp only [SqlTree.tokensFrom, next, isEof, if_true]
    rfl
  | fault next =>
    obtain ⟨fuel, rfl⟩ := Nat.exists_eq_succ_of_ne_zero (by omega : fuel ≠ 0)
    simp only [SqlTree.tokensFrom, next]
    rfl
  | @token c after t tokens stop next notEof _ ih =>
    obtain ⟨fuel, rfl⟩ := Nat.exists_eq_succ_of_ne_zero (by omega : fuel ≠ 0)
    obtain ⟨layout, text, split, -, -, -, -, taken⟩ := nextToken_ok next
    have nonempty := List.length_pos_iff.mpr (taken notEof)
    have whole := congrArg List.length split
    simp only [List.length_append] at whole
    have rest := ih (by omega : after.rest.length < fuel)
    simp only [SqlTree.tokensFrom, next, notEof]
    simp only [Bool.false_eq_true, if_false, rest]
    cases stop <;> rfl

theorem Lexes.tokenize {rules : LexicalRules} {text : String} {tokens : List Token}
    {stop : Except LexError Token} (lexes : Lexes rules (.ofText text.toList) tokens stop) :
    SqlTree.tokenize rules text = stop.map (fun eof => tokens ++ [eof]) :=
  lexes.tokensFrom (Nat.lt_succ_self _)

/-- The tokens of a text, with the end of it. -/
theorem lexes_of_tokenize {rules : LexicalRules} {text : String} {tokens : List Token}
    (lexed : tokenize rules text = .ok tokens) :
    ∃ front eof, tokens = front ++ [eof] ∧ Lexes rules (.ofText text.toList) front (.ok eof) := by
  obtain ⟨front, stop, lexes⟩ := lexes_exists rules (.ofText text.toList)
  rw [lexes.tokenize] at lexed
  cases stop with
  | error => cases lexed
  | ok eof =>
    cases lexed
    exact ⟨front, eof, rfl, lexes⟩

/-- The tokens of a text are those that it is cut into. -/
theorem Lexes.of_tokenize {rules : LexicalRules} {text : String} {tokens : List Token} {eof : Token}
    (lexed : SqlTree.tokenize rules text = .ok (tokens ++ [eof])) :
    Lexes rules (.ofText text.toList) tokens (.ok eof) := by
  obtain ⟨front, last, split, lexes⟩ := lexes_of_tokenize lexed
  obtain ⟨rfl, same⟩ := List.append_inj' split rfl
  obtain rfl := List.head_eq_of_cons_eq same
  exact lexes

/-- The cursor of a lexer that was asked for a token `n` times, from the start of a text on. -/
def lexerAt (rules : LexicalRules) (text : List Char) : Nat → Cursor
  | 0 => .ofText text
  | n + 1 => (nextToken rules (lexerAt rules text n)).2

/-- The answer of such a lexer when it is asked once more. -/
def answer (rules : LexicalRules) (text : List Char) (n : Nat) : Except LexError Token :=
  (nextToken rules (lexerAt rules text n)).1

/-- The place behind the last character of a text. -/
def endOfText (text : List Char) : Position := Position.start.afterAll text

section

variable {rules : LexicalRules} {text : List Char} {tokens : List Token} {stop : Except LexError Token}

/-- A lexer that was asked a number of times has as many tokens less in front of it. -/
theorem Lexes.lexerAt (lexes : Lexes rules (.ofText text) tokens stop) {n : Nat}
    (within : n ≤ tokens.length) : Lexes rules (lexerAt rules text n) (tokens.drop n) stop := by
  induction n with
  | zero => exact lexes
  | succ n ih =>
    have before := ih (by omega)
    rw [List.drop_eq_getElem_cons (by omega)] at before
    cases before with
    | token next _ rest =>
      simp only [SqlTree.lexerAt, next]
      exact rest

/-- The lexer answers with the tokens of the text one after the other. -/
theorem Lexes.answer_of_lt (lexes : Lexes rules (.ofText text) tokens stop) {n : Nat}
    (within : n < tokens.length) : answer rules text n = .ok tokens[n] := by
  have before := lexes.lexerAt (Nat.le_of_lt within)
  rw [List.drop_eq_getElem_cons within] at before
  cases before with
  | token next => simp only [answer, next]

/-- Behind the last token the lexer answers with what ends the tokens. -/
theorem Lexes.answer_length (lexes : Lexes rules (.ofText text) tokens stop) :
    answer rules text tokens.length = stop := by
  have before := lexes.lexerAt (Nat.le_refl _)
  rw [List.drop_length] at before
  cases before with
  | eof next => simp only [answer, next]
  | fault next => simp only [answer, next]

end

/-- The end of the text lies behind its last character. -/
theorem Lexes.eof_stop {rules : LexicalRules} {text : List Char} {c : Cursor} {tokens : List Token}
    {eof : Token} (lexes : Lexes rules c tokens (.ok eof)) (on : c.On text) :
    eof.span.stop = endOfText text := by
  generalize same : Except.ok eof = stop at lexes
  induction lexes with
  | @eof c after t next isEof =>
    cases same
    have on' := nextToken_on rules on
    rw [next] at on'
    obtain ⟨layout, written, -, -, -, place, ends, -⟩ := nextToken_ok next
    obtain ⟨read, whole, position⟩ := on'
    rw [(ends isEof).2, List.append_nil] at whole
    rw [← place, position, whole, endOfText]
  | fault => cases same
  | token next _ _ ih =>
    have on' := nextToken_on rules on
    rw [next] at on'
    exact ih on' same

end SqlTree
