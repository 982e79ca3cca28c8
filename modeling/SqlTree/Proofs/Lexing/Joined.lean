import SqlTree.Proofs.Lexing.Lines
import SqlTree.Proofs.Writing.Solid

namespace SqlTree

section

variable {rules : LexicalRules} {c after : Cursor} {t eof : Token} {tokens later : List Token}
  {more : List Char} {q : Position}

/-- The tokens of a text with a semicolon on the next line behind it. -/
theorem Lexes.semicolon (standard : rules.Standard) (safe : rules.LineSafe)
    {stop : Except LexError Token} (lexes : Lexes rules c tokens (.ok eof)) {p : Position}
    (place : p = c.position.afterAll (c.rest ++ ['\n']))
    (rest : Lexes rules ⟨p.after ';', more⟩ later stop) :
    Lexes rules ⟨c.position, c.rest ++ '\n' :: ';' :: more⟩
      (tokens ++ ⟨.semicolon, ";", ⟨p, p.after ';'⟩⟩ :: later) stop := by
  have layout : scanLayout rules.hashComments .gap (';' :: more) = ⟨0, [], ';' :: more⟩ :=
    scanLayout_ends (by decide) (by decide) (fun dash => absurd dash (by decide))
      (fun slash => absurd slash (by decide)) _
  have token : scanToken rules (';' :: more) = ⟨.ok .semicolon, [';'], more⟩ :=
    scanToken_symbol standard (show ';' ∉ quoteChars by decide) rfl
  have next : nextToken rules ⟨p, ';' :: more⟩ =
      (.ok ⟨.semicolon, ";", ⟨p, p.after ';'⟩⟩, ⟨p.after ';', more⟩) := by
    simp only [nextToken, layout, token, if_true]
    rfl
  exact lexes.lines safe place (.token next rfl rest)

/-- The end of a line in front of a text is layout. -/
theorem Lexes.line (safe : rules.LineSafe) (lexes : Lexes rules ⟨q.after '\n', more⟩ tokens (.ok eof)) :
    Lexes rules ⟨q, '\n' :: more⟩ tokens (.ok eof) := by
  have empty : Lexes rules ⟨q, []⟩ [] (.ok ⟨.eof, "", ⟨q, q⟩⟩) := .eof rfl rfl
  exact empty.lines safe rfl lexes

/-- The same text has the same tokens wherever it stands. -/
theorem Lexes.moved (lexes : Lexes rules c tokens (.ok eof)) (q : Position) :
    ∃ moved last, Lexes rules ⟨q, c.rest⟩ moved (.ok last) ∧
      List.Forall₂ (Token.Moved c.position q c.rest) tokens moved ∧
      Token.Moved c.position q c.rest eof last := by
  have token {c after : Cursor} {t : Token} (q : Position)
      (next : nextToken rules c = (.ok t, after)) :
      ∃ read t', read ++ after.rest = c.rest ∧ after.position = c.position.afterAll read ∧
        nextToken rules ⟨q, c.rest⟩ = (.ok t', ⟨q.afterAll read, after.rest⟩) ∧
        Token.Moved c.position q c.rest t t' := by
    obtain ⟨layout, text, cut⟩ := nextToken_cut next
    refine ⟨layout ++ text, ⟨t.kind, t.text, ⟨q.afterAll layout, q.afterAll (layout ++ text)⟩⟩, ?_, cut.place, ?_, ⟨⟨rfl, rfl⟩, ?_, ?_⟩⟩
    · rw [cut.rest, List.append_assoc]
    · rw [cut.rest]
      exact cut.again layout after.rest q (.inl rfl) (List.prefix_refl _)
    · rw [cut.span, cut.rest]
      exact ⟨layout, List.prefix_append .., rfl, rfl⟩
    · rw [cut.span, cut.rest, ← List.append_assoc]
      exact ⟨layout ++ text, List.prefix_append .., rfl, rfl⟩
  generalize same : Except.ok eof = ended at lexes
  induction lexes generalizing q with
  | eof next isEof =>
    cases same
    obtain ⟨read, eof', -, -, next', moved⟩ := token q next
    exact ⟨[], eof', .eof next' (by rw [Token.isEof, moved.kind]; exact isEof), .nil, moved⟩
  | fault => cases same
  | token next notEof _ ih =>
    obtain ⟨read, t', whole, place, next', first⟩ := token q next
    obtain ⟨moved, last, rest, likes, ending⟩ := ih (q.afterAll read) same
    rw [place] at likes ending
    rw [← whole] at first ⊢
    refine ⟨t' :: moved, last, ?_, .cons first (likes.imp fun _ _ => Token.Moved.behind), ending.behind⟩
    exact .token (whole ▸ next') (by rw [Token.isEof, first.kind]; exact notEof) rest

end

/-- Two texts with their tokens, and those of the text in which the second one follows the first one
behind a semicolon on a line of its own. -/
structure Joined (rules : LexicalRules) (a b : String) where
  front : List Token
  back : List Token
  frontEof : Token
  backEof : Token
  semicolon : Token
  moved : List Token
  eof : Token
  first : Lexes rules (.ofText a.toList) front (.ok frontEof)
  second : Lexes rules (.ofText b.toList) back (.ok backEof)
  whole : Lexes rules (.ofText (a ++ "\n;\n" ++ b).toList) (front ++ semicolon :: moved) (.ok eof)
  kind : semicolon.kind = .semicolon
  start : semicolon.span.start = Position.start.afterAll (a ++ "\n").toList
  stop : semicolon.span.stop = Position.start.afterAll (a ++ "\n;").toList
  likes : List.Forall₂ (Token.Moved .start (Position.start.afterAll (a ++ "\n;\n").toList) b.toList)
    back moved
  ending : Token.Moved .start (Position.start.afterAll (a ++ "\n;\n").toList) b.toList backEof eof

/-- Joined texts have the tokens of both, with the semicolon between them. -/
theorem joined_exists {rules : LexicalRules} (standard : rules.Standard) (safe : rules.LineSafe)
    {a b : String} {front back : List Token} {frontEof backEof : Token}
    (first : Lexes rules (.ofText a.toList) front (.ok frontEof))
    (second : Lexes rules (.ofText b.toList) back (.ok backEof)) : Nonempty (Joined rules a b) := by
  let place := Position.start.afterAll (a.toList ++ ['\n'])
  obtain ⟨moved, eof, rest, likes, ending⟩ := second.moved ((place.after ';').after '\n')
  have whole := first.semicolon standard safe (p := place) rfl (rest.line safe)
  have text : (a ++ "\n;\n" ++ b).toList = a.toList ++ '\n' :: ';' :: '\n' :: b.toList := by
    simp only [String.toList_append, List.append_assoc]
    rfl
  have behind : Position.start.afterAll (a ++ "\n;\n").toList = (place.after ';').after '\n' := by
    simp only [place, String.toList_append, Position.afterAll_append]
    rfl
  exact ⟨{
    front, back, frontEof, backEof, moved, eof, first, second
    semicolon := ⟨.semicolon, ";", ⟨place, place.after ';'⟩⟩
    whole := by rw [text]; exact whole
    kind := rfl
    start := by rw [String.toList_append]; rfl
    stop := by
      simp only [place, String.toList_append, Position.afterAll_append]
      rfl
    likes := by rw [behind]; exact likes
    ending := by rw [behind]; exact ending }⟩

end SqlTree
