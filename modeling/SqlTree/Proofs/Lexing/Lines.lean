import SqlTree.Dialect.Builtin
import SqlTree.Proofs.Lexing.Appends
import SqlTree.Proofs.Lexing.Pieces
import SqlTree.Proofs.Text.Shifted

namespace SqlTree

/-- A token of a text that stands behind some lines. -/
def Token.shiftedBy (t : Token) (lines : List Char) : Token :=
  { t with span := ⟨t.span.start.shiftedBy lines, t.span.stop.shiftedBy lines⟩ }

/-- A fault of a text that stands behind some lines. -/
def LexError.shiftedBy (e : LexError) (lines : List Char) : LexError :=
  { e with position := e.position.shiftedBy lines }

/-- A cursor in a text that stands behind some lines. -/
def Cursor.shiftedBy (c : Cursor) (lines : List Char) : Cursor :=
  { c with position := c.position.shiftedBy lines }

/-- The token or the fault that is read next in a text that stands behind some lines. -/
def shiftedAnswer (lines : List Char) : Except LexError Token → Except LexError Token
  | .ok t => .ok (t.shiftedBy lines)
  | .error e => .error (e.shiftedBy lines)

section

variable {rules : LexicalRules} {c after : Cursor} {t eof : Token} {tokens later : List Token}
  {stop : Except LexError Token} {more : List Char}

/-- Reading does not depend on the lines in front of the text but for the places it tells. -/
theorem nextToken_shiftedBy (rules : LexicalRules) (c : Cursor) (lines : List Char) :
    nextToken rules (c.shiftedBy lines) =
      (shiftedAnswer lines (nextToken rules c).1, (nextToken rules c).2.shiftedBy lines) := by
  simp only [nextToken, Cursor.shiftedBy, Position.afterAll_shiftedBy]
  by_cases whole : (scanLayout rules.hashComments .gap c.rest).value = 0
  · simp only [whole, if_true]
    cases (scanToken rules (scanLayout rules.hashComments .gap c.rest).rest).value with
    | ok kind => simp only [shiftedAnswer, Token.shiftedBy]
    | error fault => simp only [shiftedAnswer, LexError.shiftedBy]
  · simp only [whole, if_false, shiftedAnswer, LexError.shiftedBy]

/-- A text that stands behind some lines has the tokens that it has alone. -/
theorem Lexes.shiftedBy (lexes : Lexes rules c tokens stop) (lines : List Char) :
    Lexes rules (c.shiftedBy lines) (tokens.map (·.shiftedBy lines)) (shiftedAnswer lines stop) := by
  have moved {c after : Cursor} {answer : Except LexError Token}
      (next : nextToken rules c = (answer, after)) :
      nextToken rules (c.shiftedBy lines) = (shiftedAnswer lines answer, after.shiftedBy lines) := by
    rw [nextToken_shiftedBy, next]
  induction lexes with
  | eof next isEof => exact .eof (moved next) isEof
  | fault next => exact .fault (moved next)
  | token next notEof _ ih => exact .token (moved next) notEof ih

/-- How many characters of a comment have been read. -/
def LayoutState.read : LayoutState → Nat
  | .gap | .line => 0
  | .block read => read

/-- A comment that the end of the text cuts off has no more characters than were read. -/
theorem scanLayout_value_le (hash : Bool) (state : LayoutState) (cs : List Char) :
    (scanLayout hash state cs).value ≤ state.read + (scanLayout hash state cs).text.length := by
  fun_induction scanLayout hash state cs with
  | case1 => simp [LayoutState.read]
  | case2 cs ih =>
    simp only [LayoutState.read, Scan.behind, id_eq, List.length_append] at ih ⊢
    omega
  | case3 cs ih =>
    simp only [LayoutState.read, Scan.behind, id_eq, List.length_append, List.length_cons,
      List.length_nil] at ih ⊢
    omega
  | case4 c cs noLine noBlock white ih =>
    simp only [LayoutState.read, Scan.behind, id_eq, List.length_append] at ih ⊢
    omega
  | case5 c cs noLine noBlock noWhite comment ih =>
    simp only [LayoutState.read, Scan.behind, id_eq, List.length_append] at ih ⊢
    omega
  | case6 => simp [LayoutState.read]
  | case7 => simp [LayoutState.read]
  | case8 c cs ih =>
    have unread : (if c = '\n' then LayoutState.gap else .line).read = 0 := by split <;> rfl
    rw [unread] at ih
    simp only [LayoutState.read, Scan.behind, id_eq, List.length_append] at ih ⊢
    omega
  | case9 => simp [LayoutState.read]
  | case10 read cs ih =>
    simp only [LayoutState.read, Scan.behind, id_eq, List.length_append] at ih ⊢
    omega
  | case11 read c cs noEnd ih =>
    simp only [LayoutState.read, Scan.behind, id_eq, List.length_append, List.length_cons,
      List.length_nil] at ih ⊢
    omega

theorem ne_nil_of_scanToken {cs : List Char} {kind : TokenKind} (found : (scanToken rules cs).value = .ok kind)
    (notEof : kind ≠ .eof) : cs ≠ [] := by
  rintro rfl
  cases found
  exact notEof rfl

/-- A token is the same if white space is put behind the text. -/
theorem nextToken_blank {b : Char} (safe : rules.SafeAt b) (next : nextToken rules c = (.ok t, after))
    (notEof : t.isEof = false) :
    nextToken rules ⟨c.position, c.rest ++ b :: more⟩ =
      (.ok t, ⟨after.position, after.rest ++ b :: more⟩) := by
  obtain ⟨kind, _, _, rest, _, gap, scan, rfl, rfl⟩ := nextToken_scans next
  have kindNotEof : kind ≠ .eof := by simpa [Token.isEof] using notEof
  have found : (scanToken rules rest).value = .ok kind := by rw [scan]
  have left : (scanLayout rules.hashComments .gap c.rest).rest ≠ [] := by
    rw [gap]
    exact ne_nil_of_scanToken found kindNotEof
  have layout : scanLayout rules.hashComments .gap (c.rest ++ b :: more) = _ := scanLayout_blank safe.white left
  have token : scanToken rules (rest ++ b :: more) = _ := scanToken_blank safe found kindNotEof
  rw [gap] at layout
  rw [scan] at token
  simp only [nextToken, layout, token, Scan.followedBy, if_true]

/-- What is read behind some layout is what would be read if a text began behind it, be it a token or a
fault. -/
theorem nextToken_behind {p : Position} {gap : List Char}
    (layout : scanLayout rules.hashComments .gap (gap ++ more) =
      (scanLayout rules.hashComments .gap more).behind gap id) :
    nextToken rules ⟨p, gap ++ more⟩ = nextToken rules ⟨p.afterAll gap, more⟩ := by
  have within := scanLayout_value_le rules.hashComments .gap more
  simp only [LayoutState.read, Nat.zero_add] at within
  -- The part of an open comment that is read is all behind the layout.
  have opening (text : List Char) (open_ : Nat) (within : open_ ≤ text.length) :
      (gap ++ text).take ((gap ++ text).length - open_) = gap ++ text.take (text.length - open_) := by
    have sizes : (gap ++ text).length - open_ = gap.length + (text.length - open_) := by
      simp only [List.length_append]
      omega
    rw [sizes, List.take_length_add_append]
  simp only [nextToken, layout, Scan.behind, id_eq, opening _ _ within, Position.afterAll_append]

/-- What is read behind some layout is read from the start of the layout. -/
theorem Lexes.behind {p : Position} {gap : List Char}
    (layout : scanLayout rules.hashComments .gap (gap ++ more) =
      (scanLayout rules.hashComments .gap more).behind gap id)
    (lexes : Lexes rules ⟨p.afterAll gap, more⟩ tokens stop) : Lexes rules ⟨p, gap ++ more⟩ tokens stop := by
  have same : nextToken rules ⟨p, gap ++ more⟩ = _ := nextToken_behind layout
  cases lexes with
  | eof found ended => exact .eof (same.trans found) ended
  | fault found => exact .fault (same.trans found)
  | token found notEof rest => exact .token (same.trans found) notEof rest

/-- A blank in front of a text is layout. -/
theorem Lexes.blank {p : Position} (lexes : Lexes rules ⟨p.after ' ', more⟩ tokens stop) :
    Lexes rules ⟨p, ' ' :: more⟩ tokens stop :=
  have layout : scanLayout rules.hashComments .gap ([' '] ++ more) = _ := rfl
  lexes.behind layout

/-- The tokens of lines below those of a text. -/
theorem Lexes.lines (safe : rules.LineSafe) (lexes : Lexes rules c tokens (.ok eof)) {p : Position}
    (place : p = c.position.afterAll (c.rest ++ ['\n'])) (rest : Lexes rules ⟨p, more⟩ later stop) :
    Lexes rules ⟨c.position, c.rest ++ '\n' :: more⟩ (tokens ++ later) stop := by
  generalize same : Except.ok eof = ended at lexes
  induction lexes with
  | @eof c _ _ next isEof =>
    obtain ⟨gap, text, cut⟩ := nextToken_cut next
    obtain ⟨rfl, empty⟩ := cut.ends (by simpa [Token.isEof] using isEof)
    have all : c.rest = gap := by simpa [empty] using cut.rest
    have layout : scanLayout rules.hashComments .gap (c.rest ++ '\n' :: more) = _ :=
      scanLayout_ended c.rest LayoutState.noConfusion (by rw [all, cut.gap]) (by rw [all, cut.gap])
    rw [List.append_cons] at layout ⊢
    exact .behind layout (place ▸ rest)
  | fault => cases same
  | token next notEof _ ih =>
    refine .token (nextToken_blank safe next notEof) notEof (ih ?_ same)
    obtain ⟨gap, text, cut⟩ := nextToken_cut next
    rw [place, cut.place, ← Position.afterAll_append, cut.rest]
    simp only [List.append_assoc]

end

/-- Where no quote character ends a line, no quoted token is closed by the end of one. -/
theorem LexicalRules.lineSafe {rules : LexicalRules}
    (names : ∀ q ∈ rules.identifierQuotes, q.1 ≠ '\n' ∧ q.2 ≠ '\n')
    (strings : '\n' ∉ rules.stringQuotes) : rules.LineSafe where
  white := rfl
  name opening closing found := by
    obtain ⟨before, behind, split, -⟩ := List.lookup_eq_some_iff.mp found
    exact (names (opening, closing) (by rw [split]; simp)).2
  string := by simpa [LexicalRules.isStringQuote] using strings

/-- The tokens of two texts below each other are those of the first one, without its end, and those
of the second one moved down by the lines of the first; a fault of the second one is found there,
moved down likewise. -/
theorem tokenize_lines {rules : LexicalRules}
    (names : ∀ q ∈ rules.identifierQuotes, q.1 ≠ '\n' ∧ q.2 ≠ '\n')
    (strings : '\n' ∉ rules.stringQuotes) {a : String} {tokens : List Token}
    (lexed : tokenize rules a = .ok tokens) (b : String) :
    tokenize rules (a ++ "\n" ++ b) =
      match tokenize rules b with
      | .ok later =>
        .ok (tokens.filter (!·.isEof) ++ later.map (·.shiftedBy (a ++ "\n").toList))
      | .error e => .error (e.shiftedBy (a ++ "\n").toList) := by
  obtain ⟨front, eof, rfl, first⟩ := lexes_of_tokenize lexed
  obtain ⟨back, stop, second⟩ := lexes_exists rules (.ofText b.toList)
  have place : Position.start.shiftedBy (a ++ "\n").toList =
      Position.start.afterAll (a.toList ++ ['\n']) := by
    rw [String.toList_append]
    exact (Position.start_afterAll_line a.toList).symm
  have whole := first.lines (LexicalRules.lineSafe names strings) place
    (second.shiftedBy (a ++ "\n").toList)
  have text : (a ++ "\n" ++ b).toList = a.toList ++ '\n' :: b.toList := by
    simp only [String.toList_append, List.append_assoc]
    rfl
  have kept : (front ++ [eof]).filter (!·.isEof) = front := by
    have none : ∀ t ∈ front, (!t.isEof) = true := fun t member => by simp [first.notEof t member]
    rw [List.filter_append, List.filter_eq_self.mpr none]
    simp [first.eof_of_ok]
  rw [Lexes.tokenize (text ▸ whole), second.tokenize, kept]
  cases stop with
  | error e => rfl
  | ok last =>
    simp only [Except.map, shiftedAnswer, List.map_append, List.map_cons, List.map_nil,
      List.append_assoc]

/-- A comment ends with its line: the name below it is read, and so is the fault. -/
theorem tokenize_lines_comment :
    tokenize Dialect.mysql.lexical ("x # y" ++ "\n" ++ "`z`") =
        .ok [⟨.identifier "x", "x", ⟨⟨0, 1, 1⟩, ⟨1, 1, 2⟩⟩⟩,
          ⟨.identifier "z", "`z`", ⟨⟨6, 2, 1⟩, ⟨9, 2, 4⟩⟩⟩, ⟨.eof, "", ⟨⟨9, 2, 4⟩, ⟨9, 2, 4⟩⟩⟩] ∧
      tokenize Dialect.mysql.lexical ("x # y" ++ "\n" ++ " `") =
        .error ⟨.unterminatedQuotedIdentifier, ⟨7, 2, 2⟩⟩ := by
  have lexed : tokenize Dialect.mysql.lexical "x # y" =
    .ok [⟨.identifier "x", "x", ⟨⟨0, 1, 1⟩, ⟨1, 1, 2⟩⟩⟩, ⟨.eof, "", ⟨⟨5, 1, 6⟩, ⟨5, 1, 6⟩⟩⟩] := rfl
  have names : ∀ q ∈ Dialect.mysql.lexical.identifierQuotes, q.1 ≠ '\n' ∧ q.2 ≠ '\n' := by decide
  have strings : '\n' ∉ Dialect.mysql.lexical.stringQuotes := by decide
  have below := tokenize_lines names strings lexed
  constructor
  · rw [below "`z`"]
    rfl
  · rw [below " `"]
    rfl

end SqlTree
