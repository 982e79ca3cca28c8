import Mathlib.Data.List.Forall2
import SqlTree.Proofs.Lexing.Cuts
import SqlTree.Proofs.Lexing.Sequence
import SqlTree.Proofs.Reading.Advance

namespace SqlTree

/-- Two tokens that are written alike. -/
structure Token.Like (t t' : Token) : Prop where
  kind : t'.kind = t.kind
  text : t'.text = t.text

namespace Token.Like

variable {t t' t'' : Token}

theorem symm (like : t.Like t') : t'.Like t := ⟨like.kind.symm, like.text.symm⟩

theorem trans (first : t.Like t') (second : t'.Like t'') : t.Like t'' :=
  ⟨second.kind.trans first.kind, second.text.trans first.text⟩

theorem isEof (like : t.Like t') : t'.isEof = t.isEof := by rw [Token.isEof, like.kind, Token.isEof]

/-- Tokens that are written alike spell the same words. -/
theorem spells (like : t.Like t') (k : Keyword) : t'.spells k = t.spells k := by
  unfold Token.spells
  rw [like.kind, like.text]

theorem isQuoted (like : t.Like t') : t'.isQuoted = t.isQuoted := by
  unfold Token.isQuoted
  rw [like.kind, like.text]

theorem keyword? (like : t.Like t') : t'.keyword? = t.keyword? := by
  unfold Token.keyword?
  rw [like.kind]

theorem isKeyword (like : t.Like t') : t'.isKeyword = t.isKeyword := by
  rw [Token.isKeyword, like.keyword?, Token.isKeyword]

theorem describe (like : t.Like t') : t'.describe = t.describe := by
  rw [Token.describe, like.isEof, like.kind, like.text, Token.describe]

end Token.Like

/-- Texts that are written alike are so in either order. -/
theorem likes_symm {tokens tokens' : List Token} (like : List.Forall₂ Token.Like tokens tokens') :
    List.Forall₂ Token.Like tokens' tokens :=
  (like.imp fun _ _ like => like.symm).flip

theorem likes_trans {tokens tokens' tokens'' : List Token}
    (first : List.Forall₂ Token.Like tokens tokens')
    (second : List.Forall₂ Token.Like tokens' tokens'') :
    List.Forall₂ Token.Like tokens tokens'' := by
  induction first generalizing tokens'' with
  | nil => exact second
  | cons like _ ih =>
    cases second with
    | cons like' rest => exact .cons (like.trans like') (ih rest)

/-- The places `a` and `b` lie as far behind `p` and `q`, within the characters `written`. -/
def Position.Moved (p q : Position) (written : List Char) (a b : Position) : Prop :=
  ∃ read, read <+: written ∧ a = p.afterAll read ∧ b = q.afterAll read

/-- The same token within the characters `written`, once counted from `p` and once from `q`. -/
structure Token.Moved (p q : Position) (written : List Char) (t t' : Token) : Prop
    extends t.Like t' where
  start : Position.Moved p q written t.span.start t'.span.start
  stop : Position.Moved p q written t.span.stop t'.span.stop

section

variable {p q a b : Position} {written : List Char}

/-- Places behind some characters are counted on from them. -/
theorem Position.Moved.behind {read : List Char}
    (moved : Position.Moved (p.afterAll read) (q.afterAll read) written a b) :
    Position.Moved p q (read ++ written) a b := by
  obtain ⟨more, less, rfl, rfl⟩ := moved
  exact ⟨read ++ more, (List.prefix_append_right_inj read).mpr less,
    (Position.afterAll_append ..).symm, (Position.afterAll_append ..).symm⟩

theorem Token.Moved.behind {read : List Char} {t t' : Token}
    (moved : Token.Moved (p.afterAll read) (q.afterAll read) written t t') :
    Token.Moved p q (read ++ written) t t' :=
  { moved with start := moved.start.behind, stop := moved.stop.behind }

end

/-- The characters `written` alone have the tokens `used`, which they had behind `p`. -/
def Piece (rules : LexicalRules) (p : Position) (written : List Char) (used : List Token) : Prop :=
  ∀ q, ∃ moved eof, Lexes rules ⟨q, written⟩ moved (.ok eof) ∧
    List.Forall₂ (Token.Moved p q written) used moved

/-- How a token and the layout before it lie in a text: they are read alike, and the token without
the layout too, wherever they stand and however much is left of what follows. The layout alone is
layout to its end. -/
structure Cut (rules : LexicalRules) (c after : Cursor) (t : Token) (layout text : List Char) :
    Prop where
  rest : c.rest = layout ++ (text ++ after.rest)
  span : t.span = ⟨c.position.afterAll layout, c.position.afterAll (layout ++ text)⟩
  place : after.position = c.position.afterAll (layout ++ text)
  written : t.text = String.ofList text
  gap : scanLayout rules.hashComments .gap layout = ⟨0, layout, []⟩
  ends : t.kind = .eof → text = [] ∧ after.rest = []
  takes : t.kind ≠ .eof → text ≠ []
  again : ∀ gap kept q, gap = layout ∨ gap = [] → kept <+: after.rest →
    nextToken rules ⟨q, gap ++ (text ++ kept)⟩ =
      (.ok ⟨t.kind, t.text, ⟨q.afterAll gap, q.afterAll (gap ++ text)⟩⟩,
        ⟨q.afterAll (gap ++ text), kept⟩)

section

variable {rules : LexicalRules} {c after : Cursor} {t eof eof' : Token}
  {used later tokens tokens' : List Token}
  {stop : Except LexError Token}

/-- Layout ends where it ended if what follows it is what may stand for that. -/
theorem scanLayout_followed {R : Char → Char → Prop} (recasing : Recasing R)
    {hash : Bool} {cs layout rest gap kept : List Char}
    (layoutScan : scanLayout hash .gap cs = ⟨0, layout, rest⟩) (gaps : gap = layout ∨ gap = [])
    (replaces : Replaces R kept rest) : scanLayout hash .gap (gap ++ kept) = ⟨0, gap, kept⟩ := by
  have closed : (scanLayout hash .gap cs).value = 0 := by rw [layoutScan]
  rcases gaps with rfl | rfl
  · have cut := scanLayout_cut recasing closed (by rwa [layoutScan] : Replaces R kept _)
    rwa [layoutScan] at cut
  · have bare := scanLayout_rest closed
    rw [layoutScan] at bare
    have cut := scanLayout_cut recasing (by rw [bare]) (by rwa [bare] : Replaces R kept _)
    rwa [bare] at cut

/-- A token is read again behind its layout, or behind none, if what follows it may stand for what
followed it. -/
theorem nextToken_followed {R : Char → Char → Prop} (keeps : rules.Keeps R) {kind : TokenKind}
    {layout text rest behind gap kept : List Char}
    (layoutScan : scanLayout rules.hashComments .gap c.rest = ⟨0, layout, rest⟩)
    (tokenScan : scanToken rules rest = ⟨.ok kind, text, behind⟩)
    (gaps : gap = layout ∨ gap = []) (replaces : Replaces R kept behind) (q : Position) :
    nextToken rules ⟨q, gap ++ (text ++ kept)⟩ =
      (.ok ⟨kind, String.ofList text, ⟨q.afterAll gap, q.afterAll (gap ++ text)⟩⟩,
        ⟨q.afterAll (gap ++ text), kept⟩) := by
  have splits := scanToken_splits rules rest
  rw [Scan.Splits, tokenScan] at splits
  -- What follows the gap begins with the token, so that there is no layout in it.
  have layoutCut := scanLayout_followed keeps.toRecasing layoutScan gaps
    (splits ▸ replaces.append keeps.toRecasing text)
  have token := scanToken_cut keeps (by rw [tokenScan] : (scanToken rules rest).value = .ok kind)
    (by rwa [tokenScan] : Replaces R kept _)
  rw [tokenScan] at token
  simp only [nextToken, layoutCut, token, Scan.followedBy, if_true, Position.afterAll_append]

/-- Each token lies in its text behind the layout before it. -/
theorem nextToken_cut (next : nextToken rules c = (.ok t, after)) :
    ∃ layout text, Cut rules c after t layout text := by
  obtain ⟨kind, layout, text, rest, behind, layoutScan, tokenScan, rfl, rfl⟩ := nextToken_scans next
  have outer : layout ++ rest = c.rest := by
    have splits := scanLayout_splits rules.hashComments .gap c.rest
    rwa [layoutScan] at splits
  have inner : text ++ behind = rest := by
    have splits := scanToken_splits rules rest
    rwa [tokenScan] at splits
  have found : (scanToken rules rest).value = .ok kind := by rw [tokenScan]
  have closed : (scanLayout rules.hashComments .gap c.rest).value = 0 := by rw [layoutScan]
  refine ⟨layout, text, ⟨?_, ?_, ?_, rfl, ?_, ?_, ?_, ?_⟩⟩
  · exact (inner ▸ outer).symm
  · simp only [Position.afterAll_append]
  · simp only [Position.afterAll_append]
  · have cut := scanLayout_cut recasing_eq closed .nil
    rwa [layoutScan, List.append_nil] at cut
  · rintro rfl
    obtain rfl := scanToken_eof found
    cases tokenScan
    exact ⟨rfl, rfl⟩
  · intro notEof
    have taken := scanToken_text_ne_nil found notEof
    rwa [tokenScan] at taken
  intro gap kept q gaps shorter
  exact nextToken_followed rules.keeps_eq layoutScan tokenScan gaps (.of_beginning shorter) q

theorem piece_nil {p : Position} : Piece rules p [] [] :=
  fun q => ⟨[], ⟨.eof, "", ⟨q, q⟩⟩, .eof rfl rfl, .nil⟩

/-- A token in front of a piece, with the layout between them or without any in front. -/
theorem Cut.piece {layout text gap written behind : List Char} (cut : Cut rules c after t layout text)
    (notEof : t.isEof = false) (piece : Piece rules after.position written used)
    (split : after.rest = written ++ behind) (gaps : gap = layout ∨ gap = []) (p : Position)
    (start : p.afterAll gap = c.position.afterAll layout) :
    Piece rules p (gap ++ (text ++ written)) (t :: used) := by
  intro q
  obtain ⟨moved, eof, lexes, forall₂⟩ := piece (q.afterAll (gap ++ text))
  have next := cut.again gap written q gaps (split ▸ List.prefix_append ..)
  have stop : c.position.afterAll (layout ++ text) = p.afterAll (gap ++ text) := by
    rw [Position.afterAll_append, Position.afterAll_append, start]
  refine ⟨_, eof, .token next notEof lexes, .cons ⟨⟨rfl, rfl⟩, ?_, ?_⟩ ?_⟩
  · rw [cut.span]
    exact ⟨gap, List.prefix_append .., start.symm, rfl⟩
  · rw [cut.span]
    exact ⟨gap ++ text, List.append_assoc gap text written ▸ List.prefix_append .., stop, rfl⟩
  · rw [cut.place, stop] at forall₂
    rw [← List.append_assoc]
    exact forall₂.imp fun _ _ moved => moved.behind

/-- The characters that tokens take, with the layout before them. -/
theorem Lexes.cut (lexes : Lexes rules c (used ++ later) stop) :
    ∃ written behind, c.rest = written ++ behind ∧
      endBehind c.position used = c.position.afterAll written ∧
      Piece rules c.position written used ∧
      Lexes rules ⟨c.position.afterAll written, behind⟩ later stop := by
  induction used generalizing c with
  | nil => exact ⟨[], c.rest, rfl, rfl, piece_nil, lexes⟩
  | cons t used ih =>
    cases lexes with
    | @token _ after _ _ _ next notEof rest =>
      obtain ⟨layout, text, cut⟩ := nextToken_cut next
      obtain ⟨written, behind, split, place, piece, lexes⟩ := ih rest
      have whole : c.position.afterAll (layout ++ (text ++ written)) =
          after.position.afterAll written := by
        rw [cut.place, ← Position.afterAll_append, List.append_assoc]
      refine ⟨layout ++ (text ++ written), behind, ?_, ?_, ?_, whole ▸ lexes⟩
      · rw [cut.rest, split]
        simp only [List.append_assoc]
      · rw [whole, ← place, endBehind_cons, cut.span, cut.place]
      · exact cut.piece notEof piece split (.inl rfl) c.position rfl

/-- The characters from the start of a token on to the end of a later one. -/
theorem Lexes.piece (lexes : Lexes rules c (t :: used ++ later) stop) :
    ∃ layout written behind, c.rest = layout ++ (written ++ behind) ∧
      t.span.start = c.position.afterAll layout ∧
      endBehind c.position (t :: used) = t.span.start.afterAll written ∧
      Piece rules t.span.start written (t :: used) := by
  cases lexes with
  | @token _ after _ _ _ next notEof rest =>
    obtain ⟨layout, text, cut⟩ := nextToken_cut next
    obtain ⟨written, behind, split, place, piece, -⟩ := rest.cut
    have start : t.span.start = c.position.afterAll layout := by rw [cut.span]
    refine ⟨layout, text ++ written, behind, ?_, start, ?_, ?_⟩
    · rw [cut.rest, split, List.append_assoc]
    · rw [endBehind_cons, start, ← Position.afterAll_append, ← List.append_assoc,
        Position.afterAll_append, ← cut.place, ← place, cut.span, cut.place]
    · exact cut.piece notEof piece split (.inr rfl) t.span.start start

/-- A piece of a text is what the text holds between the start of its first token and the end of its
last one. -/
theorem Lexes.slice {text : List Char} {before : List Token}
    (lexes : Lexes rules (.ofText text) (before ++ (t :: used ++ later)) stop) :
    ∃ written, sliceBytes text t.span.start.offset (endBehind t.span.stop used).offset = some written ∧
      endBehind t.span.stop used = t.span.start.afterAll written ∧
      Piece rules t.span.start written (t :: used) := by
  obtain ⟨read, rest, split, -, -, lexes⟩ := lexes.cut
  obtain ⟨layout, written, behind, split', start, stop, piece⟩ := lexes.piece
  rw [endBehind_cons] at stop
  refine ⟨written, ?_, stop, piece⟩
  have place : t.span.start.offset = byteSize (read ++ layout) := by
    rw [start, ← Position.afterAll_append]
    simp [Cursor.ofText, Position.start]
  have whole : text = (read ++ layout) ++ (written ++ behind) := by
    rw [List.append_assoc, ← split']
    exact split
  rw [stop, Position.afterAll_offset, place, whole, sliceBytes_append]

/-- Between the end of a token and the start of the next one there is layout at most. -/
theorem Lexes.start_behind {c : Cursor} {used later : List Token}
    (lexes : Lexes rules c (used ++ later) (.ok eof)) :
    ∃ layout, (later.headD eof).span.start = (endBehind c.position used).afterAll layout := by
  have next {c : Cursor} {later : List Token} {stop : Except LexError Token}
      (lexes : Lexes rules c later stop) (ended : stop = .ok eof) :
      ∃ layout, (later.headD eof).span.start = c.position.afterAll layout := by
    cases lexes with
    | eof found =>
      cases ended
      obtain ⟨layout, _, -, -, span, -⟩ := nextToken_ok found
      exact ⟨layout, congrArg Span.start span⟩
    | fault => cases ended
    | token found =>
      obtain ⟨layout, _, -, -, span, -⟩ := nextToken_ok found
      exact ⟨layout, congrArg Span.start span⟩
  obtain ⟨read, rest, -, place, -, lexes⟩ := lexes.cut
  rw [place]
  exact next lexes rfl

/-- The end of a text has no characters. -/
theorem Lexes.eof_text {c : Cursor} (lexes : Lexes rules c tokens (.ok eof)) : eof.text = "" := by
  generalize same : Except.ok eof = stop at lexes
  induction lexes with
  | eof next isEof =>
    cases same
    obtain ⟨_, text, -, written, -, -, empty, -⟩ := nextToken_ok next
    rw [written, (empty isEof).1]
  | fault => cases same
  | token _ _ _ ih => exact ih same

/-- All ends of texts are written alike. -/
theorem Lexes.eof_like {c c' : Cursor} {rules' : LexicalRules}
    (lexes : Lexes rules c tokens (.ok eof)) (lexes' : Lexes rules' c' tokens' (.ok eof')) :
    eof.Like eof' := by
  have isEof := lexes.eof_of_ok
  have isEof' := lexes'.eof_of_ok
  simp only [Token.isEof, beq_iff_eq] at isEof isEof'
  exact ⟨isEof'.trans isEof.symm, lexes'.eof_text.trans lexes.eof_text.symm⟩

end

end SqlTree
