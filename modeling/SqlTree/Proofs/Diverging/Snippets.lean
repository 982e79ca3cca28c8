import SqlTree.Proofs.Diverging.Chains
import SqlTree.Proofs.Diverging.Placing
import SqlTree.Proofs.Diverging.Quoting

namespace SqlTree

open Rule SqlRule

/-- No character leads back. -/
theorem Position.later_afterAll (p : Position) (read : List Char) :
    p.later (p.afterAll read) = p.afterAll read := by
  cases read with
  | nil => exact p.later_self
  | cons c read =>
    have := byteSize_pos (List.cons_ne_nil c read)
    exact later_eq_right (by rw [afterAll_offset]; omega)

namespace Diverging

variable {f : Features} {q : Diverging f}

/-- Where the second text ends, it goes on with nothing that the first one does not go on with. -/
theorem mild_of_eof (eof : (q.right.tokenAt q.spot).kind = .eof) : q.Mild where
  words k _ _ := by rw [Token.spells, eof]
  bareAlias _ := by simp [isBareAlias, eof]
  type _ := by rw [Token.typeWord?, eof]
  plainWord word _ := by rw [Token.isPlainWord, eof]

/-- The end of the second text is no mark and no word. -/
theorem clear_of_eof (parts : ¬ q.rejoins) (eof : (q.right.tokenAt q.spot).kind = .eof) {kinds : List TokenKind}
    (others : ∀ kind ∈ kinds, kind ≠ .eof) (words : List Keyword) : q.Clear kinds words q.spot where
  calm := .inr (mild_of_eof eof)
  unnamed rejoins := absurd rejoins parts
  kinds kind mem := by
    rw [eof]
    have := others kind mem
    cases kind <;> first | rfl | exact absurd rfl this
  words k _ := by rw [Token.spells, eof]

end Diverging

/-- A piece of a text, from the start of one of its tokens to the end of another one, with the tokens that
it has alone. -/
structure Cutout (rules : LexicalRules) (text piece : String) (before used behind : List Token)
    (eof : Token) where
  alone : List Token
  last : Token
  whole : Lexes rules (.ofText text.toList) (before ++ (used ++ behind)) (.ok eof)
  part : Lexes rules (.ofText piece.toList) alone (.ok last)
  nonempty : used ≠ []
  stands : part.sheet.Stands whole.sheet before.length
  likes : List.Forall₂ (Token.Moved (spanOf used).start .start piece.toList) used alone

section

variable {rules : LexicalRules} {text : String} {before used behind : List Token} {eof : Token}

/-- The piece of a text that some of its tokens take. -/
theorem Lexes.cutout (lexes : Lexes rules (.ofText text.toList) (before ++ (used ++ behind)) (.ok eof))
    (nonempty : used ≠ []) :
    ∃ piece, (spanOf used).snippet? text = some piece ∧
      Nonempty (Cutout rules text piece before used behind eof) := by
  obtain ⟨t, rest, rfl⟩ := List.exists_cons_of_ne_nil nonempty
  obtain ⟨read, more, split, -, -, later⟩ := lexes.cut
  obtain ⟨layout, written, trail, split', start, stop, piece⟩ := later.piece
  obtain ⟨part, rfl⟩ : ∃ part : String, part.toList = written := ⟨.ofList written, String.toList_ofList ..⟩
  obtain ⟨alone, last, again, likes⟩ := piece .start
  have place : t.span.start = Position.start.afterAll (read ++ layout) := by
    rw [start, Position.afterAll_append]
    rfl
  have cut : text.toList = (read ++ layout) ++ (part.toList ++ trail) := by
    rw [List.append_assoc, ← split']
    exact split
  refine ⟨part, ?_, ⟨alone, last, lexes, again, nonempty, ?_, likes⟩⟩
  · rw [endBehind_cons] at stop
    have ends : (spanOf (t :: rest)).stop = t.span.start.afterAll part.toList := stop
    have offset : t.span.start.offset = byteSize (read ++ layout) := by
      rw [place, Position.afterAll_offset, Position.start, Nat.zero_add]
    rw [Span.snippet?, ends, Position.afterAll_offset, spanOf, offset, cut, sliceBytes_append, Option.map_some,
      String.ofList_toList]
  · exact lexes.stands again cut rfl (place ▸ likes.flip.imp fun _ _ => Token.Moved.symm)

namespace Cutout

variable {piece : String} (c : Cutout rules text piece before used behind eof) {i j : Nat}

/-- Where the piece starts. -/
def start (_ : Cutout rules text piece before used behind eof) : Position := (spanOf used).start

theorem length : c.part.sheet.length = used.length := c.likes.length_eq.symm

/-- A piece lies within its text. -/
theorem within : before.length + used.length ≤ c.whole.sheet.length := c.length ▸ c.stands.within

include c in
/-- A piece has at least one token. -/
theorem used_pos : 0 < used.length := List.length_pos_iff.mpr c.nonempty

/-- The tokens of a piece are those of the text, moved to its beginning. -/
theorem moved (lt : i < used.length) : Token.Moved c.start .start piece.toList
    (c.whole.sheet.tokenAt (before.length + i)) (c.part.sheet.tokenAt i) := by
  have lt' : i < c.alone.length := c.likes.length_eq ▸ lt
  have here : c.whole.sheet.tokenAt (before.length + i) = used[i] := by
    simp [Sheet.tokenAt, Lexes.sheet, List.getD_eq_getElem?_getD, List.getElem?_append_right,
      List.getElem?_append_left, lt]
  rw [here, c.part.sheet.tokenAt_of_lt lt']
  exact c.likes.get lt lt'

/-- The first token of a piece starts where the piece does. -/
theorem startAt_zero : c.whole.sheet.startAt before.length = c.start := by
  obtain ⟨t, rest, same⟩ := List.exists_cons_of_ne_nil c.nonempty
  subst same
  simp [Sheet.startAt, Sheet.tokenAt, Lexes.sheet, List.getD_eq_getElem?_getD, start, spanOf]

/-- A token of a piece starts as far behind its beginning as in the text. -/
theorem since_startAt (lt : i < used.length) :
    c.start.since (c.whole.sheet.startAt (before.length + i)) = c.part.sheet.startAt i := by
  obtain ⟨read, -, place, place'⟩ := (c.moved lt).start
  rw [Sheet.startAt, Sheet.startAt, place, place', Position.since_afterAll]

/-- The end of a token of the piece, in the whole text and alone. -/
theorem stopAt_moved (lt : i < used.length) : ∃ read,
    c.whole.sheet.stopAt (before.length + (i + 1)) = c.start.afterAll read ∧
      c.part.sheet.stopAt (i + 1) = Position.start.afterAll read := by
  obtain ⟨read, -, place, place'⟩ := (c.moved lt).stop
  have below : before.length + i < c.whole.sheet.length := Nat.lt_of_lt_of_le (Nat.add_lt_add_left lt _) c.within
  refine ⟨read, ?_, ?_⟩
  · rw [← Nat.add_assoc, c.whole.sheet.stopAt_succ below, place]
  · rw [c.part.sheet.stopAt_succ (c.length ▸ lt), place']

/-- Behind its tokens there is the end of the piece. -/
theorem eof_kind : (c.part.sheet.tokenAt used.length).kind = .eof := by
  rw [← c.length, Sheet.tokenAt_length]
  exact beq_iff_eq.mp c.part.eof_of_ok

/-- Nothing goes on where the piece ends. -/
theorem closes (f : Features) : (c.part.sheet.tokenAt used.length).Closes f :=
  Token.closes_of_kind (.inr c.eof_kind)

/-- What is reached behind a place of the piece, is as far behind it in the piece alone. -/
theorem later_moved {p : Position} (hi : before.length + i ≤ c.whole.sheet.length)
    (place : c.start.since (c.whole.sheet.startAt (before.length + i)) = p) (le : j ≤ used.length) :
    c.start.since ((c.whole.sheet.stopAt (before.length + j)).later (c.whole.sheet.startAt (before.length + i))) =
      (c.part.sheet.stopAt j).later p := by
  have hj : before.length + j ≤ c.whole.sheet.length := Nat.le_trans (Nat.add_le_add_left le _) c.within
  have first : c.start.offset ≤ (c.whole.sheet.startAt (before.length + i)).offset := by
    rw [← c.startAt_zero]
    rcases Nat.eq_zero_or_pos i with rfl | pos
    · exact Nat.le_refl _
    · exact Nat.le_of_lt (c.whole.sheet.startAt_lt (Nat.lt_add_of_pos_right pos) hi)
  have offset : p.offset = (c.whole.sheet.startAt (before.length + i)).offset - c.start.offset :=
    congrArg Position.offset place.symm
  rw [c.whole.later_eq hi hj]
  rcases j with _ | j
  · rw [if_neg (by omega), place, show c.part.sheet.stopAt 0 = .start from rfl]
    rcases Nat.eq_zero_or_pos i with rfl | pos
    · rw [← place, Nat.add_zero, c.startAt_zero, Position.since_self, Position.later_self]
    · have further := c.whole.sheet.startAt_lt (Nat.lt_add_of_pos_right pos) hi
      rw [c.startAt_zero] at further
      exact (Position.later_eq_right (by rw [offset]; exact Nat.sub_pos_of_lt further)).symm
  · obtain ⟨read, stop, stop'⟩ := c.stopAt_moved le
    have size : (c.start.afterAll read).offset = c.start.offset + byteSize read := Position.afterAll_offset ..
    have size' : (Position.start.afterAll read).offset = byteSize read := by
      rw [Position.afterAll_offset, Position.start, Nat.zero_add]
    rw [stop']
    split
    · rename_i lt
      have further := c.whole.sheet.startAt_lt_stopAt lt hj
      rw [stop, size] at further
      rw [stop, Position.since_afterAll, Position.later_of_lt (by omega)]
    · rename_i notLt
      rw [place]
      rcases Nat.lt_or_eq_of_le (Nat.le_of_not_lt notLt) with lt | same
      · have further := Nat.lt_of_le_of_lt (c.whole.sheet.stopAt_le_startAt hj) (c.whole.sheet.startAt_lt lt hi)
        rw [stop, size] at further
        exact (Position.later_eq_right (by omega)).symm
      · obtain ⟨layout, eq⟩ := c.whole.startAt_eq (before.length + i)
        rw [← same, stop, ← Position.afterAll_append] at eq
        rw [← place, ← same, eq, Position.since_afterAll, Position.afterAll_append, Position.later_afterAll]

end Cutout

end

section

variable {d : Dialect} {text piece : String} {before used behind : List Token} {eof : Token}

/-- A text from a token on, and a piece of it that begins with this token and is followed by nothing. -/
def Cutout.diverging (c : Cutout d.lexical text piece before used behind eof) (builtin : d ∈ Dialect.builtin)
    (count : Nat) : Diverging d.features where
  left := c.whole.sheet.drop before.length
  right := c.part.sheet
  spot := used.length
  rejoins := False
  value := ""
  ahead := 0
  behind := count
  spot_le := by
    have := c.within
    rw [Sheet.drop_length]
    omega
  spot_le_right := Nat.le_of_eq c.length.symm
  isEof := c.whole.eof_of_ok
  isEof_right := c.part.eof_of_ok
  like i clean := by
    rw [Sheet.drop_tokenAt]
    exact (c.moved (clean.resolve_right fun h => h.1)).toLike
  length := False.elim
  lt := False.elim
  named := False.elim
  kind := False.elim
  isQuoted := False.elim
  unlike := False.elim
  ends := (c.closes d.features).ends
  casts _ _ _ := (c.closes d.features).type _
  written i j lt _ alike := by
    have le : j ≤ c.part.sheet.length := c.length ▸ alike.resolve_right fun h => h.1
    rw [Sheet.drop_written]
    exact (c.stands.written i j lt le).symm
  telling i := by
    rw [Sheet.drop_tokenAt]
    exact c.whole.telling builtin _
  place := c.start.since
  place' := id
  placeless := False.elim
  shown_placed _ := rfl
  start_placed i _ inside := by
    rw [Sheet.drop_startAt]
    exact c.since_startAt (inside.resolve_right id)
  stop_placed i hi p place j _ le := by
    rw [Sheet.drop_startAt] at place ⊢
    rw [Sheet.drop_stopAt]
    have within : before.length + i ≤ c.whole.sheet.length := by
      have := c.within
      rw [Sheet.drop_length] at hi
      omega
    exact c.later_moved within place (le.resolve_right id)

/-- Where a rule has read some tokens of a text, the piece that they take is cut out. -/
theorem Tape.On.cutout {tokens : List Token} {depth : Nat} {s after : Tape}
    (on : s.On ⟨text.toList, tokens, .ok eof, depth⟩) (moves : s.Moves used after) (nonempty : used ≠ [])
    (lexes : Lexes d.lexical (.ofText text.toList) tokens (.ok eof)) :
    ∃ before behind piece, ∃ c : Cutout d.lexical text piece before used behind eof,
      (spanOf used).snippet? text = some piece ∧ s.calm.At c.whole.sheet before.length ∧
        after.calm.At c.whole.sheet (before.length + used.length) := by
  obtain ⟨before, split, lastEnd⟩ := on.along.place
  rw [moves.tokens] at split
  subst split
  obtain ⟨piece, snippet, ⟨c⟩⟩ := lexes.cutout nonempty
  have within : before.length + used.length ≤ (before ++ (used ++ after.tokens)).length := by
    simp only [List.length_append]
    omega
  refine ⟨before, after.tokens, piece, c, snippet, ?_, ?_⟩
  · refine ⟨⟨on.text, on.stop, rfl⟩, Nat.le_trans (Nat.le_add_right ..) within, ?_, ?_⟩
    · simp [calm, Lexes.sheet, moves.tokens]
    · simp [calm, Lexes.sheet, Sheet.stopAt, lastEnd]
  · refine ⟨⟨moves.text.trans on.text, moves.stop.trans on.stop, rfl⟩, within, ?_, ?_⟩
    · simp [calm, Lexes.sheet, ← List.append_assoc]
    · rw [← List.length_append]
      simp [calm, Lexes.sheet, Sheet.stopAt, moves.lastEnd, lastEnd, ← endBehind_append, ← List.append_assoc]

namespace Cutout

variable (c : Cutout d.lexical text piece before used behind eof) (builtin : d ∈ Dialect.builtin) {s : Tape}

/-- A run over the text that comes to the first token of the piece is at the start of what both texts have.
-/
theorem at_start (here : s.At c.whole.sheet before.length) (count : Nat) :
    s.At (c.diverging builtin count).left 0 := by
  refine (c.whole.sheet.at_drop ?_).mpr here
  exact here.within

/-- A run that has consumed the tokens of a piece is where both texts part. -/
theorem at_spot (there : s.At c.whole.sheet (before.length + used.length)) (count : Nat) :
    s.At (c.diverging builtin count).left (c.diverging builtin count).spot :=
  (c.whole.sheet.at_drop (Nat.le_trans (Nat.le_add_right ..) there.within)).mpr there

/-- Behind its tokens a piece ends. -/
theorem isEof (count : Nat) :
    ((c.diverging builtin count).right.tokenAt (c.diverging builtin count).spot).kind = .eof :=
  c.eof_kind

/-- What a rule gives in the piece makes up the model of the piece. -/
theorem parse {α : Type} [Visible α] {kind : ModelKind} {rule : SqlRule α} {g : α → Model} {v : α} {count : Nat}
    (supported : d.supports kind) (entered : entry d.features kind = do return g (← rule))
    (commutes : ∀ lens v, Visible.through lens (g v) = g (Visible.through lens v))
    (found : rule.Succeeds (sqlLevels d.features maxNesting) (.ofText piece.toList c.alone (.ok c.last))
      fun v' after => after.At c.part.sheet used.length ∧ (c.diverging builtin count).Quoted v v') :
    d.parse kind piece = .ok ((g v).through (.placing c.start.since fun n => n - count)) := by
  obtain ⟨v', after, read, there, quoted⟩ := found
  have near : after.NearEnd := (there.nearEnd_iff rfl).mpr (.inl c.length.symm)
  have shown : (c.diverging builtin count).shown = .placing c.start.since fun n => n - count :=
    (c.diverging builtin count).shown_of_not id
  have seen : (g v').through (c.diverging builtin count).seen = g v' :=
    Model.through_self ⟨fun _ => rfl, fun _ => rfl⟩ fun _ _ => rfl
  have same : (g v).through (c.diverging builtin count).shown = g v' := by
    refine Eq.trans ?_ seen
    exact (commutes _ v).trans ((congrArg g quoted).trans (commutes _ v').symm)
  rw [shown] at same
  refine same ▸ (Dialect.parse_iff supported c.part).mpr ⟨after, ?_, near⟩
  rw [entered]
  exact read_map_iff.mpr ⟨v', read, rfl⟩

variable {after : Tape} {limit : Nat} (here : s.calm.At c.whole.sheet before.length)
  (there : after.calm.At c.whole.sheet (before.length + used.length))

include builtin here there

/-- An expression that a run has read is parsed from its own text. -/
theorem parse_expression {e : Expr} {power : Nat} {tokens : List Token} (deep : limit < maxNesting)
    (along : s.Along tokens) (chain : Chain d.features (sqlLevels d.features limit) power s e after) :
    d.parse .expression piece =
      .ok ((Model.expression e).through (.placing c.start.since fun n => n - s.params)) := by
  have supported : ∀ d ∈ Dialect.builtin, d.supports .expression := by decide
  have chain : Chain d.features (sqlLevels d.features 127) power s.calm e after.calm :=
    chain.calm (Nat.le_of_lt_succ deep)
  have along : s.calm.Along tokens := ⟨along.ordered, along.notEof, along.place, along.eof⟩
  let q := c.diverging builtin s.params
  have whole : (expressionBody d.features 0).Succeeds (sqlLevels d.features 127)
      (.ofText piece.toList c.alone (.ok c.last)) fun e' after' =>
        after'.At c.part.sheet used.length ∧ q.Quoted e e' :=
    Diverging.chain_whole id along (c.at_start builtin here _) c.used_pos chain (c.at_spot builtin there _)
      c.part.at_start (Nat.zero_add _)
  exact c.parse builtin (supported d builtin) rfl (fun _ _ => rfl) (succeeds_call whole)

/-- A query that a run has read is parsed from its own text. -/
theorem parse_select {query : SelectStatement} (deep : limit < maxNesting)
    (read : (queryBody d.features).read (sqlLevels d.features limit) s = (.ok query, after)) :
    d.parse .select piece =
      .ok ((Model.select query).through (.placing c.start.since fun n => n - s.params)) := by
  have supported : d.supports .select := Dialect.builtin_supports_select builtin
  let q := c.diverging builtin s.params
  have calmly : (queryBody d.features).read (sqlLevels d.features 127) s.calm = (.ok query, after.calm) :=
    (queryBody_blames _).plain.reads (Nat.le_of_lt_succ deep) read
  have follows : q.Follows 127 True 0 (queryBody d.features) (queryBody d.features) q.Clean
      fun _ => q.Clear [.comma] queryWords :=
    Diverging.queryBody_follows (q.callsKeep 127)
  have ends : q.Clear [.comma] queryWords q.spot := Diverging.clear_of_eof id (c.isEof builtin _) (by simp) _
  have body := follows.upTo (c.at_start builtin here _) calmly (c.at_spot builtin there _) ends
    c.part.at_start (Nat.zero_add _)
  exact c.parse builtin supported rfl (fun _ _ => rfl)
    (succeeds_call (body.mono fun _ _ ⟨ends, _, quoted⟩ => ⟨ends, quoted⟩))

/-- A statement that a run has read is parsed from its own text, if what stands behind it closes it. -/
theorem parse_statement {st : Statement} {t : Token} (shown : after.peek = .ok t)
    (closing : t.kind.isClosing = true)
    (read : (statement d.features).read (sqlLevels d.features maxNesting) s.calm = (.ok st, after.calm)) :
    d.parse .statement piece =
      .ok ((Model.statement st).through (.placing c.start.since fun n => n - s.params)) := by
  let q := c.diverging builtin s.params
  have place : after.calm.At q.left q.spot := c.at_spot builtin there _
  have follows : q.Follows (126 + 2) True 0 (statement d.features) (statement d.features) q.Clean
      fun _ => q.EndsStatement := by
    refine Diverging.statement_follows (Dialect.telling_of_builtin builtin).2
      (Dialect.autoIncrement_not_type builtin) ?_
    intro i k quoted
    rw [show q.left.tokenAt i = _ from Sheet.drop_tokenAt _] at quoted ⊢
    exact c.whole.quoted_not_spells builtin _ k quoted
  have ends : q.EndsStatement q.spot := by
    refine ⟨Diverging.clear_of_eof id (c.isEof builtin _) (by simp) _, ?_, ?_⟩
    · have same : after.calm.peek = .ok t := shown
      rw [place.peek] at same
      rw [Except.ok.inj same]
      exact closing
    · rw [show (q.right.tokenAt q.spot).kind = .eof from c.isEof builtin _]
      rfl
  have whole := follows.upTo (c.at_start builtin here _) read place ends c.part.at_start (Nat.zero_add _)
  exact c.parse builtin (Dialect.builtin_supports builtin).1 rfl (fun _ _ => rfl)
    (whole.mono fun _ _ ⟨ends, _, quoted⟩ => ⟨ends, quoted⟩)

end Cutout

end

section

variable {f : Features} {page : Page} {s : Tape}

/-- Somewhere on its way over a page a script has come to a statement, and behind it to what closes it. -/
structure Statement.ReadOn (f : Features) (page : Page) (used : List Token) (st : Statement) : Prop where
  nonempty : used ≠ []
  span : st.span = spanOf used
  read : ∃ s after : Tape, ∃ t, s.On page ∧ s.Moves used after ∧
    Counted s.params (.ofStatement st) after.params ∧
    (statement f).read (sqlLevels f page.depth) s.calm = (.ok st, after.calm) ∧
    after.peek = .ok t ∧ t.kind.isClosing = true

theorem Tape.On.moves {used : List Token} {after : Tape} (on : s.On page) (moves : s.Moves used after) :
    after.On page :=
  ⟨on.along.moves moves, moves.text.trans on.text, moves.stop.trans on.stop⟩

/-- A step of a script reads one more statement at most. -/
theorem scriptStep_reads (on : s.On page) (statements : List Statement) :
    (scriptStep f statements).Yields (sqlLevels f page.depth) s fun next after => after.On page ∧
      ∀ st ∈ next.getD statements, st ∈ statements ∨ ∃ used, st.ReadOn f page used := by
  simp only [scriptStep, yields_bind, yields_check, yields_ite, yields_pure]
  refine (Lays.refl page.depth on.along).part semicolons_skips fun _ mid more _ row => ?_
  have on := on.moves row.moves
  intro _ _
  split
  · exact ⟨on, fun st mem => .inl mem⟩
  intro st after tried
  have wide : Always f page.tokens page.depth (attempt (statement f)) (Wide Statement.span) :=
    always_orElse steady_wide statement_wide fun _ => always_fail _
  obtain ⟨used, nonempty, moves, span⟩ := wide mid on.along st after tried
  obtain ⟨_, -, lays⟩ := (statement_reads (callsAt f page.tokens page.depth)).attempt mid on.along st after tried
  have counted := countedAll_singleton.mp lays.counted
  have calmly := (statement_blames f).attempt.plain.reads (Nat.le_refl _) tried
  rw [attempt_read_iff rfl] at calmly
  have on' := on.moves moves
  have found {t : Token} (peek : after.peek = .ok t) (closing : t.kind.isClosing = true) :
      ∀ st' ∈ st :: statements, st' ∈ statements ∨ ∃ used, st'.ReadOn f page used := by
    intro st' mem
    rcases List.mem_cons.mp mem with rfl | mem
    · exact .inr ⟨used, nonempty, span, mid, after, t, on, moves, counted, calmly, peek, closing⟩
    · exact .inl mem
  intro t peek
  split
  · rename_i isEof
    exact ⟨on', found peek (TokenKind.isClosing_of_sameKind isEof rfl)⟩
  · simp only [expect, yields_bind, yields_check, yields_ite]
    intro t peek
    split
    · rename_i semicolon
      obtain ⟨-, moves'⟩ := on'.along.bump peek (TokenKind.sameKind_eof semicolon rfl)
      rw [yields_bump]
      exact fun _ _ => ⟨on'.moves moves', found peek (TokenKind.isClosing_of_sameKind semicolon rfl)⟩
    · exact (yields_failAny _).mpr trivial

/-- Each statement of a script was read somewhere on the page. -/
theorem script_reads (on : s.On page) : (script f).Yields (sqlLevels f page.depth) s fun value _ =>
    ∀ st ∈ value.statements, ∃ used, st.ReadOn f page used := by
  simp only [script_eq, yields_bind, yields_start, yields_spanFrom, yields_pure, List.mem_reverse]
  intro _ _
  refine (yields_loop_of_kept (fun statements after => after.On page ∧
    ∀ st ∈ statements, ∃ used, st.ReadOn f page used) (sqlLevels_forward f _) ⟨on, by simp⟩ ?_).mono
      fun _ _ kept => kept.2
  rintro statements mid ⟨on, read⟩ next after step
  obtain ⟨on', found⟩ := scriptStep_reads on statements next after step
  exact ⟨on', fun st mem => (found st mem).elim (read st) id⟩

end

section

variable {d : Dialect} {kind : ModelKind} {text : String} {m : Model}

/-- The column that a reserved word stands for, where it is all of the value of a pragma. -/
def Node.IsPragmaKeyword (rules : LexicalRules) (root : Node) (e : Expr) : Prop :=
  ∃ i, root.IsPragmaWord (.expr e) i ∧ i.quoted = false ∧ (rules.keywords.classify? i.value).isSome = true

/-- A reserved word that is a column is the value of a pragma. -/
theorem Dialect.isPragmaKeyword_of_word (parsed : d.parse kind text = .ok m) {tokens : List Token} {eof t : Token}
    (lexes : Lexes d.lexical (.ofText text.toList) tokens (.ok eof)) (mem : t ∈ tokens) (word : t.isKeyword = true)
    (within : m.node.Within (.expr ⟨.column none ⟨t.text, false, t.span⟩, t.span⟩)) :
    m.node.IsPragmaKeyword d.lexical ⟨.column none ⟨t.text, false, t.span⟩, t.span⟩ := by
  obtain ⟨k, reserved⟩ := Option.isSome_iff_exists.mp word
  obtain ⟨-, classified⟩ := lexes.classify?_keyword mem (Token.kind_of_keyword? reserved)
  have isSome : (d.lexical.keywords.classify? t.text).isSome = true := by rw [classified]; rfl
  rcases Dialect.names_read parsed lexes within List.mem_cons_self with ⟨-, u, memU, named, read⟩ |
    ⟨⟨f, span, isCall, -⟩, -⟩ | ⟨isPragma, -⟩
  · have memU := lexes.mem_front memU (by rw [Token.isEof, named]; rfl)
    obtain ⟨same, -, free⟩ := lexes.bare_identifier memU named (congrArg Ident.quoted read).symm
    rw [same, classified] at free
    cases free
  · cases isCall
  · exact ⟨_, isPragma, rfl, isSome⟩

/-- A statement of a script, or a query or an expression anywhere in a model, but for the column that a reserved
word stands for as the value of a pragma; and as what it is parsed. -/
inductive Model.Piece (rules : LexicalRules) (m : Model) : ModelKind → Model → Prop
  | statement {script st} : m = .script script → st ∈ script.statements → Piece rules m .statement (.statement st)
  | select {s} : m.node.Within (.select s) → Piece rules m .select (.select s)
  | expression {e} : m.node.Within (.expr e) → ¬ m.node.IsPragmaKeyword rules e →
      Piece rules m .expression (.expression e)

/-- A piece of a model lies within it. -/
theorem Model.Piece.within {rules : LexicalRules} {part : Model} (piece : m.Piece rules kind part) :
    m.node.Within part.node := by
  cases piece with
  | statement isScript mem =>
    subst isScript
    exact .part .root (by simpa [Node.parts, Node.fields, Model.node] using ⟨_, mem, rfl⟩)
  | select within => exact within
  | expression within => exact within

/-- The placeholders of a part of a model have the numbers on from those that start before it. -/
theorem Model.placed_congr {root : Node} {part : Model} {q p' q' : Nat} (counted : Counted 0 root q)
    (within : root.Within part.node) (own : Counted p' part.node q') (place : Position → Position) :
    part.through (.placing place fun n => n - p') =
      part.through (.placing place fun n => n - root.marksBefore part.node.span.start) := by
  refine Model.through_congr rfl rfl (by simp [Lens.placing]) fun k mem => ?_
  obtain ⟨_, again⟩ := counted.preceding within
  have same := own.same_start again (List.ne_nil_of_mem mem)
  rw [Nat.zero_add] at same
  rw [same]

/-- A script was read as one. -/
theorem Dialect.script_statements {value : Script} (parsed : d.parse kind text = .ok (.script value))
    {tokens : List Token} {eof : Token} (lexes : Lexes d.lexical (.ofText text.toList) tokens (.ok eof)) :
    ∀ st ∈ value.statements, ∃ used, st.ReadOn d.features ⟨text.toList, tokens, .ok eof, maxNesting⟩ used := by
  have supported : d.supports kind := Dialect.supports_of_parse parsed
  obtain ⟨mid, read, -⟩ := (Dialect.parse_iff supported lexes).mp parsed
  cases kind <;> obtain ⟨_, inner, same⟩ := read_map_iff.mp read <;> cases same
  exact script_reads ⟨lexes.along, rfl, rfl⟩ value mid inner

/-- A piece of a model is parsed from its own text alone as it is in the model: its places are counted from its
start on, and the numbers of its placeholders behind those that precede it. -/
theorem Dialect.parse_snippet (builtin : d ∈ Dialect.builtin) (parsed : d.parse kind text = .ok m)
    {kind' : ModelKind} {part : Model} (piece : m.Piece d.lexical kind' part) :
    ∃ snippet, part.node.span.snippet? text = some snippet ∧
      d.parse kind' snippet = .ok (part.through (.placing part.node.span.start.since fun n =>
        n - m.node.marksBefore part.node.span.start)) := by
  obtain ⟨tokens, eof, covering⟩ := d.parsedOver parsed
  obtain ⟨_, _, same, lexes⟩ := lexes_of_tokenize covering.tokenized
  obtain ⟨rfl, ⟨⟩⟩ := List.append_inj' same rfl
  have within := piece.within
  obtain ⟨_, counted⟩ : ∃ q, Counted 0 m.node q := by
    refine (d.counted parsed).resolve_right ?_
    rintro ⟨span, rfl⟩
    cases piece with
    | statement isScript mem => cases isScript; cases mem
    | select within | expression within => cases within.eq_root rfl
  have again {used before behind : List Token} {snippet : String} {p q : Nat}
      (c : Cutout d.lexical text snippet before used behind eof) (span : part.node.span = spanOf used)
      (found : (spanOf used).snippet? text = some snippet) (own : Counted p part.node q)
      (parsed : d.parse kind' snippet = .ok (part.through (.placing c.start.since fun n => n - p))) :
      ∃ snippet, part.node.span.snippet? text = some snippet ∧
        d.parse kind' snippet = .ok (part.through (.placing part.node.span.start.since fun n =>
          n - m.node.marksBefore part.node.span.start)) := by
    have start : c.start = part.node.span.start := (congrArg Span.start span).symm
    rw [Model.placed_congr counted within own, start] at parsed
    exact ⟨snippet, span ▸ found, parsed⟩
  cases piece with
  | statement isScript mem =>
    subst isScript
    obtain ⟨used, nonempty, span, s, after, t, on, moves, own, read, peek, closing⟩ :=
      Dialect.script_statements parsed lexes _ mem
    obtain ⟨before, behind, snippet, c, found, here, there⟩ := on.cutout moves nonempty lexes
    exact again c (by rw [← span]; cases ‹Statement› <;> rfl) found own
      (c.parse_statement builtin here there peek closing read)
  | select within =>
    obtain ⟨_, used, _, -, covers⟩ := covering.covers within nofun
    cases covers with
    | intro nonempty span origin =>
      obtain ⟨limit, deep, s, after, on, moves, own, read⟩ := origin
      obtain ⟨before, behind, snippet, c, found, here, there⟩ := on.cutout moves nonempty lexes
      exact again c span found own (c.parse_select builtin here there deep read)
  | expression within other =>
    obtain ⟨front, used, rest, split, covers⟩ := covering.covers within nofun
    cases covers with
    | intro nonempty span origin =>
      cases origin with
      | chain deep on moves chain own =>
        obtain ⟨before, behind, snippet, c, found, here, there⟩ := on.cutout moves nonempty lexes
        exact again c span found own (c.parse_expression builtin here there deep on.along chain)
      | word isWord =>
        exact absurd (Dialect.isPragmaKeyword_of_word parsed lexes (by simp [split]) isWord within) other

end

/-- A sum of a placeholder, the second one of its text, and a column. -/
def secondMark : Expr :=
  let mark : Expr := ⟨.parameter none 2, ⟨⟨11, 2, 2⟩, ⟨12, 2, 3⟩⟩⟩
  let name : Span := ⟨⟨13, 2, 4⟩, ⟨14, 2, 5⟩⟩
  ⟨.binary mark .add ⟨.column none ⟨"b", false, name⟩, name⟩, ⟨⟨11, 2, 2⟩, ⟨14, 2, 5⟩⟩⟩

/-- The model of a query for a placeholder and for a sum on a line of its own. -/
def markedLines : Model :=
  let mark : Expr := ⟨.parameter none 1, ⟨⟨7, 1, 8⟩, ⟨8, 1, 9⟩⟩⟩
  .select ⟨false, [⟨mark, none, mark.span⟩, ⟨secondMark, none, secondMark.span⟩], [], none, [], none, [], none,
    ⟨⟨0, 1, 1⟩, ⟨14, 2, 5⟩⟩⟩

/-- The numbers, the name and the places in such a model, which its shape leaves open. -/
def markedParts : AnalysisOutcome → Option (Nat × Nat × String × List Span)
  | .ok (.select ⟨false, [⟨⟨.parameter none n, a⟩, none, a'⟩,
      ⟨⟨.binary ⟨.parameter none n', b⟩ .add ⟨.column none ⟨x, false, c⟩, c'⟩, d⟩, none, d'⟩],
      [], none, [], none, [], none, e⟩) => some (n, n', x, [a, a', b, c, c', d, d', e])
  | _ => none

theorem Dialect.sqlite_parse_marked : Dialect.sqlite.parse .select "SELECT ?,\n ?+b" = .ok markedLines := by
  have parts : markedParts (Dialect.sqlite.parse .select "SELECT ?,\n ?+b") =
      some (1, 2, "b", [⟨⟨7, 1, 8⟩, ⟨8, 1, 9⟩⟩, ⟨⟨7, 1, 8⟩, ⟨8, 1, 9⟩⟩, ⟨⟨11, 2, 2⟩, ⟨12, 2, 3⟩⟩,
        ⟨⟨13, 2, 4⟩, ⟨14, 2, 5⟩⟩, ⟨⟨13, 2, 4⟩, ⟨14, 2, 5⟩⟩, ⟨⟨11, 2, 2⟩, ⟨14, 2, 5⟩⟩,
        ⟨⟨11, 2, 2⟩, ⟨14, 2, 5⟩⟩, ⟨⟨0, 1, 1⟩, ⟨14, 2, 5⟩⟩]) := by
    decide +kernel
  unfold markedParts at parts
  split at parts
  · next read =>
    cases parts
    exact read
  · cases parts

/-- The second placeholder of a query is the first one of an expression in it. -/
theorem Dialect.sqlite_mark_alone : Dialect.sqlite ∈ Dialect.builtin ∧
    Dialect.sqlite.parse .select "SELECT ?,\n ?+b" = .ok markedLines ∧
    markedLines.Piece Dialect.sqlite.lexical .expression (.expression secondMark) ∧
    Dialect.sqlite.parse .expression "?+b" =
      .ok (.expression ⟨.binary ⟨.parameter none 1, ⟨⟨0, 1, 1⟩, ⟨1, 1, 2⟩⟩⟩ .add
        ⟨.column none ⟨"b", false, ⟨⟨2, 1, 3⟩, ⟨3, 1, 4⟩⟩⟩, ⟨⟨2, 1, 3⟩, ⟨3, 1, 4⟩⟩⟩,
        ⟨⟨0, 1, 1⟩, ⟨3, 1, 4⟩⟩⟩) := by
  have builtin : Dialect.sqlite ∈ Dialect.builtin := by decide
  have parsed := Dialect.sqlite_parse_marked
  have within : markedLines.node.Within (.expr secondMark) := by
    refine .part (n := .column ⟨secondMark, none, secondMark.span⟩) (.part .root ?_) ?_ <;>
      simp [Model.node, markedLines, Node.parts, Node.fields]
  have piece : markedLines.Piece Dialect.sqlite.lexical .expression (.expression secondMark) := by
    refine .expression within ?_
    rintro ⟨i, ⟨s, span, -, -, same⟩, -⟩
    cases same
  obtain ⟨snippet, found, alone⟩ := Dialect.parse_snippet builtin parsed piece
  have same : some snippet = some "?+b" := found.symm.trans rfl
  have before : markedLines.node.marksBefore (Model.expression secondMark).node.span.start = 1 := by
    decide +kernel
  rw [Option.some.inj same, before] at alone
  exact ⟨builtin, parsed, piece, alone⟩

end SqlTree
