import SqlTree.Proofs.Tree.Models

namespace SqlTree

open Rule SqlRule

/-- A value has the span of the tokens that were consumed for it, at least one of them. -/
def Wide {α : Type} (span : α → Span) (s : Tape) (value : α) (after : Tape) : Prop :=
  ∃ used, used ≠ [] ∧ s.Moves used after ∧ span value = spanOf used

/-- Nothing is left in front of a tape but a semicolon perhaps, and then the end of the text. -/
def Tape.NearEnd (s : Tape) : Prop :=
  (∃ eof, s.stop = .ok eof) ∧ (s.tokens = [] ∨ ∃ t, t.kind = .semicolon ∧ s.tokens = [t])

section

variable {α β : Type} {f : Features} {tokens : List Token} {top limit : Nat} {s : Tape}

theorem steady_wide {span : α → Span} : Steady tokens (Wide span) :=
  fun _ _ _ _ _ stays _ ⟨used, nonempty, moves, eq⟩ => ⟨used, nonempty, stays.trans moves, eq⟩

/-- A node that fills the tokens of its rule has their span. -/
theorem Fills.wide {rule : SqlRule α} {node : α → Node} (fills : Fills f tokens top limit rule node) :
    Always f tokens limit rule (Wide fun value => (node value).span) :=
  fun s along => (fills s along).mono fun _ _ ⟨_, ⟨used, _, moves, fits⟩, _⟩ =>
    ⟨used, fits.nonempty, moves, fits.span⟩

theorem Always.wide_map {rule : SqlRule α} {span : α → Span} {span' : β → Span} {g : α → β}
    (wide : Always f tokens limit rule (Wide span)) (same : ∀ value, span' (g value) = span value) :
    Always f tokens limit (do return g (← rule)) (Wide span') := by
  intro s along
  simp only [yields_bind, yields_pure]
  exact (wide s along).mono fun value _ ⟨used, nonempty, moves, eq⟩ =>
    ⟨used, nonempty, moves, (same value).trans eq⟩

/-- An expression has the span of the tokens that were consumed for it. -/
theorem expressionBody_wide (power : Nat) :
    Always f tokens limit (expressionBody f power) (Wide Expr.span) := by
  intro s along
  have calls := calls f tokens (Nat.le_succ limit)
  refine (expressionBody_reached calls (Nat.lt_succ_self limit) along power).mono ?_
  rintro e after ⟨⟨-, ⟨used, moves, covers⟩, -⟩, -⟩
  exact ⟨used, covers.ne_nil, moves, covers.span_eq⟩

theorem expression_wide : Always f tokens limit expression (Wide Expr.span) := by
  intro s along
  cases limit with
  | zero => exact yields_tooDeep
  | succ limit => exact expressionBody_wide 0 s along

theorem selectStatement_wide : Always f tokens limit selectStatement (Wide SelectStatement.span) := by
  intro s along
  cases limit with
  | zero => exact yields_tooDeep
  | succ limit => exact (queryBody_fills (callsAt f tokens limit)).wide s along

theorem standardStatement_wide :
    Always f tokens limit (standardStatement f) (Wide Statement.span) := by
  refine always_choice steady_wide ?_
  simp only [List.forall_mem_cons, List.not_mem_nil, false_implies, implies_true, and_true]
  exact ⟨selectStatement_wide.wide_map fun _ => rfl,
    (insertStatement_fills (callsAt f tokens limit)).wide.wide_map fun _ => rfl,
    (updateStatement_fills (callsAt f tokens limit)).wide.wide_map fun _ => rfl,
    (deleteStatement_fills (callsAt f tokens limit)).wide.wide_map fun _ => rfl,
    (createTableStatement_fills (callsAt f tokens limit)).wide.wide_map fun _ => rfl⟩

/-- A statement has the span of the tokens that were consumed for it. -/
theorem statement_wide : Always f tokens limit (statement f) (Wide Statement.span) := by
  unfold statement
  split
  · refine always_choice steady_wide ?_
    simp only [List.forall_mem_cons, List.not_mem_nil, false_implies, implies_true, and_true]
    exact ⟨standardStatement_wide, (pragmaStatement_fills (callsAt f tokens limit)).wide.wide_map fun _ => rfl⟩
  · exact standardStatement_wide

/-- A step of a script stops at the end of the text, or consumes a statement. -/
theorem scriptStep_ends (along : s.Along tokens) (statements : List Statement) :
    (scriptStep f statements).Yields (sqlLevels f limit) s fun next after =>
      (next = none → after.tokens = [] ∧ ∃ eof, after.stop = .ok eof) ∧
      (next ≠ none → after.Along tokens ∧ s.lastEnd.offset < after.lastEnd.offset) := by
  simp only [scriptStep, yields_bind, yields_check, yields_ite, yields_pure]
  refine (Lays.refl limit along).part semicolons_skips fun _ mid more _ row => ?_
  intro t peek
  split
  · rename_i same
    obtain ⟨empty, stop⟩ := row.along.ended peek same
    exact ⟨fun _ => ⟨empty, t, stop⟩, fun some => absurd rfl some⟩
  · refine row.part (statement_reads (callsAt f tokens limit)).attempt fun next mid used consumed row => ?_
    have further : s.lastEnd.offset < mid.lastEnd.offset :=
      along.lastEnd_lt row.moves (by rintro none; simp_all)
    intro _ _
    split
    · exact ⟨nofun, fun _ => ⟨row.along, further⟩⟩
    · exact row.expect rfl fun _ after row =>
        ⟨nofun, fun _ => ⟨row.along, along.lastEnd_lt row.moves (by simp)⟩⟩

/-- A script stops nowhere but at the end of its text. -/
theorem script_ends (along : s.Along tokens) :
    (script f).Yields (sqlLevels f limit) s fun _ after =>
      after.tokens = [] ∧ ∃ eof, after.stop = .ok eof := by
  simp only [script_eq, yields_bind, yields_start, yields_spanFrom, yields_pure]
  intro _ _
  refine yields_loop_until (fun _ s => s.Along tokens) _ (sqlLevels_forward f limit) along ?_
  intro statements s along next after read
  obtain ⟨ends, onward⟩ := scriptStep_ends along statements next after read
  cases next with
  | none => exact ends rfl
  | some y => exact onward (Option.some_ne_none y)

/-- A script goes on to the last token that was consumed. -/
theorem script_span :
    (script f).Yields (sqlLevels f limit) s fun value after =>
      ∃ start, value.span = ⟨start, after.lastEnd.later start⟩ := by
  simp only [script, yields_bind, yields_start, yields_spanFrom, yields_pure]
  exact fun t _ => yields_of_forall fun _ _ => ⟨t.span.start, rfl⟩

/-- What an entry rule gave and left of a tape. -/
structure Stops (kind : ModelKind) (s : Tape) (m : Model) (after : Tape) : Prop where
  used : ∃ used, s.Moves used after ∧ (used ≠ [] → m.node.span = spanOf used) ∧
    (used = [] → kind = .script ∧ ∃ start, m.node.span = ⟨start, s.lastEnd.later start⟩)
  script : kind = .script → after.tokens = [] ∧ ∃ eof, after.stop = .ok eof

/-- Each entry rule stops behind what its model stands for. -/
theorem entry_stops (along : s.Along tokens) (kind : ModelKind) :
    (entry f kind).Yields (sqlLevels f limit) s (Stops kind s) := by
  have plain {α : Type} {rule : SqlRule α} {span : α → Span} {g : α → Model}
      (notScript : kind ≠ .script) (wide : Always f tokens limit rule (Wide span))
      (same : ∀ value, (g value).node.span = span value) :
      (do return g (← rule)).Yields (sqlLevels f limit) s (Stops kind s) := by
    have whole : Always f tokens limit (do return g (← rule)) (Wide fun m => m.node.span) :=
      wide.wide_map same
    refine (whole s along).mono ?_
    rintro m after ⟨used, nonempty, moves, eq⟩
    exact ⟨⟨used, moves, fun _ => eq, fun none => absurd none nonempty⟩,
      fun isScript => absurd isScript notScript⟩
  cases kind with
  | statement => exact plain (by simp) statement_wide fun value => by cases value <;> rfl
  | select => exact plain (by simp) selectStatement_wide fun _ => rfl
  | insert => exact plain (by simp) (insertStatement_fills (callsAt f tokens limit)).wide fun _ => rfl
  | update => exact plain (by simp) (updateStatement_fills (callsAt f tokens limit)).wide fun _ => rfl
  | delete => exact plain (by simp) (deleteStatement_fills (callsAt f tokens limit)).wide fun _ => rfl
  | createTable => exact plain (by simp) (createTableStatement_fills (callsAt f tokens limit)).wide fun _ => rfl
  | pragma => exact plain (by simp) (pragmaStatement_fills (callsAt f tokens limit)).wide fun _ => rfl
  | expression => exact plain (by simp) expression_wide fun _ => rfl
  | script =>
    simp only [entry, yields_bind, yields_pure]
    intro value after read
    obtain ⟨used, row, span⟩ := script_lays along value after read
    refine ⟨⟨used, row.moves, span, fun none => ⟨rfl, ?_⟩⟩, fun _ => script_ends along value after read⟩
    obtain ⟨start, eq⟩ := script_span value after read
    rw [row.moves.lastEnd, none] at eq
    exact ⟨start, eq⟩

theorem steady_stops {kind : ModelKind} : Steady tokens (Stops kind) := by
  rintro s checked m after _ stays _ ⟨⟨used, moves, span, nothing⟩, script⟩
  rw [stays.lastEnd] at nothing
  exact ⟨⟨used, stays.trans moves, span, nothing⟩, script⟩

/-- Behind an entry that is complete there is a semicolon at most. -/
theorem complete_ends {rule : SqlRule α} (along : s.Along tokens)
    (moves : rule.attempt.Yields (sqlLevels f limit) s fun _ mid => ∃ used, s.Moves used mid) :
    (complete rule).Yields (sqlLevels f limit) s fun value _ =>
      ∃ mid : Tape, rule.attempt.read (sqlLevels f limit) s = (.ok value, mid) ∧ mid.NearEnd := by
  have finish {value : α} {mid after : Tape} {t : Token} (along' : after.Along tokens)
      (read : rule.attempt.read (sqlLevels f limit) s = (.ok value, mid))
      (near : after.tokens = [] → (∃ eof, after.stop = .ok eof) → mid.NearEnd)
      (peek : after.peek = .ok t) :
      if t.kind.sameKind .eof = true then
        ∃ mid : Tape, rule.attempt.read (sqlLevels f limit) s = (.ok value, mid) ∧ mid.NearEnd
      else (failAny [TokenKind.eof.describe] : SqlRule α).Yields (sqlLevels f limit) after
        fun value _ => ∃ mid : Tape,
          rule.attempt.read (sqlLevels f limit) s = (.ok value, mid) ∧ mid.NearEnd := by
    split
    · rename_i same
      obtain ⟨empty, ended⟩ := along'.ended peek same
      exact ⟨mid, read, near empty ⟨t, ended⟩⟩
    · exact (yields_failAny _).mpr trivial
  simp only [complete, eat, yields_bind, yields_check, yields_ite, yields_pure]
  intro value mid read t peek
  obtain ⟨used, moved⟩ := moves value mid read
  have along' := along.moves moved
  split
  · rename_i same
    have semicolon := TokenKind.semicolon_of_sameKind same
    obtain ⟨-, moved'⟩ := along'.bump peek (TokenKind.sameKind_eof same rfl)
    rw [yields_bump]
    intro _ _ u peek'
    refine finish (along'.moves moved') read (fun empty ended => ⟨moved'.stop ▸ ended, .inr ?_⟩) peek'
    exact ⟨t, semicolon, by rw [moved'.tokens, empty]; rfl⟩
  · intro u peek'
    exact finish along' read (fun empty ended => ⟨ended, .inl empty⟩) peek'

end

/-- A model stands for the tokens `used`, which its entry rule consumed, and `rest` is what that rule
left: the end of the text, perhaps behind a semicolon. -/
structure Consumed (d : Dialect) (kind : ModelKind) (text : String) (m : Model)
    (used rest : List Token) : Prop where
  tokenized : tokenize d.lexical text = .ok (used ++ rest)
  entry : ∃ after, d.eval (attempt (entry d.features kind)) (.ofText text.toList) = (.ok m, after) ∧
    after.position = endBehind .start used ∧
    (remainingTokens d.lexical after.reader.cursor).1 = .ok rest
  rest : ∃ eof, eof.kind = .eof ∧ (rest = [eof] ∨
    kind ≠ .script ∧ ∃ semicolon, semicolon.kind = .semicolon ∧ rest = [semicolon, eof])
  span : used ≠ [] → m.node.span = spanOf used
  nothing : used = [] → kind = .script ∧ m.node.span.isEmpty = true

/-- The tokens in front of a state that stands where a tape stands, with the end of the text. -/
theorem Tracks.remainingTokens {rules : LexicalRules} {st : State} {s : Tape} {eof : Token}
    (tracks : Tracks rules st s) (stop : s.stop = .ok eof) :
    (SqlTree.remainingTokens rules st.reader.cursor).1 = .ok (s.tokens ++ [eof]) := by
  have rest := tracks.lexes.tokensFrom (Nat.lt_succ_self _)
  rw [stop] at rest
  exact rest

/-- Every model stands for some tokens of its text, and is followed by the others. -/
theorem Dialect.consumed {d : Dialect} {kind : ModelKind} {text : String} {m : Model}
    (parsed : d.parse kind text = .ok m) : ∃ used rest, Consumed d kind text m used rest := by
  obtain ⟨tokens, stop, lexes⟩ := lexes_exists d.lexical (.ofText text.toList)
  obtain ⟨after, read⟩ := d.read_of_parse parsed lexes
  have stops : (attempt (entry d.features kind)).Yields (sqlLevels d.features maxNesting)
      (.ofText text.toList tokens stop) (Stops kind (.ofText text.toList tokens stop)) :=
    always_orElse steady_stops (fun s along => entry_stops along kind)
      (fun m => always_fail (.mismatch m)) _ lexes.along
  obtain ⟨mid, tried, ⟨eof, ended⟩, few⟩ := yields_reporting (complete_ends lexes.along
    (stops.mono fun _ _ stops => stops.used.imp fun _ used => used.1)) m after read
  obtain ⟨⟨used, moves, span, nothing⟩, script⟩ := stops m mid tried
  have agrees := (attempt (entry d.features kind)).eval_tracks
    (levels_agree d.lexical (Symbol.body d.features) maxNesting)
    (tapeLevels_forward _ maxNesting) (tracks_ofText lexes)
  rw [tried] at agrees
  have isEof : eof.kind = .eof := by
    have found := lexes.along.eof eof (moves.stop.symm.trans ended)
    simpa [Token.isEof] using found
  refine ⟨used, mid.tokens ++ [eof], ?_, ⟨_, Prod.ext agrees.result rfl, ?_, ?_⟩, ?_, span, ?_⟩
  · rw [lexes.tokenize, show stop = .ok eof from moves.stop.symm.trans ended]
    exact congrArg Except.ok ((congrArg (· ++ [eof]) moves.tokens).trans (List.append_assoc ..))
  · exact agrees.tracks.position.trans moves.lastEnd
  · exact agrees.tracks.remainingTokens ended
  · refine ⟨eof, isEof, ?_⟩
    by_cases isScript : kind = .script
    · exact .inl (by rw [(script isScript).1]; rfl)
    · rcases few with none | ⟨t, semicolon, one⟩
      · exact .inl (by rw [none]; rfl)
      · exact .inr ⟨isScript, t, semicolon, by rw [one]; rfl⟩
  · intro none
    obtain ⟨isScript, start, eq⟩ := nothing none
    refine ⟨isScript, ?_⟩
    rw [eq, Span.isEmpty, beq_iff_eq, Position.later_offset]
    exact (Nat.zero_max _).symm

/-- No input is ignored: a model stands for all tokens of its text but the end and a semicolon before
it, so that a text with a lexical error has none. -/
theorem Dialect.parse_consumes (d : Dialect) (kind : ModelKind) (text : String) :
    (∀ m, d.parse kind text = .ok m → ∃ used rest, Consumed d kind text m used rest) ∧
      ∀ e, tokenize d.lexical text = .error e → ∀ m, d.parse kind text ≠ .ok m := by
  refine ⟨fun m parsed => d.consumed parsed, fun e fault m parsed => ?_⟩
  obtain ⟨used, rest, consumed⟩ := d.consumed parsed
  rw [consumed.tokenized] at fault
  cases fault

theorem Dialect.sqlite_product_consumes : Dialect.sqlite.parse .expression "-a*2" = .ok product ∧
    ∃ used rest, Consumed Dialect.sqlite .expression "-a*2" product used rest :=
  ⟨Dialect.sqlite_parse_product,
    (Dialect.parse_consumes Dialect.sqlite .expression "-a*2").1 product
      Dialect.sqlite_parse_product⟩

end SqlTree
