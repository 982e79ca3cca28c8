import SqlTree.Analysis.Case
import SqlTree.Dialect.Builtin
import SqlTree.Proofs.Reading.Tracking
import SqlTree.Proofs.Tree.Statements

namespace SqlTree

open Rule SqlRule

section

variable {f : Features} {tokens : List Token} {limit : Nat} {s : Tape}

/-- The statements of a script lie on its tokens one behind the other. -/
theorem script_lays (along : s.Along tokens) :
    (script f).Yields (sqlLevels f limit) s fun value after =>
      ∃ used, Lays f tokens limit s used (value.statements.map .ofStatement) after ∧
        (used ≠ [] → value.span = spanOf used) := by
  simp only [script, yields_bind, yields_start, yields_spanFrom, yields_pure]
  intro first peek
  refine (yields_loop_of_kept
    (fun statements after => ∃ used,
      Lays f tokens limit s used (statements.reverse.map .ofStatement) after)
    (sqlLevels_forward f limit) ⟨[], .refl _ along⟩ ?_).mono
      fun statements after ⟨used, row⟩ => ⟨used, row, fun some => row.span_eq some peek⟩
  rintro statements mid ⟨used, row⟩
  simp only [yields_bind, yields_check, yields_ite, yields_pure]
  refine row.part semicolons_skips fun _ s more _ row => ?_
  rw [List.append_nil] at row
  intro _ _
  split
  · exact ⟨_, row⟩
  · refine row.part (statement_reads (callsAt f tokens limit)).attempt fun next s more _ row => ?_
    intro _ _
    split
    · exact ⟨_, row.congr (by simp)⟩
    · exact row.expect rfl fun _ s row => ⟨_, row.congr (by simp)⟩

/-- A script stands for all that it consumed, unless that is nothing. -/
theorem script_yields (along : s.Along tokens) :
    (script f).Yields (sqlLevels f limit) s fun value after =>
      ∃ used, s.Moves used after ∧
        (Lays f tokens limit s used [.script value] after ∨ used = [] ∧ value.statements = []) := by
  intro value after read
  obtain ⟨used, row, span⟩ := script_lays along value after read
  refine ⟨used, row.moves, ?_⟩
  by_cases none : used = []
  · subst none
    exact .inr ⟨rfl, List.map_eq_nil_iff.mp row.laid.eq_nil⟩
  · refine .inl (row.node ⟨none, span none, arranged_of_parts ?_, row.laid⟩
      ⟨limit, s, after, along, row.moves, read⟩ rfl)
    simp [Node.parts, Node.fields]

/-- A model lies on tokens. Only a script without statements may lie nowhere. -/
def LiesOn (f : Features) (page : Page) (m : Model) (used : List Token) : Prop :=
  Laid f page used [m.node] ∨ ∃ span, m = Model.script ⟨[], span⟩

/-- The model that an entry rule gave lies on the tokens that it consumed. Only a script without
statements may lie nowhere. -/
def Entered (f : Features) (tokens : List Token) (limit : Nat) (s : Tape) (m : Model) (after : Tape) :
    Prop :=
  ∃ used, s.Moves used after ∧
    (Lays f tokens limit s used [m.node] after ∨ ∃ span, m = Model.script ⟨[], span⟩)

theorem steady_entered : Steady tokens (Entered f tokens limit) := by
  rintro s checked m after along stays same ⟨used, moves, row | empty⟩
  · exact ⟨used, stays.trans moves,
      .inl ⟨along, stays.trans row.moves, stays.page_eq ▸ row.laid, same ▸ row.counted⟩⟩
  · exact ⟨used, stays.trans moves, .inr empty⟩

/-- Whatever kind of model is asked for, it lies on the tokens that were consumed. -/
theorem entry_enters (kind : ModelKind) :
    Always f tokens limit (entry f kind) (Entered f tokens limit) := by
  intro s along
  have plain {α : Type} {rule : SqlRule α} {node : α → Node} {g : α → Model}
      (reads : Reads f tokens limit limit 1 rule fun value => [node value])
      (same : ∀ value, (g value).node = node value) :
      (do return g (← rule)).Yields (sqlLevels f limit) s (Entered f tokens limit s) := by
    simp only [yields_bind, yields_pure]
    refine (reads s along).mono fun value after ⟨used, _, row⟩ => ⟨used, row.moves, .inl ?_⟩
    rw [same]
    exact row
  have calls := callsAt f tokens limit
  cases kind with
  | statement => exact plain (statement_reads calls) fun _ => rfl
  | select => exact plain (selectStatement_reads calls) fun _ => rfl
  | insert => exact plain (insertStatement_reads calls) fun _ => rfl
  | update => exact plain (updateStatement_reads calls) fun _ => rfl
  | delete => exact plain (deleteStatement_reads calls) fun _ => rfl
  | createTable => exact plain (createTableStatement_reads calls) fun _ => rfl
  | pragma => exact plain (pragmaStatement_reads calls) fun _ => rfl
  | expression => exact plain calls.any fun _ => rfl
  | script =>
    simp only [entry, yields_bind, yields_pure]
    refine (script_yields along).mono fun value after ⟨used, moves, found⟩ => ⟨used, moves, ?_⟩
    rcases found with row | ⟨-, none⟩
    · exact .inl row
    · exact .inr ⟨value.span, by rw [← none]⟩

/-- Where the end of the text is shown, no tokens are left. -/
theorem Tape.Along.ended {t : Token} (along : s.Along tokens) (peek : s.peek = .ok t)
    (same : t.kind.sameKind .eof = true) : s.tokens = [] ∧ s.stop = .ok t := by
  have isEof : t.isEof = true := by
    rcases t with ⟨kind, text, span⟩
    cases kind <;> first | rfl | cases same
  unfold Tape.peek at peek
  split at peek
  · rename_i first rest eq
    cases peek
    have notEof := along.notEof t (along.mem (by rw [eq]; exact List.mem_cons_self))
    rw [isEof] at notEof
    cases notEof
  · rename_i empty
    cases stop : s.stop with
    | error e => rw [stop] at peek; cases peek
    | ok eof => rw [stop] at peek; cases peek; exact ⟨empty, rfl⟩

/-- Some tokens of a tape were consumed, and nothing but a semicolon was left. -/
def Completes (s : Tape) (used : List Token) : Prop :=
  (∃ rest, s.tokens = used ++ rest ∧ (rest = [] ∨ ∃ t, t.kind = .semicolon ∧ rest = [t])) ∧
    ∃ eof, s.stop = .ok eof

/-- An entry that is complete was followed by a semicolon at most. -/
theorem complete_yields {α : Type} {rule : SqlRule α} {post : Page → α → List Token → Prop}
    (along : s.Along tokens)
    (yields : ∀ s : Tape, s.Along tokens → rule.Yields (sqlLevels f limit) s fun value after =>
      ∃ used, s.Moves used after ∧ post (s.page tokens limit) value used) :
    (complete rule).Yields (sqlLevels f limit) s fun value _ =>
      ∃ used, Completes s used ∧ post (s.page tokens limit) value used := by
  have steady : Steady tokens fun s value after =>
      ∃ used, s.Moves used after ∧ post (s.page tokens limit) value used := by
    rintro s checked value after _ stays _ ⟨used, moves, holds⟩
    exact ⟨used, stays.trans moves, stays.page_eq ▸ holds⟩
  have entry := always_orElse steady yields fun m => always_fail (.mismatch m)
  have finish {value : α} {used between : List Token} {after : Tape}
      (moves : s.Moves (used ++ between) after) (holds : post (s.page tokens limit) value used)
      (few : between = [] ∨ ∃ t, t.kind = .semicolon ∧ between = [t]) (t : Token)
      (peek : after.peek = .ok t) :
      if t.kind.sameKind .eof = true then
        ∃ used, Completes s used ∧ post (s.page tokens limit) value used
      else (failAny [TokenKind.eof.describe] : SqlRule α).Yields (sqlLevels f limit) after
        fun value _ => ∃ used, Completes s used ∧ post (s.page tokens limit) value used := by
    split
    · rename_i same
      obtain ⟨empty, stop⟩ := (along.moves moves).ended peek same
      refine ⟨used, ⟨⟨between, ?_, few⟩, t, moves.stop.symm.trans stop⟩, holds⟩
      rw [moves.tokens, empty, List.append_nil]
    · exact (yields_failAny _).mpr trivial
  simp only [complete, eat, yields_bind, yields_check, yields_ite, yields_pure]
  refine (entry s along).mono ?_
  rintro value mid ⟨used, moves, holds⟩
  have along' := along.moves moves
  intro t peek
  split
  · rename_i same
    obtain ⟨shown, moves'⟩ := along'.bump peek (TokenKind.sameKind_eof same rfl)
    have semicolon := TokenKind.semicolon_of_sameKind same
    rw [yields_bump]
    intro u _
    exact finish (moves.trans moves') holds (.inr ⟨t, semicolon, rfl⟩)
  · exact finish (by rwa [List.append_nil]) holds (.inl rfl)

/-- A model of a whole text lies on all of its tokens but a semicolon at the end. -/
theorem entry_run_yields (along : s.Along tokens) (kind : ModelKind) :
    (entry f kind).run.Yields (sqlLevels f limit) s fun m _ => ∃ used, Completes s used ∧
      LiesOn f (s.page tokens limit) m used := by
  have enters (s : Tape) (along : s.Along tokens) : (entry f kind).Yields (sqlLevels f limit) s
      fun m after => ∃ used, s.Moves used after ∧ LiesOn f (s.page tokens limit) m used :=
    (entry_enters kind s along).mono fun _ _ ⟨used, moves, found⟩ =>
      ⟨used, moves, found.imp_left (·.laid)⟩
  exact yields_reporting (complete_yields along enters)

end

/-- The tape of a text is on its way through the tokens of the text. -/
theorem Lexes.along {rules : LexicalRules} {text : List Char} {tokens : List Token}
    {stop : Except LexError Token} (lexes : Lexes rules (.ofText text) tokens stop) :
    (Tape.ofText text tokens stop).Along tokens where
  ordered := lexes.ordered
  notEof := lexes.notEof
  place := ⟨[], rfl, rfl⟩
  eof := fun eof (same : stop = .ok eof) => (same ▸ lexes).eof_of_ok

theorem eq_ok_of_mapError {ε ε' α : Type} {g : ε → ε'} {result : Except ε α} {value : α}
    (mapped : result.mapError g = .ok value) : result = .ok value := by
  cases result with
  | ok => simpa [Except.mapError] using mapped
  | error => cases mapped

/-- The rule for a whole text gives the same over the text as over its tape. -/
theorem Dialect.eval_entry_eq (d : Dialect) (kind : ModelKind) {text : String} {tokens : List Token}
    {stop : Except LexError Token} (lexes : Lexes d.lexical (.ofText text.toList) tokens stop) :
    (d.eval (entry d.features kind).run (.ofText text.toList)).1 =
      ((entry d.features kind).run.read (sqlLevels d.features maxNesting)
        (.ofText text.toList tokens stop)).1 :=
  ((entry d.features kind).run.eval_tracks (levels_agree d.lexical (Symbol.body d.features) maxNesting)
    (tapeLevels_forward _ maxNesting) (tracks_ofText lexes)).result

/-- What a dialect makes of a text is what the rule for the whole of it reads from its tokens. -/
theorem Dialect.parse_eq_read {d : Dialect} {kind : ModelKind} {text : String} {tokens : List Token}
    {stop : Except LexError Token} (supported : d.supports kind)
    (lexes : Lexes d.lexical (.ofText text.toList) tokens stop) :
    d.parse kind text = ((entry d.features kind).run.read (sqlLevels d.features maxNesting)
      (.ofText text.toList tokens stop)).1.mapError .ofFailure := by
  have found : AnalysisCase.find d kind = .ok ⟨d, kind, supported⟩ := dif_pos supported
  rw [Dialect.parse, found, ← d.eval_entry_eq kind lexes]
  rfl

/-- A model was read from the tape of its text. -/
theorem Dialect.read_of_parse {d : Dialect} {kind : ModelKind} {text : String} {m : Model}
    {tokens : List Token} {stop : Except LexError Token} (parsed : d.parse kind text = .ok m)
    (lexes : Lexes d.lexical (.ofText text.toList) tokens stop) :
    ∃ after, (entry d.features kind).run.read (sqlLevels d.features maxNesting)
      (.ofText text.toList tokens stop) = (.ok m, after) := by
  unfold Dialect.parse AnalysisCase.find at parsed
  split at parsed
  · rename_i c found
    split at found
    · cases found
      exact ⟨_, Prod.ext ((d.eval_entry_eq kind lexes).symm.trans (eq_ok_of_mapError parsed)) rfl⟩
    · cases found
  · cases parsed

/-- What is read from the tape of a text is its model. -/
theorem Dialect.parse_of_read {d : Dialect} {kind : ModelKind} {text : String} {m : Model}
    {tokens : List Token} {stop : Except LexError Token} {after : Tape} (supported : d.supports kind)
    (lexes : Lexes d.lexical (.ofText text.toList) tokens stop)
    (read : (entry d.features kind).run.read (sqlLevels d.features maxNesting)
      (.ofText text.toList tokens stop) = (.ok m, after)) : d.parse kind text = .ok m := by
  have answer := d.eval_entry_eq kind lexes
  rw [read] at answer
  have found : AnalysisCase.find d kind = .ok ⟨d, kind, supported⟩ := dif_pos supported
  rw [Dialect.parse, found]
  change (d.eval (entry d.features kind).run (.ofText text.toList)).1.mapError AnalysisError.ofFailure = _
  rw [answer]
  rfl

/-- The tokens of a text that was parsed, on which the nodes of its model lie. -/
structure ParsedOver (d : Dialect) (text : String) (m : Model) (tokens : List Token) (eof : Token) :
    Prop where
  tokenized : tokenize d.lexical text = .ok (tokens ++ [eof])
  ordered : Ordered 0 tokens
  laid : ∃ used rest, tokens = used ++ rest ∧
    (rest = [] ∨ ∃ t, t.kind = .semicolon ∧ rest = [t]) ∧
    LiesOn d.features ⟨text.toList, tokens, .ok eof, maxNesting⟩ m used

/-- Whatever is parsed lies on the tokens of its text. -/
theorem Dialect.parsedOver {d : Dialect} {kind : ModelKind} {text : String} {m : Model}
    (parsed : d.parse kind text = .ok m) : ∃ tokens eof, ParsedOver d text m tokens eof := by
  obtain ⟨tokens, stop, lexes⟩ := lexes_exists d.lexical (.ofText text.toList)
  obtain ⟨after, read⟩ := d.read_of_parse parsed lexes
  obtain ⟨used, ⟨⟨rest, split, few⟩, eof, ended⟩, laid⟩ :=
    entry_run_yields lexes.along kind m after read
  obtain rfl : stop = .ok eof := ended
  exact ⟨tokens, eof, lexes.tokenize, lexes.ordered, used, rest, split, few, laid⟩

/-- The model of a product whose first factor has a sign. -/
def product : Model :=
  let name : Expr := ⟨.column none ⟨"a", false, ⟨⟨1, 1, 2⟩, ⟨2, 1, 3⟩⟩⟩, ⟨⟨1, 1, 2⟩, ⟨2, 1, 3⟩⟩⟩
  .expression ⟨.binary ⟨.unary .neg name, ⟨⟨0, 1, 1⟩, ⟨2, 1, 3⟩⟩⟩ .mul
    ⟨.literal (.integer 2), ⟨⟨3, 1, 4⟩, ⟨4, 1, 5⟩⟩⟩, ⟨⟨0, 1, 1⟩, ⟨4, 1, 5⟩⟩⟩

theorem Dialect.sqlite_parse_product : Dialect.sqlite.parse .expression "-a*2" = .ok product := by
  let tokens : List Token :=
    [⟨.minus, "-", ⟨⟨0, 1, 1⟩, ⟨1, 1, 2⟩⟩⟩, ⟨.identifier "a", "a", ⟨⟨1, 1, 2⟩, ⟨2, 1, 3⟩⟩⟩,
      ⟨.star, "*", ⟨⟨2, 1, 3⟩, ⟨3, 1, 4⟩⟩⟩, ⟨.integer 2, "2", ⟨⟨3, 1, 4⟩, ⟨4, 1, 5⟩⟩⟩]
  have lexed : tokenize Dialect.sqlite.lexical "-a*2" =
      .ok (tokens ++ [⟨.eof, "", ⟨⟨4, 1, 5⟩, ⟨4, 1, 5⟩⟩⟩]) := rfl
  exact (Dialect.parse_eq_read rfl (.of_tokenize lexed)).trans rfl

end SqlTree
