import SqlTree.Proofs.Reading.Stays
import SqlTree.Proofs.Reading.Succeeds
import SqlTree.Proofs.Tree.Words

namespace SqlTree

open Rule SqlRule

section

variable {f : Features} {s : Tape} {top limit : Nat}

theorem Token.isEof_of_binaryOp? {t : Token} {o : BinaryOp} (op : t.kind.binaryOp? = some o) :
    t.isEof = false := by
  rw [Token.isEof, beq_eq_false_iff_ne]
  intro eof
  rw [eof] at op
  cases op

/-- No predicate is an operator that is a token by itself. -/
theorem predicate?_not_binary (negated : Bool) :
    (predicate? f negated).Yields (sqlLevels f limit) s fun op _ => ∀ o, op ≠ some (.binary o) := by
  simp [predicate?, yields_bind, yields_ite, yields_checkKeyword, yields_pure]

/-- An operator that is a token by itself is the next token. -/
theorem infixOp?_binary :
    (infixOp? f).Yields (sqlLevels f limit) s fun op _ =>
      ∀ o, op = some (.binary o) → ∃ t, s.peek = .ok t ∧ t.kind.binaryOp? = some o := by
  simp only [infixOp?, yields_bind, yields_peek]
  intro t peek
  cases binary : t.kind.binaryOp? with
  | some op =>
    refine (yields_pure _).mpr fun o same => ⟨t, peek, ?_⟩
    simpa [binary] using same
  | none =>
    simp only [yields_ite, yields_bind, yields_checkKeyword, yields_pure]
    split
    · intro o same
      split at same <;> cases same
    · intro _ _
      split
      · refine yields_lookahead ?_
        rw [yields_bind, yields_bump]
        intro _ _
        exact (predicate?_not_binary true).mono fun op _ no o same => absurd same (no o)
      · exact (predicate?_not_binary false).mono fun op _ no o same => absurd same (no o)

/-- Asking for the operator that follows consumes nothing. -/
theorem infixOp?_yields {post : Option InfixOp → Tape → Prop}
    (next : ∀ op, (infixOp? f).read (sqlLevels f limit) s = (.ok op, s) → post op s) :
    (infixOp? f).Yields (sqlLevels f limit) s post := by
  intro op after read
  have stays := infixOp?_stays f (sqlLevels f limit) s
  rw [read] at stays
  obtain rfl : after = s := congrArg Prod.snd stays
  exact next op read

end

section

variable {f : Features} {tokens : List Token} {top limit : Nat} {s : Tape}

/-- The operator consumes at least a token, and what stands to its right lies behind it. -/
theorem infixed_lays (calls : Calls f tokens top limit) {op : InfixOp} (left : Expr)
    (along : s.Along tokens)
    (ahead : (infixOp? f).read (sqlLevels f limit) s = (.ok (some op), s)) :
    (infixed op left).Yields (sqlLevels f limit) s fun kind after =>
      ∃ used nodes, used ≠ [] ∧ Lays f tokens top s used nodes after ∧
        (Node.fieldsOfExpr kind).flatten = .expr left :: nodes ∧ kind.isParameter = false := by
  have row := Lays.refl (f := f) top along
  cases op with
  | binary o =>
    obtain ⟨t, peek, binary⟩ := infixOp?_binary _ _ ahead o rfl
    simp only [infixed, yields_bind, yields_pure]
    refine row.bump peek (Token.isEof_of_binaryOp? binary) fun s row => ?_
    refine row.part (calls.expression _) fun right s used _ row => ⟨_, _, ?_, row, rfl, rfl⟩
    simp
  | isNull =>
    simp only [infixed, yields_bind, yields_pure]
    refine row.expectKeyword fun _ s row => ?_
    refine row.mayEatKeyword fun negated s used row => ?_
    refine row.expectKeyword fun _ s row => ⟨_, _, ?_, row, rfl, rfl⟩
    simp
  | inList negated =>
    simp only [infixed, yields_bind, yields_checkKeyword, yields_ite, yields_pure]
    refine row.part (negation_skips negated) fun _ s not _ row => ?_
    refine row.expectKeyword fun _ s row => ?_
    refine row.expect rfl fun _ s row => ?_
    intro _ _
    split
    · refine row.part calls.query fun query s used _ row => ?_
      refine row.expect rfl fun _ s row => ⟨_, _, ?_, row, rfl, rfl⟩
      simp
    · refine row.part (calls.expression 0).commaSeparatedNodes fun values s used _ row => ?_
      refine row.expect rfl fun _ s row => ⟨_, _, ?_, row, ?_, rfl⟩
      · simp
      · simp [Node.fieldsOfExpr]
  | between negated =>
    simp only [infixed, yields_bind, yields_pure]
    refine row.part (negation_skips negated) fun _ s not _ row => ?_
    refine row.expectKeyword fun _ s row => ?_
    refine row.part (calls.expression _) fun low s used _ row => ?_
    refine row.expectKeyword fun _ s row => ?_
    refine row.part (calls.expression _) fun high s used _ row => ⟨_, _, ?_, row, rfl, rfl⟩
    simp
  | like caseInsensitive negated =>
    simp only [infixed, yields_bind, yields_pure]
    refine row.part (negation_skips negated) fun _ s not _ row => ?_
    refine row.expectKeyword fun _ s row => ?_
    refine row.part (calls.expression _) fun pattern s used _ row => ⟨_, _, ?_, row, rfl, rfl⟩
    simp
  | cast =>
    simp only [infixed, yields_bind, yields_pure]
    refine row.expect rfl fun _ s row => ?_
    refine row.part dataType_skips fun type s used _ row => ⟨_, _, ?_, row, rfl, rfl⟩
    simp

/-- A star is all that is read of an expression that starts with it. -/
theorem prefixed_star {t : Token} (along : s.Along tokens) (peek : s.peek = .ok t) (star : t.kind = .star) :
    prefixed.Succeeds (sqlLevels f limit) s fun e after =>
      e = ⟨.wildcard none, ⟨t.span.start, after.lastEnd.later t.span.start⟩⟩ ∧ after = s.bump.2 := by
  have next : s.bump.1 = .ok t := (along.bump peek (by simp [Token.isEof, star])).1
  have bumps : (Rule.bump : SqlRule Token).Succeeds (sqlLevels f limit) s fun _ after => after = s.bump.2 :=
    ⟨t, s.bump.2, Prod.ext next rfl, rfl⟩
  have other : t.spells .NOT = false := by simp [Token.spells, star]
  rw [prefixed, succeeds_bind, succeeds_start peek, succeeds_bind, succeeds_peek peek, star]
  simp only [TokenKind.signOp?, succeeds_bind, eatKeyword, succeeds_checkKeyword peek, other,
    Bool.false_eq_true, if_false, succeeds_pure, primary, succeeds_start peek, succeeds_peek peek, star,
    single, succeeds_spanFrom]
  exact bumps.mono fun _ after same => ⟨trivial, same⟩

/-- A star for all arguments lies on its own token. -/
theorem Lays.star {used : List Token} {nodes : List Node} {s₀ : Tape} {t : Token}
    (row : Lays f tokens top s₀ used nodes s) (deep : limit < top) (peek : s.peek = .ok t)
    (star : t.kind = .star) :
    Lays f tokens top s₀ (used ++ [t])
      (nodes ++ [.expr ⟨.wildcard none, ⟨t.span.start, s.bump.2.lastEnd.later t.span.start⟩⟩]) s.bump.2 := by
  obtain ⟨-, moves⟩ := row.along.bump peek (by simp [Token.isEof, star])
  have alone : Lays f tokens top s [t] [] s.bump.2 :=
    ⟨row.along, moves, laid_none [t], .none (Tape.bump_params s).symm⟩
  obtain ⟨_, _, read, rfl, rfl⟩ : prefixed.Succeeds (sqlLevels f limit) s _ :=
    prefixed_star row.along peek star
  have fits : Fits f (s.page tokens top) [t] (.expr ⟨.wildcard none, spanOf [t]⟩) [] :=
    ⟨by simp, rfl, arranged_of_parts rfl, alone.laid⟩
  have counted := fits.counted (row.along.ordered_used moves) rfl alone.counted
  rw [alone.span_eq (by simp) peek] at read ⊢
  have chain : Chain f (sqlLevels f limit) 0 s _ s.bump.2 := .first read
  exact row.trans (alone.node fits (.chain deep row.along.on_page moves chain counted) rfl)

/-- A call lies on its name and on what follows it up to the closing parenthesis. -/
theorem functionCall_ends (calls : Calls f tokens top limit) (deep : limit < top) {s₀ : Tape}
    {named : List Token} {name : Ident} (row : Lays f tokens top s₀ named [.ident name] s) (start : Position) :
    (functionCall name start).Yields (sqlLevels f limit) s (Ending f tokens top s₀ start .expr) := by
  simp only [functionCall, yields_bind, yields_check, yields_ite, yields_start, yields_spanFrom,
    yields_pure]
  refine row.expect rfl fun _ s row => ?_
  refine row.mayEatKeyword fun distinct s used row => ?_
  intro _ _
  split
  · refine row.expect rfl fun _ s row => ⟨_, _, ?_, row, rfl, arranged_of_parts rfl, rfl⟩
    simp
  · intro u peek
    split
    · rename_i same
      intro star peek'
      rw [peek] at peek'
      cases peek'
      rw [yields_bump]
      intro _ _
      have row := row.star deep peek (TokenKind.star_of_sameKind same)
      refine row.expect rfl fun _ s row => ⟨_, _, ?_, row, rfl, arranged_of_parts rfl, rfl⟩
      simp
    · refine row.part (calls.expression 0).commaSeparatedNodes fun arguments s used _ row => ?_
      refine row.expect rfl fun _ s row => ⟨_, _, ?_, row, rfl, arranged_of_parts ?_, rfl⟩
      · simp
      · simp [Node.parts, Node.fields, Node.fieldsOfExpr]

/-- An expression that begins with a name fills the tokens that were consumed for it. -/
theorem nameExpression_fills (calls : Calls f tokens top limit) (deep : limit < top) :
    Fills f tokens top limit nameExpression .expr := by
  refine Fills.intro fun s first peek row => ?_
  rw [yields_bind]
  refine row.part identifier_reads fun name s used some row => ?_
  simp only [yields_bind, yields_check, yields_ite, yields_spanFrom, yields_pure]
  intro _ _
  split
  · exact functionCall_ends calls deep row _
  · refine row.eat rfl (fun _ s row => ?_) ⟨_, _, ?_, row, rfl, arranged_of_parts rfl, rfl⟩
    · refine row.eat rfl (fun _ s row => ?_) ?_
      · exact ⟨_, _, by simp, row, rfl, arranged_of_parts rfl, rfl⟩
      · refine row.part identifier_reads fun column s used _ row => ?_
        exact ⟨_, _, by simp, row, rfl, arranged_of_parts rfl, rfl⟩
    · simpa using List.length_pos_iff.mp some

theorem castExpression_fills (calls : Calls f tokens top limit) :
    Fills f tokens top limit castExpression .expr := by
  refine Fills.intro fun s first peek row => ?_
  simp only [yields_bind, yields_spanFrom, yields_pure]
  refine row.expectKeyword fun _ s row => ?_
  refine row.expect rfl fun _ s row => ?_
  refine row.part (calls.expression 0) fun e s used _ row => ?_
  refine row.expectKeyword fun _ s row => ?_
  refine row.part dataType_skips fun type s used _ row => ?_
  refine row.expect rfl fun _ s row => ⟨_, _, ?_, row, rfl, arranged_of_parts ?_, rfl⟩
  · simp
  · simp [Node.parts, Node.fields, Node.fieldsOfExpr]

theorem existsExpression_fills (calls : Calls f tokens top limit) :
    Fills f tokens top limit existsExpression .expr := by
  refine Fills.intro fun s first peek row => ?_
  simp only [yields_bind, yields_spanFrom, yields_pure]
  refine row.expectKeyword fun _ s row => ?_
  refine row.expect rfl fun _ s row => ?_
  refine row.part calls.query fun query s used _ row => ?_
  refine row.expect rfl fun _ s row => ⟨_, _, ?_, row, rfl, arranged_of_parts rfl, rfl⟩
  simp

theorem whenClause_fills (calls : Calls f tokens top limit) :
    Fills f tokens top limit whenClause .whenClause := by
  refine Fills.intro fun s first peek row => ?_
  simp only [yields_bind, yields_spanFrom, yields_pure]
  refine row.expectKeyword fun _ s row => ?_
  refine row.part (calls.expression 0) fun condition s used _ row => ?_
  refine row.expectKeyword fun _ s row => ?_
  refine row.part (calls.expression 0) fun result s used _ row => ?_
  exact ⟨_, _, by simp, row, rfl, arranged_of_parts rfl, rfl⟩

theorem whenClause_reads (calls : Calls f tokens top limit) :
    Reads f tokens top limit 1 whenClause fun w => [.whenClause w] :=
  (whenClause_fills calls).reads fun _ _ origin => origin

theorem caseExpression_fills (calls : Calls f tokens top limit) :
    Fills f tokens top limit caseExpression .expr := by
  have operand : Reads f tokens top limit 0 (do
      if ← checkKeyword .WHEN then return none else return some (← expression) :
      SqlRule (Option Expr)) fun e => e.toList.map .expr := by
    intro s along
    simp only [yields_bind, yields_checkKeyword, yields_ite, yields_pure]
    intro _ _
    split
    · exact ⟨_, Nat.zero_le _, .refl _ along⟩
    · refine (Lays.refl top along).part (calls.expression 0) fun e s used _ row => ?_
      exact ⟨_, Nat.zero_le _, row⟩
  refine Fills.intro fun s first peek row => ?_
  rw [yields_bind]
  refine row.expectKeyword fun _ s row => ?_
  rw [yields_bind]
  refine row.part operand fun e s used _ row => ?_
  rw [yields_bind]
  refine row.part (whenClause_reads calls).manyNodes fun whenClauses s used _ row => ?_
  rw [yields_ite]
  split
  · exact (yields_failAny _).mpr trivial
  · rw [yields_bind]
    have last : Reads f tokens top limit 0 (do
        if ← eatKeyword .ELSE then return some (← expression) else return none :
        SqlRule (Option Expr)) fun e => e.toList.map .expr :=
      reads_behindKeyword ((calls.expression 0).map fun _ => rfl) rfl
    refine row.part last fun elseClause s used _ row => ?_
    simp only [yields_bind, yields_spanFrom, yields_pure]
    refine row.expectKeyword fun _ s row => ⟨_, _, ?_, row, rfl, arranged_of_parts ?_, rfl⟩
    · simp
    · simp [Node.parts, Node.fields, Node.fieldsOfExpr]

theorem keywordForm_fills (calls : Calls f tokens top limit) (deep : limit < top) {form : SqlRule Expr}
    (reserved : Bool) (fills : Fills f tokens top limit form .expr) :
    Fills f tokens top limit (keywordForm reserved form) .expr := by
  unfold keywordForm
  split
  · exact fills
  · refine always_choice steady_filling ?_
    simp only [List.forall_mem_cons, List.not_mem_nil, false_implies, implies_true, and_true]
    exact ⟨fills, nameExpression_fills calls deep⟩

/-- A literal that is a word is found at that word, or nothing is consumed. -/
theorem literalWord?_yields {post : Option Literal → Tape → Prop} (row : Lays f tokens top s [] [] s)
    (missing : post none s)
    (found : ∀ value t after, Lays f tokens top s [t] [] after → post (some value) after) :
    literalWord?.Yields (sqlLevels f limit) s post := by
  simp only [literalWord?, yields_bind, yields_ite, yields_pure]
  refine row.eatKeyword (fun _ _ row => found _ _ _ row) ?_
  refine row.eatKeyword (fun _ _ row => found _ _ _ row) ?_
  exact row.eatKeyword (fun _ _ row => found _ _ _ row) missing

/-- What begins with a word fills its tokens from that word on. -/
theorem wordExpression_fills (calls : Calls f tokens top limit) (deep : limit < top) {t : Token}
    (along : s.Along tokens) (peek : s.peek = .ok t) (notEof : t.isEof = false) :
    (wordExpression t.span.start).Yields (sqlLevels f limit) s (Filling f tokens top s .expr) := by
  have row := Lays.refl (f := f) top along
  simp only [wordExpression, yields_bind, yields_peek, yields_checkKeyword, yields_ite]
  intro u _
  have cases := keywordForm_fills calls deep u.isKeyword (caseExpression_fills calls) s along
  have cast := keywordForm_fills calls deep u.isKeyword (castExpression_fills calls) s along
  have exist := keywordForm_fills calls deep u.isKeyword (existsExpression_fills calls) s along
  intro _ _
  split
  · exact cases
  intro _ _
  split
  · exact cast
  intro _ _
  split
  · exact exist
  refine literalWord?_yields row ?_ fun value u after row => ?_
  · simp only [yields_bind, yields_peek]
    intro u peek'
    rw [peek] at peek'
    cases peek'
    split
    · rename_i k keyword
      rw [yields_ite]
      split
      · rw [yields_bind]
        refine row.bump peek notEof fun s row => ?_
        have named : Named t ⟨t.text, false, t.span⟩ := .word (by simp [Token.isKeyword, keyword])
        exact (functionCall_ends calls deep (row.name named) _).mono fun _ _ ending => ending.filling peek
      · exact (yields_failAny _).mpr trivial
    · exact nameExpression_fills calls deep s along
  · simp only [yields_bind, yields_spanFrom, yields_pure]
    have ending : Ending f tokens top s t.span.start .expr ⟨.literal value, _⟩ after :=
      ⟨_, _, by simp, row, rfl, arranged_of_parts rfl, rfl⟩
    exact ending.filling peek

/-- What is one token by itself fills it. -/
theorem single_yields {t : Token} (along : s.Along tokens) (peek : s.peek = .ok t)
    (notEof : t.isEof = false) {kind : ExprKind} (none : (Node.fieldsOfExpr kind).flatten = [])
    (plain : kind.isParameter = false) :
    (single t.span.start kind).Yields (sqlLevels f limit) s (Filling f tokens top s .expr) := by
  simp only [single, yields_bind, yields_spanFrom, yields_pure]
  refine (Lays.refl top along).bump peek notEof fun after row => ?_
  have ending : Ending f tokens top s t.span.start .expr ⟨kind, _⟩ after :=
    ⟨_, _, by simp, row, rfl, arranged_of_parts none.symm, plain⟩
  exact ending.filling peek

/-- A parameter has no parts, and counts by itself. -/
theorem Lays.parameter {used : List Token} {mid after : Tape} {t : Token} {name : Option String}
    {number : Nat} (row : Lays f tokens top s used [] mid) (some : used ≠ []) (peek : s.peek = .ok t)
    (stays : mid.Moves [] after)
    (counts : ∀ span, (Node.expr ⟨.parameter name number, span⟩).Counts mid.params after.params) :
    Filling f tokens top s .expr
      ⟨.parameter name number, ⟨t.span.start, after.lastEnd.later t.span.start⟩⟩ after := by
  have moves := row.moves.trans stays
  rw [List.append_nil] at moves
  have fits : Fits f (s.page tokens top) used (.expr ⟨.parameter name number, spanOf used⟩) [] :=
    ⟨some, rfl, arranged_of_parts rfl, row.laid⟩
  have lastEnd : after.lastEnd = mid.lastEnd := stays.lastEnd
  rw [lastEnd, row.span_eq some peek]
  refine ⟨row.start, ⟨used, [], moves, fits⟩, ?_⟩
  rw [row.counted.eq_of_nil]
  exact .intro (counts _) (fits.inOrder (row.start.ordered_used moves)) .nil

/-- An expression without operators fills the tokens that were consumed for it. -/
theorem primary_fills (calls : Calls f tokens top limit) (deep : limit < top) :
    Fills f tokens top limit primary .expr := by
  intro s along
  have row := Lays.refl (f := f) top along
  simp only [primary, yields_bind, yields_start, yields_peek]
  intro t peek u peek'
  rw [peek] at peek'
  cases peek'
  have notEof {kind : TokenKind} (eq : t.kind = kind) (known : (kind == .eof) = false) :
      t.isEof = false := by rw [Token.isEof, eq, known]
  split
  · exact single_yields along peek (notEof ‹_› rfl) rfl rfl
  · exact single_yields along peek (notEof ‹_› rfl) rfl rfl
  · exact single_yields along peek (notEof ‹_› rfl) rfl rfl
  · exact single_yields along peek (notEof ‹_› rfl) rfl rfl
  · exact single_yields along peek (notEof ‹_› rfl) rfl rfl
  · simp only [yields_bind, yields_spanFrom, yields_pure]
    refine row.bump peek (notEof ‹_› rfl) fun s row position after read => ?_
    cases read
    exact row.parameter (by simp) peek (.of_place rfl rfl rfl rfl) fun _ => .placeholder
  · simp only [yields_bind, yields_spanFrom, yields_pure]
    refine row.bump peek (notEof ‹_› rfl) fun s row => ?_
    refine row.part identifier_skips fun name after used _ row => ?_
    exact row.parameter (by simp) peek (.refl after) fun _ => .named
  · simp only [yields_bind, yields_checkKeyword, yields_ite, yields_spanFrom, yields_pure]
    refine row.bump peek (notEof ‹_› rfl) fun s row => ?_
    intro _ _
    split
    · refine row.part calls.query fun query s used _ row => ?_
      refine row.expect rfl fun _ s row => ?_
      exact Ending.filling ⟨_, _, by simp, row, rfl, arranged_of_parts rfl, rfl⟩ peek
    · refine row.part (calls.expression 0) fun e s used _ row => ?_
      refine row.expect rfl fun _ s row => ?_
      exact Ending.filling ⟨_, _, by simp, row, rfl, arranged_of_parts rfl, rfl⟩ peek
  · exact wordExpression_fills calls deep along peek (notEof ‹_› rfl)
  · exact wordExpression_fills calls deep along peek (notEof ‹_› rfl)
  · exact (yields_failAny _).mpr trivial

theorem negated_isParameter (e : Expr) : (negated e).isParameter = false := by
  rcases e with ⟨kind, span⟩
  cases kind <;> rfl

/-- NOT in front of an EXISTS takes its place instead of standing over it. -/
theorem Lays.negated {used : List Token} {after : Tape} {e : Expr}
    (row : Lays f tokens top s used [.expr e] after) :
    Lays f tokens top s used (Node.fieldsOfExpr (SqlRule.negated e)).flatten after := by
  rcases e with ⟨kind, span⟩
  cases kind with
  | existsQuery query not =>
    have laid : Laid f (s.page tokens top) used [.select query] :=
      row.laid.exchange fun used covers => covers.only_part rfl
    exact ⟨row.start, row.moves, laid, (countedAll_singleton.mp row.counted).only_part rfl rfl⟩
  | _ => exact row

theorem prefixed_fills (calls : Calls f tokens top limit) (deep : limit < top) :
    Fills f tokens top limit prefixed .expr := by
  intro s along
  have row := Lays.refl (f := f) top along
  simp only [prefixed, yields_bind, yields_start, yields_peek]
  intro first peek t peek'
  rw [peek] at peek'
  cases peek'
  split
  · rename_i op sign
    have notEof : first.isEof = false := by
      rw [Token.isEof, beq_eq_false_iff_ne]
      intro eof
      rw [eof] at sign
      cases sign
    simp only [yields_bind, yields_spanFrom, yields_pure]
    refine row.bump peek notEof fun s row => ?_
    refine row.part (calls.expression _) fun operand s used _ row => ?_
    exact Ending.filling ⟨_, _, by simp, row, rfl, arranged_of_parts rfl, rfl⟩ peek
  · simp only [yields_bind, yields_ite, yields_spanFrom, yields_pure]
    refine row.eatKeyword (fun _ s row => ?_) (primary_fills calls deep s along)
    refine ((calls.expression notPower) s row.along).mono fun operand after found => ?_
    obtain ⟨used, some, rest⟩ := found
    refine Ending.filling ⟨_, _, ?_, row.trans rest.negated, rfl, arranged_of_parts rfl, ?_⟩ peek
    · simp
    · exact negated_isParameter operand

/-- What an expression has come to at a place covers the tokens that it consumed. -/
structure Reached (f : Features) (tokens : List Token) (top limit power : Nat) (s : Tape) (e : Expr)
    (after : Tape) : Prop where
  chain : Chain f (sqlLevels f limit) power s e after
  covers : ∃ used, s.Moves used after ∧ Covers f (s.page tokens top) used (.expr e)
  counted : Counted s.params (.expr e) after.params

/-- A first operand is what an expression has come to so far. -/
theorem prefixed_reached (calls : Calls f tokens top limit) (deep : limit < top) (along : s.Along tokens)
    (power : Nat) :
    prefixed.Yields (sqlLevels f limit) s (Reached f tokens top limit power s) := by
  intro e after read
  obtain ⟨-, ⟨used, nodes, moves, fits⟩, numbers⟩ := prefixed_fills calls deep s along e after read
  have chain : Chain f (sqlLevels f limit) power s e after := .first read
  have covers := fits.covers (.chain deep along.on_page moves chain numbers)
  exact ⟨chain, ⟨used, moves, covers⟩, numbers⟩

/-- An operator behind what an expression has come to takes it in as its left operand. -/
theorem Reached.next {power : Nat} {left : Expr} {mid after : Tape} {op : InfixOp} {kind : ExprKind}
    {t : Token} (reached : Reached f tokens top limit power s left mid) (calls : Calls f tokens top limit)
    (deep : limit < top) (along : s.Along tokens) (peek : s.peek = .ok t)
    (ahead : (infixOp? f).read (sqlLevels f limit) mid = (.ok (some op), mid))
    (enough : power ≤ op.leftPower)
    (read : (infixed op left).read (sqlLevels f limit) mid = (.ok kind, after)) :
    Reached f tokens top limit power s ⟨kind, ⟨t.span.start, after.lastEnd.later t.span.start⟩⟩ after ∧
      mid.lastEnd.offset < after.lastEnd.offset := by
  obtain ⟨used, moves, covers⟩ := reached.covers
  have along' := along.moves moves
  obtain ⟨more, nodes, some, row, fields, plain⟩ :=
    infixed_lays calls left along' ahead kind after read
  have first := Lays.mk along moves covers.laid (countedAll_singleton.mpr reached.counted)
  have whole := first.trans row
  have chain := reached.chain.next ahead enough read peek
  have nonempty : used ++ more ≠ [] := by simp [some]
  have fits : Fits f (s.page tokens top) (used ++ more) (.expr ⟨kind, _⟩) (.expr left :: nodes) :=
    ⟨nonempty, whole.span_eq nonempty peek, arranged_of_parts fields.symm, whole.laid⟩
  have numbers := fits.counted (along.ordered_used whole.moves) plain whole.counted
  have covers := fits.covers (.chain deep along.on_page whole.moves chain numbers)
  exact ⟨⟨chain, ⟨used ++ more, whole.moves, covers⟩, numbers⟩, along'.lastEnd_lt row.moves some⟩

/-- What an expression has come to is taken in by the next operator, or it is at its end, where no
operator of enough power follows. -/
theorem Reached.further {power : Nat} {left : Expr} {mid : Tape} {t : Token}
    (reached : Reached f tokens top limit power s left mid) (calls : Calls f tokens top limit)
    (deep : limit < top) (along : s.Along tokens) (peek : s.peek = .ok t) :
    (further f power t.span.start left).Yields (sqlLevels f limit) mid fun next after =>
      match next with
      | none => after = mid ∧ ∀ op, mid.operator? f = some op → op.leftPower < power
      | some e => Reached f tokens top limit power s e after ∧ mid.lastEnd.offset < after.lastEnd.offset := by
  rw [SqlRule.further, yields_bind]
  refine infixOp?_yields fun op ahead => ?_
  cases op with
  | none =>
    refine (yields_pure _).mpr ⟨rfl, fun op follows => ?_⟩
    rw [(Tape.operator?_eq ahead).1] at follows
    cases follows
  | some op =>
    simp only [yields_ite, yields_bind, yields_spanFrom, yields_pure]
    split
    · rename_i weak
      refine ⟨trivial, fun op follows => ?_⟩
      rw [(Tape.operator?_eq ahead).1] at follows
      cases follows
      exact weak
    · rename_i strong
      intro kind after read
      exact reached.next calls deep along peek ahead (Nat.not_lt.mp strong) read

/-- An expression goes on as long as an operator of enough power follows. -/
theorem expressionBody_reached (calls : Calls f tokens top limit) (deep : limit < top)
    (along : s.Along tokens) (power : Nat) :
    (expressionBody f power).Yields (sqlLevels f limit) s fun e after =>
      Reached f tokens top limit power s e after ∧
        ∀ op, after.operator? f = some op → op.leftPower < power := by
  simp only [expressionBody_eq, yields_bind, yields_start]
  intro first peek
  refine (prefixed_reached calls deep along power).mono fun e mid reached => ?_
  refine yields_loop (sqlLevels_forward f limit) fun e after runs => ?_
  induction runs with
  | stop read =>
    obtain ⟨rfl, closed⟩ := reached.further calls deep along peek _ _ read
    exact ⟨reached, closed⟩
  | stay read stays => exact absurd (reached.further calls deep along peek _ _ read).2 stays
  | next read _ _ ih => exact ih (reached.further calls deep along peek _ _ read).1

/-- An expression lies on the tokens that were consumed for it. -/
theorem expressionBody_reads (calls : Calls f tokens top limit) (deep : limit < top) (power : Nat) :
    Reads f tokens top limit 1 (expressionBody f power) fun e => [.expr e] := by
  intro s along
  refine (expressionBody_reached calls deep along power).mono fun e after ⟨reached, _⟩ => ?_
  obtain ⟨used, moves, covers⟩ := reached.covers
  have nonempty : used ≠ [] := by cases covers; assumption
  exact ⟨used, List.length_pos_iff.mpr nonempty, along, moves, covers.laid,
    countedAll_singleton.mpr reached.counted⟩

end

end SqlTree
