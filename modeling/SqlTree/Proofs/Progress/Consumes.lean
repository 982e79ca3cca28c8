import SqlTree.Proofs.Progress.Visits

namespace SqlTree

open Rule SqlRule

/-- At least one token of the text lies between two states, and the tokens behind it are left. -/
def State.Passes (rules : LexicalRules) (st after : State) : Prop :=
  ∃ used rest stop, used ≠ [] ∧ Lexes rules st.reader.cursor (used ++ rest) stop ∧
    Lexes rules after.reader.cursor rest stop

/-- From one place to another over at least one token. -/
def Tape.Passes (s after : Tape) : Prop := ∃ used, used ≠ [] ∧ s.Moves used after

/-- Wherever a rule gives a value it has consumed a token, however many levels of nesting there are. -/
def Rule.Consumes {α : Type} (f : Features) (rule : SqlRule α) : Prop :=
  ∀ tokens limit, Always f tokens limit rule fun s _ after => s.Passes after

/-- Wherever a rule gives something, and not nothing, it has consumed a token. -/
def Rule.StepsOn {σ : Type} (f : Features) (step : SqlRule (Option σ)) : Prop :=
  ∀ tokens limit, Always f tokens limit step fun s next after => next ≠ none → s.Passes after

/-- The rules that consume a token whenever they succeed: statements, expressions, types, names and
tables, the limit and the constraints in whatever form a dialect has them, and the rules of lists. -/
inductive SqlRule.Solid (f : Features) : ∀ {α : Type}, SqlRule α → Prop
  | statement : Solid f (statement f)
  | standardStatement : Solid f (standardStatement f)
  | selectStatement : Solid f selectStatement
  | insertStatement : Solid f (insertStatement f)
  | updateStatement : Solid f (updateStatement f)
  | deleteStatement : Solid f (deleteStatement f)
  | createTableStatement : Solid f (createTableStatement f)
  | pragmaStatement : Solid f pragmaStatement
  | expression : Solid f expression
  | operand : Solid f operand
  | dataType : Solid f dataType
  | objectName : Solid f objectName
  | tableRef : Solid f (tableRef f)
  | limitClause (form : LimitForm) : Solid f (limitClause form)
  | columnConstraintKind : Solid f columnConstraintKind
  | autoIncrement (k : Keyword) : Solid f (autoIncrement k)
  | furtherConstraintKind (k : Keyword) : Solid f (choice [columnConstraintKind, autoIncrement k])
  | standardColumnConstraint : Solid f standardColumnConstraint
  | columnConstraint : Solid f (columnConstraint f)
  | joinClause : Solid f (joinClause f)
  | whenClause : Solid f whenClause
  | selectColumn : Solid f (selectColumn f)
  | orderByItem : Solid f (orderByItem f)
  | row : Solid f (parenthesizedList expression)
  | assignment : Solid f assignment
  | tableElement : Solid f (tableElement f)
  | identifier : Solid f identifier
  | behindComma {α : Type} {rule : SqlRule α} : Solid f rule → Solid f (do let _ ← expect .comma; rule)

section

variable {f : Features} {tokens : List Token} {s mid after : Tape}

/-- Behind a token one stands further on in the text. -/
theorem Tape.Passes.lastEnd_lt (passes : s.Passes after) (along : s.Along tokens) :
    s.lastEnd.offset < after.lastEnd.offset := by
  obtain ⟨used, some, moves⟩ := passes
  exact along.lastEnd_lt moves some

theorem Tape.Passes.along (passes : s.Passes after) (along : s.Along tokens) : after.Along tokens := by
  obtain ⟨used, -, moves⟩ := passes
  exact along.moves moves

/-- Behind a token there are fewer tokens left. -/
theorem Tape.Passes.length_lt (passes : s.Passes after) : after.tokens.length < s.tokens.length := by
  obtain ⟨used, some, moves⟩ := passes
  have pos := List.length_pos_iff.mpr some
  rw [moves.tokens, List.length_append]
  omega

theorem steady_passes {α : Type} : Steady (α := α) tokens fun s _ after => s.Passes after :=
  fun _ _ _ _ _ stays _ ⟨used, nonempty, moves⟩ => ⟨used, nonempty, stays.trans moves⟩

/-- A rule consumes a token if the nodes that it reads lie on one token at least. -/
theorem consumes_of_reads {α : Type} {rule : SqlRule α} {nodes : α → List Node}
    (reads : ∀ {tokens limit}, Calls f tokens limit limit → Reads f tokens limit limit 1 rule nodes) :
    rule.Consumes f :=
  fun tokens limit s along => (reads (callsAt f tokens limit) s along).mono
    fun _ _ ⟨used, enough, row⟩ => ⟨used, List.length_pos_iff.mp enough, row.moves⟩

theorem consumes_of_fills {α : Type} {rule : SqlRule α} {node : α → Node}
    (fills : ∀ {tokens limit}, Calls f tokens (limit + 1) limit →
      Fills f tokens (limit + 1) limit rule node) : rule.Consumes f :=
  fun tokens limit s along => (fills (calls f tokens (Nat.le_succ limit)) s along).mono
    fun _ _ ⟨_, ⟨used, _, moves, fits⟩, _⟩ => ⟨used, fits.nonempty, moves⟩

theorem Rule.Consumes.behindComma {α : Type} {rule : SqlRule α} (consumes : rule.Consumes f) :
    (do let _ ← expect .comma; rule : SqlRule α).Consumes f := by
  intro tokens limit s along
  rw [yields_bind]
  refine (Lays.refl limit along).expect rfl fun _ mid row => ?_
  refine (consumes tokens limit mid row.along).mono fun _ after ⟨used, _, moves⟩ => ?_
  exact ⟨_, by simp, row.moves.trans moves⟩

/-- Each of these rules consumes a token whenever it gives a value. -/
theorem SqlRule.Solid.consumes {α : Type} {rule : SqlRule α} (solid : Solid f rule) :
    rule.Consumes f := by
  induction solid with
  | statement => exact consumes_of_reads fun calls => statement_reads calls
  | standardStatement => exact consumes_of_reads fun calls => standardStatement_reads calls
  | selectStatement => exact consumes_of_reads fun calls => selectStatement_reads calls
  | insertStatement => exact consumes_of_reads fun calls => insertStatement_reads calls
  | updateStatement => exact consumes_of_reads fun calls => updateStatement_reads calls
  | deleteStatement => exact consumes_of_reads fun calls => deleteStatement_reads calls
  | createTableStatement => exact consumes_of_reads fun calls => createTableStatement_reads calls
  | pragmaStatement => exact consumes_of_reads fun calls => pragmaStatement_reads calls
  | expression => exact consumes_of_reads fun calls => calls.expression 0
  | operand => exact consumes_of_reads fun calls => calls.expression signPower
  | dataType => exact consumes_of_reads fun _ => dataType_skips
  | objectName => exact consumes_of_reads fun _ => objectName_reads
  | tableRef => exact consumes_of_reads fun calls => tableRef_reads calls
  | limitClause form => exact consumes_of_reads fun calls => limitClause_reads calls form
  | columnConstraintKind => exact consumes_of_reads fun calls => columnConstraintKind_reads calls
  | autoIncrement k => exact consumes_of_reads fun _ => reads_words rfl (skips_expectKeyword k)
  | furtherConstraintKind k =>
    have kind : SqlRule.columnConstraintKind.Consumes f :=
      consumes_of_reads fun calls => columnConstraintKind_reads calls
    have own : (SqlRule.autoIncrement k).Consumes f :=
      consumes_of_reads fun _ => reads_words rfl (skips_expectKeyword k)
    refine fun tokens limit => always_choice steady_passes ?_
    simp only [List.forall_mem_cons, List.not_mem_nil, false_implies, implies_true, and_true]
    exact ⟨kind tokens limit, own tokens limit⟩
  | standardColumnConstraint =>
    exact consumes_of_fills fun calls => namedColumnConstraint_fills (columnConstraintKind_reads calls)
  | columnConstraint => exact consumes_of_reads fun calls => columnConstraint_reads calls
  | joinClause => exact consumes_of_reads fun calls => joinClause_reads calls
  | whenClause => exact consumes_of_reads fun calls => whenClause_reads calls
  | selectColumn => exact consumes_of_reads fun calls => selectColumn_reads calls
  | orderByItem => exact consumes_of_reads fun calls => orderByItem_reads calls
  | row =>
    exact consumes_of_reads fun calls =>
      ((calls.expression 0).parenthesizedList).mono (Nat.le_succ 1)
  | assignment => exact consumes_of_reads fun calls => assignment_reads calls
  | tableElement => exact consumes_of_reads fun calls => tableElement_reads calls
  | identifier => exact consumes_of_reads fun _ => identifier_reads
  | behindComma _ ih => exact ih.behindComma

/-- What an optional rule gives was consumed. -/
theorem Rule.Consumes.optional {α : Type} {rule : SqlRule α} (consumes : rule.Consumes f) :
    rule.optional.StepsOn f := by
  intro tokens limit s along
  have steady : Steady (α := Option α) tokens fun s found after => found ≠ none → s.Passes after :=
    fun _ _ _ _ along stays same passes found =>
      steady_passes _ _ () _ along stays same (passes found)
  refine always_orElse steady ?_ (fun m => ?_) s along
  · intro s along
    simp only [yields_bind, yields_pure]
    exact (consumes tokens limit s along).mono fun _ _ passes _ => passes
  · intro s along
    exact yields_then fun _ _ => (yields_pure _).mpr fun found => absurd rfl found

/-- The next operator consumes a token with what stands behind it, and where no operator is taken the one
that follows, if any, binds too weakly. -/
theorem further_passes (along : s.Along tokens) (limit power : Nat) (start : Position) (left : Expr) :
    (further f power start left).Yields (sqlLevels f limit) s fun next after =>
      (next ≠ none → s.Passes after) ∧
      (next = none → after = s ∧ ∃ found, (infixOp? f).read (sqlLevels f limit) s = (.ok found, s) ∧
        ∀ op ∈ found, op.leftPower < power) := by
  rw [further, yields_bind]
  refine infixOp?_yields fun found ahead => ?_
  cases found with
  | none => exact (yields_pure _).mpr ⟨fun some => absurd rfl some, fun _ => ⟨rfl, _, ahead, by simp⟩⟩
  | some op =>
    simp only [yields_ite, yields_bind, yields_spanFrom, yields_pure]
    split
    · rename_i weak
      exact ⟨fun some => absurd rfl some, fun _ => ⟨trivial, _, ahead, by simpa using weak⟩⟩
    · refine (infixed_lays (callsAt f tokens limit) left along ahead).mono ?_
      rintro kind after ⟨used, nodes, nonempty, row, -⟩
      exact ⟨fun _ => ⟨used, nonempty, row.moves⟩, fun none => absurd none (Option.some_ne_none _)⟩

section

variable {rules : LexicalRules} {st st' : State}

/-- What passes a token on the tape passes it in the text. -/
theorem Tracks.passes {t : Tape} (tracks : Tracks rules st s) (tracks' : Tracks rules st' t)
    (passes : s.Passes t) : st.Passes rules st' := by
  obtain ⟨used, nonempty, moves⟩ := passes
  refine ⟨used, t.tokens, s.stop, nonempty, ?_, ?_⟩
  · rw [← moves.tokens]
    exact tracks.lexes
  · rw [← moves.stop]
    exact tracks'.lexes

/-- Further on in the text, with fewer tokens left. -/
theorem Tracks.passes_of_leads {t : Tape} (tracks : Tracks rules st s) (tracks' : Tracks rules st' t)
    (leads : s.Leads t) (fewer : t.tokens.length < s.tokens.length) : st.Passes rules st' := by
  have split : ∃ used, s.tokens = used ++ t.tokens := by
    rcases leads.moved with ⟨used, split, -⟩ | ended
    · exact ⟨used, split⟩
    · exact ⟨s.tokens, by rw [ended.1, List.append_nil]⟩
  obtain ⟨used, split⟩ := split
  refine ⟨used, t.tokens, s.stop, ?_, ?_, ?_⟩
  · rintro rfl
    rw [split] at fewer
    exact Nat.lt_irrefl _ fewer
  · rw [← split]
    exact tracks.lexes
  · rw [← leads.stop]
    exact tracks'.lexes

/-- What the evaluation of a rule gives is what its reading of the tape gives. -/
theorem Tracks.reads {α : Type} {rule : SqlRule α} {limit : Nat} {result : Except Failure α}
    (tracks : Tracks rules st s) (eval : rule.evalWithin limit rules f st = (result, st')) :
    ∃ t, rule.read (sqlLevels f limit) s = (result, t) ∧ Tracks rules st' t := by
  have agrees := tracks.agrees (Symbol.body f) limit rule
  rw [show rule.eval rules (Rule.levels rules (Symbol.body f) limit) st = _ from eval] at agrees
  obtain ⟨t, read, tracks', -, -⟩ := agrees.reading_eq
  exact ⟨t, read, tracks'⟩

/-- Where a rule gave a value a tape stands behind a token that it consumed. -/
theorem Tracks.consumes {α : Type} {rule : SqlRule α} {limit : Nat} {value : α}
    (tracks : Tracks rules st s) (along : s.Along tokens) (consumes : rule.Consumes f)
    (eval : rule.evalWithin limit rules f st = (.ok value, st')) :
    ∃ t, Tracks rules st' t ∧ s.Passes t := by
  obtain ⟨t, read, tracks'⟩ := tracks.reads eval
  exact ⟨t, tracks', consumes tokens limit s along value t read⟩

end

/-- An optional rule gives nothing where an attempt of the rule ends in a mismatch. -/
theorem eval_optional {Sym : Type → Type} {α : Type} (rules : LexicalRules) (rule : Rule Sym α)
    (levels : List (Level Sym)) (st : State) : rule.optional.eval rules levels st =
      match rule.attempt.eval rules levels st with
      | (.ok value, after) => (.ok (some value), after)
      | (.error (.mismatch m), after) => (.ok none, after.note m)
      | (.error failure, after) => (.error failure, after) := by
  change (orElse (rule.bind fun value => Rule.pure (some value)) fun m =>
    (Rule.note m).bind fun _ => Rule.pure none).eval rules levels st = _
  simp only [attempt, Rule.eval, State.checkCancelled]
  rcases st.cancelAfter with _ | _ | n
  · dsimp only
    rcases rule.eval rules levels _ with ⟨⟨_ | _ | _ | _⟩ | value, after⟩ <;> rfl
  · rfl
  · dsimp only
    rcases rule.eval rules levels _ with ⟨⟨_ | _ | _ | _⟩ | value, after⟩ <;> rfl

/-- What a repetition gives: the items that were read one after the other up to a place where an attempt
to read one more fails. A mismatch ends the list there, and any other failure is passed on. -/
structure Rule.EndsFailing {α : Type} (rules : LexicalRules) (levels : List (Level Symbol))
    (rule : SqlRule α) (st : State) (result : Except Failure (List α)) (after : State) : Prop where
  fails : ∃ items mid failure last, Rule.Repeats rules rule levels st items mid ∧
    rule.attempt.eval rules levels mid = (.error failure, last) ∧ mid.Restored after ∧
    result = if failure.isTerminal then .error failure else .ok items

section

variable {α : Type} {rules : LexicalRules} {rule : SqlRule α} {limit : Nat} {st after : State}

/-- Each item of a repetition passes a token. -/
theorem Rule.Repeats.along {items : List α}
    (repeats : Rule.Repeats rules rule (Rule.levels rules (Symbol.body f) limit) st items after)
    (steps : rule.optional.StepsOn f) (tracks : Tracks rules st s) (along : s.Along tokens) :
    ∃ t, Tracks rules after t ∧ t.Along tokens := by
  induction repeats generalizing s with
  | none => exact ⟨s, tracks, along⟩
  | @next st mid _ item _ eval _ _ ih =>
    obtain ⟨t, read, tracks'⟩ := tracks.reads eval
    have passes := steps tokens limit s along (some item) t read (by simp)
    exact ih tracks' (passes.along along)

/-- The repetition of a rule that consumes tokens ends where the rule gives nothing or fails, never behind
an item that took nothing. -/
theorem Tracks.many_ends {result : Except Failure (List α)} (steps : rule.optional.StepsOn f)
    (tracks : Tracks rules st s) (along : s.Along tokens)
    (eval : SqlRule.evalWithin limit rules f rule.many st = (result, after)) :
    ∃ items mid, Rule.Repeats rules rule (Rule.levels rules (Symbol.body f) limit) st items mid ∧
      mid.Restored after ∧
      ((result = .ok items ∧ SqlRule.evalWithin limit rules f rule.optional mid = (.ok none, after)) ∨
        ∃ failure, result = .error failure ∧
          SqlRule.evalWithin limit rules f rule.optional mid = (.error failure, after)) := by
  obtain ⟨items, mid, repeats, ends⟩ := tracks.many eval
  obtain ⟨t, tracks', along'⟩ := repeats.along steps tracks along
  refine ⟨items, mid, repeats, ?_⟩
  cases ends with
  | missing missing restored => exact ⟨restored, .inl ⟨rfl, missing⟩⟩
  | failed failed restored => exact ⟨restored, .inr ⟨_, rfl, failed⟩⟩
  | @empty item _ fits stays =>
    obtain ⟨u, read, tracks''⟩ := tracks'.reads fits
    have further := (steps tokens limit t along' (some item) u read (by simp)).lastEnd_lt along'
    rw [← tracks'.position, ← tracks''.position] at further
    exact absurd further stays

/-- A repetition that gives its items ends where one more attempt fails. -/
theorem Tracks.many_ok {items : List α} (steps : rule.optional.StepsOn f) (tracks : Tracks rules st s)
    (along : s.Along tokens) (eval : SqlRule.evalWithin limit rules f rule.many st = (.ok items, after)) :
    ∃ mid, Rule.Repeats rules rule (Rule.levels rules (Symbol.body f) limit) st items mid ∧
      SqlRule.evalWithin limit rules f rule.optional mid = (.ok none, after) := by
  obtain ⟨items', mid, repeats, -, ⟨same, missing⟩ | ⟨_, same, -⟩⟩ :=
    tracks.many_ends steps along eval
  · cases same
    exact ⟨mid, repeats, missing⟩
  · cases same

/-- The repetition of a rule that consumes tokens always ends on an attempt that fails. -/
theorem Tracks.endsFailing {result : Except Failure (List α)} (steps : rule.optional.StepsOn f)
    (tracks : Tracks rules st s) (along : s.Along tokens)
    (eval : SqlRule.evalWithin limit rules f rule.many st = (result, after)) :
    rule.EndsFailing rules (Rule.levels rules (Symbol.body f) limit) st result after := by
  obtain ⟨items, mid, repeats, restored, ⟨rfl, ended⟩ | ⟨failure, rfl, ended⟩⟩ :=
    tracks.many_ends steps along eval
  · have optional : rule.optional.eval rules _ mid = _ := ended
    rw [eval_optional] at optional
    split at optional
    · cases optional
    · rename_i m last failed
      exact ⟨items, mid, _, last, repeats, failed, restored, rfl⟩
    · cases optional
  · have optional : rule.optional.eval rules _ mid = _ := ended
    rw [eval_optional] at optional
    split at optional
    · cases optional
    · cases optional
    · rename_i terminal failed
      cases optional
      refine ⟨items, mid, failure, after, repeats, failed, restored, ?_⟩
      cases failure with
      | mismatch m => exact (terminal m rfl).elim
      | _ => rfl

end

end

end SqlTree
