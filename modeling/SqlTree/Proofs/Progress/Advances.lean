import SqlTree.Proofs.Diverging.Limits
import SqlTree.Proofs.Progress.Consumes
import SqlTree.Proofs.Types.Written

namespace SqlTree

open Rule SqlRule

/-- Each step with which a loop goes on, in a rule or in what it is made of, consumes a token. Levels of
nesting are opened by the names of rules alone. -/
def Rule.Advances (f : Features) {α : Type} : SqlRule α → Prop
  | bind first next => first.Advances f ∧ ∀ value, (next value).Advances f
  | orElse rule other => rule.Advances f ∧ ∀ m, (other m).Advances f
  | lookahead rule | reporting rule => rule.Advances f
  | loop step _ => ∀ x, (step x).Advances f ∧ (step x).StepsOn f
  | nested _ => False
  | _ => True

namespace Rule

section

variable {f : Features} {α β σ : Type}

@[simp] theorem advances_pure (value : α) : (Pure.pure value : SqlRule α).Advances f := trivial

@[simp] theorem advances_bind {first : SqlRule α} {next : α → SqlRule β} :
    (first >>= next).Advances f ↔ first.Advances f ∧ ∀ value, (next value).Advances f := Iff.rfl

@[simp] theorem advances_ite {c : Prop} [Decidable c] {rule other : SqlRule α} :
    (if c then rule else other).Advances f ↔ (c → rule.Advances f) ∧ (¬ c → other.Advances f) := by
  split <;> simp_all

@[simp] theorem advances_fail (failure : Failure) : (fail failure : SqlRule α).Advances f := trivial

@[simp] theorem advances_peek : (peek : SqlRule Token).Advances f := trivial

@[simp] theorem advances_bump : (bump : SqlRule Token).Advances f := trivial

@[simp] theorem advances_lastEnd : (lastEnd : SqlRule Position).Advances f := trivial

@[simp] theorem advances_slice (span : Span) : (slice span : SqlRule String).Advances f := trivial

@[simp] theorem advances_nextParam : (nextParam : SqlRule Nat).Advances f := trivial

@[simp] theorem advances_call (name : Symbol α) : (call name).Advances f := trivial

@[simp] theorem advances_lookahead (rule : SqlRule α) :
    (lookahead rule).Advances f ↔ rule.Advances f := Iff.rfl

@[simp] theorem advances_loop (step : σ → SqlRule (Option σ)) (first : σ) :
    (loop step first).Advances f ↔ ∀ x, (step x).Advances f ∧ (step x).StepsOn f := Iff.rfl

@[simp] theorem advances_start : (start : SqlRule Position).Advances f := by simp [start]

@[simp] theorem advances_spanFrom (p : Position) : (spanFrom p : SqlRule Span).Advances f := by
  simp [spanFrom]

@[simp] theorem advances_failAny (expected : List String) : (failAny expected : SqlRule α).Advances f := by
  simp [failAny]

@[simp] theorem advances_check (kind : TokenKind) : (check kind : SqlRule Bool).Advances f := by
  simp [check]

@[simp] theorem advances_checkKeyword (k : Keyword) : (checkKeyword k : SqlRule Bool).Advances f := by
  simp [checkKeyword]

@[simp] theorem advances_eat (kind : TokenKind) : (eat kind : SqlRule Bool).Advances f := by simp [eat]

@[simp] theorem advances_eatKeyword (k : Keyword) : (eatKeyword k : SqlRule Bool).Advances f := by
  simp [eatKeyword]

@[simp] theorem advances_expect (kind : TokenKind) : (expect kind : SqlRule Token).Advances f := by
  simp [expect]

@[simp] theorem advances_expectKeyword (k : Keyword) : (expectKeyword k : SqlRule Token).Advances f := by
  simp [expectKeyword]

theorem Advances.attempt {rule : SqlRule α} (advances : rule.Advances f) :
    (attempt rule).Advances f := ⟨advances, fun _ => trivial⟩

@[simp] theorem Advances.optional {rule : SqlRule α} (advances : rule.Advances f) :
    (optional rule).Advances f := ⟨⟨advances, fun _ => trivial⟩, fun _ => ⟨trivial, fun _ => trivial⟩⟩

@[simp] theorem Advances.many {rule : SqlRule α} (advances : rule.Advances f) (solid : Solid f rule) :
    (many rule).Advances f := by
  refine ⟨fun items => ⟨⟨advances.optional, fun _ => trivial⟩, ?_⟩, fun _ => trivial⟩
  intro tokens limit s along
  refine yields_bind.mpr ((solid.consumes.optional tokens limit s along).mono fun found after passes => ?_)
  refine (yields_pure _).mpr fun goesOn => passes ?_
  rintro rfl
  exact goesOn rfl

@[simp] theorem Advances.commaSeparated {rule : SqlRule α} (advances : rule.Advances f)
    (solid : Solid f rule) : (commaSeparated rule).Advances f := by
  have behindComma : (do let _ ← expect .comma; rule).Advances f := by simp [advances]
  simp [Rule.commaSeparated, advances, behindComma.many solid.behindComma]

@[simp] theorem Advances.parenthesizedList {rule : SqlRule α} (advances : rule.Advances f)
    (solid : Solid f rule) : (parenthesizedList rule).Advances f := by
  simp [Rule.parenthesizedList, advances, solid]

/-- A choice advances if its alternatives do. -/
theorem advances_choice {rules : List (SqlRule α)} (all : ∀ rule ∈ rules, rule.Advances f) :
    (choice rules).Advances f := by
  suffices after : ∀ failure, (choiceAfter failure rules).Advances f from after none
  induction rules with
  | nil => rintro (_ | _) <;> simp [choiceAfter]
  | cons rule rules ih =>
    obtain ⟨first, rest⟩ := List.forall_mem_cons.mp all
    rintro (_ | previous)
    · exact ⟨first, fun m => ih rest (some m)⟩
    · exact ⟨first, fun m => ih rest (some (previous.merge m))⟩

theorem Advances.run {entry : SqlRule α} (advances : entry.Advances f) : entry.run.Advances f := by
  change (complete entry).Advances f
  simp [complete, advances.attempt]

end

end Rule

section

variable {f : Features}

/-- A step that reads a further word of a type consumes it. -/
theorem steps_furtherWord (name : String) : (furtherWord name).StepsOn f := by
  intro tokens limit s along
  refine yields_bind.mpr (yields_typeWord? fun t shown => ?_)
  split
  · rename_i word found
    exact yields_bind.mpr (along.yields_bump shown (Token.isEof_of_typeWord? found)
      fun after moves => (yields_pure _).mpr fun _ => ⟨[t], List.cons_ne_nil t [], moves⟩)
  · exact (yields_pure _).mpr fun goesOn => absurd rfl goesOn

theorem steps_balanced (depth : Nat) : (balancedStep depth).StepsOn f := fun _ _ _ along =>
  (balancedStep_yields along depth).mono fun _ _ ⟨t, _, _, moves⟩ _ => ⟨[t], List.cons_ne_nil t [], moves⟩

/-- Going on behind an operand consumes an operator. -/
theorem steps_further (power : Nat) (start : Position) (left : Expr) :
    (further f power start left).StepsOn f := fun _ limit _ along =>
  (further_passes along limit power start left).mono fun _ _ passes => passes.1

/-- A step that goes on behind a word alone has consumed the word. -/
theorem steps_behindKeyword {σ : Type} {k : Keyword} {found missing : SqlRule (Option σ)}
    {nodes : Option σ → List Node} (reads : ∀ tokens limit, Reads f tokens limit limit 0 found nodes)
    (ends : missing.StepsOn f) :
    (do if ← eatKeyword k then found else missing : SqlRule (Option σ)).StepsOn f := by
  intro tokens limit s along
  simp only [yields_bind, yields_ite]
  refine (Lays.refl limit along).eatKeyword (fun t mid row => ?_) (ends tokens limit s along)
  exact row.part (reads tokens limit) fun _ after more _ row _ => ⟨_, by simp, row.moves⟩

theorem steps_none {σ : Type} : (Pure.pure none : SqlRule (Option σ)).StepsOn f :=
  fun _ _ _ _ => (yields_pure _).mpr fun goesOn => absurd rfl goesOn

/-- A part that is not asked for again is left out. -/
theorem steps_unlessSeen {σ : Type} {k : Keyword} {found missing : SqlRule (Option σ)}
    (nodes : Option σ → List Node) (seen : Bool) (reads : ∀ tokens limit, Reads f tokens limit limit 0 found nodes)
    (ends : missing.StepsOn f) :
    (do if ← (if seen then return false else eatKeyword k) then found else missing :
      SqlRule (Option σ)).StepsOn f := by
  cases seen with
  | true => exact fun tokens limit s along => yields_bind.mpr ((yields_pure _).mpr (ends tokens limit s along))
  | false => exact steps_behindKeyword reads ends

theorem steps_limit (parts : LimitParts) : (limitStep parts).StepsOn f := by
  refine steps_unlessSeen (fun next => (next.bind (·.count)).toList.map .expr) _
    (fun tokens limit => ?_) (steps_unlessSeen
      (fun next => (next.bind (·.offset)).toList.map .expr) _ (fun tokens limit => ?_) steps_none)
  · exact (limitCount?_reads (callsAt f tokens limit)).map fun _ => rfl
  · exact ((limitOffset_reads (callsAt f tokens limit)).mono (Nat.zero_le 1)).map fun _ => rfl

theorem steps_script (statements : List Statement) : (scriptStep f statements).StepsOn f := by
  intro tokens limit s along
  simp only [scriptStep, yields_bind, yields_check, yields_ite, yields_pure]
  refine (Lays.refl limit along).part semicolons_skips fun _ mid more _ row => ?_
  intro t peek
  split
  · exact fun goesOn => absurd rfl goesOn
  · refine row.part (statement_reads (callsAt f tokens limit)).attempt fun next mid used consumed row => ?_
    have some : [] ++ more ++ used ≠ [] := by
      rintro none
      simp_all
    intro _ _
    split
    · exact fun _ => ⟨_, some, row.moves⟩
    · exact row.expect rfl fun _ after row _ => ⟨_, by simp, row.moves⟩

end

namespace SqlRule

variable {f : Features}

@[simp] theorem identifier_advances : identifier.Advances f := by
  simp only [identifier, advances_bind, advances_peek, true_and]
  intro t
  split <;> simp

@[simp] theorem objectName_advances : objectName.Advances f := by simp [objectName]

@[simp] theorem identifierList_advances : identifierList.Advances f := by
  simp [identifierList, Solid.identifier]

@[simp] theorem expression_advances : expression.Advances f := trivial

@[simp] theorem operand_advances : operand.Advances f := trivial

@[simp] theorem selectStatement_advances : selectStatement.Advances f := trivial

@[simp] theorem joinGroup_advances : joinGroup.Advances f := trivial

@[simp] theorem typeWord?_advances (isFirst : Bool) : (typeWord? isFirst).Advances f := by
  simp only [typeWord?, advances_bind, advances_peek, true_and]
  intro t
  split <;> simp

@[simp] theorem eatWord_advances (word : String) : (eatWord word).Advances f := by
  simp only [eatWord, advances_bind, advances_peek, true_and]
  intro t
  split <;> simp

@[simp] theorem integerUpTo_advances (limit : Nat) (what : String) :
    (integerUpTo limit what).Advances f := by
  simp only [integerUpTo, advances_bind, advances_peek, true_and]
  intro t
  split <;> simp

@[simp] theorem balanced_advances : balanced.Advances f := by
  refine ⟨fun depth => ⟨?_, steps_balanced depth⟩, fun _ => trivial⟩
  simp only [advances_bind, advances_peek, true_and]
  intro t
  split <;> simp

@[simp] theorem customType_advances (first : String) : (customType first).Advances f := by
  refine ⟨fun name => ⟨?_, steps_furtherWord name⟩, by simp⟩
  simp only [advances_bind, typeWord?_advances, true_and]
  intro word
  split <;> simp

@[simp] theorem dataType_advances : dataType.Advances f := by
  simp only [dataType, advances_bind, typeWord?_advances, true_and]
  intro word
  split
  · simp
  · refine ⟨trivial, fun _ => ⟨by simp [typeName], fun name => ?_⟩⟩
    dsimp only
    split <;> simp [lengthArgument, scaleArguments]

@[simp] theorem infixOp?_advances : (infixOp? f).Advances f := by
  simp only [infixOp?, advances_bind, advances_peek, true_and]
  intro t
  split <;> simp [predicate?]

@[simp] theorem infixed_advances (op : InfixOp) (left : Expr) : (infixed op left).Advances f := by
  cases op <;> simp [infixed, negation, Solid.expression]

@[simp] theorem functionCall_advances (name : Ident) (p : Position) :
    (functionCall name p).Advances f := by simp [functionCall, Solid.expression]

@[simp] theorem nameExpression_advances : nameExpression.Advances f := by simp [nameExpression]

@[simp] theorem caseExpression_advances : caseExpression.Advances f := by
  have clause : whenClause.Advances f := by simp [whenClause]
  simp [caseExpression, clause, Solid.whenClause]

@[simp] theorem keywordForm_advances {form : SqlRule Expr} (reserved : Bool)
    (advances : form.Advances f) : (keywordForm reserved form).Advances f := by
  unfold keywordForm
  split
  · exact advances
  · exact advances_choice (by simp [advances])

@[simp] theorem wordExpression_advances (p : Position) : (wordExpression p).Advances f := by
  simp only [wordExpression, advances_bind, advances_peek, advances_checkKeyword, true_and, advances_ite]
  refine fun t isCase => ⟨by simp, fun _ isCast => ⟨by simp [castExpression], fun _ isExists =>
    ⟨by simp [existsExpression], fun _ => ⟨by simp [literalWord?], fun word => ?_⟩⟩⟩⟩
  split
  · simp
  · refine ⟨trivial, fun t => ?_⟩
    dsimp only
    split <;> simp

@[simp] theorem primary_advances : primary.Advances f := by
  simp only [primary, advances_bind, advances_start, advances_peek, true_and]
  intro p t
  split <;> simp [single]

/-- No loop of an expression takes a step that stays where it is. -/
theorem expressionBody_advances (power : Nat) : (expressionBody f power).Advances f := by
  refine ⟨advances_start, fun p => ⟨?_, fun first left => ⟨?_, steps_further power p left⟩⟩⟩
  · simp only [prefixed, advances_bind, advances_start, advances_peek, true_and]
    intro _ t
    split <;> simp
  · simp only [advances_bind, infixOp?_advances, true_and]
    intro op
    split <;> simp

@[simp] theorem alias?_advances : (alias? f).Advances f := by simp [alias?]

@[simp] theorem selectColumn_advances : (selectColumn f).Advances f := by simp [selectColumn]

@[simp] theorem clause?_advances (k : Keyword) : (clause? k).Advances f := by simp [clause?]

@[simp] theorem returningClause_advances : (returningClause f).Advances f := by
  simp [returningClause, Solid.selectColumn]

@[simp] theorem tableFactor_advances : (tableFactor f).Advances f :=
  advances_choice (by simp [namedTable, derivedTable])

@[simp] theorem joinClause_advances : (joinClause f).Advances f := by
  simp [joinClause, joinType, joinCondition]

@[simp] theorem tableRef_advances : (tableRef f).Advances f := by simp [tableRef, Solid.joinClause]

@[simp] theorem limitClause_advances (form : LimitForm) : (limitClause form).Advances f := by
  cases form with
  | countFirst => simp [limitClause, limitCountFirst]
  | anyOrder =>
    refine ⟨advances_start, fun p => ⟨fun parts => ⟨?_, steps_limit parts⟩, by simp⟩⟩
    simp [limitCount?, limitOffset]

@[simp] theorem limit?_advances : (limit? f).Advances f := by
  unfold limit?
  split <;> simp

@[simp] theorem orderByItem_advances : (orderByItem f).Advances f := by
  simp [orderByItem, orderDirection, nullOrdering?]

theorem queryBody_advances : (queryBody f).Advances f := by
  simp [queryBody, distinct, whereClause?, byClause, Solid.selectColumn, Solid.tableRef, Solid.expression,
    Solid.orderByItem]

@[simp] theorem referentialActions_advances : referentialActions.Advances f := by
  refine fun actions => ⟨by simp [referentialAction], ?_⟩
  have read {σ : Type} (g : ReferentialAction → Option σ) (tokens : List Token) (limit : Nat) :
      Skips f tokens limit limit 0 (do return g (← referentialAction)) :=
    referentialAction_skips.bind fun _ => skips_pure _
  exact steps_behindKeyword (fun tokens limit => skips_ifEaten (read _ tokens limit)
    (skips_ifEaten (read _ tokens limit) (always_failAny _))) steps_none

@[simp] theorem foreignKey_advances : foreignKey.Advances f := by simp [foreignKey]

@[simp] theorem columnConstraintKind_advances : columnConstraintKind.Advances f :=
  advances_choice (by
    simp [notNull, null, primaryKey, unique, defaultValue, checkConstraint, parenthesizedCondition,
      references])

@[simp] theorem namedColumnConstraint_advances {kind : SqlRule ColumnConstraintKind}
    (advances : kind.Advances f) : (namedColumnConstraint kind).Advances f := by
  simp [namedColumnConstraint, constraintName?, advances]

@[simp] theorem columnConstraint_advances : (columnConstraint f).Advances f := by
  unfold columnConstraint
  split
  · exact namedColumnConstraint_advances (advances_choice (by simp [autoIncrement]))
  · exact namedColumnConstraint_advances columnConstraintKind_advances

@[simp] theorem tableElement_advances : (tableElement f).Advances f := by
  have column : (columnDef f).Advances f := by simp [columnDef, Solid.columnConstraint]
  have constraint : tableConstraint.Advances f := by
    simp [tableConstraint, constraintName?, tableConstraintKind, parenthesizedCondition]
  exact advances_choice (by simp [constraintElement, columnElement, column, constraint])

@[simp] theorem createTableStatement_advances : (createTableStatement f).Advances f := by
  simp [createTableStatement, temporary, ifNotExists, Solid.tableElement]

@[simp] theorem insertStatement_advances : (insertStatement f).Advances f := by
  have source : insertSource.Advances f := advances_choice (by
    simp [valuesSource, defaultValuesSource, querySource, Solid.row, Solid.expression])
  simp [insertStatement, source]

@[simp] theorem updateStatement_advances : (updateStatement f).Advances f := by
  have assignments : assignment.Advances f := by simp [assignment]
  simp [updateStatement, assignments, whereClause?, Solid.assignment]

@[simp] theorem deleteStatement_advances : (deleteStatement f).Advances f := by
  simp [deleteStatement, whereClause?]

@[simp] theorem pragmaStatement_advances : pragmaStatement.Advances f := by
  have value : pragmaValue.Advances f := advances_choice (by simp [keywordValue])
  simp [pragmaStatement, value]

@[simp] theorem standardStatement_advances : (standardStatement f).Advances f :=
  advances_choice (by
    simp [selectAsStatement, insertAsStatement, updateAsStatement, deleteAsStatement, createTableAsStatement])

@[simp] theorem statement_advances : (statement f).Advances f := by
  unfold statement
  split
  · exact advances_choice (by simp [pragmaAsStatement])
  · exact standardStatement_advances

theorem semicolons_advances : semicolons.Advances f := by
  refine fun _ => ⟨by simp, fun tokens limit s along => ?_⟩
  simp only [yields_bind, yields_ite, yields_pure]
  exact (Lays.refl limit along).eat rfl (fun t after row _ => ⟨_, by simp, row.moves⟩)
    fun goesOn => absurd rfl goesOn

/-- No loop of the rule for a whole text takes a step that stays where it is. -/
theorem entry_advances (kind : ModelKind) : (entry f kind).Advances f := by
  cases kind with
  | script =>
    have script : (script f).Advances f := by
      refine ⟨advances_start, fun p => ⟨fun statements => ⟨?_, steps_script statements⟩, by simp⟩⟩
      simp [semicolons_advances, Advances.attempt]
    simp [entry, script]
  | _ => simp [entry]

end SqlRule

/-- The rules that consume a token take no step that stays where it is. -/
theorem SqlRule.Solid.advances {f : Features} {α : Type} {rule : SqlRule α} (solid : Solid f rule) :
    rule.Advances f := by
  induction solid with
  | autoIncrement k => simp [SqlRule.autoIncrement]
  | furtherConstraintKind k => exact advances_choice (by simp [SqlRule.autoIncrement])
  | standardColumnConstraint => exact namedColumnConstraint_advances columnConstraintKind_advances
  | whenClause => simp [SqlRule.whenClause]
  | row => simp [Solid.expression]
  | assignment => simp [SqlRule.assignment]
  | behindComma _ ih => simp [ih]
  | _ => simp

/-- What the names of rules stand for takes no step that stays where it is. -/
theorem Symbol.body_advances (f : Features) (α : Type) (name : Symbol α) :
    (Symbol.body f α name).Advances f := by
  cases name with
  | expression power => exact SqlRule.expressionBody_advances power
  | query => exact SqlRule.queryBody_advances
  | joinGroup => simp [Symbol.body, SqlRule.joinGroupBody]

section

variable {rules : LexicalRules} {f : Features} {v w : Visit Symbol}

/-- What a rule without such a loop evaluates directly has none. -/
theorem Visit.Starts.advances (starts : v.Starts rules (Symbol.body f) w) (advances : v.rule.Advances f) :
    w.rule.Advances f := by
  cases starts with
  | first | tried => exact advances.1
  | next | other => exact advances.2 _
  | lookahead | reporting => exact advances
  | nested => exact advances.elim
  | step => exact (advances _).1
  | call => exact Symbol.body_advances f _ _

/-- What is evaluated on the way takes no step that stays where it is either. -/
theorem Visit.Covers.advances (covers : v.Covers rules (Symbol.body f) w)
    (advances : v.rule.Advances f) : w.rule.Advances f := by
  induction covers with
  | refl => exact advances
  | tail _ starts ih => exact starts.advances ih

end

end SqlTree
