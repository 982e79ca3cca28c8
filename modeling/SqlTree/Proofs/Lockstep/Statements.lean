import SqlTree.Proofs.Lockstep.Queries

namespace SqlTree

open Rule SqlRule

variable {L : Likeness} {texts : Facing L} {f : Features} {limit : Nat}

/-- An expression, as a statement reads it. -/
theorem any_matches : Matches texts (sqlLevels f limit) SqlRule.expression (Expr.Like L) :=
  (callsMatch texts f limit).any

theorem selectStatement_matches :
    Matches texts (sqlLevels f limit) selectStatement (SelectStatement.Like L) :=
  (callsMatch texts f limit).query

/-- No columns in parentheses are the same as none of them. -/
theorem optionalColumns_like {columns columns' : Option (List Ident)}
    (like : Option.Rel (List.Forall₂ (Ident.Like L)) columns columns') :
    List.Forall₂ (Ident.Like L) (columns.getD []) (columns'.getD []) := by
  cases like with
  | none => exact .nil
  | some likes => exact likes

theorem foreignKey_matches : Matches texts (sqlLevels f limit) foreignKey (ForeignKey.Like L) := by
  refine fun _ => matches_start.bind fun _ _ _ starts => ?_
  refine (matches_expectKeyword _).bind fun _ _ _ _ => objectName_matches.bind fun _ _ _ table => ?_
  refine identifierList_matches.optional.bind fun _ _ _ columns => referentialActions_matches.bind ?_
  rintro _ ⟨onDelete, onUpdate⟩ _ rfl
  exact spanFrom_bind starts fun _ _ span =>
    mirrors_pure ⟨table, optionalColumns_like columns, rfl, rfl, span⟩

theorem parenthesizedCondition_matches :
    Matches texts (sqlLevels f limit) parenthesizedCondition (Expr.Like L) := by
  refine fun _ => (matches_expect rfl).bind fun _ _ _ _ => any_matches.bind fun _ _ _ like => ?_
  exact (matches_expect rfl).bind fun _ _ _ _ => mirrors_pure like

theorem primaryKey_matches :
    Matches texts (sqlLevels f limit) primaryKey (ColumnConstraintKind.Like L) := by
  refine fun _ => (matches_expectKeyword _).bind fun _ _ _ _ => ?_
  refine (matches_expectKeyword _).bind fun i _ _ _ => ?_
  exact matches_ifEaten (matches_pure (.primaryKey _))
    (matches_ifEaten (matches_pure (.primaryKey _)) (matches_pure (.primaryKey _))) i

/-- What a column of a table is constrained to is read alike. -/
theorem columnConstraintKind_matches :
    Matches texts (sqlLevels f limit) columnConstraintKind (ColumnConstraintKind.Like L) := by
  have behind {α : Type} {R : α → α → Prop} {k : Keyword} {rule : SqlRule α}
      (fits : Matches texts (sqlLevels f limit) rule R) :
      Matches texts (sqlLevels f limit) (do
        let _ ← expectKeyword k
        rule) R := fun _ => (matches_expectKeyword _).bind fun i _ _ _ => fits i
  refine matches_choice ?_
  simp only [List.forall_mem_cons, List.not_mem_nil, false_implies, implies_true, and_true]
  refine ⟨behind (behind (matches_pure .notNull)), behind (matches_pure .null), primaryKey_matches,
    behind (matches_pure .unique), behind ?_, behind ?_, ?_⟩
  · exact ((callsMatch texts f limit).expression _).map fun _ _ like => .default like
  · exact parenthesizedCondition_matches.map fun _ _ like => .check like
  · exact foreignKey_matches.map fun _ _ like => .references like

/-- A constraint under a name is read alike. -/
theorem namedColumnConstraint_matches {rule : SqlRule ColumnConstraintKind}
    (fits : Matches texts (sqlLevels f limit) rule (ColumnConstraintKind.Like L)) :
    Matches texts (sqlLevels f limit) (namedColumnConstraint rule) (ColumnConstraint.Like L) := by
  refine fun _ => matches_start.bind fun _ _ _ starts => ?_
  refine constraintName?_matches.bind fun _ _ _ name => fits.bind fun _ _ _ kind => ?_
  exact spanFrom_bind starts fun _ _ span => mirrors_pure ⟨name, kind, span⟩

theorem columnConstraint_matches :
    Matches texts (sqlLevels f limit) (columnConstraint f) (ColumnConstraint.Like L) := by
  unfold columnConstraint
  split
  · refine namedColumnConstraint_matches (matches_choice ?_)
    simp only [List.forall_mem_cons, List.not_mem_nil, false_implies, implies_true, and_true]
    exact ⟨columnConstraintKind_matches,
      fun _ => (matches_expectKeyword _).bind fun _ _ _ _ => mirrors_pure .autoIncrement⟩
  · exact namedColumnConstraint_matches columnConstraintKind_matches

theorem columnDef_matches :
    Matches texts (sqlLevels f limit) (columnDef f) (ColumnDef.Like L) := by
  refine fun _ => matches_start.bind fun _ _ _ starts => identifier_matches.bind fun _ _ _ name => ?_
  refine dataType_matches.optional.bind fun _ _ _ type => ?_
  refine columnConstraint_matches.many.bind fun _ _ _ constraints => ?_
  exact spanFrom_bind starts fun _ _ span => mirrors_pure ⟨name, type, constraints, span⟩

theorem tableConstraintKind_matches :
    Matches texts (sqlLevels f limit) tableConstraintKind (TableConstraintKind.Like L) := by
  refine matches_ifEaten (fun _ => ?_) (matches_ifEaten ?_ (matches_ifEaten (fun _ => ?_)
    (matches_ifEaten ?_ (matches_failAny _))))
  · refine (matches_expectKeyword _).bind fun _ _ _ _ => ?_
    exact identifierList_matches.bind fun _ _ _ columns => mirrors_pure (.primaryKey columns)
  · exact identifierList_matches.map fun _ _ columns => .unique columns
  · refine (matches_expectKeyword _).bind fun _ _ _ _ => ?_
    refine identifierList_matches.bind fun _ _ _ columns => ?_
    exact foreignKey_matches.bind fun _ _ _ key => mirrors_pure (.foreignKey columns key)
  · exact parenthesizedCondition_matches.map fun _ _ like => .check like

theorem tableConstraint_matches :
    Matches texts (sqlLevels f limit) tableConstraint (TableConstraint.Like L) := by
  refine fun _ => matches_start.bind fun _ _ _ starts => ?_
  refine constraintName?_matches.bind fun _ _ _ name => ?_
  refine tableConstraintKind_matches.bind fun _ _ _ kind => ?_
  exact spanFrom_bind starts fun _ _ span => mirrors_pure ⟨name, kind, span⟩

inductive TableElement.Like (L : Likeness) : TableElement → TableElement → Prop
  | column {c c'} : c.Like L c' → Like L (.column c) (.column c')
  | constraint {c c'} : c.Like L c' → Like L (.constraint c) (.constraint c')

theorem tableElement_matches :
    Matches texts (sqlLevels f limit) (tableElement f) (TableElement.Like L) := by
  refine matches_choice ?_
  simp only [List.forall_mem_cons, List.not_mem_nil, false_implies, implies_true, and_true]
  exact ⟨tableConstraint_matches.map fun _ _ like => .constraint like,
    columnDef_matches.map fun _ _ like => .column like⟩

/-- Columns and constraints are told apart in the same way on both sides. -/
theorem elements_like {elements elements' : List TableElement}
    (likes : List.Forall₂ (TableElement.Like L) elements elements') :
    List.Forall₂ (ColumnDef.Like L) (elements.filterMap (·.column?)) (elements'.filterMap (·.column?)) ∧
      List.Forall₂ (TableConstraint.Like L) (elements.filterMap (·.constraint?))
        (elements'.filterMap (·.constraint?)) := by
  induction likes with
  | nil => exact ⟨.nil, .nil⟩
  | cons like _ ih =>
    cases like with
    | column like => exact ⟨.cons like ih.1, ih.2⟩
    | constraint like => exact ⟨ih.1, .cons like ih.2⟩

/-- Columns and constraints in any order. -/
theorem createTableStatement_matches :
    Matches texts (sqlLevels f limit) (createTableStatement f) (CreateTableStatement.Like L) := by
  refine fun _ => matches_start.bind fun _ _ _ starts => ?_
  refine (matches_expectKeyword _).bind fun _ _ _ _ => temporary_matches.bind ?_
  rintro _ temporary _ rfl
  refine (matches_expectKeyword _).bind fun _ _ _ _ => ifNotExists_matches.bind ?_
  rintro _ ifNotExists _ rfl
  refine objectName_matches.bind fun _ _ _ name => ?_
  refine tableElement_matches.parenthesizedList.bind fun _ _ _ elements => ?_
  obtain ⟨columns, constraints⟩ := elements_like elements
  exact spanFrom_bind starts fun _ _ span => mirrors_pure ⟨rfl, rfl, name, columns, constraints, span⟩

theorem insertSource_matches :
    Matches texts (sqlLevels f limit) insertSource (InsertSource.Like L) := by
  refine matches_choice ?_
  simp only [List.forall_mem_cons, List.not_mem_nil, false_implies, implies_true, and_true]
  refine ⟨fun _ => ?_, fun _ => ?_, selectStatement_matches.map fun _ _ like => .query like⟩
  · refine (matches_expectKeyword _).bind fun _ _ _ _ => ?_
    exact any_matches.parenthesizedList.commaSeparated.bind fun _ _ _ rows =>
      mirrors_pure (.values rows)
  · refine (matches_expectKeyword _).bind fun _ _ _ _ => ?_
    exact (matches_expectKeyword _).bind fun _ _ _ _ => mirrors_pure .defaultValues

theorem insertStatement_matches :
    Matches texts (sqlLevels f limit) (insertStatement f) (InsertStatement.Like L) := by
  refine fun _ => matches_start.bind fun _ _ _ starts => ?_
  refine (matches_expectKeyword _).bind fun _ _ _ _ => (matches_expectKeyword _).bind fun _ _ _ _ => ?_
  refine objectName_matches.bind fun _ _ _ table => ?_
  refine identifierList_matches.optional.bind fun _ _ _ columns => ?_
  refine insertSource_matches.bind fun _ _ _ source => ?_
  refine (returningClause_matches (callsMatch texts f limit)).bind fun _ _ _ returning => ?_
  exact spanFrom_bind starts fun _ _ span =>
    mirrors_pure ⟨table, optionalColumns_like columns, source, returning, span⟩

theorem assignment_matches :
    Matches texts (sqlLevels f limit) assignment (UpdateAssignment.Like L) := by
  refine fun _ => matches_start.bind fun _ _ _ starts => identifier_matches.bind fun _ _ _ column => ?_
  refine (matches_expect rfl).bind fun _ _ _ _ => any_matches.bind fun _ _ _ value => ?_
  exact spanFrom_bind starts fun _ _ span => mirrors_pure ⟨column, value, span⟩

theorem updateStatement_matches :
    Matches texts (sqlLevels f limit) (updateStatement f) (UpdateStatement.Like L) := by
  refine fun _ => matches_start.bind fun _ _ _ starts => ?_
  refine (matches_expectKeyword _).bind fun _ _ _ _ => objectName_matches.bind fun _ _ _ table => ?_
  refine alias?_matches.bind fun _ _ _ name => (matches_expectKeyword _).bind fun _ _ _ _ => ?_
  refine assignment_matches.commaSeparated.bind fun _ _ _ assignments => ?_
  refine (clause?_matches (callsMatch texts f limit) _).bind fun _ _ _ condition => ?_
  refine (returningClause_matches (callsMatch texts f limit)).bind fun _ _ _ returning => ?_
  exact spanFrom_bind starts fun _ _ span =>
    mirrors_pure ⟨table, name, assignments, condition, returning, span⟩

theorem deleteStatement_matches :
    Matches texts (sqlLevels f limit) (deleteStatement f) (DeleteStatement.Like L) := by
  refine fun _ => matches_start.bind fun _ _ _ starts => ?_
  refine (matches_expectKeyword _).bind fun _ _ _ _ => (matches_expectKeyword _).bind fun _ _ _ _ => ?_
  refine objectName_matches.bind fun _ _ _ table => alias?_matches.bind fun _ _ _ name => ?_
  refine (clause?_matches (callsMatch texts f limit) _).bind fun _ _ _ condition => ?_
  refine (returningClause_matches (callsMatch texts f limit)).bind fun _ _ _ returning => ?_
  exact spanFrom_bind starts fun _ _ span =>
    mirrors_pure ⟨table, name, condition, returning, span⟩

theorem keywordValue_matches : Matches texts (sqlLevels f limit) keywordValue (Expr.Like L) := by
  refine fun _ => peek_cases (fun kind text span span' here _ => ?_)
    fun _ _ _ _ _ _ => mirrors_failAny _
  have same : (⟨kind, text, span'⟩ : Token).isKeyword = (⟨kind, text, span⟩ : Token).isKeyword := rfl
  rw [same]
  split
  · rename_i word
    refine bump_bind ?_ fun lt => ?_
    · rw [here]
      cases kind <;> first | rfl | cases word
    · rw [(texts.like_of_lt lt).text]
      exact mirrors_pure (.mk (.column .none ⟨rfl, rfl, texts.span lt⟩) (texts.span lt))
  · exact mirrors_failAny _

theorem pragmaValue_matches : Matches texts (sqlLevels f limit) pragmaValue (Expr.Like L) := by
  refine matches_choice ?_
  simp only [List.forall_mem_cons, List.not_mem_nil, false_implies, implies_true, and_true]
  exact ⟨(callsMatch texts f limit).expression _, keywordValue_matches⟩

/-- A pragma, with or without a value. -/
theorem pragmaStatement_matches :
    Matches texts (sqlLevels f limit) pragmaStatement (PragmaStatement.Like L) := by
  refine fun _ => matches_start.bind fun _ _ _ starts => ?_
  refine (matches_expectKeyword _).bind fun _ _ _ _ => objectName_matches.bind fun _ _ _ name => ?_
  refine (matches_eat rfl).ite (fun _ => ?_) fun _ => (matches_eat rfl).ite (fun _ => ?_) fun _ => ?_
  · refine pragmaValue_matches.bind fun _ _ _ value => ?_
    exact spanFrom_bind starts fun _ _ span => mirrors_pure ⟨name, .some value, span⟩
  · refine pragmaValue_matches.bind fun _ _ _ value => (matches_expect rfl).bind fun _ _ _ _ => ?_
    exact spanFrom_bind starts fun _ _ span => mirrors_pure ⟨name, .some value, span⟩
  · exact spanFrom_bind starts fun _ _ span => mirrors_pure ⟨name, .none, span⟩

theorem standardStatement_matches :
    Matches texts (sqlLevels f limit) (standardStatement f) (Statement.Like L) := by
  refine matches_choice ?_
  simp only [List.forall_mem_cons, List.not_mem_nil, false_implies, implies_true, and_true]
  exact ⟨selectStatement_matches.map fun _ _ like => .select like,
    insertStatement_matches.map fun _ _ like => .insert like,
    updateStatement_matches.map fun _ _ like => .update like,
    deleteStatement_matches.map fun _ _ like => .delete like,
    createTableStatement_matches.map fun _ _ like => .createTable like⟩

/-- Every statement that a dialect has is read alike in both texts. -/
theorem statement_matches :
    Matches texts (sqlLevels f limit) (statement f) (Statement.Like L) := by
  unfold statement
  split
  · refine matches_choice ?_
    simp only [List.forall_mem_cons, List.not_mem_nil, false_implies, implies_true, and_true]
    exact ⟨standardStatement_matches, pragmaStatement_matches.map fun _ _ like => .pragma like⟩
  · exact standardStatement_matches

/-- Both runs read one more statement, or come to the end of their texts. -/
theorem scriptStep_mirrors (closed : texts.Closed) {R : List Statement → List Statement → Prop}
    (more : ∀ st st' x x', st.Like L st' → R x x' → R (st :: x) (st' :: x')) {i : Nat}
    {x x' : List Statement} (holds : R x x') :
    Mirrors texts (sqlLevels f limit) i (scriptStep f x) (scriptStep f x')
      fun k => Paces (fun _ => R) x x' k := by
  refine (semicolons_matches closed).bind fun _ _ _ _ => ?_
  refine (matches_check (.inl closed)).ite (fun _ => mirrors_pure (.stop holds)) fun _ => ?_
  refine statement_matches.attempt.bind fun _ _ _ like => ?_
  have next := more _ _ _ _ like holds
  refine (matches_check (.inl closed)).ite (fun _ => mirrors_pure (.next next)) fun _ => ?_
  exact (matches_expectIf (.inl closed) rfl).bind fun _ _ _ _ => mirrors_pure (.next next)

/-- Scripts are read alike if both texts end together. -/
theorem script_matches (closed : texts.Closed) :
    Matches texts (sqlLevels f limit) (script f) (Script.Like L) := by
  refine fun _ => matches_start.bind fun _ _ _ starts => ?_
  refine Mirrors.loop_bind (fun _ => List.Forall₂ (Statement.Like L)) .nil
    (fun _ _ _ likes => scriptStep_mirrors closed (fun _ _ _ _ => .cons) likes) ?_
  exact fun _ _ _ likes => spanFrom_bind starts fun _ _ span =>
    mirrors_pure ⟨List.rel_reverse likes, span⟩

/-- Models of all kinds are read alike. -/
theorem entry_matches (closed : texts.Closed) (kind : ModelKind) :
    Matches texts (sqlLevels f limit) (entry f kind) (Model.Like L) := by
  cases kind with
  | statement => exact statement_matches.map fun _ _ like => .statement like
  | select => exact selectStatement_matches.map fun _ _ like => .select like
  | insert => exact insertStatement_matches.map fun _ _ like => .insert like
  | update => exact updateStatement_matches.map fun _ _ like => .update like
  | delete => exact deleteStatement_matches.map fun _ _ like => .delete like
  | createTable => exact createTableStatement_matches.map fun _ _ like => .createTable like
  | pragma => exact pragmaStatement_matches.map fun _ _ like => .pragma like
  | script => exact (script_matches closed).map fun _ _ like => .script like
  | expression => exact any_matches.map fun _ _ like => .expression like

end SqlTree
