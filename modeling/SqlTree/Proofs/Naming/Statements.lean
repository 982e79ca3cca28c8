import SqlTree.Proofs.Lockstep.Layout
import SqlTree.Proofs.Naming.Expressions

namespace SqlTree

open Rule SqlRule

variable {N : Naming} {f : Features}

theorem selectColumn_accords : Accords N (SelectColumn.Alike N) (selectColumn f) (selectColumn f) := by
  refine accords_start.same_bind fun _ => any_accords.bind fun _ _ like => ?_
  exact alias?_accords.bind fun _ _ name => spanFrom_then fun _ => .mk like name

theorem clause?_accords (k : Keyword) : Accords N (Option.Rel (Expr.Alike N)) (clause? k) (clause? k) :=
  any_accords.ifWord

theorem returningClause_accords :
    Accords N (List.Forall₂ (SelectColumn.Alike N)) (returningClause f) (returningClause f) :=
  ((accords_eatKeyword _).choose (accords_pure rfl)).ite selectColumn_accords.commaSeparated
    (accords_pure .nil)

theorem namedTable_accords : Accords N (TableRef.Alike N) (namedTable f) (namedTable f) := by
  refine accords_start.same_bind fun _ => objectName_accords.bind fun _ _ table => ?_
  exact alias?_accords.bind fun _ _ name => spanFrom_then fun _ => .table table name

theorem derivedTable_accords : Accords N (TableRef.Alike N) (derivedTable f) (derivedTable f) := by
  refine accords_start.same_bind fun _ => Accords.behind (selectStatement_accords.bind fun _ _ query => ?_)
  exact Accords.behind (alias?_accords.bind fun _ _ name => spanFrom_then fun _ => .subquery query name)

theorem tableFactor_accords : Accords N (TableRef.Alike N) (tableFactor f) (tableFactor f) := by
  refine accords_choice ?_
  simp only [List.forall_mem_cons, List.not_mem_nil, false_implies, implies_true, and_true]
  exact ⟨namedTable_accords, derivedTable_accords, accords_call .joinGroup⟩

/-- A join condition and the columns of USING, of which there is at most one. -/
abbrev JoinConditionAlike (N : Naming) (on on' : Option Expr × List Ident) : Prop :=
  Option.Rel (Expr.Alike N) on.1 on'.1 ∧ List.Forall₂ N.name on.2 on'.2

theorem joinCondition_accords : Accords N (JoinConditionAlike N) joinCondition joinCondition := by
  refine (any_accords.map fun _ _ like => ⟨.some like, .nil⟩).ifEaten ?_
  exact (identifierList_accords.map fun _ _ names => ⟨.none, names⟩).ifEaten (accords_failAny _)

theorem joinClause_accords : Accords N (JoinClause.Alike N) (joinClause f) (joinClause f) := by
  refine accords_start.same_bind fun _ => (accords_eatKeyword _).same_bind fun natural => ?_
  refine joinType_accords.same_bind fun type => tableFactor_accords.bind fun _ _ table => ?_
  refine ((accords_pure ⟨.none, .nil⟩).choose joinCondition_accords).bind ?_
  rintro ⟨condition, columns⟩ ⟨condition', columns'⟩ ⟨alike, names⟩
  exact spanFrom_then fun _ => .mk type natural table alike names

theorem JoinClause.Alike.span {j j' : JoinClause} (alike : j.Alike N j') : j'.span = j.span := by
  cases alike
  rfl

/-- Joins behind a table group to the left on both sides. -/
theorem joins_alike {left left' : TableRef} {joins joins' : List JoinClause} (start : Position)
    (like : left.Alike N left') (alike : List.Forall₂ (JoinClause.Alike N) joins joins') :
    (joins.foldl (fun left join => .join left join ⟨start, join.span.stop⟩) left).Alike N
      (joins'.foldl (fun left join => .join left join ⟨start, join.span.stop⟩) left') := by
  induction alike generalizing left left' with
  | nil => exact like
  | cons join _ ih =>
    simp only [List.foldl_cons, join.span]
    exact ih (.join like join)

/-- Tables with their joins accord. -/
theorem tableRef_accords : Accords N (TableRef.Alike N) (tableRef f) (tableRef f) := by
  refine accords_start.same_bind fun start => tableFactor_accords.bind fun _ _ first => ?_
  exact joinClause_accords.many.map fun _ _ joins => joins_alike start first joins

theorem joinGroupBody_accords : Accords N (TableRef.Alike N) (joinGroupBody f) (joinGroupBody f) :=
  Accords.behind (tableRef_accords.bind fun _ _ like => (accords_pure like).behind)

theorem orderByItem_accords : Accords N (OrderBy.Alike N) (orderByItem f) (orderByItem f) := by
  refine accords_start.same_bind fun _ => any_accords.bind fun _ _ like => ?_
  refine orderDirection_accords.same_bind fun direction => ?_
  exact nullOrdering?_accords.same_bind fun nulls => spanFrom_then fun _ => .mk direction nulls like

theorem byClause_accords {α : Type} {R : α → α → Prop} {item : SqlRule α} {k : Keyword}
    (each : Accords N R item item) : Accords N (List.Forall₂ R) (byClause k item) (byClause k item) :=
  each.commaSeparated.behindWord.ifEaten (accords_pure .nil)

theorem limitCountFirst_accords : Accords N (Limit.Alike N) limitCountFirst limitCountFirst := by
  refine accords_start.same_bind fun _ => Accords.behindWord (any_accords.bind fun _ _ first => ?_)
  refine Accords.ifEaten (any_accords.bind fun _ _ offset => ?_) ((accords_eat _).ite
    (any_accords.bind fun _ _ count => ?_) ?_)
  · exact spanFrom_then fun _ => .mk (.some first) (.some offset)
  · exact spanFrom_then fun _ => .mk (.some count) (.some first)
  · exact spanFrom_then fun _ => .mk (.some first) .none

theorem limitCount?_accords : Accords N (Option.Rel (Expr.Alike N)) limitCount? limitCount? :=
  (accords_pure .none).ifEaten (any_accords.map fun _ _ like => .some like)

theorem limitOffset_accords : Accords N (Expr.Alike N) limitOffset limitOffset :=
  any_accords.bind fun _ _ like => (accords_pure like).ifEaten
    ((accords_eatKeyword _).same_bind fun _ => accords_pure like)

structure LimitParts.Alike (N : Naming) (parts parts' : LimitParts) : Prop where
  limitSeen : parts'.limitSeen = parts.limitSeen
  count : Option.Rel (Expr.Alike N) parts.count parts'.count
  offset : Option.Rel (Expr.Alike N) parts.offset parts'.offset

theorem LimitParts.Alike.isSome {parts parts' : LimitParts} (alike : LimitParts.Alike N parts parts') :
    parts'.offset.isSome = parts.offset.isSome := by
  obtain ⟨-, -, offset⟩ := alike
  revert offset
  generalize parts.offset = left
  generalize parts'.offset = right
  rintro (_ | _) <;> rfl

/-- Limits accord in whatever order their parts are written. -/
theorem limitAnyOrder_accords : Accords N (Limit.Alike N) limitAnyOrder limitAnyOrder := by
  refine accords_start.same_bind fun _ => ?_
  refine Accords.bind (R := LimitParts.Alike N) (Accords.loop (fun parts parts' alike => ?_)
    ⟨rfl, .none, .none⟩) fun parts parts' alike => ?_
  · rw [alike.limitSeen, alike.isSome]
    refine ((accords_pure rfl).choose (accords_eatKeyword _)).ite ?_
      (((accords_pure rfl).choose (accords_eatKeyword _)).ite ?_ (accords_pure .none))
    · exact limitCount?_accords.map fun _ _ count => .some ⟨rfl, count, alike.offset⟩
    · exact limitOffset_accords.map fun _ _ offset => .some ⟨rfl, alike.count, .some offset⟩
  · rw [alike.limitSeen, alike.isSome]
    exact (spanFrom_then fun _ => .mk alike.count alike.offset).choose (accords_failAny _)

/-- Limits accord in each of their forms. -/
theorem limitClause_accords (form : LimitForm) :
    Accords N (Limit.Alike N) (limitClause form) (limitClause form) := by
  cases form with
  | countFirst => exact limitCountFirst_accords
  | anyOrder => exact limitAnyOrder_accords

theorem limit?_accords : Accords N (Option.Rel (Limit.Alike N)) (limit? f) (limit? f) := by
  unfold limit?
  split
  · exact (limitClause_accords _).optional
  · exact accords_pure .none

/-- Queries accord. -/
theorem queryBody_accords : Accords N (SelectStatement.Alike N) (queryBody f) (queryBody f) := by
  have tables : Accords N (List.Forall₂ (TableRef.Alike N)) (do
      if ← eatKeyword .FROM then commaSeparated (tableRef f) else return [])
      (do if ← eatKeyword .FROM then commaSeparated (tableRef f) else return []) :=
    tableRef_accords.commaSeparated.ifEaten (accords_pure .nil)
  refine accords_start.same_bind fun _ => Accords.behindWord (distinct_accords.same_bind fun distinct => ?_)
  refine selectColumn_accords.commaSeparated.bind fun _ _ columns => tables.bind fun _ _ tables => ?_
  refine (clause?_accords _).bind fun _ _ condition => ?_
  refine (byClause_accords any_accords).bind fun _ _ groupBy => ?_
  refine (clause?_accords _).bind fun _ _ having => ?_
  refine (byClause_accords orderByItem_accords).bind fun _ _ orderBy => ?_
  refine limit?_accords.bind fun _ _ limit => ?_
  exact spanFrom_then fun _ => .mk distinct columns tables condition groupBy having orderBy limit

/-- What may be called from inside itself accords with itself at every level of nesting. -/
theorem sqlLevels_accord (N : Naming) (f : Features) (limit : Nat) :
    ∀ level ∈ sqlLevels f limit, TapeLevel.Accords N level := by
  induction limit with
  | zero => exact fun _ mem => absurd mem List.not_mem_nil
  | succ limit ih =>
    refine List.forall_mem_cons.mpr ⟨fun α name s s' paired => ?_, ih⟩
    cases name with
    | expression power => exact expressionBody_accords power _ ih s s' paired
    | query => exact queryBody_accords _ ih s s' paired
    | joinGroup => exact joinGroupBody_accords _ ih s s' paired

/-- Columns that are left out are none on both sides. -/
theorem optionalColumns_alike {columns columns' : Option (List Ident)}
    (alike : Option.Rel (List.Forall₂ N.name) columns columns') :
    List.Forall₂ N.name (columns.getD []) (columns'.getD []) := by
  cases alike with
  | none => exact .nil
  | some names => exact names

theorem foreignKey_accords : Accords N (ForeignKey.Alike N) foreignKey foreignKey := by
  refine accords_start.same_bind fun _ => Accords.behindWord (objectName_accords.bind fun _ _ table => ?_)
  refine identifierList_accords.optional.bind fun _ _ columns => ?_
  refine referentialActions_accords.same_bind fun (onDelete, onUpdate) => ?_
  exact spanFrom_then fun _ => ⟨table, optionalColumns_alike columns, rfl, rfl, rfl⟩

theorem parenthesizedCondition_accords :
    Accords N (Expr.Alike N) parenthesizedCondition parenthesizedCondition :=
  Accords.behind (any_accords.bind fun _ _ like => (accords_pure like).behind)

theorem primaryKey_accords : Accords N (ColumnConstraintKind.Alike N) primaryKey primaryKey :=
  Accords.behindWord (Accords.behindWord ((accords_pure (.primaryKey _)).ifEaten
    ((accords_pure (.primaryKey _)).ifEaten (accords_pure (.primaryKey _)))))

/-- Constraints on columns accord. -/
theorem columnConstraintKind_accords :
    Accords N (ColumnConstraintKind.Alike N) columnConstraintKind columnConstraintKind := by
  refine accords_choice ?_
  simp only [List.forall_mem_cons, List.not_mem_nil, false_implies, implies_true, and_true]
  refine ⟨(accords_pure .notNull).behindWord.behindWord, (accords_pure .null).behindWord,
    primaryKey_accords, (accords_pure .unique).behindWord, Accords.behindWord ?_,
    Accords.behindWord ?_, ?_⟩
  · exact (expression_accords _).map fun _ _ like => .default like
  · exact parenthesizedCondition_accords.map fun _ _ like => .check like
  · exact foreignKey_accords.map fun _ _ key => .references key

theorem namedColumnConstraint_accords {rule : SqlRule ColumnConstraintKind}
    (fits : Accords N (ColumnConstraintKind.Alike N) rule rule) :
    Accords N (ColumnConstraint.Alike N) (namedColumnConstraint rule) (namedColumnConstraint rule) := by
  refine accords_start.same_bind fun _ => constraintName?_accords.bind fun _ _ name => ?_
  exact fits.bind fun _ _ kind => spanFrom_then fun _ => ⟨name, kind, rfl⟩

theorem columnConstraint_accords :
    Accords N (ColumnConstraint.Alike N) (columnConstraint f) (columnConstraint f) := by
  unfold columnConstraint
  split
  · refine namedColumnConstraint_accords (accords_choice ?_)
    simp only [List.forall_mem_cons, List.not_mem_nil, false_implies, implies_true, and_true]
    exact ⟨columnConstraintKind_accords, (accords_pure .autoIncrement).behindWord⟩
  · exact namedColumnConstraint_accords columnConstraintKind_accords

theorem columnDef_accords : Accords N (ColumnDef.Alike N) (columnDef f) (columnDef f) := by
  refine accords_start.same_bind fun _ => identifier_accords.bind fun _ _ name => ?_
  refine dataType_accords.optional.bind fun _ _ type => ?_
  refine columnConstraint_accords.many.bind fun _ _ constraints => ?_
  exact spanFrom_then fun _ => ⟨name, type, constraints, rfl⟩

theorem tableConstraintKind_accords :
    Accords N (TableConstraintKind.Alike N) tableConstraintKind tableConstraintKind := by
  refine Accords.ifEaten (Accords.behindWord ?_) (Accords.ifEaten ?_ (Accords.ifEaten
    (Accords.behindWord ?_) (Accords.ifEaten ?_ (accords_failAny _))))
  · exact identifierList_accords.map fun _ _ columns => .primaryKey columns
  · exact identifierList_accords.map fun _ _ columns => .unique columns
  · refine identifierList_accords.bind fun _ _ columns => ?_
    exact foreignKey_accords.map fun _ _ key => .foreignKey columns key
  · exact parenthesizedCondition_accords.map fun _ _ like => .check like

theorem tableConstraint_accords : Accords N (TableConstraint.Alike N) tableConstraint tableConstraint := by
  refine accords_start.same_bind fun _ => constraintName?_accords.bind fun _ _ name => ?_
  exact tableConstraintKind_accords.bind fun _ _ kind => spanFrom_then fun _ => ⟨name, kind, rfl⟩

inductive TableElement.Alike (N : Naming) : TableElement → TableElement → Prop
  | column {c c'} : c.Alike N c' → Alike N (.column c) (.column c')
  | constraint {c c'} : c.Alike N c' → Alike N (.constraint c) (.constraint c')

theorem tableElement_accords :
    Accords N (TableElement.Alike N) (tableElement f) (tableElement f) := by
  refine accords_choice ?_
  simp only [List.forall_mem_cons, List.not_mem_nil, false_implies, implies_true, and_true]
  exact ⟨tableConstraint_accords.map fun _ _ alike => .constraint alike,
    columnDef_accords.map fun _ _ alike => .column alike⟩

/-- Columns and constraints are told apart in the same way on both sides. -/
theorem elements_alike {elements elements' : List TableElement}
    (alike : List.Forall₂ (TableElement.Alike N) elements elements') :
    List.Forall₂ (ColumnDef.Alike N) (elements.filterMap (·.column?)) (elements'.filterMap (·.column?)) ∧
      List.Forall₂ (TableConstraint.Alike N) (elements.filterMap (·.constraint?))
        (elements'.filterMap (·.constraint?)) := by
  induction alike with
  | nil => exact ⟨.nil, .nil⟩
  | cons alike _ ih =>
    cases alike with
    | column alike => exact ⟨.cons alike ih.1, ih.2⟩
    | constraint alike => exact ⟨ih.1, .cons alike ih.2⟩

theorem createTableStatement_accords :
    Accords N (CreateTableStatement.Alike N) (createTableStatement f) (createTableStatement f) := by
  refine accords_start.same_bind fun _ => Accords.behindWord (temporary_accords.same_bind fun temporary => ?_)
  refine Accords.behindWord (ifNotExists_accords.same_bind fun ifNotExists => ?_)
  refine objectName_accords.bind fun _ _ name => ?_
  refine tableElement_accords.parenthesizedList.bind fun _ _ elements => ?_
  obtain ⟨columns, constraints⟩ := elements_alike elements
  exact spanFrom_then fun _ => ⟨rfl, rfl, name, columns, constraints, rfl⟩

theorem insertSource_accords : Accords N (InsertSource.Alike N) insertSource insertSource := by
  refine accords_choice ?_
  simp only [List.forall_mem_cons, List.not_mem_nil, false_implies, implies_true, and_true]
  refine ⟨Accords.behindWord ?_, (accords_pure .defaultValues).behindWord.behindWord, ?_⟩
  · exact any_accords.parenthesizedList.commaSeparated.map fun _ _ rows => .values rows
  · exact selectStatement_accords.map fun _ _ query => .query query

theorem insertStatement_accords :
    Accords N (InsertStatement.Alike N) (insertStatement f) (insertStatement f) := by
  refine accords_start.same_bind fun _ => Accords.behindWord (Accords.behindWord ?_)
  refine objectName_accords.bind fun _ _ table => identifierList_accords.optional.bind fun _ _ columns => ?_
  refine insertSource_accords.bind fun _ _ source => returningClause_accords.bind fun _ _ returning => ?_
  exact spanFrom_then fun _ => ⟨table, optionalColumns_alike columns, source, returning, rfl⟩

theorem assignment_accords : Accords N (UpdateAssignment.Alike N) assignment assignment := by
  refine accords_start.same_bind fun _ => identifier_accords.bind fun _ _ column => Accords.behind ?_
  exact any_accords.bind fun _ _ value => spanFrom_then fun _ => ⟨column, value, rfl⟩

theorem updateStatement_accords :
    Accords N (UpdateStatement.Alike N) (updateStatement f) (updateStatement f) := by
  refine accords_start.same_bind fun _ => Accords.behindWord (objectName_accords.bind fun _ _ table => ?_)
  refine alias?_accords.bind fun _ _ name => Accords.behindWord ?_
  refine assignment_accords.commaSeparated.bind fun _ _ assignments => ?_
  refine (clause?_accords _).bind fun _ _ condition => returningClause_accords.bind fun _ _ returning => ?_
  exact spanFrom_then fun _ => ⟨table, name, assignments, condition, returning, rfl⟩

theorem deleteStatement_accords :
    Accords N (DeleteStatement.Alike N) (deleteStatement f) (deleteStatement f) := by
  refine accords_start.same_bind fun _ => Accords.behindWord (Accords.behindWord ?_)
  refine objectName_accords.bind fun _ _ table => alias?_accords.bind fun _ _ name => ?_
  refine (clause?_accords _).bind fun _ _ condition => returningClause_accords.bind fun _ _ returning => ?_
  exact spanFrom_then fun _ => ⟨table, name, condition, returning, rfl⟩

/-- A reserved word is kept as the name that it would be without being reserved. -/
theorem keywordValue_accords : Accords N (PragmaValue.Alike N) keywordValue keywordValue := by
  refine bump_seen (fun _ _ token => (N.recased token).isKeyword) (fun t t' token reserved => ?_)
    (accords_failAny _)
  rw [(N.recased token).span]
  refine accords_pure (.word ?_)
  have word := N.word_of token reserved
  rwa [Token.word, Token.word, (N.recased token).span] at word

/-- The value of a pragma is an operand on both sides, or a reserved word. -/
theorem pragmaValue_accords : Accords N (PragmaValue.Alike N) pragmaValue pragmaValue := by
  refine accords_choice ?_
  simp only [List.forall_mem_cons, List.not_mem_nil, false_implies, implies_true, and_true]
  exact ⟨(expression_accords _).mono fun _ _ like => .operand like, keywordValue_accords⟩

theorem pragmaStatement_accords :
    Accords N (PragmaStatement.Alike N) pragmaStatement pragmaStatement := by
  refine accords_start.same_bind fun _ => Accords.behindWord (objectName_accords.bind fun _ _ name => ?_)
  refine (accords_eat _).ite ?_ ((accords_eat _).ite ?_ ?_)
  · exact pragmaValue_accords.bind fun _ _ value => spanFrom_then fun _ => ⟨name, .some value, rfl⟩
  · refine pragmaValue_accords.bind fun _ _ value => Accords.behind ?_
    exact spanFrom_then fun _ => ⟨name, .some value, rfl⟩
  · exact spanFrom_then fun _ => ⟨name, .none, rfl⟩

theorem standardStatement_accords :
    Accords N (Statement.Alike N) (standardStatement f) (standardStatement f) := by
  refine accords_choice ?_
  simp only [List.forall_mem_cons, List.not_mem_nil, false_implies, implies_true, and_true]
  exact ⟨selectStatement_accords.map fun _ _ alike => .select alike,
    insertStatement_accords.map fun _ _ alike => .insert alike,
    updateStatement_accords.map fun _ _ alike => .update alike,
    deleteStatement_accords.map fun _ _ alike => .delete alike,
    createTableStatement_accords.map fun _ _ alike => .createTable alike⟩

/-- All statements accord. -/
theorem statement_accords : Accords N (Statement.Alike N) (statement f) (statement f) := by
  refine Accords.choose (accords_choice ?_) standardStatement_accords
  simp only [List.forall_mem_cons, List.not_mem_nil, false_implies, implies_true, and_true]
  exact ⟨standardStatement_accords, pragmaStatement_accords.map fun _ _ alike => .pragma alike⟩

theorem script_accords : Accords N (Script.Alike N) (script f) (script f) := by
  refine accords_start.same_bind fun _ => ?_
  refine Accords.bind (R := List.Forall₂ (Statement.Alike N)) (Accords.loop (fun _ _ statements => ?_) .nil)
    fun _ _ statements => spanFrom_then fun _ => ⟨List.rel_reverse statements, rfl⟩
  refine semicolons_accords.same_bind fun _ => (accords_check _).ite (accords_pure .none) ?_
  refine statement_accords.attempt.bind fun _ _ alike => ?_
  refine (accords_check _).ite (accords_pure ?_) (accords_pure ?_).behind
  · exact .some (.cons alike statements)
  · exact .some (.cons alike statements)

/-- The rules for whole texts accord, whatever kind of model they are for. -/
theorem entry_accords (kind : ModelKind) : Accords N (Model.Alike N) (entry f kind) (entry f kind) := by
  cases kind with
  | statement => exact statement_accords.map fun _ _ alike => .statement alike
  | select => exact selectStatement_accords.map fun _ _ alike => .select alike
  | insert => exact insertStatement_accords.map fun _ _ alike => .insert alike
  | update => exact updateStatement_accords.map fun _ _ alike => .update alike
  | delete => exact deleteStatement_accords.map fun _ _ alike => .delete alike
  | createTable => exact createTableStatement_accords.map fun _ _ alike => .createTable alike
  | pragma => exact pragmaStatement_accords.map fun _ _ alike => .pragma alike
  | script => exact script_accords.map fun _ _ alike => .script alike
  | expression => exact any_accords.map fun _ _ alike => .expression alike

/-- Analyses that come to models that are alike, or to errors of one kind at one place that expected the
same. -/
inductive AnalysisOutcome.Alike (N : Naming) : AnalysisOutcome → AnalysisOutcome → Prop
  | model {m m'} : m.Alike N m' → Alike N (.ok m) (.ok m')
  | error {e e' : AnalysisError} : e'.kind = e.kind → e'.position? = e.position? →
      e'.expected = e.expected → Alike N (.error e) (.error e')

/-- Failures that say the same make errors of one kind at one place. -/
theorem Failure.Alike.outcome {failure failure' : Failure} (alike : failure.Alike failure') :
    AnalysisOutcome.Alike N (.error (.ofFailure failure)) (.error (.ofFailure failure')) := by
  cases alike with
  | mismatch alike => exact .error rfl (congrArg some alike.position) alike.expected
  | terminal => exact .error rfl rfl rfl

/-- Texts whose tokens may stand for each other come to the same. -/
theorem Dialect.parse_alike (d : Dialect) (kind : ModelKind) {text text' : String}
    {tokens tokens' : List Token} {stop : Except LexError Token}
    (lexes : Lexes d.lexical (.ofText text.toList) tokens stop)
    (lexes' : Lexes d.lexical (.ofText text'.toList) tokens' stop)
    (letters : List.Forall₂ SameLetter text.toList text'.toList)
    (alike : List.Forall₂ N.token tokens tokens') (ends : ∀ eof, stop = .ok eof → N.token eof eof) :
    AnalysisOutcome.Alike N (d.parse kind text) (d.parse kind text') := by
  by_cases supported : d.supports kind
  · have paired : (Tape.ofText text.toList tokens stop).Paired N (.ofText text'.toList tokens' stop) :=
      ⟨⟨letters, rfl, ends, rfl, .none⟩, alike, rfl, rfl⟩
    have accords : Accords N (Model.Alike N) (entry d.features kind).run (entry d.features kind).run :=
      (entry_accords kind).run
    have readings := accords _ (sqlLevels_accord N d.features maxNesting) _ _ paired
    rw [Dialect.parse_eq_read supported lexes, Dialect.parse_eq_read supported lexes']
    revert readings
    generalize (entry d.features kind).run.read _ _ = reading
    generalize (entry d.features kind).run.read _ _ = reading'
    rintro (⟨-, related⟩ | ⟨failures, -⟩)
    · exact .model related
    · exact failures.outcome
  · rw [Dialect.parse_unsupported supported, Dialect.parse_unsupported supported]
    exact .error rfl rfl rfl

end SqlTree
