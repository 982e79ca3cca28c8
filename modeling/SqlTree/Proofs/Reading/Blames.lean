import SqlTree.Grammar.Entry
import SqlTree.Proofs.Reading.Grounds

namespace SqlTree

section

variable {G : Grounds}

namespace SqlRule

open Rule

@[simp] theorem identifier_blames : identifier.Blames G := by
  simp only [identifier, blames_bind, blames_peek, true_and]
  intro t
  split <;> simp

@[simp] theorem objectName_blames : objectName.Blames G := by simp [objectName]

@[simp] theorem identifierList_blames : identifierList.Blames G := by simp [identifierList]

@[simp] theorem expression_blames : expression.Blames G := trivial

@[simp] theorem operand_blames : operand.Blames G := trivial

@[simp] theorem selectStatement_blames : selectStatement.Blames G := trivial

@[simp] theorem joinGroup_blames : joinGroup.Blames G := trivial

@[simp] theorem typeWord?_blames (isFirst : Bool) : (typeWord? isFirst).Blames G := by
  simp only [typeWord?, blames_bind, blames_peek, true_and]
  intro t
  split <;> simp

@[simp] theorem eatWord_blames (word : String) : (eatWord word).Blames G := by
  simp only [eatWord, blames_bind, blames_peek, true_and]
  intro t
  split <;> simp

@[simp] theorem integerUpTo_blames (limit : Nat) (what : String) :
    (integerUpTo limit what).Blames G := by
  simp only [integerUpTo, blames_bind, blames_peek, true_and]
  intro t
  split <;> simp

@[simp] theorem balanced_blames : balanced.Blames G := by
  simp only [balanced, blames_bind, blames_loop, blames_peek, blames_pure, true_and, and_true,
    implies_true]
  intro depth t
  split <;> simp

@[simp] theorem customType_blames (first : String) : (customType first).Blames G := by
  simp only [customType, blames_bind, blames_loop, typeWord?_blames, true_and]
  refine ⟨fun name word _ => ?_, by simp⟩
  split <;> simp

@[simp] theorem dataType_blames : dataType.Blames G := by
  simp only [dataType, blames_bind, typeWord?_blames, true_and]
  intro word _
  split
  · simp
  · refine ⟨trivial, fun _ _ => ⟨by simp [typeName], fun name _ => ?_⟩⟩
    dsimp only
    split <;> simp [lengthArgument, scaleArguments]

@[simp] theorem infixOp?_blames (f : Features) : (infixOp? f).Blames G := by
  simp only [infixOp?, blames_bind, blames_peek, true_and]
  intro t
  split <;> simp [predicate?]

@[simp] theorem infixed_blames (op : InfixOp) (left : Expr) : (infixed op left).Blames G := by
  cases op <;> simp [infixed, negation]

@[simp] theorem functionCall_blames (name : Ident) (p : Position) :
    (functionCall name p).Blames G := by simp [functionCall]

@[simp] theorem nameExpression_blames : nameExpression.Blames G := by simp [nameExpression]

@[simp] theorem caseExpression_blames : caseExpression.Blames G := by
  simp [caseExpression, whenClause]

@[simp] theorem keywordForm_blames {form : SqlRule Expr} (reserved : Bool)
    (blames : form.Blames G) : (keywordForm reserved form).Blames G := by
  unfold keywordForm
  split
  · exact blames
  · exact blames_choice (by simp [blames])

@[simp] theorem wordExpression_blames (p : Position) : (wordExpression p).Blames G := by
  simp only [wordExpression, blames_bind, blames_peek, blames_checkKeyword, true_and, blames_ite]
  refine fun t _ isCase _ => ⟨by simp, fun _ isCast _ => ⟨by simp [castExpression], fun _ isExists _ =>
    ⟨by simp [existsExpression], fun _ => ⟨by simp [literalWord?], fun word _ => ?_⟩⟩⟩⟩
  split
  · simp
  · refine ⟨trivial, fun t _ => ?_⟩
    dsimp only
    split <;> simp

@[simp] theorem primary_blames : primary.Blames G := by
  simp only [primary, blames_bind, blames_start, blames_peek, true_and]
  intro p _ t _
  split <;> simp [single]

@[simp] theorem expressionBody_blames (f : Features) (power : Nat) :
    (expressionBody f power).Blames G := by
  simp only [expressionBody, blames_bind, blames_start, true_and, blames_loop]
  refine fun p _ => ⟨?_, fun first _ left => ⟨by simp, fun op _ => ?_⟩⟩
  · simp only [prefixed, blames_bind, blames_start, blames_peek, true_and]
    intro _ _ t _
    split <;> simp
  · split <;> simp

@[simp] theorem alias?_blames (f : Features) : (alias? f).Blames G := by simp [alias?]

@[simp] theorem selectColumn_blames (f : Features) : (selectColumn f).Blames G := by simp [selectColumn]

@[simp] theorem clause?_blames (k : Keyword) : (clause? k).Blames G := by simp [clause?]

@[simp] theorem returningClause_blames (f : Features) :
    (returningClause f).Blames G := by simp [returningClause]

@[simp] theorem tableRef_blames (f : Features) : (tableRef f).Blames G := by
  have factor : (tableFactor f).Blames G := blames_choice (by simp [namedTable, derivedTable])
  have joins : (joinClause f).Blames G := by
    simp [joinClause, joinType, joinCondition, factor]
  simp [tableRef, factor, joins]

@[simp] theorem limit?_blames (f : Features) : (limit? f).Blames G := by
  have clause (form : LimitForm) : (limitClause form).Blames G := by
    cases form <;> simp [limitClause, limitCountFirst, limitAnyOrder, limitCount?, limitOffset]
  unfold limit?
  split <;> simp [clause]

@[simp] theorem queryBody_blames (f : Features) : (queryBody f).Blames G := by
  have item : (orderByItem f).Blames G := by
    simp [orderByItem, orderDirection, nullOrdering?]
  simp [queryBody, distinct, whereClause?, byClause, item]

@[simp] theorem foreignKey_blames : foreignKey.Blames G := by
  simp [foreignKey, referentialActions, referentialAction]

@[simp] theorem columnConstraintKind_blames : columnConstraintKind.Blames G := blames_choice (by
  simp [notNull, null, primaryKey, unique, defaultValue, checkConstraint, parenthesizedCondition,
    references])

@[simp] theorem columnConstraint_blames (f : Features) : (columnConstraint f).Blames G := by
  have named {kind : SqlRule ColumnConstraintKind} (blames : kind.Blames G) :
      (namedColumnConstraint kind).Blames G := by
    simp [namedColumnConstraint, constraintName?, blames]
  unfold columnConstraint
  split
  · exact named (blames_choice (by simp [autoIncrement]))
  · exact named columnConstraintKind_blames

@[simp] theorem columnDef_blames (f : Features) : (columnDef f).Blames G := by simp [columnDef]

@[simp] theorem tableConstraint_blames : tableConstraint.Blames G := by
  simp [tableConstraint, constraintName?, tableConstraintKind, parenthesizedCondition]

@[simp] theorem createTableStatement_blames (f : Features) : (createTableStatement f).Blames G := by
  have element : (tableElement f).Blames G :=
    blames_choice (by simp [constraintElement, columnElement])
  simp [createTableStatement, temporary, ifNotExists, element]

@[simp] theorem insertStatement_blames (f : Features) : (insertStatement f).Blames G := by
  have source : insertSource.Blames G :=
    blames_choice (by simp [valuesSource, defaultValuesSource, querySource])
  simp [insertStatement, source]

@[simp] theorem updateStatement_blames (f : Features) : (updateStatement f).Blames G := by
  simp [updateStatement, assignment, whereClause?]

@[simp] theorem deleteStatement_blames (f : Features) :
    (deleteStatement f).Blames G := by simp [deleteStatement, whereClause?]

@[simp] theorem pragmaStatement_blames : pragmaStatement.Blames G := by
  have value : pragmaValue.Blames G := blames_choice (by simp [keywordValue])
  simp [pragmaStatement, value]

@[simp] theorem standardStatement_blames (f : Features) : (standardStatement f).Blames G := blames_choice (by
  simp [selectAsStatement, insertAsStatement, updateAsStatement, deleteAsStatement,
    createTableAsStatement])

@[simp] theorem statement_blames (f : Features) : (statement f).Blames G := by
  unfold statement
  split
  · exact blames_choice (by simp [pragmaAsStatement])
  · exact standardStatement_blames f

/-- Whatever kind of model is asked for, the rule of the whole text fails only on good grounds. -/
theorem entry_blames (f : Features) (kind : ModelKind) : (entry f kind).Blames G := by
  cases kind <;> simp [entry, script, semicolons]

end SqlRule

/-- What the names of rules stand for fails only on good grounds. -/
theorem Symbol.body_blames (f : Features) (α : Type) (name : Symbol α) :
    (Symbol.body f α name).Blames G := by
  cases name with
  | expression power => exact SqlRule.expressionBody_blames f power
  | query => exact SqlRule.queryBody_blames f
  | joinGroup => simp [Symbol.body, SqlRule.joinGroupBody]

end

end SqlTree
