import SqlTree.Proofs.Dialects.Even
import SqlTree.Proofs.Writing.Words

namespace SqlTree

section

variable {f : Features} {k : Keyword} {t : Token}

/-- A common token is none of the words that only some dialects have. -/
theorem Token.Common.not_ownWord (common : t.Common f) {word : String} (kind : t.kind = .identifier word)
    (bare : t.isQuoted = false) (found : Keyword.ofWord? word = some k) : k ∉ f.ownWords := by
  intro own
  have text : t.text = word := by simpa [Token.isQuoted, kind] using bare
  have spells := common.words k own
  rw [Token.spells, kind] at spells
  simp [text, Keyword.sameWord_of_ofWord? found] at spells

theorem isClauseWord_base (foreign : k ∉ f.ownWords) :
    SqlRule.isClauseWord f k = SqlRule.isClauseWord .base k := by
  cases k with
  | LIMIT | OFFSET | RETURNING => simp [Features.ownWords] at foreign
  | _ => rfl

/-- A common word may stand for a name where it may do so without any feature. -/
theorem isBareAlias_base (common : t.Common f) : SqlRule.isBareAlias f t = SqlRule.isBareAlias .base t := by
  unfold SqlRule.isBareAlias
  cases kind : t.kind with
  | identifier word =>
    cases bare : t.isQuoted with
    | true => simp
    | false =>
      cases found : Keyword.ofWord? word with
      | none => simp [found]
      | some k => simp [found, isClauseWord_base (common.not_ownWord kind bare found)]
  | _ => rfl

end

namespace SqlRule

open Rule

section

variable {α β : Type} {f : Features} {k : Keyword}

/-- No word that only some dialects have is there. -/
theorem checkKeyword_absent (own : k ∈ f.ownWords) :
    (checkKeyword k : SqlRule Bool).Concurs f (return false) := by
  intro levels levels' _ s s' twin
  obtain ⟨t, shown, -, common⟩ := twin.peek
  change ((peek.bind _).read levels s).Concurs f _
  simp only [Rule.read, shown]
  change Reading.Concurs f (.ok (t.spells k), s) (.ok false, s')
  rw [common.words k own]
  exact .ok twin

/-- No word of the dialect is consumed where the text has none. -/
theorem eatKeyword_absent (own : k ∈ f.ownWords) :
    (eatKeyword k : SqlRule Bool).Concurs f (return false) := by
  intro levels levels' _ s s' twin
  obtain ⟨t, shown, -, common⟩ := twin.peek
  rw [eatKeyword_read shown (common.words k own)]
  exact .ok twin

/-- Where a dialect looks for a word of its own it finds none. -/
theorem concurs_absent {ask : SqlRule Bool} {asks : Bool} (absent : ask.Concurs f (return false)) :
    (if asks then ask else return false).Concurs f (return false) := by
  cases asks
  · exact concurs_pure false
  · exact absent

/-- A rule that looks for a word that only some dialects have. -/
theorem expectKeyword_absent (own : k ∈ f.ownWords) {levels : List (TapeLevel Symbol)} {s s' : Tape}
    (twin : s.Twin f s') : (expectKeyword k : SqlRule Token).Refuses levels s := by
  obtain ⟨t, shown, -, common⟩ := twin.peek
  exact expectKeyword_refuses shown (common.words k own)

/-- An alternative that never fits may be left out. -/
theorem concurs_unfit {rule rule' last : SqlRule α} (same : rule.Concurs f rule')
    (unfit : ∀ levels s s', s.Twin f s' → last.Refuses levels s) :
    (choice [rule, last]).Concurs f rule' := by
  intro levels levels' concur s s' twin
  have readings := same levels levels' concur s s' twin
  change ((orElse rule fun m => orElse last fun m' => fail (.mismatch (m.merge m'))).read levels s).Concurs f _
  simp only [Rule.read, Tape.checkCancelled_of_none twin.calm]
  revert readings
  generalize rule.read levels s = reading
  generalize rule'.read levels' s' = reading'
  rintro (twin' | beneath | ⟨terminal, beneath⟩)
  · exact .ok twin'
  · rename_i m m' t t'
    have back : (t.backTo s).Twin f (t'.backTo s') := beneath.backTo twin
    obtain ⟨m'', refuses, -⟩ := unfit levels _ _ back
    simp only [Tape.checkCancelled_of_none back.calm, refuses]
    exact .mismatch { beneath with }
  · rename_i failure t t'
    cases failure with
    | mismatch => cases terminal
    | _ => exact .terminal rfl { beneath with }

/-- A rule that never fits may be left out where it may be missing. -/
theorem concurs_missing {rule : SqlRule α} (unfit : ∀ levels s s', s.Twin f s' → rule.Refuses levels s) :
    (optional rule).Concurs f (return none) := by
  intro levels levels' _ s s' twin
  obtain ⟨m, -, read⟩ := ((unfit levels s s' twin).bind fun value => Pure.pure (some value)).orElse
    twin.calm fun m => do
      note m
      return none
  rw [Rule.optional, read]
  exact .ok { twin with }

theorem predicate?_concurs (negated : Bool) :
    (predicate? f negated).Concurs f (predicate? .base negated) := by
  have isNull : (if negated then return false else checkKeyword .IS : SqlRule Bool).Even f := by simp
  refine isNull.bind fun _ => .ite (concurs_pure _) ?_
  refine (even_checkKeyword _).bind fun _ => .ite (concurs_pure _) ?_
  refine (even_checkKeyword _).bind fun _ => .ite (concurs_pure _) ?_
  refine (even_checkKeyword _).bind fun _ => .ite (concurs_pure _) ?_
  refine (concurs_absent (checkKeyword_absent (by simp [Features.ownWords]))).bind fun _ => ?_
  exact .ite (concurs_pure _) (concurs_pure _)

/-- The operator that is asked for is the same without any feature. -/
theorem infixOp?_concurs : (infixOp? f).Concurs f (infixOp? .base) := by
  refine concurs_peek fun t common => ?_
  dsimp only
  cases t.kind.binaryOp? with
  | some op => exact concurs_pure _
  | none =>
    simp only [if_neg common.sign]
    refine (even_checkKeyword _).bind fun _ => .ite (.lookahead ?_) (predicate?_concurs false)
    exact even_bump.bind fun _ => predicate?_concurs true

/-- Expressions come to the same without any feature. -/
theorem expressionBody_concurs (power : Nat) :
    (expressionBody f power).Concurs f (expressionBody .base power) := by
  refine even_start.bind fun _ => prefixed_even.bind fun first => .loop (fun left => ?_) first
  refine infixOp?_concurs.bind fun op => ?_
  cases op with
  | none => exact concurs_pure _
  | some op =>
    dsimp only
    split
    · exact concurs_pure _
    · exact (infixed_even op left).bind fun _ => (even_spanFrom _).bind fun _ => concurs_pure _

theorem alias?_concurs : (alias? f).Concurs f (alias? .base) := by
  refine (even_eatKeyword _).bind fun _ => .ite ?_ ?_
  · exact identifier_even.bind fun _ => concurs_pure _
  · refine concurs_peek fun t common => ?_
    rw [isBareAlias_base common]
    exact .ite (identifier_even.bind fun _ => concurs_pure _) (concurs_pure _)

theorem selectColumn_concurs : (selectColumn f).Concurs f (selectColumn .base) :=
  even_start.bind fun _ => expression_even.bind fun _ => alias?_concurs.bind fun _ =>
    (even_spanFrom _).bind fun _ => concurs_pure _

theorem returningClause_concurs : (returningClause f).Concurs f (returningClause .base) := by
  refine (concurs_absent (eatKeyword_absent (by simp [Features.ownWords]))).bind fun _ => ?_
  exact .ite selectColumn_concurs.commaSeparated (concurs_pure _)

theorem namedTable_concurs : (namedTable f).Concurs f (namedTable .base) :=
  even_start.bind fun _ => objectName_even.bind fun _ => alias?_concurs.bind fun _ =>
    (even_spanFrom _).bind fun _ => concurs_pure _

theorem derivedTable_concurs : (derivedTable f).Concurs f (derivedTable .base) :=
  even_start.bind fun _ => (even_expect _).bind fun _ => selectStatement_even.bind fun _ =>
    (even_expect _).bind fun _ => alias?_concurs.bind fun _ => (even_spanFrom _).bind fun _ =>
      concurs_pure _

theorem tableFactor_concurs : (tableFactor f).Concurs f (tableFactor .base) :=
  concurs_choice (.cons namedTable_concurs (.cons derivedTable_concurs (.cons joinGroup_even.concurs .nil)))

theorem joinClause_concurs : (joinClause f).Concurs f (joinClause .base) := by
  refine even_start.bind fun _ => (even_eatKeyword _).bind fun natural => joinType_even.bind fun type =>
    tableFactor_concurs.bind fun _ => ?_
  have condition : (if natural || type == .cross then return (none, []) else joinCondition).Even f := by
    simp
  exact condition.bind fun _ => (even_spanFrom _).bind fun _ => concurs_pure _

theorem tableRef_concurs : (tableRef f).Concurs f (tableRef .base) :=
  even_start.bind fun _ => tableFactor_concurs.bind fun _ => joinClause_concurs.many.bind fun _ =>
    concurs_pure _

theorem joinGroupBody_concurs : (joinGroupBody f).Concurs f (joinGroupBody .base) :=
  (even_expect _).bind fun _ => tableRef_concurs.bind fun _ => (even_expect _).bind fun _ =>
    concurs_pure _

theorem nullOrdering?_concurs : (nullOrdering? f).Concurs f (nullOrdering? .base) := by
  refine (concurs_absent (eatKeyword_absent (by simp [Features.ownWords]))).bind fun _ => ?_
  exact Even.concurs (by simp)

theorem orderByItem_concurs : (orderByItem f).Concurs f (orderByItem .base) :=
  even_start.bind fun _ => expression_even.bind fun _ => orderDirection_even.bind fun _ =>
    nullOrdering?_concurs.bind fun _ => (even_spanFrom _).bind fun _ => concurs_pure _

theorem byClause_concurs {item item' : SqlRule α} (same : item.Concurs f item') (k : Keyword) :
    (byClause k item).Concurs f (byClause k item') :=
  (even_eatKeyword _).bind fun _ =>
    .ite ((even_expectKeyword _).bind fun _ => same.commaSeparated) (concurs_pure _)

/-- A loop whose first step gives nothing and consumes nothing. -/
theorem loop_idle {σ : Type} {step : σ → SqlRule (Option σ)} {first : σ} {levels : List (TapeLevel Symbol)}
    {s : Tape} (idle : (step first).read levels s = (.ok none, s)) :
    (loop step first).read levels s = (.ok first, s) :=
  Tape.iterate_none idle

/-- No limit begins where neither of its words is. -/
theorem limitClause_refuses (form : LimitForm) {levels : List (TapeLevel Symbol)} {s : Tape} {t : Token}
    (shown : s.peek = .ok t) (noLimit : t.spells .LIMIT = false) (noOffset : t.spells .OFFSET = false) :
    (limitClause form).Refuses levels s := by
  cases form with
  | countFirst => exact refuses_start shown ((expectKeyword_refuses shown noLimit).bind _)
  | anyOrder =>
    refine refuses_start shown ?_
    refine refuses_then (loop_idle ?_) (refuses_failAny shown _)
    change (Rule.bind (eatKeyword .LIMIT) _).read levels s = _
    simp only [Rule.read, eatKeyword_read shown noLimit, Bool.false_eq_true, if_false]
    change (Rule.bind (eatKeyword .OFFSET) _).read levels s = _
    simp only [Rule.read, eatKeyword_read shown noOffset, Bool.false_eq_true, if_false]
    rfl

/-- Where a dialect has a limit of its own and the text has none of its words, there is no limit. -/
theorem limitClause_absent (form : LimitForm) {levels : List (TapeLevel Symbol)} {s s' : Tape}
    (twin : s.Twin f s') : (limitClause form).Refuses levels s := by
  obtain ⟨t, shown, -, common⟩ := twin.peek
  exact limitClause_refuses form shown (common.words .LIMIT (by simp [Features.ownWords]))
    (common.words .OFFSET (by simp [Features.ownWords]))

theorem limit?_concurs : (limit? f).Concurs f (limit? .base) := by
  unfold limit?
  cases f.limit with
  | none => exact concurs_pure _
  | some form => exact concurs_missing fun _ _ _ twin => limitClause_absent form twin

/-- Queries as a whole come to the same without any feature. -/
theorem queryBody_concurs : (queryBody f).Concurs f (queryBody .base) := by
  refine even_start.bind fun _ => (even_expectKeyword _).bind fun _ => distinct_even.bind fun _ =>
    selectColumn_concurs.commaSeparated.bind fun _ => ?_
  refine Concurs.bind ?_ fun _ => ?_
  · exact (even_eatKeyword _).bind fun _ => .ite tableRef_concurs.commaSeparated (concurs_pure _)
  refine (clause?_even _).bind fun _ => (byClause_concurs expression_even.concurs _).bind fun _ =>
    (clause?_even _).bind fun _ => (byClause_concurs orderByItem_concurs _).bind fun _ => ?_
  exact limit?_concurs.bind fun _ => (even_spanFrom _).bind fun _ => concurs_pure _

theorem columnConstraint_concurs : (columnConstraint f).Concurs f (columnConstraint .base) := by
  have named {kind kind' : SqlRule ColumnConstraintKind} (same : kind.Concurs f kind') :
      (namedColumnConstraint kind).Concurs f (namedColumnConstraint kind') :=
    even_start.bind fun _ => constraintName?_even.bind fun _ => same.bind fun _ =>
      (even_spanFrom _).bind fun _ => concurs_pure _
  unfold columnConstraint
  cases auto : f.autoIncrement with
  | none => exact named columnConstraintKind_even.concurs
  | some k =>
    have own : k ∈ f.ownWords := by simp [Features.ownWords, auto]
    exact named (concurs_unfit columnConstraintKind_even.concurs fun _ _ _ twin =>
      (expectKeyword_absent own twin).bind _)

theorem columnDef_concurs : (columnDef f).Concurs f (columnDef .base) :=
  even_start.bind fun _ => identifier_even.bind fun _ => (Even.optional dataType_even).bind fun _ =>
    columnConstraint_concurs.many.bind fun _ => (even_spanFrom _).bind fun _ => concurs_pure _

theorem tableElement_concurs : (tableElement f).Concurs f (tableElement .base) :=
  concurs_choice (.cons (tableConstraint_even.bind fun _ => concurs_pure _)
    (.cons (columnDef_concurs.bind fun _ => concurs_pure _) .nil))

theorem ifNotExists_concurs : (ifNotExists f).Concurs f (ifNotExists .base) := by
  refine (concurs_absent (eatKeyword_absent (by simp [Features.ownWords]))).bind fun _ => ?_
  exact Even.concurs (by simp)

theorem createTableStatement_concurs :
    (createTableStatement f).Concurs f (createTableStatement .base) :=
  even_start.bind fun _ => (even_expectKeyword _).bind fun _ => temporary_even.bind fun _ =>
    (even_expectKeyword _).bind fun _ => ifNotExists_concurs.bind fun _ => objectName_even.bind fun _ =>
      tableElement_concurs.parenthesizedList.bind fun _ => (even_spanFrom _).bind fun _ =>
        concurs_pure _

theorem insertStatement_concurs : (insertStatement f).Concurs f (insertStatement .base) :=
  even_start.bind fun _ => (even_expectKeyword _).bind fun _ => (even_expectKeyword _).bind fun _ =>
    objectName_even.bind fun _ => (Even.optional identifierList_even).bind fun _ =>
      insertSource_even.bind fun _ => returningClause_concurs.bind fun _ => (even_spanFrom _).bind fun _ =>
        concurs_pure _

theorem updateStatement_concurs : (updateStatement f).Concurs f (updateStatement .base) :=
  even_start.bind fun _ => (even_expectKeyword _).bind fun _ => objectName_even.bind fun _ =>
    alias?_concurs.bind fun _ => (even_expectKeyword _).bind fun _ =>
      (Even.commaSeparated assignment_even).bind fun _ => (clause?_even _).bind fun _ =>
        returningClause_concurs.bind fun _ => (even_spanFrom _).bind fun _ => concurs_pure _

theorem deleteStatement_concurs : (deleteStatement f).Concurs f (deleteStatement .base) :=
  even_start.bind fun _ => (even_expectKeyword _).bind fun _ => (even_expectKeyword _).bind fun _ =>
    objectName_even.bind fun _ => alias?_concurs.bind fun _ => (clause?_even _).bind fun _ =>
      returningClause_concurs.bind fun _ => (even_spanFrom _).bind fun _ => concurs_pure _

theorem standardStatement_concurs : (standardStatement f).Concurs f (standardStatement .base) :=
  concurs_choice
    (.cons (selectStatement_even.bind fun _ => concurs_pure _)
    (.cons (insertStatement_concurs.bind fun _ => concurs_pure _)
    (.cons (updateStatement_concurs.bind fun _ => concurs_pure _)
    (.cons (deleteStatement_concurs.bind fun _ => concurs_pure _)
    (.cons (createTableStatement_concurs.bind fun _ => concurs_pure _) .nil)))))

/-- No PRAGMA statement begins where its word is not. -/
theorem pragmaAsStatement_absent {levels : List (TapeLevel Symbol)} {s s' : Tape} (twin : s.Twin f s') :
    pragmaAsStatement.Refuses levels s := by
  obtain ⟨t, shown, -, -⟩ := twin.peek
  have absent : (expectKeyword .PRAGMA : SqlRule Token).Refuses levels s :=
    expectKeyword_absent (by simp [Features.ownWords]) twin
  exact (refuses_start shown (absent.bind _)).bind _

/-- All statements come to the same without any feature. -/
theorem statement_concurs : (statement f).Concurs f (statement .base) := by
  unfold statement
  cases f.pragma
  · exact standardStatement_concurs
  · exact concurs_unfit standardStatement_concurs fun _ _ _ twin => pragmaAsStatement_absent twin

theorem script_concurs : (script f).Concurs f (script .base) := by
  refine even_start.bind fun _ => Concurs.bind (.loop (fun statements => ?_) []) fun _ =>
    (even_spanFrom _).bind fun _ => concurs_pure _
  refine semicolons_even.bind fun _ => (even_check _).bind fun _ => .ite (concurs_pure _) ?_
  refine statement_concurs.attempt.bind fun _ => (even_check _).bind fun _ => .ite (concurs_pure _) ?_
  exact (even_expect _).bind fun _ => concurs_pure _

/-- The rule for a whole text comes to what it comes to without the features of the dialect. -/
theorem entry_concurs (kind : ModelKind) : (entry f kind).Concurs f (entry .base kind) := by
  cases kind with
  | statement => exact statement_concurs.bind fun _ => concurs_pure _
  | select => exact selectStatement_even.bind fun _ => concurs_pure _
  | insert => exact insertStatement_concurs.bind fun _ => concurs_pure _
  | update => exact updateStatement_concurs.bind fun _ => concurs_pure _
  | delete => exact deleteStatement_concurs.bind fun _ => concurs_pure _
  | createTable => exact createTableStatement_concurs.bind fun _ => concurs_pure _
  | pragma => exact pragmaStatement_even.bind fun _ => concurs_pure _
  | script => exact script_concurs.bind fun _ => concurs_pure _
  | expression => exact expression_even.bind fun _ => concurs_pure _

end

end SqlRule

/-- What names of rules stand for comes to what it comes to without the features of the dialect. -/
theorem Symbol.body_concurs {f : Features} (α : Type) (name : Symbol α) :
    (Symbol.body f α name).Concurs f (Symbol.body .base α name) := by
  cases name with
  | expression power => exact SqlRule.expressionBody_concurs power
  | query => exact SqlRule.queryBody_concurs
  | joinGroup => exact SqlRule.joinGroupBody_concurs

end SqlTree
