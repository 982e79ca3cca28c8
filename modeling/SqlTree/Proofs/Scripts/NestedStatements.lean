import SqlTree.Proofs.Scripts.Nested

namespace SqlTree

open Rule SqlRule

section

variable {f : Features} {tokens : List Token} {limit : Nat}

theorem alias?_nests : Nests f tokens limit (alias? f) :=
  nests_ifEaten (identifier_nests.map _)
    (nests_peek.bind fun _ => (identifier_nests.map _).ite (nests_pure _))

/-- A word that only some dialects have. -/
theorem nests_mayEatKeyword (has : Bool) (k : Keyword) :
    Nests f tokens limit (if has then eatKeyword k else return false) :=
  (nests_eatKeyword k).ite (nests_pure _)

theorem namedTable_nests : Nests f tokens limit (namedTable f) :=
  nests_start.bind fun _ => objectName_nests.bind fun _ => alias?_nests.bind fun _ =>
    (nests_spanFrom _).map _

theorem joinType_nests : Nests f tokens limit joinType := by
  have outer (type : JoinType) : Nests f tokens limit (do
      let _ ← eatKeyword .OUTER
      return type) := (nests_eatKeyword _).map _
  refine Nests.bind ?_ fun _ => (nests_expectKeyword _).map _
  refine nests_ifEaten (nests_pure _) (nests_ifEaten (outer _) (nests_ifEaten (outer _) ?_))
  refine nests_ifEaten (outer _) (nests_ifEaten (nests_pure _) ?_)
  exact (nests_checkKeyword _).bind fun _ =>
    (nests_pure _).ite fun _ _ => (yields_failAny _).mpr trivial

theorem nullOrdering?_nests : Nests f tokens limit (nullOrdering? f) := by
  refine (nests_mayEatKeyword _ _).bind fun _ => Closes.ite ?_ (nests_pure _)
  exact nests_ifEaten (nests_pure _)
    (nests_ifEaten (nests_pure _) fun _ _ => (yields_failAny _).mpr trivial)

theorem orderDirection_nests : Nests f tokens limit orderDirection :=
  nests_ifEaten (nests_pure _) ((nests_eatKeyword _).map _)

/-- Clauses and what they list. -/
theorem byClause_nests {α : Type} {k : Keyword} {item : SqlRule α} (nests : Nests f tokens limit item) :
    Nests f tokens limit (byClause k item) :=
  nests_ifEaten ((nests_expectKeyword _).bind fun _ => nests.commaSeparated) (nests_pure _)

theorem distinct_nests : Nests f tokens limit distinct :=
  nests_ifEaten (nests_pure _) ((nests_eatKeyword _).map _)

theorem referentialAction_nests : Nests f tokens limit referentialAction := by
  refine nests_ifEaten (nests_pure _) (nests_ifEaten (nests_pure _) (nests_ifEaten ?_ ?_))
  · exact nests_ifEaten (nests_pure _) ((nests_expectKeyword _).map _)
  · exact nests_ifEaten ((nests_expectKeyword _).map _) fun _ _ => (yields_failAny _).mpr trivial

theorem referentialActions_nests : Nests f tokens limit referentialActions := by
  refine nests_loop (fun _ => nests_ifEaten ?_ (nests_pure _)) _
  refine nests_ifEaten (referentialAction_nests.map _) (nests_ifEaten (referentialAction_nests.map _) ?_)
  exact fun _ _ => (yields_failAny _).mpr trivial

theorem foreignKey_nests : Nests f tokens limit foreignKey := by
  refine nests_start.bind fun _ => (nests_expectKeyword _).bind fun _ => objectName_nests.bind fun _ => ?_
  exact identifierList_nests.optional.bind fun _ => referentialActions_nests.bind fun _ =>
    (nests_spanFrom _).map _

theorem constraintName?_nests : Nests f tokens limit constraintName? :=
  nests_ifEaten (identifier_nests.map _) (nests_pure _)

theorem primaryKey_nests : Nests f tokens limit primaryKey :=
  (nests_expectKeyword _).bind fun _ => (nests_expectKeyword _).bind fun _ =>
    nests_ifEaten (nests_pure _) (nests_ifEaten (nests_pure _) (nests_pure _))

theorem temporary_nests : Nests f tokens limit temporary :=
  nests_ifEaten (nests_pure _) (nests_eatKeyword _)

theorem ifNotExists_nests : Nests f tokens limit (ifNotExists f) :=
  (nests_mayEatKeyword _ _).bind fun _ => Closes.ite
    ((nests_expectKeyword _).bind fun _ => (nests_expectKeyword _).map _) (nests_pure _)

theorem keywordValue_nests : Nests f tokens limit keywordValue := by
  intro s along
  refine yields_bind.mpr (yields_peek.mpr fun t shown => ?_)
  split
  · rename_i word
    obtain ⟨k, word⟩ := Option.isSome_iff_exists.mp word
    exact bump_closes along shown (Token.isPlain_of_keyword? word) fun _ => nests_pure _
  · exact (yields_failAny _).mpr trivial

theorem semicolons_nests : Nests f tokens limit semicolons :=
  nests_loop (fun _ => (nests_eat rfl).bind fun _ => (nests_pure _).ite (nests_pure _)) ()

end

section

variable {f : Features} {tokens : List Token} {limit : Nat} (calls : CallsNest f tokens limit)
include calls

theorem selectColumn_nests : Nests f tokens limit (selectColumn f) :=
  nests_start.bind fun _ => (calls _ _).bind fun _ => alias?_nests.bind fun _ =>
    (nests_spanFrom _).map _

theorem clause?_nests (k : Keyword) : Nests f tokens limit (clause? k) :=
  nests_ifEaten ((calls _ _).map _) (nests_pure _)

theorem returningClause_nests : Nests f tokens limit (returningClause f) :=
  (nests_mayEatKeyword _ _).bind fun _ => (selectColumn_nests calls).commaSeparated.ite (nests_pure _)

/-- Tables that are queries or joins in parentheses. -/
theorem derivedTable_nests : Nests f tokens limit (derivedTable f) := by
  refine nests_start.bind fun _ => closes_left fun _ => (calls _ _).bind fun _ => ?_
  exact closes_right fun _ => alias?_nests.bind fun _ => (nests_spanFrom _).map _

theorem tableFactor_nests : Nests f tokens limit (tableFactor f) := by
  refine always_choice steady_closes ?_
  simp only [List.forall_mem_cons, List.not_mem_nil, false_implies, implies_true, and_true]
  exact ⟨namedTable_nests, derivedTable_nests calls, calls _ _⟩

theorem joinCondition_nests : Nests f tokens limit joinCondition :=
  nests_ifEaten ((calls _ _).map _)
    (nests_ifEaten (identifierList_nests.map _) fun _ _ => (yields_failAny _).mpr trivial)

theorem joinClause_nests : Nests f tokens limit (joinClause f) := by
  refine nests_start.bind fun _ => (nests_eatKeyword _).bind fun _ => joinType_nests.bind fun _ => ?_
  refine (tableFactor_nests calls).bind fun _ => Nests.bind ?_ fun _ => (nests_spanFrom _).map _
  exact (nests_pure _).ite (joinCondition_nests calls)

theorem tableRef_nests : Nests f tokens limit (tableRef f) :=
  nests_start.bind fun _ => (tableFactor_nests calls).bind fun _ => (joinClause_nests calls).many.map _

theorem joinGroupBody_nests : Nests f tokens limit (joinGroupBody f) :=
  closes_left fun _ => (tableRef_nests calls).bind fun _ => closes_right fun _ => nests_pure _

theorem orderByItem_nests : Nests f tokens limit (orderByItem f) :=
  nests_start.bind fun _ => (calls _ _).bind fun _ => orderDirection_nests.bind fun _ =>
    nullOrdering?_nests.bind fun _ => (nests_spanFrom _).map _

theorem limitCountFirst_nests : Nests f tokens limit limitCountFirst := by
  refine nests_start.bind fun _ => (nests_expectKeyword _).bind fun _ => (calls _ _).bind fun _ => ?_
  refine nests_ifEaten ((calls _ _).bind fun _ => (nests_spanFrom _).map _) ?_
  refine (nests_eat rfl).bind fun _ => Closes.ite ?_ ((nests_spanFrom _).map _)
  exact (calls _ _).bind fun _ => (nests_spanFrom _).map _

theorem limitAnyOrder_nests : Nests f tokens limit limitAnyOrder := by
  have untaken (seen : Bool) (k : Keyword) :
      Nests f tokens limit (if seen then return false else eatKeyword k) :=
    (nests_pure _).ite (nests_eatKeyword k)
  refine nests_start.bind fun _ => (nests_loop (fun parts => ?_) _).bind fun parts => Closes.ite ?_ ?_
  · refine (untaken _ _).bind fun _ => Closes.ite (Nests.map ?_ _) ?_
    · exact nests_ifEaten (nests_pure _) ((calls _ _).map _)
    · refine (untaken _ _).bind fun _ => Closes.ite (Nests.map ?_ _) (nests_pure _)
      exact (calls _ _).bind fun _ => nests_ifEaten (nests_pure _) ((nests_eatKeyword _).map _)
  · exact (nests_spanFrom _).map _
  · exact fun _ _ => (yields_failAny _).mpr trivial

theorem limit?_nests : Nests f tokens limit (limit? f) := by
  unfold limit?
  cases f.limit with
  | none => exact nests_pure _
  | some form =>
    refine Nests.optional ?_
    cases form with
    | countFirst => exact limitCountFirst_nests calls
    | anyOrder => exact limitAnyOrder_nests calls

/-- Queries close what they open. -/
theorem queryBody_nests : Nests f tokens limit (queryBody f) := by
  refine nests_start.bind fun _ => (nests_expectKeyword _).bind fun _ => distinct_nests.bind fun _ => ?_
  refine (selectColumn_nests calls).commaSeparated.bind fun _ => Nests.bind ?_ fun _ => ?_
  · exact nests_ifEaten (tableRef_nests calls).commaSeparated (nests_pure _)
  refine (clause?_nests calls _).bind fun _ => (byClause_nests (calls _ _)).bind fun _ => ?_
  refine (clause?_nests calls _).bind fun _ => (byClause_nests (orderByItem_nests calls)).bind fun _ => ?_
  exact (limit?_nests calls).bind fun _ => (nests_spanFrom _).map _

theorem body_nests (α : Type) (name : Symbol α) : Nests f tokens limit (Symbol.body f α name) := by
  cases name with
  | expression power => exact expressionBody_nests calls power
  | query => exact queryBody_nests calls
  | joinGroup => exact joinGroupBody_nests calls

theorem parenthesizedCondition_nests : Nests f tokens limit parenthesizedCondition :=
  closes_left fun _ => (calls _ _).bind fun _ => closes_right fun _ => nests_pure _

theorem columnConstraintKind_nests : Nests f tokens limit columnConstraintKind := by
  refine always_choice steady_closes ?_
  simp only [List.forall_mem_cons, List.not_mem_nil, false_implies, implies_true, and_true]
  refine ⟨?_, ?_, primaryKey_nests, ?_, ?_, ?_, ?_⟩
  · exact (nests_expectKeyword _).bind fun _ => (nests_expectKeyword _).map _
  · exact (nests_expectKeyword _).map _
  · exact (nests_expectKeyword _).map _
  · exact (nests_expectKeyword _).bind fun _ => (calls _ _).map _
  · exact (nests_expectKeyword _).bind fun _ => (parenthesizedCondition_nests calls).map _
  · exact foreignKey_nests.map _

omit calls in
theorem namedColumnConstraint_nests {kind : SqlRule ColumnConstraintKind}
    (nests : Nests f tokens limit kind) : Nests f tokens limit (namedColumnConstraint kind) :=
  nests_start.bind fun _ => constraintName?_nests.bind fun _ => nests.bind fun _ =>
    (nests_spanFrom _).map _

theorem columnConstraint_nests : Nests f tokens limit (columnConstraint f) := by
  have standard := columnConstraintKind_nests calls
  unfold columnConstraint
  cases f.autoIncrement with
  | none => exact namedColumnConstraint_nests standard
  | some k =>
    refine namedColumnConstraint_nests (always_choice steady_closes ?_)
    simp only [List.forall_mem_cons, List.not_mem_nil, false_implies, implies_true, and_true]
    exact ⟨standard, (nests_expectKeyword _).map _⟩

theorem columnDef_nests : Nests f tokens limit (columnDef f) :=
  nests_start.bind fun _ => identifier_nests.bind fun _ => dataType_nests.optional.bind fun _ =>
    (columnConstraint_nests calls).many.bind fun _ => (nests_spanFrom _).map _

theorem tableConstraintKind_nests : Nests f tokens limit tableConstraintKind := by
  refine nests_ifEaten ?_ (nests_ifEaten (identifierList_nests.map _) (nests_ifEaten ?_ ?_))
  · exact (nests_expectKeyword _).bind fun _ => identifierList_nests.map _
  · exact (nests_expectKeyword _).bind fun _ => identifierList_nests.bind fun _ => foreignKey_nests.map _
  · exact nests_ifEaten ((parenthesizedCondition_nests calls).map _) fun _ _ =>
      (yields_failAny _).mpr trivial

theorem tableElement_nests : Nests f tokens limit (tableElement f) := by
  refine always_choice steady_closes ?_
  simp only [List.forall_mem_cons, List.not_mem_nil, false_implies, implies_true, and_true]
  refine ⟨Nests.map (nests_start.bind fun _ => constraintName?_nests.bind fun _ => ?_) _,
    (columnDef_nests calls).map _⟩
  exact (tableConstraintKind_nests calls).bind fun _ => (nests_spanFrom _).map _

/-- Tables with the parentheses around their columns. -/
theorem createTableStatement_nests : Nests f tokens limit (createTableStatement f) := by
  refine nests_start.bind fun _ => (nests_expectKeyword _).bind fun _ => temporary_nests.bind fun _ => ?_
  refine (nests_expectKeyword _).bind fun _ => ifNotExists_nests.bind fun _ => ?_
  exact objectName_nests.bind fun _ => (tableElement_nests calls).parenthesizedList.bind fun _ =>
    (nests_spanFrom _).map _

theorem insertSource_nests : Nests f tokens limit insertSource := by
  refine always_choice steady_closes ?_
  simp only [List.forall_mem_cons, List.not_mem_nil, false_implies, implies_true, and_true]
  refine ⟨(nests_expectKeyword _).bind fun _ => ?_, ?_, (calls _ _).map _⟩
  · exact (Nests.parenthesizedList (calls _ _)).commaSeparated.map _
  · exact (nests_expectKeyword _).bind fun _ => (nests_expectKeyword _).map _

theorem insertStatement_nests : Nests f tokens limit (insertStatement f) := by
  refine nests_start.bind fun _ => (nests_expectKeyword _).bind fun _ => (nests_expectKeyword _).bind ?_
  refine fun _ => objectName_nests.bind fun _ => identifierList_nests.optional.bind fun _ => ?_
  exact (insertSource_nests calls).bind fun _ => (returningClause_nests calls).bind fun _ =>
    (nests_spanFrom _).map _

theorem assignment_nests : Nests f tokens limit assignment :=
  nests_start.bind fun _ => identifier_nests.bind fun _ => (nests_expect rfl).bind fun _ =>
    (calls _ _).bind fun _ => (nests_spanFrom _).map _

theorem updateStatement_nests : Nests f tokens limit (updateStatement f) := by
  refine nests_start.bind fun _ => (nests_expectKeyword _).bind fun _ => objectName_nests.bind fun _ => ?_
  refine alias?_nests.bind fun _ => (nests_expectKeyword _).bind fun _ => ?_
  refine (assignment_nests calls).commaSeparated.bind fun _ => (clause?_nests calls _).bind fun _ => ?_
  exact (returningClause_nests calls).bind fun _ => (nests_spanFrom _).map _

theorem deleteStatement_nests : Nests f tokens limit (deleteStatement f) := by
  refine nests_start.bind fun _ => (nests_expectKeyword _).bind fun _ => (nests_expectKeyword _).bind ?_
  refine fun _ => objectName_nests.bind fun _ => alias?_nests.bind fun _ => ?_
  exact (clause?_nests calls _).bind fun _ => (returningClause_nests calls).bind fun _ =>
    (nests_spanFrom _).map _

theorem pragmaStatement_nests : Nests f tokens limit pragmaStatement := by
  have value : Nests f tokens limit pragmaValue := by
    refine always_choice steady_closes ?_
    simp only [List.forall_mem_cons, List.not_mem_nil, false_implies, implies_true, and_true]
    exact ⟨calls _ _, keywordValue_nests⟩
  refine nests_start.bind fun _ => (nests_expectKeyword _).bind fun _ => objectName_nests.bind fun _ => ?_
  refine (nests_eat rfl).bind fun _ => Closes.ite (value.bind fun _ => (nests_spanFrom _).map _) ?_
  refine closes_ifLeft (value.bind fun _ => ?_) ((nests_spanFrom _).map _)
  exact closes_right fun _ => (nests_spanFrom _).map _

/-- Statements close what they open. -/
theorem statement_nests : Nests f tokens limit (statement f) := by
  have standard : Nests f tokens limit (standardStatement f) := by
    refine always_choice steady_closes ?_
    simp only [List.forall_mem_cons, List.not_mem_nil, false_implies, implies_true, and_true]
    exact ⟨(calls _ _).map _, (insertStatement_nests calls).map _, (updateStatement_nests calls).map _,
      (deleteStatement_nests calls).map _, (createTableStatement_nests calls).map _⟩
  refine Closes.ite (always_choice steady_closes ?_) standard
  simp only [List.forall_mem_cons, List.not_mem_nil, false_implies, implies_true, and_true]
  exact ⟨standard, (pragmaStatement_nests calls).map _⟩

theorem script_nests : Nests f tokens limit (script f) := by
  refine nests_start.bind fun _ => (nests_loop (fun statements => ?_) _).bind fun _ =>
    (nests_spanFrom _).map _
  refine semicolons_nests.bind fun _ => (nests_check _).bind fun _ => (nests_pure _).ite ?_
  refine (statement_nests calls).attempt.bind fun _ => (nests_check _).bind fun _ => ?_
  exact (nests_pure _).ite ((nests_expect rfl).map _)

end

/-- At every level of nesting the named rules close what they open. -/
theorem callsNest (f : Features) (tokens : List Token) (limit : Nat) : CallsNest f tokens limit := by
  induction limit with
  | zero => exact fun _ _ _ _ => yields_tooDeep
  | succ limit ih => exact body_nests ih

end SqlTree
