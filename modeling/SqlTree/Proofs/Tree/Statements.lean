import SqlTree.Proofs.Tree.Queries

namespace SqlTree

open Rule SqlRule

section

variable {f : Features} {tokens : List Token} {top limit : Nat}

theorem foreignKey_fills : Fills f tokens top limit foreignKey .foreignKey := by
  refine Fills.intro fun s first peek row => ?_
  simp only [yields_bind, yields_spanFrom, yields_pure]
  refine row.expectKeyword fun _ s row => ?_
  refine row.part objectName_reads fun table s used _ row => ?_
  refine row.part (Reads.optional identifierList_reads) fun columns s used _ row => ?_
  refine row.part referentialActions_skips fun actions s used _ row => ?_
  refine ⟨_, _, by simp, row, rfl, arranged_of_parts ?_, rfl⟩
  cases columns <;> simp [Node.parts, Node.fields]

theorem foreignKey_reads : Reads f tokens top limit 1 foreignKey fun k => [.foreignKey k] :=
  foreignKey_fills.reads fun _ _ origin => origin

theorem parenthesizedCondition_reads (calls : Calls f tokens top limit) :
    Reads f tokens top limit 1 parenthesizedCondition fun e => [.expr e] := by
  intro s along
  simp only [parenthesizedCondition, yields_bind, yields_pure]
  refine (Lays.refl top along).expect rfl fun _ s row => ?_
  refine row.part calls.any fun e s used _ row => ?_
  exact row.expect rfl fun _ s row => ⟨_, by simp, row⟩

/-- The nodes of a constraint on a column without those of its name. -/
abbrev columnConstraintNodes (kind : ColumnConstraintKind) : List Node :=
  (Node.fieldsOfColumnConstraint kind).flatten

/-- A constraint of words only. -/
theorem reads_words {kind : ColumnConstraintKind} (none : columnConstraintNodes kind = [])
    {word : SqlRule Token} (skips : Skips f tokens top limit 1 word) :
    Reads f tokens top limit 1 (do let _ ← word; return kind) columnConstraintNodes := by
  intro s along
  simp only [yields_bind, yields_pure]
  refine (Lays.refl top along).part skips fun _ s used some row => ⟨_, some, ?_⟩
  rw [none]
  exact row

theorem primaryKey_reads : Reads f tokens top limit 1 primaryKey columnConstraintNodes := by
  intro s along
  simp only [primaryKey, yields_bind, yields_ite, yields_pure]
  refine (Lays.refl top along).expectKeyword fun _ s row => ?_
  refine row.expectKeyword fun _ s row => ?_
  refine row.eatKeyword (fun _ s row => ⟨_, by simp, row⟩) ?_
  exact row.eatKeyword (fun _ s row => ⟨_, by simp, row⟩) ⟨_, by simp, row⟩

theorem notNull_reads : Reads f tokens top limit 1 notNull columnConstraintNodes := by
  intro s along
  simp only [notNull, yields_bind, yields_pure]
  refine (Lays.refl top along).expectKeyword fun _ s row => ?_
  exact row.expectKeyword fun _ s row => ⟨_, by simp, row⟩

theorem defaultValue_reads (calls : Calls f tokens top limit) :
    Reads f tokens top limit 1 defaultValue columnConstraintNodes := by
  intro s along
  simp only [defaultValue, yields_bind, yields_pure]
  refine (Lays.refl top along).expectKeyword fun _ s row => ?_
  refine row.part (calls.expression _) fun e s used _ row => ?_
  exact ⟨_, by simp, row⟩

theorem checkConstraint_reads (calls : Calls f tokens top limit) :
    Reads f tokens top limit 1 checkConstraint columnConstraintNodes := by
  intro s along
  simp only [checkConstraint, yields_bind, yields_pure]
  refine (Lays.refl top along).expectKeyword fun _ s row => ?_
  exact row.part (parenthesizedCondition_reads calls) fun e s used _ row => ⟨_, by simp, row⟩

/-- A constraint on a column lies on its tokens. -/
theorem columnConstraintKind_reads (calls : Calls f tokens top limit) :
    Reads f tokens top limit 1 columnConstraintKind columnConstraintNodes := by
  refine always_choice steady_laying ?_
  simp only [List.forall_mem_cons, List.not_mem_nil, false_implies, implies_true, and_true]
  refine ⟨notNull_reads, ?_, primaryKey_reads, ?_, defaultValue_reads calls, checkConstraint_reads calls, ?_⟩
  · exact reads_words rfl (skips_expectKeyword _)
  · exact reads_words rfl (skips_expectKeyword _)
  · exact foreignKey_reads.map fun _ => rfl

theorem namedColumnConstraint_fills {kind : SqlRule ColumnConstraintKind}
    (reads : Reads f tokens top limit 1 kind columnConstraintNodes) :
    Fills f tokens top limit (namedColumnConstraint kind) .columnConstraint := by
  refine Fills.intro fun s first peek row => ?_
  rw [yields_bind]
  refine row.part constraintName?_reads fun name s used _ row => ?_
  rw [yields_bind]
  refine row.part reads fun kind s used' some row => ?_
  simp only [yields_bind, yields_spanFrom, yields_pure]
  refine ⟨_, _, ?_, row, rfl, arranged_of_parts ?_, rfl⟩
  · simp [List.length_pos_iff.mp some]
  · simp [Node.parts, Node.fields]

theorem columnConstraint_fills (calls : Calls f tokens top limit) :
    Fills f tokens top limit (columnConstraint f) .columnConstraint := by
  unfold columnConstraint
  split
  · refine namedColumnConstraint_fills (always_choice steady_laying ?_)
    simp only [List.forall_mem_cons, List.not_mem_nil, false_implies, implies_true, and_true]
    exact ⟨columnConstraintKind_reads calls, reads_words rfl (skips_expectKeyword _)⟩
  · exact namedColumnConstraint_fills (columnConstraintKind_reads calls)

theorem columnConstraint_reads (calls : Calls f tokens top limit) :
    Reads f tokens top limit 1 (columnConstraint f) fun c => [.columnConstraint c] :=
  (columnConstraint_fills calls).reads fun _ _ origin => origin

/-- The definition of a column lies on its tokens. -/
theorem columnDef_fills (calls : Calls f tokens top limit) :
    Fills f tokens top limit (columnDef f) .columnDef := by
  refine Fills.intro fun s first peek row => ?_
  rw [yields_bind]
  refine row.part identifier_reads fun name s used some row => ?_
  rw [yields_bind]
  refine row.part (Reads.optional dataType_skips) fun type s used _ row => ?_
  rw [yields_bind]
  refine row.part (columnConstraint_reads calls).manyNodes fun constraints s used _ row => ?_
  simp only [yields_bind, yields_spanFrom, yields_pure]
  refine ⟨_, _, ?_, row, rfl, arranged_of_parts ?_, rfl⟩
  · simp [List.length_pos_iff.mp some]
  · cases type <;> simp [Node.parts, Node.fields]

theorem tableConstraintKind_reads (calls : Calls f tokens top limit) :
    Reads f tokens top limit 1 tableConstraintKind fun kind =>
    (Node.fieldsOfTableConstraint kind).flatten := by
  intro s along
  have row := Lays.refl (f := f) top along
  simp only [tableConstraintKind, yields_bind, yields_ite, yields_pure]
  refine row.eatKeyword (fun _ s row => ?_) (row.eatKeyword (fun _ s row => ?_)
    (row.eatKeyword (fun _ s row => ?_) (row.eatKeyword (fun _ s row => ?_)
      ((yields_failAny _).mpr trivial))))
  · refine row.expectKeyword fun _ s row => ?_
    refine row.part identifierList_reads fun columns s used _ row => ?_
    exact ⟨_, by simp, row.congr (by simp [Node.fieldsOfTableConstraint])⟩
  · refine row.part identifierList_reads fun columns s used _ row => ?_
    exact ⟨_, by simp, row.congr (by simp [Node.fieldsOfTableConstraint])⟩
  · refine row.expectKeyword fun _ s row => ?_
    refine row.part identifierList_reads fun columns s used _ row => ?_
    refine row.part foreignKey_reads fun key s used _ row => ?_
    exact ⟨_, by simp, row.congr (by simp [Node.fieldsOfTableConstraint])⟩
  · refine row.part (parenthesizedCondition_reads calls) fun e s used _ row => ?_
    exact ⟨_, by simp, row.congr (by simp [Node.fieldsOfTableConstraint])⟩

theorem tableConstraint_fills (calls : Calls f tokens top limit) :
    Fills f tokens top limit tableConstraint .tableConstraint := by
  refine Fills.intro fun s first peek row => ?_
  rw [yields_bind]
  refine row.part constraintName?_reads fun name s used _ row => ?_
  rw [yields_bind]
  refine row.part (tableConstraintKind_reads calls) fun kind s used' some row => ?_
  simp only [yields_bind, yields_spanFrom, yields_pure]
  refine ⟨_, _, ?_, row, rfl, arranged_of_parts ?_, rfl⟩
  · simp [List.length_pos_iff.mp some]
  · simp [Node.parts, Node.fields]

theorem tableElement_reads (calls : Calls f tokens top limit) :
    Reads f tokens top limit 1 (tableElement f) fun element => [.ofTableElement element] := by
  refine always_choice steady_laying ?_
  simp only [List.forall_mem_cons, List.not_mem_nil, false_implies, implies_true, and_true]
  constructor
  · exact ((tableConstraint_fills calls).reads fun _ _ origin => origin).map fun _ => rfl
  · exact ((columnDef_fills calls).reads fun _ _ origin => origin).map fun _ => rfl

section

variable (elements : List TableElement)

/-- The elements of a table are its columns and its constraints, in whatever order. -/
theorem perm_elements : (elements.map Node.ofTableElement).Perm
    ((elements.filterMap (·.column?)).map .columnDef ++
      (elements.filterMap (·.constraint?)).map .tableConstraint) := by
  induction elements with
  | nil => exact .refl _
  | cons element elements ih =>
    cases element with
    | column c => exact ih.cons _
    | constraint c => exact (ih.cons _).trans List.perm_middle.symm

/-- The columns of a table keep their order. -/
theorem columns_sublist : ((elements.filterMap (·.column?)).map Node.columnDef).Sublist
    (elements.map .ofTableElement) := by
  induction elements with
  | nil => exact .slnil
  | cons element elements ih =>
    cases element with
    | column c => exact ih.cons_cons _
    | constraint c => exact ih.cons _

theorem constraints_sublist :
    ((elements.filterMap (·.constraint?)).map Node.tableConstraint).Sublist
      (elements.map .ofTableElement) := by
  induction elements with
  | nil => exact .slnil
  | cons element elements ih =>
    cases element with
    | column c => exact ih.cons _
    | constraint c => exact ih.cons_cons _

end

/-- A statement that creates a table fills the tokens that were consumed for it. -/
theorem createTableStatement_fills (calls : Calls f tokens top limit) :
    Fills f tokens top limit (createTableStatement f) .createTable := by
  refine Fills.intro fun s first peek row => ?_
  simp only [yields_bind, yields_spanFrom, yields_pure]
  refine row.expectKeyword fun _ s row => ?_
  refine row.part temporary_skips fun temporary s used _ row => ?_
  refine row.expectKeyword fun _ s row => ?_
  refine row.part ifNotExists_skips fun ifNotExists s used _ row => ?_
  refine row.part objectName_reads fun name s used _ row => ?_
  refine row.part (tableElement_reads calls).parenthesizedNodes fun elements s used _ row => ?_
  refine ⟨_, _, by simp, row, rfl, ⟨?_, ?_, fun same => by cases same⟩, rfl⟩
  · simpa [Node.parts, Node.fields] using perm_elements elements
  · simp only [Node.fields, List.forall_mem_cons, List.not_mem_nil, false_implies, implies_true,
      and_true, List.nil_append, List.append_nil]
    refine ⟨List.sublist_append_left _ _, ?_, ?_⟩
    · exact (columns_sublist elements).trans (List.sublist_append_right _ _)
    · exact (constraints_sublist elements).trans (List.sublist_append_right _ _)

end

variable {f : Features} {tokens : List Token} {top limit : Nat} {s : Tape}

theorem valuesSource_reads (calls : Calls f tokens top limit) :
    Reads f tokens top limit 1 valuesSource fun source =>
    (Node.fieldsOfSource source).flatten := by
  have rows := calls.any.parenthesizedNodes.commaSeparated
  intro s along
  simp only [valuesSource, yields_bind, yields_pure]
  refine (Lays.refl top along).expectKeyword fun _ s row => ?_
  refine row.part rows fun rows s used _ row => ?_
  exact ⟨_, by simp, row.congr (by simp [Node.fieldsOfSource, List.flatMap_def, List.map_flatten])⟩

theorem defaultValuesSource_reads : Reads f tokens top limit 1 defaultValuesSource fun source =>
    (Node.fieldsOfSource source).flatten := by
  intro s along
  simp only [defaultValuesSource, yields_bind, yields_pure]
  refine (Lays.refl top along).expectKeyword fun _ s row => ?_
  exact row.expectKeyword fun _ s row => ⟨_, by simp, row⟩

/-- The rows of an INSERT lie on its tokens, wherever they come from. -/
theorem insertSource_reads (calls : Calls f tokens top limit) :
    Reads f tokens top limit 1 insertSource fun source =>
    (Node.fieldsOfSource source).flatten := by
  refine always_choice steady_laying ?_
  simp only [List.forall_mem_cons, List.not_mem_nil, false_implies, implies_true, and_true]
  refine ⟨valuesSource_reads calls, defaultValuesSource_reads, ?_⟩
  exact calls.query.map fun _ => rfl

theorem insertStatement_fills (calls : Calls f tokens top limit) :
    Fills f tokens top limit (insertStatement f) .insert := by
  refine Fills.intro fun s first peek row => ?_
  simp only [yields_bind, yields_spanFrom, yields_pure]
  refine row.expectKeyword fun _ s row => ?_
  refine row.expectKeyword fun _ s row => ?_
  refine row.part objectName_reads fun table s used _ row => ?_
  refine row.part (Reads.optional identifierList_reads) fun columns s used _ row => ?_
  refine row.part (insertSource_reads calls) fun source s used _ row => ?_
  refine row.part (returningClause_reads calls) fun returning s used _ row => ?_
  refine ⟨_, _, by simp, row, rfl, arranged_of_parts ?_, rfl⟩
  cases columns <;> simp [Node.parts, Node.fields]

theorem assignment_fills (calls : Calls f tokens top limit) :
    Fills f tokens top limit assignment .assignment := by
  refine Fills.intro fun s first peek row => ?_
  simp only [yields_bind, yields_spanFrom, yields_pure]
  refine row.part identifier_reads fun column s used _ row => ?_
  refine row.expect rfl fun _ s row => ?_
  refine row.part calls.any fun value s used _ row => ?_
  exact ⟨_, _, by simp, row, rfl, arranged_of_parts rfl, rfl⟩

theorem assignment_reads (calls : Calls f tokens top limit) :
    Reads f tokens top limit 1 assignment fun a => [.assignment a] :=
  (assignment_fills calls).reads fun _ _ origin => origin

theorem updateStatement_fills (calls : Calls f tokens top limit) :
    Fills f tokens top limit (updateStatement f) .update := by
  refine Fills.intro fun s first peek row => ?_
  simp only [yields_bind, yields_spanFrom, yields_pure]
  refine row.expectKeyword fun _ s row => ?_
  refine row.part objectName_reads fun table s used _ row => ?_
  refine row.part alias?_reads fun alias? s used _ row => ?_
  refine row.expectKeyword fun _ s row => ?_
  refine row.part (assignment_reads calls).commaSeparatedNodes fun assignments s used _ row => ?_
  refine row.part (clause?_reads calls _) fun condition s used _ row => ?_
  refine row.part (returningClause_reads calls) fun returning s used _ row => ?_
  refine ⟨_, _, by simp, row, rfl, arranged_of_parts ?_, rfl⟩
  simp [Node.parts, Node.fields]

theorem deleteStatement_fills (calls : Calls f tokens top limit) :
    Fills f tokens top limit (deleteStatement f) .delete := by
  refine Fills.intro fun s first peek row => ?_
  simp only [yields_bind, yields_spanFrom, yields_pure]
  refine row.expectKeyword fun _ s row => ?_
  refine row.expectKeyword fun _ s row => ?_
  refine row.part objectName_reads fun table s used _ row => ?_
  refine row.part alias?_reads fun alias? s used _ row => ?_
  refine row.part (clause?_reads calls _) fun condition s used _ row => ?_
  refine row.part (returningClause_reads calls) fun returning s used _ row => ?_
  refine ⟨_, _, by simp, row, rfl, arranged_of_parts ?_, rfl⟩
  simp [Node.parts, Node.fields]

/-- A reserved word as a value is a column that is named by it. -/
theorem keywordValue_reads : Reads f tokens top limit 1 keywordValue fun e => [.expr e] := by
  intro s along
  simp only [keywordValue, yields_bind, yields_peek, yields_ite]
  intro t peek
  split
  · rename_i keyword
    have notEof : t.isEof = false := by
      rcases t with ⟨kind, text, span⟩
      cases kind <;> first | rfl | cases keyword
    refine (Lays.refl top along).bump peek notEof fun after row => ?_
    have row := row.name (.word keyword)
    refine (yields_pure _).mpr ⟨_, Nat.le_refl _, row.node ⟨by simp, rfl, ?_, row.laid⟩ (.word keyword) rfl⟩
    exact arranged_of_parts rfl
  · exact (yields_failAny _).mpr trivial

/-- The value of a pragma lies on its tokens, as an operand or as a word. -/
theorem pragmaValue_reads (calls : Calls f tokens top limit) :
    Reads f tokens top limit 1 pragmaValue fun e => [.expr e] := by
  refine always_choice steady_laying ?_
  simp only [List.forall_mem_cons, List.not_mem_nil, false_implies, implies_true, and_true]
  exact ⟨calls.expression _, keywordValue_reads⟩

theorem pragmaStatement_fills (calls : Calls f tokens top limit) :
    Fills f tokens top limit pragmaStatement .pragma := by
  refine Fills.intro fun s first peek row => ?_
  simp only [yields_bind, yields_ite, yields_spanFrom, yields_pure]
  refine row.expectKeyword fun _ s row => ?_
  refine row.part objectName_reads fun name s used _ row => ?_
  refine row.eat rfl (fun _ s row => ?_) (row.eat rfl (fun _ s row => ?_) ?_)
  · refine row.part (pragmaValue_reads calls) fun value s used _ row => ?_
    exact ⟨_, _, by simp, row, rfl, arranged_of_parts rfl, rfl⟩
  · refine row.part (pragmaValue_reads calls) fun value s used _ row => ?_
    exact row.expect rfl fun _ s row => ⟨_, _, by simp, row, rfl, arranged_of_parts rfl, rfl⟩
  · exact ⟨_, _, by simp, row, rfl, arranged_of_parts rfl, rfl⟩

theorem selectStatement_reads (calls : Calls f tokens top limit) :
    Reads f tokens top limit 1 selectStatement fun q => [.select q] :=
  calls.query

theorem insertStatement_reads (calls : Calls f tokens top limit) :
    Reads f tokens top limit 1 (insertStatement f) fun q => [.insert q] :=
  (insertStatement_fills calls).reads fun _ _ origin => origin

theorem updateStatement_reads (calls : Calls f tokens top limit) :
    Reads f tokens top limit 1 (updateStatement f) fun q => [.update q] :=
  (updateStatement_fills calls).reads fun _ _ origin => origin

theorem deleteStatement_reads (calls : Calls f tokens top limit) :
    Reads f tokens top limit 1 (deleteStatement f) fun q => [.delete q] :=
  (deleteStatement_fills calls).reads fun _ _ origin => origin

theorem createTableStatement_reads (calls : Calls f tokens top limit) :
    Reads f tokens top limit 1 (createTableStatement f) fun q => [.createTable q] :=
  (createTableStatement_fills calls).reads fun _ _ origin => origin

theorem pragmaStatement_reads (calls : Calls f tokens top limit) :
    Reads f tokens top limit 1 pragmaStatement fun q => [.pragma q] :=
  (pragmaStatement_fills calls).reads fun _ _ origin => origin

theorem standardStatement_reads (calls : Calls f tokens top limit) :
    Reads f tokens top limit 1 (standardStatement f) fun q => [.ofStatement q] := by
  refine always_choice steady_laying ?_
  simp only [List.forall_mem_cons, List.not_mem_nil, false_implies, implies_true, and_true]
  exact ⟨(selectStatement_reads calls).map fun _ => rfl, (insertStatement_reads calls).map fun _ => rfl,
    (updateStatement_reads calls).map fun _ => rfl, (deleteStatement_reads calls).map fun _ => rfl,
    (createTableStatement_reads calls).map fun _ => rfl⟩

/-- Every statement lies on its tokens. -/
theorem statement_reads (calls : Calls f tokens top limit) :
    Reads f tokens top limit 1 (statement f) fun q => [.ofStatement q] := by
  unfold statement
  split
  · refine always_choice steady_laying ?_
    simp only [List.forall_mem_cons, List.not_mem_nil, false_implies, implies_true, and_true]
    exact ⟨standardStatement_reads calls, (pragmaStatement_reads calls).map fun _ => rfl⟩
  · exact standardStatement_reads calls

end SqlTree
