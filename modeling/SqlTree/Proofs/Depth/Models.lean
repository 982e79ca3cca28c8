import SqlTree.Proofs.Depth.Expressions
import SqlTree.Proofs.Writing.Texts

namespace SqlTree

open Rule SqlRule

/-- A node is as high as its parts and its own weight. -/
theorem Node.shallow_around {n : Node} {b : Nat} (low : ∀ field ∈ n.fields, ∀ p ∈ field, p.Shallow b) :
    n.Shallow (b + n.weight) := by
  refine .around fun p mem => ?_
  obtain ⟨field, inside, mem⟩ := List.mem_flatten.mp mem
  exact low field inside p mem

/-- A node without weight is as high as its parts. -/
theorem Node.shallow_of_fields {n : Node} {b : Nat} (light : n.weight = 0)
    (low : ∀ field ∈ n.fields, ∀ p ∈ field, p.Shallow b) : n.Shallow b := by
  have around := shallow_around low
  rwa [light] at around

section

variable {α : Type} {f : Features} {limit b c : Nat}

/-- Whatever a rule gives is a node that is shallow. -/
abbrev Builds (f : Features) (limit : Nat) (rule : SqlRule α) (node : α → Node) (b : Nat) : Prop :=
  rule.Makes (sqlLevels f limit) fun value => (node value).Shallow b

theorem Builds.mono {rule : SqlRule α} {node : α → Node} (builds : Builds f limit rule node b)
    (le : b ≤ c) : Builds f limit rule node c :=
  Makes.mono builds fun _ shallow => shallow.mono le

theorem Builds.option {rule : SqlRule α} {node : α → Node} (builds : Builds f limit rule node b)
    (k : Keyword) : (do if ← eatKeyword k then return some (← rule) else return none : SqlRule (Option α)).Makes
      (sqlLevels f limit) fun value => ∀ x ∈ value, (node x).Shallow b := by
  refine makes_then fun _ => Makes.ite (builds.bind fun value shallow => makes_pure ?_) (makes_pure (by simp))
  simpa using shallow

theorem Builds.list {rule : SqlRule α} {node : α → Node} (builds : Builds f limit rule node b) :
    (commaSeparated rule).Makes (sqlLevels f limit) fun values => ∀ x ∈ values, (node x).Shallow b :=
  Makes.commaSeparated (sqlLevels_forward f limit) builds

section

variable (calls : ShallowCalls f limit b)
include calls

theorem selectColumn_shallow : Builds f limit (selectColumn f) .column b := by
  refine makes_then fun _ => (calls.expression 0).bind fun e shallow => ?_
  refine makes_then fun name => makes_then fun _ => makes_pure ?_
  exact Node.shallow_of_fields rfl (by simpa [Node.fields] using shallow)

theorem clause?_shallow (k : Keyword) : (clause? k).Makes (sqlLevels f limit) fun condition =>
    ∀ e ∈ condition, (Node.expr e).Shallow b :=
  Builds.option (calls.expression 0) k

theorem returningClause_shallow : (returningClause f).Makes (sqlLevels f limit) fun columns =>
    ∀ c ∈ columns, (Node.column c).Shallow b :=
  makes_then fun _ => Makes.ite (Builds.list (selectColumn_shallow calls)) (makes_pure (by simp))

/-- A table is higher by one than what is read for it one level deeper. -/
theorem tableFactor_shallow : Builds f limit (tableFactor f) .table (b + 1) := by
  refine makes_choice (sqlLevels_forward f limit) ?_
  simp only [List.forall_mem_cons, List.not_mem_nil, false_implies, implies_true, and_true]
  refine ⟨?_, ?_, Builds.mono calls.joinGroup (Nat.le_succ b)⟩
  · refine makes_then fun _ => makes_then fun name => makes_then fun alias? => makes_then fun _ => ?_
    exact makes_pure (.around (by simp [Node.parts, Node.fields, Node.fieldsOfTable, or_imp, forall_and]))
  · refine makes_then fun _ => makes_then fun _ => calls.query.bind fun query shallow => ?_
    refine makes_then fun _ => makes_then fun alias? => makes_then fun _ => makes_pure (.around ?_)
    simpa [Node.parts, Node.fields, Node.fieldsOfTable, or_imp, forall_and] using shallow

theorem joinCondition_shallow : joinCondition.Makes (sqlLevels f limit) fun on =>
    ∀ e ∈ on.1, (Node.expr e).Shallow b := by
  refine makes_then fun _ => Makes.ite ?_ (makes_then fun _ => Makes.ite ?_ (makes_failAny _))
  · exact (calls.expression 0).bind fun e shallow => makes_pure (by simpa using shallow)
  · exact makes_then fun _ => makes_pure (by simp)

theorem joinClause_shallow : Builds f limit (joinClause f) .join (b + 1) := by
  refine makes_then fun _ => makes_then fun _ => makes_then fun type => ?_
  refine (tableFactor_shallow calls).bind fun table shallow => ?_
  refine Makes.bind (P := fun on : Option Expr × List Ident => ∀ e ∈ on.1, (Node.expr e).Shallow b)
    (Makes.ite (makes_pure (by simp)) (joinCondition_shallow calls)) fun on low => ?_
  refine makes_then fun _ => makes_pure (Node.shallow_of_fields rfl ?_)
  simp only [Node.fields, List.forall_mem_cons, List.forall_mem_map, Option.mem_toList]
  exact ⟨⟨shallow, by simp⟩, fun e mem => (low e mem).mono (Nat.le_succ b), by simp, by simp⟩

/-- However many joins follow a table, they are no higher than the last one with what it joins. -/
theorem tableRef_shallow : Builds f limit (tableRef f) .table (b + 2) := by
  refine makes_then fun p => (tableFactor_shallow calls).bind fun first shallow => ?_
  refine (Makes.many (sqlLevels_forward f limit) (joinClause_shallow calls)).bind fun joins each => ?_
  refine makes_pure ?_
  have start : (Node.table first).Shallow (b + 2) := shallow.mono (Nat.le_succ _)
  clear shallow
  induction joins generalizing first with
  | nil => exact start
  | cons join joins ih =>
    obtain ⟨here, each⟩ := List.forall_mem_cons.mp each
    refine ih _ each (.behind rfl start (fun p mem counts => ?_) (Nat.le_refl (b + 1 + 1)))
    have parts : p = .table first ∨ p = .join join := by
      simpa [Node.parts, Node.fields, Node.fieldsOfTable] using mem
    rcases parts with rfl | rfl
    · exact absurd rfl counts
    · exact here

/-- Joins between parentheses are higher by two than what is read for them one level deeper. -/
theorem joinGroupBody_shallow : Builds f limit (joinGroupBody f) .table (b + 2) :=
  makes_then fun _ => (tableRef_shallow calls).bind fun _ shallow => makes_then fun _ => makes_pure shallow

theorem orderByItem_shallow : Builds f limit (orderByItem f) .order b := by
  refine makes_then fun _ => (calls.expression 0).bind fun e shallow => ?_
  refine makes_then fun _ => makes_then fun _ => makes_then fun _ => makes_pure ?_
  exact Node.shallow_of_fields rfl (by simpa [Node.fields] using shallow)

omit calls in
theorem byClause_shallow {item : SqlRule α} {node : α → Node} (builds : Builds f limit item node b)
    (k : Keyword) : (byClause k item).Makes (sqlLevels f limit) fun items =>
      ∀ x ∈ items, (node x).Shallow b :=
  makes_then fun _ => Makes.ite (makes_then fun _ => builds.list) (makes_pure (by simp))

omit calls in
theorem limit_shallow {count offset : Option Expr} (low : ∀ e ∈ count, (Node.expr e).Shallow b)
    (low' : ∀ e ∈ offset, (Node.expr e).Shallow b) (span : Span) :
    (Node.limit ⟨count, offset, span⟩).Shallow b := by
  refine Node.shallow_of_fields rfl ?_
  simp only [Node.fields, List.forall_mem_cons, List.forall_mem_map, Option.mem_toList]
  exact ⟨low, low', by simp⟩

theorem limitCountFirst_shallow : Builds f limit limitCountFirst .limit b := by
  refine makes_then fun _ => makes_then fun _ => (calls.expression 0).bind fun first shallow => ?_
  refine makes_then fun _ => Makes.ite ?_ (makes_then fun _ => Makes.ite ?_ ?_)
  · refine (calls.expression 0).bind fun offset shallow' => makes_then fun _ => makes_pure ?_
    exact limit_shallow (by simpa using shallow) (by simpa using shallow') _
  · refine (calls.expression 0).bind fun count shallow' => makes_then fun _ => makes_pure ?_
    exact limit_shallow (by simpa using shallow') (by simpa using shallow) _
  · refine makes_then fun _ => makes_pure ?_
    exact limit_shallow (by simpa using shallow) (by simp) _

theorem limitAnyOrder_shallow : Builds f limit limitAnyOrder .limit b := by
  have counts : limitCount?.Makes (sqlLevels f limit) fun count => ∀ e ∈ count, (Node.expr e).Shallow b := by
    refine makes_then fun _ => Makes.ite (makes_pure (by simp)) ?_
    exact (calls.expression 0).bind fun e shallow => makes_pure (by simpa using shallow)
  have offsets : Builds f limit limitOffset .expr b := by
    refine (calls.expression 0).bind fun e shallow => makes_then fun _ => Makes.ite ?_ ?_
    · exact makes_pure shallow
    · exact makes_then fun _ => makes_pure shallow
  refine makes_then fun _ => ?_
  refine (makes_loop (sqlLevels_forward f limit) (fun parts : LimitParts =>
    (∀ e ∈ parts.count, (Node.expr e).Shallow b) ∧ ∀ e ∈ parts.offset, (Node.expr e).Shallow b)
    ⟨by simp, by simp⟩ fun parts low => ?_).bind fun parts low => ?_
  · refine makes_then fun _ => Makes.ite (counts.bind fun count low' => makes_pure ?_) ?_
    · rintro _ ⟨⟩
      exact ⟨low', low.2⟩
    refine makes_then fun _ => Makes.ite (offsets.bind fun offset shallow => makes_pure ?_) ?_
    · rintro _ ⟨⟩
      exact ⟨low.1, by simpa using shallow⟩
    · exact makes_pure (by simp)
  · refine Makes.ite (makes_then fun _ => makes_pure ?_) (makes_failAny _)
    exact limit_shallow low.1 low.2 _

theorem limit?_shallow : (limit? f).Makes (sqlLevels f limit) fun value =>
    ∀ l ∈ value, (Node.limit l).Shallow b := by
  unfold limit?
  split
  · rename_i form _
    refine Makes.optional (sqlLevels_forward f limit) ?_
    cases form with
    | countFirst => exact limitCountFirst_shallow calls
    | anyOrder => exact limitAnyOrder_shallow calls
  · exact makes_pure (by simp)

/-- A query is higher by three than what is read for it one level deeper. -/
theorem queryBody_shallow : Builds f limit (queryBody f) .select (b + 3) := by
  refine makes_then fun _ => makes_then fun _ => makes_then fun distinct => ?_
  refine (Builds.list (selectColumn_shallow calls)).bind fun columns low => ?_
  refine Makes.bind (P := fun tables => ∀ t ∈ tables, (Node.table t).Shallow (b + 2)) ?_
    fun tables low' => ?_
  · exact makes_then fun _ => Makes.ite (Builds.list (tableRef_shallow calls)) (makes_pure (by simp))
  refine (clause?_shallow calls .WHERE).bind fun condition whereLow => ?_
  refine (byClause_shallow (calls.expression 0) .GROUP).bind fun groupBy groupLow => ?_
  refine (clause?_shallow calls .HAVING).bind fun having havingLow => ?_
  refine (byClause_shallow (orderByItem_shallow calls) .ORDER).bind fun orderBy orderLow => ?_
  refine (limit?_shallow calls).bind fun limit limitLow => makes_then fun _ => makes_pure ?_
  refine Node.shallow_around (b := b + 2) ?_
  have le : b ≤ b + 2 := Nat.le_add_right b 2
  simp only [Node.fields, List.forall_mem_cons, List.forall_mem_map, Option.mem_toList]
  refine ⟨fun x mem => (low x mem).mono le, low', fun x mem => (whereLow x mem).mono le, ?_⟩
  refine ⟨fun x mem => (groupLow x mem).mono le, fun x mem => (havingLow x mem).mono le, ?_⟩
  exact ⟨fun x mem => (orderLow x mem).mono le, fun x mem => (limitLow x mem).mono le, by simp⟩

end

/-- With each level of nesting nodes become higher by three at most. -/
theorem shallowCalls (f : Features) (limit : Nat) : ShallowCalls f limit (3 * limit) := by
  induction limit with
  | zero => exact ⟨fun _ _ => yields_tooDeep, fun _ => yields_tooDeep, fun _ => yields_tooDeep⟩
  | succ limit ih =>
    refine ⟨fun power => ?_, ?_, ?_⟩
    · exact Builds.mono (expressionBody_shallow (ih.mono (Nat.le_succ _)) (Nat.le_add_left _ _) power) (by omega)
    · exact queryBody_shallow ih
    · exact Builds.mono (joinGroupBody_shallow ih) (by omega)

end

section

variable {f : Features} {limit b : Nat}

section

variable (calls : ShallowCalls f limit b)
include calls

theorem insertSource_shallow : insertSource.Makes (sqlLevels f limit) fun source =>
    ∀ field ∈ Node.fieldsOfSource source, ∀ p ∈ field, p.Shallow b := by
  have forward := sqlLevels_forward f limit
  refine makes_choice forward ?_
  simp only [List.forall_mem_cons, List.not_mem_nil, false_implies, implies_true, and_true]
  refine ⟨makes_then fun _ => ?_, makes_then fun _ => makes_then fun _ => ?_, ?_⟩
  · refine (Makes.commaSeparated forward (Makes.parenthesizedList forward (calls.expression 0))).bind
      fun rows each => makes_pure ?_
    simp only [Node.fieldsOfSource, List.forall_mem_cons, List.forall_mem_map, List.mem_flatten]
    exact ⟨fun e inside => by obtain ⟨row, mem, mem'⟩ := inside; exact each row mem e mem', by simp⟩
  · exact makes_pure (by simp [Node.fieldsOfSource])
  · exact calls.query.bind fun query shallow => makes_pure (by simpa [Node.fieldsOfSource] using shallow)

theorem insertStatement_shallow : Builds f limit (insertStatement f) .insert b := by
  refine makes_then fun _ => makes_then fun _ => makes_then fun _ => makes_then fun table => ?_
  refine makes_then fun columns => (insertSource_shallow calls).bind fun source low => ?_
  refine (returningClause_shallow calls).bind fun returning low' => makes_then fun _ => makes_pure ?_
  refine Node.shallow_of_fields rfl ?_
  simp only [Node.fields, List.forall_mem_append, List.forall_mem_cons, List.forall_mem_map]
  exact ⟨⟨by simp, low⟩, low', by simp⟩

theorem assignment_shallow : Builds f limit assignment .assignment b := by
  refine makes_then fun _ => makes_then fun column => makes_then fun _ => ?_
  refine (calls.expression 0).bind fun value shallow => makes_then fun _ => makes_pure ?_
  exact Node.shallow_of_fields rfl (by simpa [Node.fields] using shallow)

theorem updateStatement_shallow : Builds f limit (updateStatement f) .update b := by
  refine makes_then fun _ => makes_then fun _ => makes_then fun table => makes_then fun alias? => ?_
  refine makes_then fun _ => (Builds.list (assignment_shallow calls)).bind fun assignments low => ?_
  refine (clause?_shallow calls .WHERE).bind fun condition whereLow => ?_
  refine (returningClause_shallow calls).bind fun returning low' => makes_then fun _ => makes_pure ?_
  refine Node.shallow_of_fields rfl ?_
  simp only [Node.fields, List.forall_mem_cons, List.forall_mem_map, Option.mem_toList]
  exact ⟨by simp, by simp, low, whereLow, low', by simp⟩

theorem deleteStatement_shallow : Builds f limit (deleteStatement f) .delete b := by
  refine makes_then fun _ => makes_then fun _ => makes_then fun _ => makes_then fun table => ?_
  refine makes_then fun alias? => (clause?_shallow calls .WHERE).bind fun condition whereLow => ?_
  refine (returningClause_shallow calls).bind fun returning low => makes_then fun _ => makes_pure ?_
  refine Node.shallow_of_fields rfl ?_
  simp only [Node.fields, List.forall_mem_cons, List.forall_mem_map, Option.mem_toList]
  exact ⟨by simp, by simp, whereLow, low, by simp⟩

theorem parenthesizedCondition_shallow : Builds f limit parenthesizedCondition .expr b :=
  makes_then fun _ => (calls.expression 0).bind fun _ shallow => makes_then fun _ => makes_pure shallow

omit calls in
theorem foreignKey_shallow (key : ForeignKey) : (Node.foreignKey key).Shallow b :=
  Node.shallow_of_fields rfl (by simp [Node.fields])

theorem columnConstraintKind_shallow : columnConstraintKind.Makes (sqlLevels f limit) fun kind =>
    ∀ field ∈ Node.fieldsOfColumnConstraint kind, ∀ p ∈ field, p.Shallow b := by
  refine makes_choice (sqlLevels_forward f limit) ?_
  simp only [List.forall_mem_cons, List.not_mem_nil, false_implies, implies_true, and_true]
  have bare {kind : ColumnConstraintKind} (none : Node.fieldsOfColumnConstraint kind = []) :
      (Pure.pure kind : SqlRule ColumnConstraintKind).Makes (sqlLevels f limit) fun kind =>
        ∀ field ∈ Node.fieldsOfColumnConstraint kind, ∀ p ∈ field, p.Shallow b :=
    makes_pure (by simp [none])
  refine ⟨?_, ?_, ?_, ?_, ?_, ?_, ?_⟩
  · exact makes_then fun _ => makes_then fun _ => bare rfl
  · exact makes_then fun _ => bare rfl
  · refine makes_then fun _ => makes_then fun _ => makes_then fun _ => Makes.ite (bare rfl) ?_
    exact makes_then fun _ => Makes.ite (bare rfl) (bare rfl)
  · exact makes_then fun _ => bare rfl
  · refine makes_then fun _ => (calls.expression _).bind fun value shallow => makes_pure ?_
    simpa [Node.fieldsOfColumnConstraint] using shallow
  · refine makes_then fun _ => (parenthesizedCondition_shallow calls).bind fun e shallow => makes_pure ?_
    simpa [Node.fieldsOfColumnConstraint] using shallow
  · refine makes_then fun key => makes_pure ?_
    simpa [Node.fieldsOfColumnConstraint] using foreignKey_shallow key

theorem columnConstraint_shallow : Builds f limit (columnConstraint f) .columnConstraint b := by
  have named {kind : SqlRule ColumnConstraintKind} (makes : kind.Makes (sqlLevels f limit) fun kind =>
      ∀ field ∈ Node.fieldsOfColumnConstraint kind, ∀ p ∈ field, p.Shallow b) :
      Builds f limit (namedColumnConstraint kind) .columnConstraint b := by
    refine makes_then fun _ => makes_then fun name => makes.bind fun kind low => makes_then fun _ => ?_
    refine makes_pure (Node.shallow_of_fields rfl (List.forall_mem_cons.mpr ⟨by simp, low⟩))
  unfold columnConstraint
  split
  · refine named (makes_choice (sqlLevels_forward f limit) ?_)
    refine List.forall_mem_cons.mpr ⟨columnConstraintKind_shallow calls, List.forall_mem_singleton.mpr ?_⟩
    exact makes_then fun _ => makes_pure (by simp [Node.fieldsOfColumnConstraint])
  · exact named (columnConstraintKind_shallow calls)

theorem columnDef_shallow : Builds f limit (columnDef f) .columnDef b := by
  refine makes_then fun _ => makes_then fun name => makes_then fun type => ?_
  refine (Makes.many (sqlLevels_forward f limit) (columnConstraint_shallow calls)).bind
    fun constraints low => makes_then fun _ => makes_pure (Node.shallow_of_fields rfl ?_)
  simp only [Node.fields, List.forall_mem_cons, List.forall_mem_map]
  exact ⟨by simp, low, by simp⟩

theorem tableConstraint_shallow : Builds f limit tableConstraint .tableConstraint b := by
  have kinds : tableConstraintKind.Makes (sqlLevels f limit) fun kind =>
      ∀ field ∈ Node.fieldsOfTableConstraint kind, ∀ p ∈ field, p.Shallow b := by
    refine makes_then fun _ => Makes.ite (makes_then fun _ => makes_then fun _ => makes_pure ?_) ?_
    · simp [Node.fieldsOfTableConstraint]
    refine makes_then fun _ => Makes.ite (makes_then fun _ => makes_pure ?_) ?_
    · simp [Node.fieldsOfTableConstraint]
    refine makes_then fun _ => Makes.ite ?_ (makes_then fun _ => Makes.ite ?_ (makes_failAny _))
    · refine makes_then fun _ => makes_then fun _ => makes_then fun key => makes_pure ?_
      simpa [Node.fieldsOfTableConstraint] using foreignKey_shallow key
    · refine (parenthesizedCondition_shallow calls).bind fun e shallow => makes_pure ?_
      simpa [Node.fieldsOfTableConstraint] using shallow
  refine makes_then fun _ => makes_then fun name => kinds.bind fun kind low => makes_then fun _ => ?_
  exact makes_pure (Node.shallow_of_fields rfl (List.forall_mem_cons.mpr ⟨by simp, low⟩))

theorem createTableStatement_shallow : Builds f limit (createTableStatement f) .createTable b := by
  have forward := sqlLevels_forward f limit
  have elements : Builds f limit (tableElement f) .ofTableElement b := by
    refine makes_choice forward (List.forall_mem_cons.mpr ⟨?_, List.forall_mem_singleton.mpr ?_⟩)
    · exact (tableConstraint_shallow calls).bind fun _ shallow => makes_pure shallow
    · exact (columnDef_shallow calls).bind fun _ shallow => makes_pure shallow
  refine makes_then fun _ => makes_then fun _ => makes_then fun _ => makes_then fun _ => ?_
  refine makes_then fun _ => makes_then fun name => ?_
  refine (Makes.parenthesizedList forward elements).bind fun elements low => makes_then fun _ => ?_
  refine makes_pure (Node.shallow_of_fields rfl ?_)
  simp only [Node.fields, List.forall_mem_cons, List.forall_mem_map, List.mem_filterMap]
  refine ⟨by simp, ?_, ?_, by simp⟩
  · rintro column ⟨element, mem, found⟩
    cases element <;> cases found
    exact low _ mem
  · rintro constraint ⟨element, mem, found⟩
    cases element <;> cases found
    exact low _ mem

theorem pragmaStatement_shallow (some : 1 ≤ b) : Builds f limit pragmaStatement .pragma b := by
  have values : Builds f limit pragmaValue .expr b := by
    refine makes_choice (sqlLevels_forward f limit) (List.forall_mem_cons.mpr ⟨calls.expression _, ?_⟩)
    refine List.forall_mem_singleton.mpr (makes_then fun _ => Makes.ite ?_ (makes_failAny _))
    refine makes_then fun token => makes_pure (Node.Shallow.mono (b := 0 + 1) ?_ some)
    exact ExprKind.Low.shallow (ExprKind.low_of_fields (by simp [Node.fieldsOfExpr])) _
  have whole {name : ObjectName} {value : Expr} {span : Span} (shallow : (Node.expr value).Shallow b) :
      (Node.pragma ⟨name, Option.some value, span⟩).Shallow b :=
    Node.shallow_of_fields rfl (by simpa [Node.fields] using shallow)
  refine makes_then fun _ => makes_then fun _ => makes_then fun name => makes_then fun _ => Makes.ite ?_ ?_
  · exact values.bind fun value shallow => makes_then fun _ => makes_pure (whole shallow)
  refine makes_then fun _ => Makes.ite ?_ (makes_then fun _ => makes_pure ?_)
  · refine values.bind fun value shallow => makes_then fun _ => makes_then fun _ => makes_pure ?_
    exact whole shallow
  · exact Node.shallow_of_fields rfl (by simp [Node.fields])

/-- Statements are no higher than what is read for them one level deeper. -/
theorem statement_shallow (some : 1 ≤ b) : Builds f limit (statement f) .ofStatement b := by
  have forward := sqlLevels_forward f limit
  have standard : Builds f limit (standardStatement f) .ofStatement b := by
    refine makes_choice forward ?_
    simp only [List.forall_mem_cons, List.not_mem_nil, false_implies, implies_true, and_true]
    refine ⟨calls.query.bind ?_, (insertStatement_shallow calls).bind ?_,
      (updateStatement_shallow calls).bind ?_, (deleteStatement_shallow calls).bind ?_,
      (createTableStatement_shallow calls).bind ?_⟩
    all_goals exact fun _ shallow => makes_pure shallow
  unfold statement
  split
  · refine makes_choice forward (List.forall_mem_cons.mpr ⟨standard, List.forall_mem_singleton.mpr ?_⟩)
    exact (pragmaStatement_shallow calls some).bind fun _ shallow => makes_pure shallow
  · exact standard

theorem script_shallow (some : 1 ≤ b) : Builds f limit (script f) .script b := by
  have forward := sqlLevels_forward f limit
  refine makes_then fun _ => ?_
  refine (makes_loop forward (fun statements => ∀ s ∈ statements, (Node.ofStatement s).Shallow b)
    (by simp) fun statements each => ?_).bind fun statements each => makes_then fun _ => makes_pure ?_
  · refine makes_then fun _ => makes_then fun _ => Makes.ite (makes_pure (by simp)) ?_
    refine (Makes.attempt forward (statement_shallow calls some)).bind fun next shallow => ?_
    have longer : ∀ s ∈ next :: statements, (Node.ofStatement s).Shallow b :=
      List.forall_mem_cons.mpr ⟨shallow, each⟩
    refine makes_then fun _ => Makes.ite (makes_pure ?_) (makes_then fun _ => makes_pure ?_)
    all_goals
      rintro _ ⟨⟩
      exact longer
  · refine Node.shallow_of_fields rfl ?_
    simpa [Node.fields] using each

/-- Whatever kind of model is asked for, it is no higher than what is read for it one level deeper. -/
theorem entry_shallow (some : 1 ≤ b) (kind : ModelKind) : Builds f limit (entry f kind) Model.node b := by
  cases kind with
  | statement => exact (statement_shallow calls some).bind fun _ shallow => makes_pure shallow
  | select => exact calls.query.bind fun _ shallow => makes_pure shallow
  | insert => exact (insertStatement_shallow calls).bind fun _ shallow => makes_pure shallow
  | update => exact (updateStatement_shallow calls).bind fun _ shallow => makes_pure shallow
  | delete => exact (deleteStatement_shallow calls).bind fun _ shallow => makes_pure shallow
  | createTable => exact (createTableStatement_shallow calls).bind fun _ shallow => makes_pure shallow
  | pragma => exact (pragmaStatement_shallow calls some).bind fun _ shallow => makes_pure shallow
  | script => exact (script_shallow calls some).bind fun _ shallow => makes_pure shallow
  | expression => exact (calls.expression 0).bind fun _ shallow => makes_pure shallow

end

end

/-- In every model that a text is parsed as, a way down meets at most three expressions, tables and
queries for each level of nesting, those apart that stand to the left of an operator or a join. -/
theorem Dialect.parse_shallow {d : Dialect} {kind : ModelKind} {text : String} {m : Model}
    (parsed : d.parse kind text = .ok m) :
    ∀ n k, m.node.Descent Node.left? n k → k ≤ 3 * maxNesting := by
  obtain ⟨tokens, stop, lexes⟩ := lexes_exists d.lexical (.ofText text.toList)
  obtain ⟨after, read⟩ := d.read_of_parse parsed lexes
  have entries := entry_shallow (shallowCalls d.features maxNesting) (by decide) kind
  exact Makes.run (sqlLevels_forward d.features maxNesting) entries _ m after read

/-- The text of a sum of `n + 1` ones. -/
def sumOfOnes (n : Nat) : String :=
  String.ofList ('1' :: (List.replicate n [' ', '+', ' ', '1']).flatten)

/-- The expression that a sum of ones is to be read as. -/
def onesPhrase : Nat → Phrase
  | 0 => .integer 1
  | n + 1 => .binary (onesPhrase n) .add (.integer 1)

section

variable {rules : LexicalRules} {f : Features} {n : Nat}

/-- A sum of ones can be written. -/
theorem onesPhrase_fits (n : Nat) : (onesPhrase n).Fits rules f := by
  have one : (Phrase.integer 1).Fits rules f := .intro trivial (by decide : 1 ≤ maxInteger) (by simp [Phrase.parts])
  induction n with
  | zero => exact one
  | succ n ih =>
    refine .intro ⟨?_, trivial⟩ trivial (List.forall_mem_cons.mpr ⟨ih, List.forall_mem_singleton.mpr one⟩)
    cases n with
    | zero => exact trivial
    | succ n => exact ⟨by decide, trivial⟩

/-- However many ones there are, no level of nesting is needed for them but one. -/
theorem onesPhrase_nesting (n : Nat) : (onesPhrase n).nesting ≤ 1 := by
  induction n with
  | zero => exact Nat.zero_le 1
  | succ n ih => exact Nat.max_le.mpr ⟨ih, Nat.le_refl 1⟩

theorem onesPhrase_signs (n : Nat) : (onesPhrase n).signs rules =
    .integer 1 :: (List.replicate n [Sign.binary rules .add, .integer 1]).flatten := by
  induction n with
  | zero => rfl
  | succ n ih => simp [onesPhrase, Phrase.signs, InfixOp.signs, ih, List.replicate_succ']

theorem sumOfOnes_spaced (n : Nat) : Spaced ((onesPhrase n).signs rules) (sumOfOnes n).toList := by
  have gap : ∀ c ∈ [' '], isWhiteSpace c = true := List.forall_mem_singleton.mpr rfl
  have ends (n : Nat) : EndsToken (List.replicate n [' ', '+', ' ', '1']).flatten := by
    cases n with
    | zero => exact fun c first => by cases first
    | succ n => exact fun c first => by cases first; rfl
  have more (n : Nat) : Spaced (List.replicate n [Sign.binary rules .add, .integer 1]).flatten
      (List.replicate n [' ', '+', ' ', '1']).flatten := by
    induction n with
    | zero => exact .blank (by simp)
    | succ n ih =>
      have plus : (Sign.binary rules .add).text.toList = ['+'] := (by decide : "+".toList = ['+'])
      have one : Spaced (Sign.integer 1 :: (List.replicate n [Sign.binary rules .add, .integer 1]).flatten)
          (' ' :: '1' :: (List.replicate n [' ', '+', ' ', '1']).flatten) := .sign gap (ends n) ih
      have next := Spaced.sign (s := Sign.binary rules .add) gap (fun c first => by cases first; rfl) one
      rwa [plus] at next
  rw [onesPhrase_signs, sumOfOnes, String.toList_ofList]
  have none : ∀ c ∈ ([] : List Char), isWhiteSpace c = true := by simp
  exact .sign (s := .integer 1) none (ends n) (more n)

/-- The text of a sum of ones is parsed as that sum. -/
theorem sumOfOnes_parse (n : Nat) : ∃ e, Dialect.sqlite.parse .expression (sumOfOnes n) =
    .ok (.expression e) ∧ e.bare = (onesPhrase n).expr := by
  refine Dialect.parse_written (by decide) (onesPhrase_fits n) ?_ ?_ (sumOfOnes_spaced n)
  · have none : ((onesPhrase n).signs Dialect.sqlite.lexical).filterMap (·.number) = [] := by
      rw [onesPhrase_signs]
      simp [Sign.binary, Sign.integer]
    rw [Numbered, none]
    rfl
  · exact Nat.lt_of_le_of_lt (onesPhrase_nesting n) (by decide)

/-- Every operator of a sum of ones counts on the way down to the first one. -/
theorem onesPhrase_descent {e : Expr} (same : e.bare = (onesPhrase n).expr) :
    ∃ p, (Node.expr e).Descent (fun _ => none) p (n + 1) := by
  induction n generalizing e with
  | zero => exact ⟨_, .root⟩
  | succ n ih =>
    obtain ⟨kind, span⟩ := e
    have same := congrArg Expr.kind same
    cases kind with
    | binary left op right =>
      obtain ⟨p, descent⟩ := ih (ExprKind.binary.inj same).1
      exact ⟨p, Nat.add_comm _ _ ▸ descent.cons (by simp [Node.parts, Node.fields, Node.fieldsOfExpr]) (by simp)⟩
    | parameter name => cases name <;> cases same
    | _ => cases same

/-- There is no bound for the height of all models if what stands to the left counts. -/
theorem sumOfOnes_high (n : Nat) : ∃ m, Dialect.sqlite.parse .expression (sumOfOnes n) = .ok m ∧
    ∃ p, m.node.Descent (fun _ => none) p (n + 1) := by
  obtain ⟨e, parsed, same⟩ := sumOfOnes_parse n
  exact ⟨_, parsed, onesPhrase_descent same⟩

end

/-- A sum of 513 ones is parsed, though its height is more than four for each level of nesting. -/
theorem Dialect.sqlite_sum_not_bounded : ∃ m, Dialect.sqlite.parse .expression (sumOfOnes 512) = .ok m ∧
    ∃ n k, m.node.Descent (fun _ => none) n k ∧ 4 * maxNesting < k := by
  obtain ⟨m, parsed, p, descent⟩ := sumOfOnes_high 512
  exact ⟨m, parsed, p, 513, descent, by decide⟩

theorem Dialect.sqlite_sum_shallow : ∃ m, Dialect.sqlite.parse .expression (sumOfOnes 512) = .ok m ∧
    ∀ n k, m.node.Descent Node.left? n k → k ≤ 3 * maxNesting := by
  obtain ⟨m, parsed, -⟩ := sumOfOnes_high 512
  exact ⟨m, parsed, Dialect.parse_shallow parsed⟩

end SqlTree
