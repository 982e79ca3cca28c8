import SqlTree.Proofs.Tree.Expressions

namespace SqlTree

open Rule SqlRule

variable {f : Features} {tokens : List Token} {top limit : Nat} {s : Tape}

theorem Calls.any (calls : Calls f tokens top limit) :
    Reads f tokens top limit 1 SqlRule.expression fun e => [.expr e] := calls.expression 0

theorem selectColumn_fills (calls : Calls f tokens top limit) :
    Fills f tokens top limit (selectColumn f) .column := by
  refine Fills.intro fun s first peek row => ?_
  simp only [yields_bind, yields_spanFrom, yields_pure]
  refine row.part calls.any fun e s used some row => ?_
  refine row.part alias?_reads fun alias? s used _ row => ?_
  refine ⟨_, _, ?_, row, rfl, arranged_of_parts ?_, rfl⟩
  · simp [List.length_pos_iff.mp some]
  · simp [Node.parts, Node.fields]

theorem selectColumn_reads (calls : Calls f tokens top limit) :
    Reads f tokens top limit 1 (selectColumn f) fun c => [.column c] :=
  (selectColumn_fills calls).reads fun _ _ origin => origin

theorem clause?_reads (calls : Calls f tokens top limit) (k : Keyword) :
    Reads f tokens top limit 0 (clause? k) fun e => e.toList.map .expr :=
  reads_behindKeyword (calls.any.map fun _ => rfl) rfl

theorem returningClause_reads (calls : Calls f tokens top limit) :
    Reads f tokens top limit 0 (returningClause f) fun columns => columns.map .column := by
  have columns := (selectColumn_reads calls).commaSeparatedNodes
  intro s along
  unfold returningClause
  cases f.returning with
  | true => exact reads_behindKeyword columns rfl s along
  | false =>
    simp only [Bool.false_eq_true, if_false, yields_bind, yields_pure]
    exact ⟨[], Nat.zero_le _, .refl _ along⟩

theorem namedTable_fills : Fills f tokens top limit (namedTable f) .table := by
  refine Fills.intro fun s first peek row => ?_
  simp only [yields_bind, yields_spanFrom, yields_pure]
  refine row.part objectName_reads fun name s used some row => ?_
  refine row.part alias?_reads fun alias? s used _ row => ?_
  refine ⟨_, _, ?_, row, rfl, arranged_of_parts ?_, rfl⟩
  · simp [List.length_pos_iff.mp some]
  · simp [Node.parts, Node.fields, Node.fieldsOfTable]

theorem derivedTable_fills (calls : Calls f tokens top limit) :
    Fills f tokens top limit (derivedTable f) .table := by
  refine Fills.intro fun s first peek row => ?_
  simp only [yields_bind, yields_spanFrom, yields_pure]
  refine row.expect rfl fun _ s row => ?_
  refine row.part calls.query fun query s used _ row => ?_
  refine row.expect rfl fun _ s row => ?_
  refine row.part alias?_reads fun alias? s used _ row => ?_
  refine ⟨_, _, ?_, row, rfl, arranged_of_parts ?_, rfl⟩
  · simp
  · simp [Node.parts, Node.fields, Node.fieldsOfTable]

/-- A single table lies on its tokens. -/
theorem tableFactor_reads (calls : Calls f tokens top limit) :
    Reads f tokens top limit 1 (tableFactor f) fun t => [.table t] := by
  refine always_choice steady_laying ?_
  simp only [List.forall_mem_cons, List.not_mem_nil, false_implies, implies_true, and_true]
  refine ⟨?_, ?_, calls.joinGroup⟩
  · exact namedTable_fills.reads fun _ _ origin => .named origin
  · exact (derivedTable_fills calls).reads fun _ _ origin => .derived origin

theorem joinCondition_reads (calls : Calls f tokens top limit) :
    Reads f tokens top limit 0 joinCondition fun on => on.1.toList.map .expr ++ on.2.map .ident := by
  intro s along
  simp only [joinCondition, yields_bind, yields_ite, yields_pure]
  refine (Lays.refl top along).eatKeyword (fun _ s row => ?_) ?_
  · refine row.part calls.any fun e s used _ row => ⟨_, Nat.zero_le _, row⟩
  · refine (Lays.refl top along).eatKeyword (fun _ s row => ?_) ((yields_failAny _).mpr trivial)
    refine row.part identifierList_reads fun columns s used _ row => ?_
    exact ⟨_, Nat.zero_le _, row⟩

/-- A join with its condition lies on its tokens. -/
theorem joinClause_fills (calls : Calls f tokens top limit) :
    Fills f tokens top limit (joinClause f) .join := by
  refine Fills.intro fun s first peek row => ?_
  rw [yields_bind]
  refine row.mayEatKeyword fun natural s used row => ?_
  rw [yields_bind]
  refine row.part joinType_skips fun type s used some row => ?_
  rw [yields_bind]
  refine row.part (tableFactor_reads calls) fun table s used _ row => ?_
  rw [yields_bind]
  have on : Reads f tokens top limit 0
      (if (natural || type == .cross) = true then return (none, []) else joinCondition)
      fun on => on.1.toList.map .expr ++ on.2.map .ident := by
    split
    · exact reads_pure _ rfl
    · exact joinCondition_reads calls
  refine row.part on fun on s used _ row => ?_
  simp only [yields_bind, yields_spanFrom, yields_pure]
  refine ⟨_, _, ?_, row, rfl, arranged_of_parts ?_, rfl⟩
  · simp [List.length_pos_iff.mp some]
  · simp [Node.parts, Node.fields]

theorem joinClause_reads (calls : Calls f tokens top limit) :
    Reads f tokens top limit 1 (joinClause f) fun j => [.join j] :=
  (joinClause_fills calls).reads fun _ _ origin => origin

/-- The span of some tokens ends where the last one ends. -/
theorem spanOf_stop {used : List Token} (some : used ≠ []) (p : Position) :
    (spanOf used).stop = endBehind p used := by
  cases used with
  | nil => exact absurd rfl some
  | cons => rfl

/-- A join fits everything from the start of its left table to the end of its clause. -/
theorem Laid.join {page : Page} {first : Token} {rest used : List Token} {left : TableRef} {j : JoinClause}
    (laid : Laid f page (first :: rest) [.table left]) (covers : Covers f page used (.join j)) :
    Fits f page (first :: rest ++ used)
      (.table (.join left j ⟨first.span.start, j.span.stop⟩)) [.table left, .join j] := by
  have stop : j.span.stop = endBehind first.span.stop (rest ++ used) := by
    have span : j.span = spanOf used := covers.span_eq
    rw [span, endBehind_append]
    exact spanOf_stop covers.ne_nil _
  refine ⟨by simp, ?_, arranged_of_parts rfl, laid.append covers.laid⟩
  simp only [Node.span, TableRef.span, stop]
  rfl

/-- Joins behind a table group to the left. -/
theorem Lays.joins {after : Tape} {first : Token} {rest : List Token} {left : TableRef}
    {joins : List JoinClause}
    (row : Lays f tokens top s (first :: rest) (.table left :: joins.map .join) after) :
    Lays f tokens top s (first :: rest) [.table (joins.foldl
      (fun left join => .join left join ⟨first.span.start, join.span.stop⟩) left)] after := by
  induction joins generalizing left with
  | nil => exact row
  | cons j joins ih =>
    obtain ⟨skipped, own, behind, split, covers, laid⟩ := row.laid.uncons
    obtain ⟨skipped', own', behind', rfl, covers', laid'⟩ := laid.uncons
    refine ih ?_
    have front : first :: rest = (skipped ++ own ++ skipped') ++ own' ++ behind' := by
      rw [split]
      simp
    have leftLaid : Laid f (s.page tokens top) (skipped ++ own ++ skipped') [.table left] := by
      have both := (covers.laid.skips skipped).append (laid_none skipped')
      rwa [List.append_nil] at both
    obtain ⟨t, more, eq⟩ : ∃ t more, skipped ++ own ++ skipped' = t :: more :=
      List.exists_cons_of_ne_nil (by simp [covers.ne_nil])
    rw [eq] at front leftLaid
    obtain ⟨rfl, -⟩ := List.cons.inj front
    have fits := leftLaid.join covers'
    have ordered := row.start.ordered_used row.moves
    rw [front] at ordered
    cases row.counted with
    | cons counted others =>
      cases others with
      | cons counted' others =>
        have parts := (countedAll_singleton.mpr counted).append (countedAll_singleton.mpr counted')
        refine ⟨row.start, row.moves, ?_, .cons (fits.counted ordered.split.1 rfl parts) others⟩
        rw [front]
        exact .node (fits.covers .joined) laid'

/-- A table lies on its tokens with all joins behind it. -/
theorem tableRef_reads (calls : Calls f tokens top limit) :
    Reads f tokens top limit 1 (tableRef f) fun t => [.table t] := by
  intro s along
  simp only [tableRef, yields_bind, yields_start, yields_pure]
  intro first peek
  refine (Lays.refl top along).part (tableFactor_reads calls) fun left s used some row => ?_
  refine row.part (joinClause_reads calls).manyNodes fun joins s more _ row => ?_
  obtain ⟨t, rest, eq, peek'⟩ := row.moves.peek (by simp [List.length_pos_iff.mp some])
  rw [peek] at peek'
  cases peek'
  rw [eq] at row
  exact ⟨_, by simp, row.joins⟩

theorem joinGroupBody_reads (calls : Calls f tokens top limit) :
    Reads f tokens top limit 1 (joinGroupBody f) fun t => [.table t] := by
  intro s along
  simp only [joinGroupBody, yields_bind, yields_pure]
  refine (Lays.refl top along).expect rfl fun _ s row => ?_
  refine row.part (tableRef_reads calls) fun inner s used _ row => ?_
  exact row.expect rfl fun _ s row => ⟨_, by simp, row⟩

theorem orderByItem_fills (calls : Calls f tokens top limit) :
    Fills f tokens top limit (orderByItem f) .order := by
  refine Fills.intro fun s first peek row => ?_
  simp only [yields_bind, yields_spanFrom, yields_pure]
  refine row.part calls.any fun e s used some row => ?_
  refine row.part orderDirection_skips fun direction s used' _ row => ?_
  refine row.part nullOrdering?_skips fun nulls s used'' _ row => ?_
  refine ⟨_, _, ?_, row, rfl, arranged_of_parts rfl, rfl⟩
  simp [List.length_pos_iff.mp some]

theorem orderByItem_reads (calls : Calls f tokens top limit) :
    Reads f tokens top limit 1 (orderByItem f) fun o => [.order o] :=
  (orderByItem_fills calls).reads fun _ _ origin => origin

/-- A clause with BY lies on its items. -/
theorem byClause_reads {α : Type} {k : Keyword} {item : SqlRule α} {node : α → Node}
    (reads : Reads f tokens top limit 1 item fun value => [node value]) :
    Reads f tokens top limit 0 (byClause k item) fun values => values.map node := by
  have list : Reads f tokens top limit 1 (do
      let _ ← expectKeyword .BY
      commaSeparated item) fun values => values.map node := by
    intro s along
    rw [yields_bind]
    refine (Lays.refl top along).expectKeyword fun _ s row => ?_
    exact row.part reads.commaSeparatedNodes fun values s used _ row => ⟨_, by simp, row⟩
  exact reads_behindKeyword list rfl

theorem limitCountFirst_fills (calls : Calls f tokens top limit) :
    Fills f tokens top limit limitCountFirst .limit := by
  refine Fills.intro fun s first peek row => ?_
  simp only [yields_bind, yields_ite, yields_spanFrom, yields_pure]
  refine row.expectKeyword fun _ s row => ?_
  refine row.part calls.any fun e s used _ row => ?_
  refine row.eatKeyword (fun _ s row => ?_) (row.eat rfl (fun _ s row => ?_) ?_)
  · refine row.part calls.any fun offset s used _ row => ?_
    exact ⟨_, _, by simp, row, rfl, arranged_of_parts rfl, rfl⟩
  · refine row.part calls.any fun count s used _ row => ?_
    refine ⟨_, _, by simp, row, rfl, arranged_of_perm rfl (List.Perm.swap _ _ _) ?_, rfl⟩
    simp [Node.fields]
  · exact ⟨_, _, by simp, row, rfl, arranged_of_parts rfl, rfl⟩

theorem limitCount?_reads (calls : Calls f tokens top limit) :
    Reads f tokens top limit 0 limitCount? fun count => count.toList.map .expr := by
  intro s along
  simp only [limitCount?, yields_bind, yields_ite, yields_pure]
  refine (Lays.refl top along).eatKeyword (fun _ s row => ⟨_, Nat.zero_le _, row⟩) ?_
  exact (Lays.refl top along).part calls.any fun e s used _ row => ⟨_, Nat.zero_le _, row⟩

theorem limitOffset_reads (calls : Calls f tokens top limit) :
    Reads f tokens top limit 1 limitOffset fun offset => [.expr offset] := by
  intro s along
  simp only [limitOffset, yields_bind, yields_ite, yields_pure]
  refine (Lays.refl top along).part calls.any fun offset s used some row => ?_
  refine row.eatKeyword (fun _ s row => ⟨_, by simp, row⟩) ?_
  refine row.mayEatKeyword fun _ s more row => ⟨_, ?_, row⟩
  simp
  omega

/-- What was read of a limit lies on the tokens consumed, in whatever order. -/
structure LimitLaid (f : Features) (tokens : List Token) (top : Nat) (s : Tape) (parts : LimitParts)
    (after : Tape) : Prop where
  row : ∃ used nodes, Lays f tokens top s used nodes after ∧
    nodes.Perm (parts.count.toList.map .expr ++ parts.offset.toList.map .expr) ∧
    (parts.limitSeen = true ∨ parts.offset.isSome = true → used ≠ [])
  unseen : parts.limitSeen = false → parts.count = none

/-- A limit fills its tokens in whatever order its parts are written. -/
theorem limitAnyOrder_fills (calls : Calls f tokens top limit) :
    Fills f tokens top limit limitAnyOrder .limit := by
  refine Fills.intro fun s first peek row => ?_
  rw [yields_bind]
  refine (yields_loop_of_kept (LimitLaid f tokens top s) (sqlLevels_forward f limit)
    ⟨⟨[], [], row, .refl _, by simp⟩, fun _ => rfl⟩ ?_).mono ?_
  · rintro ⟨seen, count, offset⟩ mid ⟨⟨used, nodes, row, perm, some⟩, unseen⟩
    have offsets : (do
        if ← (if offset.isSome = true then return false else eatKeyword .OFFSET) then
          return Option.some ⟨seen, count, Option.some (← limitOffset)⟩
        else return none : SqlRule (Option LimitParts)).Yields (sqlLevels f limit) mid
          fun next after => LimitLaid f tokens top s (next.getD ⟨seen, count, offset⟩) after := by
      cases offset with
      | some e =>
        simp only [Option.isSome_some, if_true, yields_bind, yields_pure, Bool.false_eq_true, if_false]
        exact ⟨⟨used, nodes, row, perm, some⟩, unseen⟩
      | none =>
        simp only [Option.isSome_none, Bool.false_eq_true, if_false, yields_bind, yields_ite, yields_pure]
        refine row.eatKeyword (fun _ s row => ?_) ⟨⟨used, nodes, row, perm, some⟩, unseen⟩
        refine row.part (limitOffset_reads calls) fun e s more _ row => ?_
        refine ⟨⟨_, _, row, ?_, fun _ => by simp⟩, unseen⟩
        simpa using perm.append_right [.expr e]
    cases seen with
    | true =>
      simp only [if_true, yields_bind, yields_pure, Bool.false_eq_true, if_false]
      simpa only [yields_bind] using offsets
    | false =>
      obtain rfl : count = none := unseen rfl
      simp only [Bool.false_eq_true, if_false]
      rw [yields_bind]
      simp only [yields_ite]
      refine row.eatKeyword (fun _ s row => ?_) offsets
      simp only [yields_bind, yields_pure]
      refine row.part (limitCount?_reads calls) fun count s more _ row => ?_
      refine ⟨⟨_, _, row, ?_, fun _ => by simp⟩, fun seen => by cases seen⟩
      exact (perm.append_right _).trans List.perm_append_comm
  · rintro ⟨seen, count, offset⟩ after ⟨⟨used, nodes, row, perm, some⟩, -⟩
    simp only [yields_ite, yields_bind, yields_spanFrom, yields_pure]
    split
    · rename_i read
      refine ⟨used, nodes, some (by simpa using read), row, rfl, arranged_of_perm rfl ?_ ?_, rfl⟩
      · simpa [Node.parts, Node.fields] using perm
      · cases count <;> cases offset <;> simp [Node.fields]
    · exact (yields_failAny _).mpr trivial

/-- A limit lies on its tokens in each of its forms. -/
theorem limitClause_reads (calls : Calls f tokens top limit) (form : LimitForm) :
    Reads f tokens top limit 1 (limitClause form) fun l => [.limit l] := by
  cases form with
  | countFirst => exact (limitCountFirst_fills calls).reads fun _ _ origin => ⟨.countFirst, origin⟩
  | anyOrder => exact (limitAnyOrder_fills calls).reads fun _ _ origin => ⟨.anyOrder, origin⟩

theorem limit?_reads (calls : Calls f tokens top limit) :
    Reads f tokens top limit 0 (limit? f) fun l => l.toList.map .limit := by
  unfold limit?
  cases f.limit with
  | some form => exact (limitClause_reads calls form).optionalNode
  | none => exact reads_pure _ rfl

/-- A query fills the tokens that were consumed for it. -/
theorem queryBody_fills (calls : Calls f tokens top limit) :
    Fills f tokens top limit (queryBody f) .select := by
  have columns := (selectColumn_reads calls).commaSeparatedNodes
  have tables : Reads f tokens top limit 0 (do
      if ← eatKeyword .FROM then commaSeparated (tableRef f) else return []) fun tables =>
        tables.map .table :=
    reads_behindKeyword (tableRef_reads calls).commaSeparatedNodes rfl
  refine Fills.intro fun s first peek row => ?_
  rw [yields_bind]
  refine row.expectKeyword fun _ s row => ?_
  rw [yields_bind]
  refine row.part distinct_skips fun distinct s used _ row => ?_
  rw [yields_bind]
  refine row.part columns fun columns s used _ row => ?_
  rw [yields_bind]
  refine row.part tables fun tables s used _ row => ?_
  rw [yields_bind]
  refine row.part (clause?_reads calls _) fun condition s used _ row => ?_
  rw [yields_bind]
  refine row.part (byClause_reads calls.any) fun groupBy s used _ row => ?_
  rw [yields_bind]
  refine row.part (clause?_reads calls _) fun having s used _ row => ?_
  rw [yields_bind]
  refine row.part (byClause_reads (orderByItem_reads calls)) fun orderBy s used _ row => ?_
  rw [yields_bind]
  refine row.part (limit?_reads calls) fun l s used _ row => ?_
  simp only [yields_bind, yields_spanFrom, yields_pure]
  refine ⟨_, _, ?_, row, rfl, arranged_of_parts ?_, rfl⟩
  · simp
  · simp [Node.parts, Node.fields]

/-- A named rule lays its nodes as its rule does one level deeper. -/
theorem reads_call_succ {α : Type} {name : Symbol α} {least : Nat} {nodes : α → List Node}
    (reads : Reads f tokens top limit least (Symbol.body f α name) nodes) :
    Reads f tokens top (limit + 1) least (call name) nodes :=
  reads

/-- At every level of nesting the named rules lay their nodes on what they consume. -/
theorem calls (f : Features) (tokens : List Token) {top limit : Nat} (within : limit ≤ top) :
    Calls f tokens top limit := by
  induction limit with
  | zero =>
    have none {α : Type} (name : Symbol α) (nodes : α → List Node) :
        Reads f tokens top 0 1 (call name) nodes := fun _ _ => yields_tooDeep
    exact ⟨fun _ => none _ _, none _ _, none _ _⟩
  | succ limit ih =>
    have inner := ih (Nat.le_of_lt within)
    refine ⟨fun power => reads_call_succ (expressionBody_reads inner within power),
      reads_call_succ ?_, reads_call_succ (joinGroupBody_reads inner)⟩
    exact (queryBody_fills inner).inside within fun _ _ origin => origin

/-- The levels of nesting below a limit are all that there are below it. -/
abbrev callsAt (f : Features) (tokens : List Token) (limit : Nat) : Calls f tokens limit limit :=
  calls f tokens (Nat.le_refl limit)

end SqlTree
