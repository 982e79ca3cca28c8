import SqlTree.Proofs.Lockstep.Expressions

namespace SqlTree

open Rule SqlRule

variable {L : Likeness} {texts : Facing L} {f : Features} {limit : Nat}

/-- What a query is put together from is read alike in both texts. -/
theorem selectColumn_matches (calls : CallsMatch texts f limit) :
    Matches texts (sqlLevels f limit) (selectColumn f) (SelectColumn.Like L) := by
  refine fun _ => matches_start.bind fun _ _ _ starts => ?_
  refine calls.any.bind fun _ _ _ like => alias?_matches.bind fun _ _ _ name => ?_
  exact spanFrom_bind starts fun _ _ span => mirrors_pure (.mk like name span)

/-- A clause is in both texts or in neither. -/
theorem clause?_matches (calls : CallsMatch texts f limit) (k : Keyword) :
    Matches texts (sqlLevels f limit) (clause? k) (Option.Rel (Expr.Like L)) :=
  calls.any.behindKeyword

theorem returningClause_matches (calls : CallsMatch texts f limit) :
    Matches texts (sqlLevels f limit) (returningClause f) (List.Forall₂ (SelectColumn.Like L)) :=
  fun _ => (Matches.choose (matches_eatKeyword _) (matches_pure rfl)).ite
    (selectColumn_matches calls).commaSeparated (matches_pure .nil)

theorem namedTable_matches :
    Matches texts (sqlLevels f limit) (namedTable f) (TableRef.Like L) := by
  refine fun _ => matches_start.bind fun _ _ _ starts => ?_
  refine objectName_matches.bind fun _ _ _ table => alias?_matches.bind fun _ _ _ name => ?_
  exact spanFrom_bind starts fun _ _ span => mirrors_pure (.table table name span)

theorem derivedTable_matches (calls : CallsMatch texts f limit) :
    Matches texts (sqlLevels f limit) (derivedTable f) (TableRef.Like L) := by
  refine fun _ => matches_start.bind fun _ _ _ starts => ?_
  refine (matches_expect rfl).bind fun _ _ _ _ => calls.query.bind fun _ _ _ query => ?_
  refine (matches_expect rfl).bind fun _ _ _ _ => alias?_matches.bind fun _ _ _ name => ?_
  exact spanFrom_bind starts fun _ _ span => mirrors_pure (.subquery query name span)

theorem tableFactor_matches (calls : CallsMatch texts f limit) :
    Matches texts (sqlLevels f limit) (tableFactor f) (TableRef.Like L) := by
  refine matches_choice ?_
  simp only [List.forall_mem_cons, List.not_mem_nil, false_implies, implies_true, and_true]
  exact ⟨namedTable_matches, derivedTable_matches calls, calls.joinGroup⟩

/-- A join condition and the columns of USING, of which there is at most one. -/
abbrev JoinConditionLike (L : Likeness) (on on' : Option Expr × List Ident) : Prop :=
  Option.Rel (Expr.Like L) on.1 on'.1 ∧ List.Forall₂ (Ident.Like L) on.2 on'.2

/-- ON, USING, or nothing. -/
theorem joinCondition_matches (calls : CallsMatch texts f limit) :
    Matches texts (sqlLevels f limit) joinCondition (JoinConditionLike L) := by
  refine matches_ifEaten (calls.any.map fun _ _ like => ⟨.some like, .nil⟩) ?_
  exact matches_ifEaten (identifierList_matches.map fun _ _ likes => ⟨.none, likes⟩)
    (matches_failAny _)

theorem joinClause_matches (calls : CallsMatch texts f limit) :
    Matches texts (sqlLevels f limit) (joinClause f) (JoinClause.Like L) := by
  refine fun _ => matches_start.bind fun _ _ _ starts => (matches_eatKeyword _).bind ?_
  rintro _ natural _ rfl
  refine joinType_matches.bind ?_
  rintro _ type _ rfl
  refine (tableFactor_matches calls).bind fun _ _ _ table => ?_
  refine (Matches.choose (matches_pure ⟨.none, .nil⟩) (joinCondition_matches calls)).bind ?_
  rintro _ ⟨condition, columns⟩ ⟨condition', columns'⟩ ⟨likeCondition, likeColumns⟩
  exact spanFrom_bind starts fun _ _ span =>
    mirrors_pure (.mk type natural table likeCondition likeColumns span)

theorem JoinClause.Like.span {j j' : JoinClause} (like : j.Like L j') : j.span.Like L j'.span := by
  cases like
  assumption

/-- Joins behind a table group to the left on both sides. -/
theorem joins_like {left left' : TableRef} {joins joins' : List JoinClause} {start start' : Position}
    (like : left.Like L left') (likes : List.Forall₂ (JoinClause.Like L) joins joins')
    (place : L.place start start') :
    (joins.foldl (fun left join => .join left join ⟨start, join.span.stop⟩) left).Like L
      (joins'.foldl (fun left join => .join left join ⟨start', join.span.stop⟩) left') := by
  induction likes generalizing left left' with
  | nil => exact like
  | cons join _ ih => exact ih (.join like join ⟨place, join.span.stop⟩)

/-- A table with the joins behind it, however many there are. -/
theorem tableRef_matches (calls : CallsMatch texts f limit) :
    Matches texts (sqlLevels f limit) (tableRef f) (TableRef.Like L) := by
  refine fun _ => matches_start.bind fun _ _ _ ⟨k, within, left, right⟩ => ?_
  refine (tableFactor_matches calls).bind fun _ _ _ first => ?_
  refine (joinClause_matches calls).many.bind fun _ _ _ joins => mirrors_pure ?_
  rw [left, right]
  exact joins_like first joins (texts.start k within)

theorem joinGroupBody_matches (calls : CallsMatch texts f limit) :
    Matches texts (sqlLevels f limit) (joinGroupBody f) (TableRef.Like L) := by
  refine fun _ => (matches_expect rfl).bind fun _ _ _ _ => ?_
  refine (tableRef_matches calls).bind fun _ _ _ like => ?_
  exact (matches_expect rfl).bind fun _ _ _ _ => mirrors_pure like

theorem orderByItem_matches (calls : CallsMatch texts f limit) :
    Matches texts (sqlLevels f limit) (orderByItem f) (OrderBy.Like L) := by
  refine fun _ => matches_start.bind fun _ _ _ starts => calls.any.bind fun _ _ _ like => ?_
  refine orderDirection_matches.bind ?_
  rintro _ direction _ rfl
  refine nullOrdering?_matches.bind ?_
  rintro _ nulls _ rfl
  exact spanFrom_bind starts fun _ _ span => mirrors_pure (.mk direction nulls like span)

/-- GROUP BY and ORDER BY, with what they list. -/
theorem byClause_matches {α : Type} {R : α → α → Prop} {item : SqlRule α} {k : Keyword}
    (each : Matches texts (sqlLevels f limit) item R) :
    Matches texts (sqlLevels f limit) (byClause k item) (List.Forall₂ R) :=
  matches_ifEaten (fun _ => (matches_expectKeyword _).bind fun i _ _ _ => each.commaSeparated i)
    (matches_pure .nil)

theorem limitCountFirst_matches (calls : CallsMatch texts f limit) :
    Matches texts (sqlLevels f limit) limitCountFirst (Limit.Like L) := by
  refine fun _ => matches_start.bind fun _ _ _ starts => ?_
  refine (matches_expectKeyword _).bind fun _ _ _ _ => calls.any.bind fun _ _ _ first => ?_
  refine (matches_eatKeyword _).ite (fun _ => ?_) fun _ => (matches_eat rfl).ite (fun _ => ?_) fun _ => ?_
  · refine calls.any.bind fun _ _ _ offset => spanFrom_bind starts fun _ _ span => ?_
    exact mirrors_pure (.mk (.some first) (.some offset) span)
  · refine calls.any.bind fun _ _ _ count => spanFrom_bind starts fun _ _ span => ?_
    exact mirrors_pure (.mk (.some count) (.some first) span)
  · exact spanFrom_bind starts fun _ _ span => mirrors_pure (.mk (.some first) .none span)

theorem limitCount?_matches (calls : CallsMatch texts f limit) :
    Matches texts (sqlLevels f limit) limitCount? (Option.Rel (Expr.Like L)) :=
  matches_ifEaten (matches_pure .none) (calls.any.map fun _ _ like => .some like)

theorem limitOffset_matches (calls : CallsMatch texts f limit) :
    Matches texts (sqlLevels f limit) limitOffset (Expr.Like L) := by
  refine fun _ => calls.any.bind fun _ _ _ like => ?_
  refine (matches_eatKeyword _).ite (fun _ => mirrors_pure like) fun _ => ?_
  exact (matches_eatKeyword _).bind fun _ _ _ _ => mirrors_pure like

structure LimitParts.Like (L : Likeness) (parts parts' : LimitParts) : Prop where
  limitSeen : parts'.limitSeen = parts.limitSeen
  count : Option.Rel (Expr.Like L) parts.count parts'.count
  offset : Option.Rel (Expr.Like L) parts.offset parts'.offset

/-- A limit and an offset in either order are read alike. -/
theorem limitAnyOrder_matches (calls : CallsMatch texts f limit) :
    Matches texts (sqlLevels f limit) limitAnyOrder (Limit.Like L) := by
  refine fun _ => matches_start.bind fun _ _ _ starts => ?_
  refine Mirrors.loop_bind (fun _ => LimitParts.Like L) ⟨rfl, .none, .none⟩ ?_ ?_
  · rintro j ⟨seen, count, offset⟩ ⟨_, count', offset'⟩ ⟨rfl, likeCount, likeOffset⟩
    have isSome : offset'.isSome = offset.isSome := by cases likeOffset <;> rfl
    dsimp only
    rw [isSome]
    refine (Matches.choose (matches_pure rfl) (matches_eatKeyword _)).ite (fun _ => ?_) fun _ => ?_
    · refine (limitCount?_matches calls).bind fun _ _ _ like => ?_
      exact mirrors_pure (.next ⟨rfl, like, likeOffset⟩)
    · refine (Matches.choose (matches_pure rfl) (matches_eatKeyword _)).ite (fun _ => ?_) fun _ => ?_
      · refine (limitOffset_matches calls).bind fun _ _ _ like => ?_
        exact mirrors_pure (.next ⟨rfl, likeCount, .some like⟩)
      · exact mirrors_pure (.stop ⟨rfl, likeCount, likeOffset⟩)
  · rintro j ⟨seen, count, offset⟩ ⟨_, count', offset'⟩ ⟨rfl, likeCount, likeOffset⟩
    have isSome : offset'.isSome = offset.isSome := by cases likeOffset <;> rfl
    dsimp only
    rw [isSome]
    split
    · exact spanFrom_bind starts fun _ _ span => mirrors_pure (.mk likeCount likeOffset span)
    · exact mirrors_failAny _

/-- Limits are read alike in whatever form a dialect has them. -/
theorem limitClause_matches (calls : CallsMatch texts f limit) (form : LimitForm) :
    Matches texts (sqlLevels f limit) (limitClause form) (Limit.Like L) := by
  cases form with
  | countFirst => exact limitCountFirst_matches calls
  | anyOrder => exact limitAnyOrder_matches calls

theorem limit?_matches (calls : CallsMatch texts f limit) :
    Matches texts (sqlLevels f limit) (limit? f) (Option.Rel (Limit.Like L)) := by
  unfold limit?
  split
  · exact (limitClause_matches calls _).optional
  · exact matches_pure .none

/-- A whole query. -/
theorem queryBody_matches (calls : CallsMatch texts f limit) :
    Matches texts (sqlLevels f limit) (queryBody f) (SelectStatement.Like L) := by
  have tables : Matches texts (sqlLevels f limit) (do
      if ← eatKeyword .FROM then commaSeparated (tableRef f) else return [])
      (List.Forall₂ (TableRef.Like L)) :=
    matches_ifEaten (tableRef_matches calls).commaSeparated (matches_pure .nil)
  refine fun _ => matches_start.bind fun _ _ _ starts => ?_
  refine (matches_expectKeyword _).bind fun _ _ _ _ => distinct_matches.bind ?_
  rintro _ distinct _ rfl
  refine (selectColumn_matches calls).commaSeparated.bind fun _ _ _ columns => ?_
  refine tables.bind fun _ _ _ tables => (clause?_matches calls _).bind fun _ _ _ condition => ?_
  refine (byClause_matches calls.any).bind fun _ _ _ groupBy => ?_
  refine (clause?_matches calls _).bind fun _ _ _ having => ?_
  refine (byClause_matches (orderByItem_matches calls)).bind fun _ _ _ orderBy => ?_
  refine (limit?_matches calls).bind fun _ _ _ limit => spanFrom_bind starts fun _ _ span => ?_
  exact mirrors_pure (.mk distinct columns tables condition groupBy having orderBy limit span)

/-- What may be called from inside itself matches at every level of nesting. -/
theorem callsMatch (texts : Facing L) (f : Features) (limit : Nat) : CallsMatch texts f limit := by
  induction limit with
  | zero =>
    exact ⟨fun _ _ _ _ => echoes_tooDeep, fun _ _ _ => echoes_tooDeep, fun _ _ _ => echoes_tooDeep⟩
  | succ limit ih =>
    exact ⟨fun power => expressionBody_matches ih power, queryBody_matches ih,
      joinGroupBody_matches ih⟩

end SqlTree
