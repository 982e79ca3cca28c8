import SqlTree.Grammar.Expression

namespace SqlTree.SqlRule

open Rule

/-- The words that start a clause or a join in every dialect. Unquoted, none of them is an alias
without AS in front of it. -/
def clauseWords : List Keyword :=
  [.FROM, .WHERE, .GROUP, .HAVING, .ORDER, .JOIN, .INNER, .LEFT, .RIGHT, .FULL, .OUTER, .CROSS,
    .NATURAL, .ON, .USING, .UNION, .INTERSECT, .EXCEPT, .SET]

def isClauseWord (f : Features) (k : Keyword) : Bool :=
  match k with
  | .LIMIT | .OFFSET => f.limit.isSome
  | .RETURNING => f.returning
  | _ => clauseWords.contains k

/-- Whether an identifier can be an alias without AS in front of it. -/
def isBareAlias (f : Features) (token : Token) : Bool :=
  match token.kind with
  | .identifier name =>
    token.isQuoted || !((Keyword.ofWord? name).any (isClauseWord f))
  | _ => false

def alias? (f : Features) : SqlRule (Option Ident) := do
  if ← eatKeyword .AS then return some (← identifier)
  else if isBareAlias f (← peek) then return some (← identifier)
  else return none

def selectColumn (f : Features) : SqlRule SelectColumn := do
  let start ← start
  let expr ← expression
  let alias? ← alias? f
  return ⟨expr, alias?, ← spanFrom start⟩

/-- A clause of one word and an expression, or nothing. -/
def clause? (k : Keyword) : SqlRule (Option Expr) := do
  if ← eatKeyword k then return some (← expression) else return none

def whereClause? : SqlRule (Option Expr) := clause? .WHERE

def returningClause (f : Features) : SqlRule (List SelectColumn) := do
  if ← (if f.returning then eatKeyword .RETURNING else return false) then
    commaSeparated (selectColumn f)
  else return []

def namedTable (f : Features) : SqlRule TableRef := do
  let start ← start
  let name ← objectName
  let alias? ← alias? f
  return .table name alias? (← spanFrom start)

def derivedTable (f : Features) : SqlRule TableRef := do
  let start ← start
  let _ ← expect .leftParen
  let query ← selectStatement
  let _ ← expect .rightParen
  let alias? ← alias? f
  return .subquery query alias? (← spanFrom start)

/-- What a join joins: a table, a query between parentheses, or joins between parentheses. -/
def tableFactor (f : Features) : SqlRule TableRef :=
  choice [namedTable f, derivedTable f, joinGroup]

/-- The words of a join, up to and with JOIN. -/
def joinType : SqlRule JoinType := do
  let type ← (do
    if ← eatKeyword .INNER then return JoinType.inner
    else if ← eatKeyword .LEFT then
      let _ ← eatKeyword .OUTER
      return .left
    else if ← eatKeyword .RIGHT then
      let _ ← eatKeyword .OUTER
      return .right
    else if ← eatKeyword .FULL then
      let _ ← eatKeyword .OUTER
      return .full
    else if ← eatKeyword .CROSS then return .cross
    else if ← checkKeyword .JOIN then return .inner
    else failAny ["JOIN", "INNER", "LEFT", "RIGHT", "FULL", "CROSS"])
  let _ ← expectKeyword .JOIN
  return type

/-- What a join joins on: a condition, or columns of one name on both sides. -/
def joinCondition : SqlRule (Option Expr × List Ident) := do
  if ← eatKeyword .ON then return (some (← expression), [])
  else if ← eatKeyword .USING then return (none, ← identifierList)
  else failAny ["ON", "USING"]

def joinClause (f : Features) : SqlRule JoinClause := do
  let start ← start
  let natural ← eatKeyword .NATURAL
  let type ← joinType
  let table ← tableFactor f
  let (condition, columns) ←
    (if natural || type == .cross then return (none, []) else joinCondition)
  return ⟨type, natural, table, condition, columns, ← spanFrom start⟩

/-- A table and the joins that follow it, which group to the left. -/
def tableRef (f : Features) : SqlRule TableRef := do
  let start ← start
  let first ← tableFactor f
  let joins ← many (joinClause f)
  return joins.foldl (fun left join => .join left join ⟨start, join.span.stop⟩) first

def joinGroupBody (f : Features) : SqlRule TableRef := do
  let _ ← expect .leftParen
  let inner ← tableRef f
  let _ ← expect .rightParen
  return inner

def nullOrdering? (f : Features) : SqlRule (Option NullOrdering) := do
  if ← (if f.nullsOrdering then eatKeyword .NULLS else return false) then
    if ← eatKeyword .FIRST then return some .first
    else if ← eatKeyword .LAST then return some .last
    else failAny ["FIRST", "LAST"]
  else return none

/-- Upwards, unless the text says otherwise. -/
def orderDirection : SqlRule OrderDirection := do
  if ← eatKeyword .DESC then return .desc
  else
    let _ ← eatKeyword .ASC
    return .asc

def orderByItem (f : Features) : SqlRule OrderBy := do
  let start ← start
  let expr ← expression
  let direction ← orderDirection
  let nulls ← nullOrdering? f
  return ⟨expr, direction, nulls, ← spanFrom start⟩

/-- A list behind two words, the second of which is BY, or nothing. -/
def byClause {α : Type} (k : Keyword) (item : SqlRule α) : SqlRule (List α) := do
  if ← eatKeyword k then
    let _ ← expectKeyword .BY
    commaSeparated item
  else return []

/-- LIMIT with a count, and an offset behind OFFSET; or with an offset, and a count behind a
comma. -/
def limitCountFirst : SqlRule Limit := do
  let start ← start
  let _ ← expectKeyword .LIMIT
  let first ← expression
  if ← eatKeyword .OFFSET then
    let offset ← expression
    return ⟨some first, some offset, ← spanFrom start⟩
  else if ← eat .comma then
    let count ← expression
    return ⟨some count, some first, ← spanFrom start⟩
  else return ⟨some first, none, ← spanFrom start⟩

/-- The parts of a limit that were read. -/
structure LimitParts where
  limitSeen : Bool
  count : Option Expr
  offset : Option Expr

/-- A count behind LIMIT; ALL stands for none. -/
def limitCount? : SqlRule (Option Expr) := do
  if ← eatKeyword .ALL then return none else return some (← expression)

/-- An offset behind OFFSET, perhaps followed by ROW or ROWS. -/
def limitOffset : SqlRule Expr := do
  let offset ← expression
  if ← eatKeyword .ROW then return offset
  else
    let _ ← eatKeyword .ROWS
    return offset

/-- LIMIT and OFFSET in any order, each at most once. -/
def limitAnyOrder : SqlRule Limit := do
  let start ← start
  let step (parts : LimitParts) : SqlRule (Option LimitParts) := do
    if ← (if parts.limitSeen then return false else eatKeyword .LIMIT) then
      return some { parts with limitSeen := true, count := ← limitCount? }
    else if ← (if parts.offset.isSome then return false else eatKeyword .OFFSET) then
      return some { parts with offset := some (← limitOffset) }
    else return none
  let parts ← loop step ⟨false, none, none⟩
  if parts.limitSeen || parts.offset.isSome then
    return ⟨parts.count, parts.offset, ← spanFrom start⟩
  else failAny ["LIMIT", "OFFSET"]

/-- The limit in the form that the dialect gives it. -/
def limitClause : LimitForm → SqlRule Limit
  | .countFirst => limitCountFirst
  | .anyOrder => limitAnyOrder

def limit? (f : Features) : SqlRule (Option Limit) :=
  match f.limit with
  | some form => optional (limitClause form)
  | none => return none

/-- DISTINCT, or ALL, which changes nothing. -/
def distinct : SqlRule Bool := do
  if ← eatKeyword .DISTINCT then return true
  else
    let _ ← eatKeyword .ALL
    return false

def queryBody (f : Features) : SqlRule SelectStatement := do
  let start ← start
  let _ ← expectKeyword .SELECT
  let distinct ← distinct
  let columns ← commaSeparated (selectColumn f)
  let tables ← (do
    if ← eatKeyword .FROM then commaSeparated (tableRef f) else return [])
  let condition ← whereClause?
  let groupBy ← byClause .GROUP expression
  let having ← clause? .HAVING
  let orderBy ← byClause .ORDER (orderByItem f)
  let limit ← limit? f
  return ⟨distinct, columns, tables, condition, groupBy, having, orderBy, limit, ← spanFrom start⟩

end SqlTree.SqlRule
