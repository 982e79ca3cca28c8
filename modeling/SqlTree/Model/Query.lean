import SqlTree.Model.DataType
import SqlTree.Model.Name
import SqlTree.Model.Operator
import SqlTree.Number.Binary64

namespace SqlTree

inductive Literal where
  | integer (value : Nat)
  | float (value : Binary64)
  | string (value : String)
  | blob (bytes : List UInt8)
  | boolean (value : Bool)
  | null
  deriving DecidableEq

inductive OrderDirection where
  | asc | desc
  deriving DecidableEq

inductive NullOrdering where
  | first | last
  deriving DecidableEq

inductive JoinType where
  | inner | left | right | full | cross
  deriving DecidableEq

mutual

/-- An expression, with the span of the text that it was read from, as all nodes have one. -/
structure Expr where
  kind : ExprKind
  span : Span

inductive ExprKind where
  | literal (value : Literal)
  | column (table : Option Ident) (name : Ident)
  | binary (left : Expr) (op : BinaryOp) (right : Expr)
  | unary (op : UnaryOp) (operand : Expr)
  | call (function : FunctionCall)
  | subquery (query : SelectStatement)
  | existsQuery (query : SelectStatement) (negated : Bool)
  | isNull (expr : Expr) (negated : Bool)
  | inList (expr : Expr) (list : InList) (negated : Bool)
  | between (expr low high : Expr) (negated : Bool)
  | like (expr pattern : Expr) (caseInsensitive negated : Bool)
  | caseWhen (operand : Option Expr) (whenClauses : List WhenClause) (elseClause : Option Expr)
  | cast (expr : Expr) (type : DataType)
  | paren (expr : Expr)
  /-- A placeholder: the positional ones are numbered from one, a named one has the number zero. -/
  | parameter (name : Option String) (position : Nat)
  | wildcard (table : Option Ident)

structure FunctionCall where
  name : Ident
  arguments : List Expr
  distinct : Bool

inductive InList where
  | values (values : List Expr)
  | subquery (query : SelectStatement)

structure WhenClause where
  condition : Expr
  result : Expr
  span : Span

structure SelectStatement where
  distinct : Bool
  columns : List SelectColumn
  tables : List TableRef
  condition : Option Expr
  groupBy : List Expr
  having : Option Expr
  orderBy : List OrderBy
  limit : Option Limit
  span : Span

structure SelectColumn where
  expr : Expr
  alias? : Option Ident
  span : Span

inductive TableRef where
  | table (name : ObjectName) (alias? : Option Ident) (span : Span)
  | subquery (query : SelectStatement) (alias? : Option Ident) (span : Span)
  | join (left : TableRef) (join : JoinClause) (span : Span)

structure JoinClause where
  type : JoinType
  natural : Bool
  table : TableRef
  condition : Option Expr
  columns : List Ident
  span : Span

structure OrderBy where
  expr : Expr
  direction : OrderDirection
  nulls : Option NullOrdering
  span : Span

structure Limit where
  count : Option Expr
  offset : Option Expr
  span : Span

end

namespace OrderDirection

def sql : OrderDirection → String
  | asc => "ASC"
  | desc => "DESC"

end OrderDirection

namespace NullOrdering

def sql : NullOrdering → String
  | first => "NULLS FIRST"
  | last => "NULLS LAST"

end NullOrdering

namespace JoinType

def sql : JoinType → String
  | inner => "INNER JOIN"
  | left => "LEFT JOIN"
  | right => "RIGHT JOIN"
  | full => "FULL JOIN"
  | cross => "CROSS JOIN"

end JoinType

namespace Expr

/-- The table and the name of a column. -/
def column? (e : Expr) : Option (Option String × String) :=
  match e.kind with
  | .column table name => some (table.map (·.value), name.value)
  | _ => none

def literal? (e : Expr) : Option Literal :=
  match e.kind with
  | .literal value => some value
  | _ => none

def isWildcard (e : Expr) : Bool :=
  match e.kind with
  | .wildcard _ => true
  | _ => false

end Expr

/-- The expressions that an expression is made of, in the order in which they are written. Those
inside a query belong to the query. -/
def ExprKind.children : ExprKind → List Expr
  | .literal _ | .column _ _ | .subquery _ | .existsQuery _ _ | .parameter _ _ | .wildcard _ => []
  | .binary left _ right => [left, right]
  | .unary _ operand => [operand]
  | .call f => f.arguments
  | .isNull expr _ | .cast expr _ | .paren expr => [expr]
  | .inList expr (.values values) _ => expr :: values
  | .inList expr (.subquery _) _ => [expr]
  | .between expr low high _ => [expr, low, high]
  | .like expr pattern _ _ => [expr, pattern]
  | .caseWhen operand whenClauses elseClause =>
    operand.toList ++ whenClauses.flatMap (fun w => [w.condition, w.result]) ++ elseClause.toList

def Expr.children (e : Expr) : List Expr := e.kind.children

namespace TableRef

def objectName? : TableRef → Option ObjectName
  | table name _ _ => some name
  | _ => none

/-- The name of a table without that of its schema. -/
def name? (t : TableRef) : Option String := t.objectName?.map (·.name.value)

def aliasName? : TableRef → Option String
  | table _ alias? _ | subquery _ alias? _ => alias?.map (·.value)
  | join _ _ _ => none

def span : TableRef → Span
  | table _ _ span | subquery _ _ span | join _ _ span => span

end TableRef

mutual

/-- The tables and derived tables that are joined, from left to right. -/
def TableRef.leaves : TableRef → List TableRef
  | .join left join _ => left.leaves ++ join.leaves
  | leaf => [leaf]

def JoinClause.leaves : JoinClause → List TableRef
  | ⟨_, _, table, _, _, _⟩ => table.leaves

end

mutual

/-- The joins, those on the left of a join first and those in the table that it joins last. -/
def TableRef.joins : TableRef → List JoinClause
  | .join left join _ => left.joins ++ join :: join.innerJoins
  | _ => []

/-- The joins in the table that a join joins. -/
def JoinClause.innerJoins : JoinClause → List JoinClause
  | ⟨_, _, table, _, _, _⟩ => table.joins

end

/-- All tables and derived tables that a query reads from directly. -/
def SelectStatement.leaves (s : SelectStatement) : List TableRef :=
  s.tables.flatMap TableRef.leaves

end SqlTree
