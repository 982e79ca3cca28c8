import SqlTree.Grammar.Entry
import SqlTree.Proofs.Lexing.Pieces

namespace SqlTree

/-- How two models that say the same may differ. They agree in everything but the places they were read
from, the numbers of their placeholders, which may be shifted, and the arguments of types whose name no
dialect shares, which are kept as written. -/
structure Likeness where
  /-- Which places correspond. -/
  place : Position → Position → Prop
  /-- By how much the numbers of the first one's placeholders are greater. -/
  shift : Nat
  /-- Which arguments of a type, as written behind the words of its name, correspond. -/
  written : List String → String → String → Prop

variable (L : Likeness)

structure Span.Like (s s' : Span) : Prop where
  start : L.place s.start s'.start
  stop : L.place s.stop s'.stop

structure Ident.Like (i i' : Ident) : Prop where
  value : i'.value = i.value
  quoted : i'.quoted = i.quoted
  span : i.span.Like L i'.span

structure ObjectName.Like (n n' : ObjectName) : Prop where
  schema : Option.Rel (Ident.Like L) n.schema n'.schema
  name : n.name.Like L n'.name
  span : n.span.Like L n'.span

inductive DataType.Like : DataType → DataType → Prop
  | same (type) : Like type type
  /-- The words of the name are the same, and the arguments correspond as written behind them. -/
  | custom {words arguments arguments'} : L.written words arguments arguments' →
      Like (.custom (" ".intercalate words ++ arguments)) (.custom (" ".intercalate words ++ arguments'))

mutual

inductive Expr.Like : Expr → Expr → Prop
  | mk {kind kind' span span'} : kind.Like kind' → span.Like L span' →
      Expr.Like ⟨kind, span⟩ ⟨kind', span'⟩

inductive ExprKind.Like : ExprKind → ExprKind → Prop
  | literal (value) : ExprKind.Like (.literal value) (.literal value)
  | column {table table' name name'} : Option.Rel (Ident.Like L) table table' → name.Like L name' →
      ExprKind.Like (.column table name) (.column table' name')
  | binary {left left' right right'} (op) : left.Like left' → right.Like right' →
      ExprKind.Like (.binary left op right) (.binary left' op right')
  | unary {operand operand'} (op) : operand.Like operand' →
      ExprKind.Like (.unary op operand) (.unary op operand')
  | call {name name' arguments arguments'} (distinct) : name.Like L name' →
      List.Forall₂ Expr.Like arguments arguments' →
      ExprKind.Like (.call ⟨name, arguments, distinct⟩) (.call ⟨name', arguments', distinct⟩)
  | subquery {query query'} : query.Like query' → ExprKind.Like (.subquery query) (.subquery query')
  | existsQuery {query query'} (negated) : query.Like query' →
      ExprKind.Like (.existsQuery query negated) (.existsQuery query' negated)
  | isNull {expr expr'} (negated) : expr.Like expr' →
      ExprKind.Like (.isNull expr negated) (.isNull expr' negated)
  | inList {expr expr' list list'} (negated) : expr.Like expr' → list.Like list' →
      ExprKind.Like (.inList expr list negated) (.inList expr' list' negated)
  | between {expr expr' low low' high high'} (negated) : expr.Like expr' → low.Like low' →
      high.Like high' →
      ExprKind.Like (.between expr low high negated) (.between expr' low' high' negated)
  | like {expr expr' pattern pattern'} (caseInsensitive negated) : expr.Like expr' →
      pattern.Like pattern' → ExprKind.Like (.like expr pattern caseInsensitive negated)
        (.like expr' pattern' caseInsensitive negated)
  | caseWhen {operand operand' whenClauses whenClauses' elseClause elseClause'} :
      Option.Rel Expr.Like operand operand' →
      List.Forall₂ WhenClause.Like whenClauses whenClauses' →
      Option.Rel Expr.Like elseClause elseClause' →
      ExprKind.Like (.caseWhen operand whenClauses elseClause)
        (.caseWhen operand' whenClauses' elseClause')
  | cast {expr expr' type type'} : expr.Like expr' → type.Like L type' →
      ExprKind.Like (.cast expr type) (.cast expr' type')
  | paren {expr expr'} : expr.Like expr' → ExprKind.Like (.paren expr) (.paren expr')
  | positional (number) :
      ExprKind.Like (.parameter none (number + L.shift)) (.parameter none number)
  | named (name) : ExprKind.Like (.parameter (some name) 0) (.parameter (some name) 0)
  | wildcard {table table'} : Option.Rel (Ident.Like L) table table' →
      ExprKind.Like (.wildcard table) (.wildcard table')

inductive InList.Like : InList → InList → Prop
  | values {values values'} : List.Forall₂ Expr.Like values values' →
      InList.Like (.values values) (.values values')
  | subquery {query query'} : query.Like query' → InList.Like (.subquery query) (.subquery query')

inductive WhenClause.Like : WhenClause → WhenClause → Prop
  | mk {condition condition' result result' span span'} : condition.Like condition' →
      result.Like result' → span.Like L span' →
      WhenClause.Like ⟨condition, result, span⟩ ⟨condition', result', span'⟩

inductive SelectStatement.Like : SelectStatement → SelectStatement → Prop
  | mk {columns columns' tables tables' condition condition' groupBy groupBy' having having' orderBy
      orderBy' limit limit' span span'} (distinct) :
      List.Forall₂ SelectColumn.Like columns columns' → List.Forall₂ TableRef.Like tables tables' →
      Option.Rel Expr.Like condition condition' → List.Forall₂ Expr.Like groupBy groupBy' →
      Option.Rel Expr.Like having having' → List.Forall₂ OrderBy.Like orderBy orderBy' →
      Option.Rel Limit.Like limit limit' → span.Like L span' →
      SelectStatement.Like ⟨distinct, columns, tables, condition, groupBy, having, orderBy, limit, span⟩
        ⟨distinct, columns', tables', condition', groupBy', having', orderBy', limit', span'⟩

inductive SelectColumn.Like : SelectColumn → SelectColumn → Prop
  | mk {expr expr' alias? alias?' span span'} : expr.Like expr' →
      Option.Rel (Ident.Like L) alias? alias?' → span.Like L span' →
      SelectColumn.Like ⟨expr, alias?, span⟩ ⟨expr', alias?', span'⟩

inductive TableRef.Like : TableRef → TableRef → Prop
  | table {name name' alias? alias?' span span'} : name.Like L name' →
      Option.Rel (Ident.Like L) alias? alias?' → span.Like L span' →
      TableRef.Like (.table name alias? span) (.table name' alias?' span')
  | subquery {query query' alias? alias?' span span'} : query.Like query' →
      Option.Rel (Ident.Like L) alias? alias?' → span.Like L span' →
      TableRef.Like (.subquery query alias? span) (.subquery query' alias?' span')
  | join {left left' join join' span span'} : left.Like left' → join.Like join' →
      span.Like L span' → TableRef.Like (.join left join span) (.join left' join' span')

inductive JoinClause.Like : JoinClause → JoinClause → Prop
  | mk {table table' condition condition' columns columns' span span'} (type natural) :
      table.Like table' → Option.Rel Expr.Like condition condition' →
      List.Forall₂ (Ident.Like L) columns columns' → span.Like L span' →
      JoinClause.Like ⟨type, natural, table, condition, columns, span⟩
        ⟨type, natural, table', condition', columns', span'⟩

inductive OrderBy.Like : OrderBy → OrderBy → Prop
  | mk {expr expr' span span'} (direction nulls) : expr.Like expr' → span.Like L span' →
      OrderBy.Like ⟨expr, direction, nulls, span⟩ ⟨expr', direction, nulls, span'⟩

inductive Limit.Like : Limit → Limit → Prop
  | mk {count count' offset offset' span span'} : Option.Rel Expr.Like count count' →
      Option.Rel Expr.Like offset offset' → span.Like L span' →
      Limit.Like ⟨count, offset, span⟩ ⟨count', offset', span'⟩

end

inductive InsertSource.Like : InsertSource → InsertSource → Prop
  | values {rows rows'} : List.Forall₂ (List.Forall₂ (Expr.Like L)) rows rows' →
      Like (.values rows) (.values rows')
  | query {query query'} : query.Like L query' → Like (.query query) (.query query')
  | defaultValues : Like .defaultValues .defaultValues

structure InsertStatement.Like (s s' : InsertStatement) : Prop where
  table : s.table.Like L s'.table
  columns : List.Forall₂ (Ident.Like L) s.columns s'.columns
  source : s.source.Like L s'.source
  returning : List.Forall₂ (SelectColumn.Like L) s.returning s'.returning
  span : s.span.Like L s'.span

structure UpdateAssignment.Like (a a' : UpdateAssignment) : Prop where
  column : a.column.Like L a'.column
  value : a.value.Like L a'.value
  span : a.span.Like L a'.span

structure UpdateStatement.Like (s s' : UpdateStatement) : Prop where
  table : s.table.Like L s'.table
  alias? : Option.Rel (Ident.Like L) s.alias? s'.alias?
  assignments : List.Forall₂ (UpdateAssignment.Like L) s.assignments s'.assignments
  condition : Option.Rel (Expr.Like L) s.condition s'.condition
  returning : List.Forall₂ (SelectColumn.Like L) s.returning s'.returning
  span : s.span.Like L s'.span

structure DeleteStatement.Like (s s' : DeleteStatement) : Prop where
  table : s.table.Like L s'.table
  alias? : Option.Rel (Ident.Like L) s.alias? s'.alias?
  condition : Option.Rel (Expr.Like L) s.condition s'.condition
  returning : List.Forall₂ (SelectColumn.Like L) s.returning s'.returning
  span : s.span.Like L s'.span

structure ForeignKey.Like (k k' : ForeignKey) : Prop where
  table : k.table.Like L k'.table
  columns : List.Forall₂ (Ident.Like L) k.columns k'.columns
  onDelete : k'.onDelete = k.onDelete
  onUpdate : k'.onUpdate = k.onUpdate
  span : k.span.Like L k'.span

inductive ColumnConstraintKind.Like : ColumnConstraintKind → ColumnConstraintKind → Prop
  | notNull : Like .notNull .notNull
  | null : Like .null .null
  | primaryKey (direction) : Like (.primaryKey direction) (.primaryKey direction)
  | unique : Like .unique .unique
  | default {value value'} : value.Like L value' → Like (.default value) (.default value')
  | check {condition condition'} : condition.Like L condition' →
      Like (.check condition) (.check condition')
  | references {key key'} : key.Like L key' → Like (.references key) (.references key')
  | autoIncrement : Like .autoIncrement .autoIncrement

structure ColumnConstraint.Like (c c' : ColumnConstraint) : Prop where
  name : Option.Rel (Ident.Like L) c.name c'.name
  kind : c.kind.Like L c'.kind
  span : c.span.Like L c'.span

structure ColumnDef.Like (c c' : ColumnDef) : Prop where
  name : c.name.Like L c'.name
  type : Option.Rel (DataType.Like L) c.type c'.type
  constraints : List.Forall₂ (ColumnConstraint.Like L) c.constraints c'.constraints
  span : c.span.Like L c'.span

inductive TableConstraintKind.Like : TableConstraintKind → TableConstraintKind → Prop
  | primaryKey {columns columns'} : List.Forall₂ (Ident.Like L) columns columns' →
      Like (.primaryKey columns) (.primaryKey columns')
  | unique {columns columns'} : List.Forall₂ (Ident.Like L) columns columns' →
      Like (.unique columns) (.unique columns')
  | foreignKey {columns columns' key key'} : List.Forall₂ (Ident.Like L) columns columns' →
      key.Like L key' → Like (.foreignKey columns key) (.foreignKey columns' key')
  | check {condition condition'} : condition.Like L condition' →
      Like (.check condition) (.check condition')

structure TableConstraint.Like (c c' : TableConstraint) : Prop where
  name : Option.Rel (Ident.Like L) c.name c'.name
  kind : c.kind.Like L c'.kind
  span : c.span.Like L c'.span

structure CreateTableStatement.Like (s s' : CreateTableStatement) : Prop where
  temporary : s'.temporary = s.temporary
  ifNotExists : s'.ifNotExists = s.ifNotExists
  name : s.name.Like L s'.name
  columns : List.Forall₂ (ColumnDef.Like L) s.columns s'.columns
  constraints : List.Forall₂ (TableConstraint.Like L) s.constraints s'.constraints
  span : s.span.Like L s'.span

structure PragmaStatement.Like (s s' : PragmaStatement) : Prop where
  name : s.name.Like L s'.name
  value : Option.Rel (Expr.Like L) s.value s'.value
  span : s.span.Like L s'.span

inductive Statement.Like : Statement → Statement → Prop
  | select {s s'} : s.Like L s' → Like (.select s) (.select s')
  | insert {s s'} : s.Like L s' → Like (.insert s) (.insert s')
  | update {s s'} : s.Like L s' → Like (.update s) (.update s')
  | delete {s s'} : s.Like L s' → Like (.delete s) (.delete s')
  | createTable {s s'} : s.Like L s' → Like (.createTable s) (.createTable s')
  | pragma {s s'} : s.Like L s' → Like (.pragma s) (.pragma s')

structure Script.Like (s s' : Script) : Prop where
  statements : List.Forall₂ (Statement.Like L) s.statements s'.statements
  span : s.span.Like L s'.span

inductive Model.Like : Model → Model → Prop
  | statement {s s'} : s.Like L s' → Like (.statement s) (.statement s')
  | select {s s'} : s.Like L s' → Like (.select s) (.select s')
  | insert {s s'} : s.Like L s' → Like (.insert s) (.insert s')
  | update {s s'} : s.Like L s' → Like (.update s) (.update s')
  | delete {s s'} : s.Like L s' → Like (.delete s) (.delete s')
  | createTable {s s'} : s.Like L s' → Like (.createTable s) (.createTable s')
  | pragma {s s'} : s.Like L s' → Like (.pragma s) (.pragma s')
  | script {s s'} : s.Like L s' → Like (.script s) (.script s')
  | expression {e e'} : e.Like L e' → Like (.expression e) (.expression e')

end SqlTree
