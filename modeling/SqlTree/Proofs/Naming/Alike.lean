import Mathlib.Data.List.Forall2
import SqlTree.Grammar.Entry

namespace SqlTree

/-- The same token, or the same word with letters in other cases and no quotes around it. -/
inductive Token.Recased : Token → Token → Prop
  | same (t) : Recased t t
  | keyword {k text text' span} : sameWord text text' →
      Recased ⟨.keyword k, text, span⟩ ⟨.keyword k, text', span⟩
  | name {word word' span} : sameWord word word' →
      Recased ⟨.identifier word, word, span⟩ ⟨.identifier word', word', span⟩

/-- A token as a name without quotes, whatever it is. -/
def Token.word (t : Token) : Ident := ⟨t.text, false, t.span⟩

/-- The same type, or a type as written with letters in other cases. -/
inductive DataType.Alike : DataType → DataType → Prop
  | same (type) : Alike type type
  | custom {text text'} : sameWord text text' → Alike (.custom text) (.custom text')

/-- Which tokens may stand for each other, and which names then do. -/
structure Naming where
  token : Token → Token → Prop
  /-- Names that are names in the text. -/
  name : Ident → Ident → Prop
  /-- Names of functions. -/
  function : Ident → Ident → Prop
  /-- Reserved words that are kept as names. -/
  word : Ident → Ident → Prop
  recased : ∀ {t t'}, token t t' → t.Recased t'
  name_of : ∀ {t t' value value'}, token t t' → t.kind = .identifier value →
    t'.kind = .identifier value' → name ⟨value, t.isQuoted, t.span⟩ ⟨value', t'.isQuoted, t'.span⟩
  sameWord_of_name : ∀ {i i'}, name i i' → sameWord i.value i'.value
  function_of_name : ∀ {i i'}, name i i' → function i i'
  function_of_word : ∀ {t t' k}, token t t' → t.kind = .keyword k → k ∈ SqlRule.functionKeywords →
    function t.word t'.word
  word_of : ∀ {t t'}, token t t' → t.isKeyword = true → word t.word t'.word

variable (N : Naming)

structure ObjectName.Alike (n n' : ObjectName) : Prop where
  schema : Option.Rel N.name n.schema n'.schema
  name : N.name n.name n'.name
  span : n'.span = n.span

mutual

/-- Expressions that differ in their names at most. Which names may stand for each other is left open, and
whether a name came from a name in the text, from the word of a function or from the word of a pragma may
make a difference. -/
inductive Expr.Alike : Expr → Expr → Prop
  | mk {kind kind' span} : kind.Alike kind' → Expr.Alike ⟨kind, span⟩ ⟨kind', span⟩

inductive ExprKind.Alike : ExprKind → ExprKind → Prop
  | literal (value) : ExprKind.Alike (.literal value) (.literal value)
  | column {table table' name name'} : Option.Rel N.name table table' → N.name name name' →
      ExprKind.Alike (.column table name) (.column table' name')
  | binary {left left' right right'} (op) : left.Alike left' → right.Alike right' →
      ExprKind.Alike (.binary left op right) (.binary left' op right')
  | unary {operand operand'} (op) : operand.Alike operand' →
      ExprKind.Alike (.unary op operand) (.unary op operand')
  | call {name name' arguments arguments'} (distinct) : N.function name name' →
      List.Forall₂ Expr.Alike arguments arguments' →
      ExprKind.Alike (.call ⟨name, arguments, distinct⟩) (.call ⟨name', arguments', distinct⟩)
  | subquery {query query'} : query.Alike query' → ExprKind.Alike (.subquery query) (.subquery query')
  | existsQuery {query query'} (negated) : query.Alike query' →
      ExprKind.Alike (.existsQuery query negated) (.existsQuery query' negated)
  | isNull {expr expr'} (negated) : expr.Alike expr' →
      ExprKind.Alike (.isNull expr negated) (.isNull expr' negated)
  | inList {expr expr' list list'} (negated) : expr.Alike expr' → list.Alike list' →
      ExprKind.Alike (.inList expr list negated) (.inList expr' list' negated)
  | between {expr expr' low low' high high'} (negated) : expr.Alike expr' → low.Alike low' →
      high.Alike high' →
      ExprKind.Alike (.between expr low high negated) (.between expr' low' high' negated)
  | like {expr expr' pattern pattern'} (caseInsensitive negated) : expr.Alike expr' →
      pattern.Alike pattern' → ExprKind.Alike (.like expr pattern caseInsensitive negated)
        (.like expr' pattern' caseInsensitive negated)
  | caseWhen {operand operand' whenClauses whenClauses' elseClause elseClause'} :
      Option.Rel Expr.Alike operand operand' →
      List.Forall₂ WhenClause.Alike whenClauses whenClauses' →
      Option.Rel Expr.Alike elseClause elseClause' →
      ExprKind.Alike (.caseWhen operand whenClauses elseClause)
        (.caseWhen operand' whenClauses' elseClause')
  | cast {expr expr' type type'} : expr.Alike expr' → type.Alike type' →
      ExprKind.Alike (.cast expr type) (.cast expr' type')
  | paren {expr expr'} : expr.Alike expr' → ExprKind.Alike (.paren expr) (.paren expr')
  | positional (number) : ExprKind.Alike (.parameter none number) (.parameter none number)
  | named {name name'} : sameWord name name' →
      ExprKind.Alike (.parameter (some name) 0) (.parameter (some name') 0)
  | wildcard {table table'} : Option.Rel N.name table table' →
      ExprKind.Alike (.wildcard table) (.wildcard table')

inductive InList.Alike : InList → InList → Prop
  | values {values values'} : List.Forall₂ Expr.Alike values values' →
      InList.Alike (.values values) (.values values')
  | subquery {query query'} : query.Alike query' → InList.Alike (.subquery query) (.subquery query')

inductive WhenClause.Alike : WhenClause → WhenClause → Prop
  | mk {condition condition' result result' span} : condition.Alike condition' → result.Alike result' →
      WhenClause.Alike ⟨condition, result, span⟩ ⟨condition', result', span⟩

/-- Queries that differ in their names at most. -/
inductive SelectStatement.Alike : SelectStatement → SelectStatement → Prop
  | mk {columns columns' tables tables' condition condition' groupBy groupBy' having having' orderBy
      orderBy' limit limit' span} (distinct) :
      List.Forall₂ SelectColumn.Alike columns columns' → List.Forall₂ TableRef.Alike tables tables' →
      Option.Rel Expr.Alike condition condition' → List.Forall₂ Expr.Alike groupBy groupBy' →
      Option.Rel Expr.Alike having having' → List.Forall₂ OrderBy.Alike orderBy orderBy' →
      Option.Rel Limit.Alike limit limit' →
      SelectStatement.Alike ⟨distinct, columns, tables, condition, groupBy, having, orderBy, limit, span⟩
        ⟨distinct, columns', tables', condition', groupBy', having', orderBy', limit', span⟩

inductive SelectColumn.Alike : SelectColumn → SelectColumn → Prop
  | mk {expr expr' alias? alias?' span} : expr.Alike expr' → Option.Rel N.name alias? alias?' →
      SelectColumn.Alike ⟨expr, alias?, span⟩ ⟨expr', alias?', span⟩

inductive TableRef.Alike : TableRef → TableRef → Prop
  | table {name name' alias? alias?' span} : name.Alike N name' → Option.Rel N.name alias? alias?' →
      TableRef.Alike (.table name alias? span) (.table name' alias?' span)
  | subquery {query query' alias? alias?' span} : query.Alike query' → Option.Rel N.name alias? alias?' →
      TableRef.Alike (.subquery query alias? span) (.subquery query' alias?' span)
  | join {left left' join join' span} : left.Alike left' → join.Alike join' →
      TableRef.Alike (.join left join span) (.join left' join' span)

inductive JoinClause.Alike : JoinClause → JoinClause → Prop
  | mk {table table' condition condition' columns columns' span} (type natural) :
      table.Alike table' → Option.Rel Expr.Alike condition condition' →
      List.Forall₂ N.name columns columns' →
      JoinClause.Alike ⟨type, natural, table, condition, columns, span⟩
        ⟨type, natural, table', condition', columns', span⟩

inductive OrderBy.Alike : OrderBy → OrderBy → Prop
  | mk {expr expr' span} (direction nulls) : expr.Alike expr' →
      OrderBy.Alike ⟨expr, direction, nulls, span⟩ ⟨expr', direction, nulls, span⟩

inductive Limit.Alike : Limit → Limit → Prop
  | mk {count count' offset offset' span} : Option.Rel Expr.Alike count count' →
      Option.Rel Expr.Alike offset offset' →
      Limit.Alike ⟨count, offset, span⟩ ⟨count', offset', span⟩

end

inductive InsertSource.Alike : InsertSource → InsertSource → Prop
  | values {rows rows'} : List.Forall₂ (List.Forall₂ (Expr.Alike N)) rows rows' →
      Alike (.values rows) (.values rows')
  | query {query query'} : query.Alike N query' → Alike (.query query) (.query query')
  | defaultValues : Alike .defaultValues .defaultValues

structure InsertStatement.Alike (s s' : InsertStatement) : Prop where
  table : s.table.Alike N s'.table
  columns : List.Forall₂ N.name s.columns s'.columns
  source : s.source.Alike N s'.source
  returning : List.Forall₂ (SelectColumn.Alike N) s.returning s'.returning
  span : s'.span = s.span

structure UpdateAssignment.Alike (a a' : UpdateAssignment) : Prop where
  column : N.name a.column a'.column
  value : a.value.Alike N a'.value
  span : a'.span = a.span

structure UpdateStatement.Alike (s s' : UpdateStatement) : Prop where
  table : s.table.Alike N s'.table
  alias? : Option.Rel N.name s.alias? s'.alias?
  assignments : List.Forall₂ (UpdateAssignment.Alike N) s.assignments s'.assignments
  condition : Option.Rel (Expr.Alike N) s.condition s'.condition
  returning : List.Forall₂ (SelectColumn.Alike N) s.returning s'.returning
  span : s'.span = s.span

structure DeleteStatement.Alike (s s' : DeleteStatement) : Prop where
  table : s.table.Alike N s'.table
  alias? : Option.Rel N.name s.alias? s'.alias?
  condition : Option.Rel (Expr.Alike N) s.condition s'.condition
  returning : List.Forall₂ (SelectColumn.Alike N) s.returning s'.returning
  span : s'.span = s.span

structure ForeignKey.Alike (k k' : ForeignKey) : Prop where
  table : k.table.Alike N k'.table
  columns : List.Forall₂ N.name k.columns k'.columns
  onDelete : k'.onDelete = k.onDelete
  onUpdate : k'.onUpdate = k.onUpdate
  span : k'.span = k.span

inductive ColumnConstraintKind.Alike : ColumnConstraintKind → ColumnConstraintKind → Prop
  | notNull : Alike .notNull .notNull
  | null : Alike .null .null
  | primaryKey (direction) : Alike (.primaryKey direction) (.primaryKey direction)
  | unique : Alike .unique .unique
  | default {value value'} : value.Alike N value' → Alike (.default value) (.default value')
  | check {condition condition'} : condition.Alike N condition' →
      Alike (.check condition) (.check condition')
  | references {key key'} : key.Alike N key' → Alike (.references key) (.references key')
  | autoIncrement : Alike .autoIncrement .autoIncrement

structure ColumnConstraint.Alike (c c' : ColumnConstraint) : Prop where
  name : Option.Rel N.name c.name c'.name
  kind : c.kind.Alike N c'.kind
  span : c'.span = c.span

structure ColumnDef.Alike (c c' : ColumnDef) : Prop where
  name : N.name c.name c'.name
  type : Option.Rel DataType.Alike c.type c'.type
  constraints : List.Forall₂ (ColumnConstraint.Alike N) c.constraints c'.constraints
  span : c'.span = c.span

inductive TableConstraintKind.Alike : TableConstraintKind → TableConstraintKind → Prop
  | primaryKey {columns columns'} : List.Forall₂ N.name columns columns' →
      Alike (.primaryKey columns) (.primaryKey columns')
  | unique {columns columns'} : List.Forall₂ N.name columns columns' →
      Alike (.unique columns) (.unique columns')
  | foreignKey {columns columns' key key'} : List.Forall₂ N.name columns columns' →
      key.Alike N key' → Alike (.foreignKey columns key) (.foreignKey columns' key')
  | check {condition condition'} : condition.Alike N condition' →
      Alike (.check condition) (.check condition')

structure TableConstraint.Alike (c c' : TableConstraint) : Prop where
  name : Option.Rel N.name c.name c'.name
  kind : c.kind.Alike N c'.kind
  span : c'.span = c.span

structure CreateTableStatement.Alike (s s' : CreateTableStatement) : Prop where
  temporary : s'.temporary = s.temporary
  ifNotExists : s'.ifNotExists = s.ifNotExists
  name : s.name.Alike N s'.name
  columns : List.Forall₂ (ColumnDef.Alike N) s.columns s'.columns
  constraints : List.Forall₂ (TableConstraint.Alike N) s.constraints s'.constraints
  span : s'.span = s.span

/-- Values of pragmas: operands, or reserved words that are kept as names of columns. -/
inductive PragmaValue.Alike : Expr → Expr → Prop
  | operand {e e'} : e.Alike N e' → Alike e e'
  | word {i i' span} : N.word i i' → Alike ⟨.column none i, span⟩ ⟨.column none i', span⟩

structure PragmaStatement.Alike (s s' : PragmaStatement) : Prop where
  name : s.name.Alike N s'.name
  value : Option.Rel (PragmaValue.Alike N) s.value s'.value
  span : s'.span = s.span

/-- Statements that differ in their names at most. -/
inductive Statement.Alike : Statement → Statement → Prop
  | select {s s'} : s.Alike N s' → Alike (.select s) (.select s')
  | insert {s s'} : s.Alike N s' → Alike (.insert s) (.insert s')
  | update {s s'} : s.Alike N s' → Alike (.update s) (.update s')
  | delete {s s'} : s.Alike N s' → Alike (.delete s) (.delete s')
  | createTable {s s'} : s.Alike N s' → Alike (.createTable s) (.createTable s')
  | pragma {s s'} : s.Alike N s' → Alike (.pragma s) (.pragma s')

structure Script.Alike (s s' : Script) : Prop where
  statements : List.Forall₂ (Statement.Alike N) s.statements s'.statements
  span : s'.span = s.span

/-- Models that differ in their names at most. -/
inductive Model.Alike : Model → Model → Prop
  | statement {s s'} : s.Alike N s' → Alike (.statement s) (.statement s')
  | select {s s'} : s.Alike N s' → Alike (.select s) (.select s')
  | insert {s s'} : s.Alike N s' → Alike (.insert s) (.insert s')
  | update {s s'} : s.Alike N s' → Alike (.update s) (.update s')
  | delete {s s'} : s.Alike N s' → Alike (.delete s) (.delete s')
  | createTable {s s'} : s.Alike N s' → Alike (.createTable s) (.createTable s')
  | pragma {s s'} : s.Alike N s' → Alike (.pragma s) (.pragma s')
  | script {s s'} : s.Alike N s' → Alike (.script s) (.script s')
  | expression {e e'} : e.Alike N e' → Alike (.expression e) (.expression e')

end SqlTree
