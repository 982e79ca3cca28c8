import SqlTree.Grammar.Entry
import SqlTree.Output.TokenDocument

namespace SqlTree

def Ident.document (i : Ident) : Document :=
  .object [("value", .text i.value), ("quoted", .boolean i.quoted), ("span", .span i.span)]

def Ident.optionDocument (i : Option Ident) : Document := .ofOption Ident.document i

def ObjectName.document (n : ObjectName) : Document :=
  .object [("schema", Ident.optionDocument n.schema), ("name", n.name.document),
    ("span", .span n.span)]

namespace DataType

def lengthDocument : Option Nat → Document := .ofOption .number

def scaleDocument (tag : String) (precision scale : Option Nat) : Document :=
  .record tag [("precision", .ofOption .number precision), ("scale", .ofOption .number scale)]

def document : DataType → Document
  | smallint => .text "Smallint"
  | integer => .text "Integer"
  | bigint => .text "Bigint"
  | real => .text "Real"
  | double => .text "Double"
  | decimal precision scale => scaleDocument "Decimal" precision scale
  | numeric precision scale => scaleDocument "Numeric" precision scale
  | char length => .tagged "Char" (lengthDocument length)
  | varchar length => .tagged "Varchar" (lengthDocument length)
  | text => .text "Text"
  | blob => .text "Blob"
  | binary length => .tagged "Binary" (lengthDocument length)
  | varbinary length => .tagged "Varbinary" (lengthDocument length)
  | date => .text "Date"
  | time => .text "Time"
  | timestamp => .text "Timestamp"
  | datetime => .text "Datetime"
  | boolean => .text "Boolean"
  | custom written => .tagged "Custom" (.text written)

end DataType

def Literal.document : Literal → Document
  | integer value => .tagged "Integer" (.number value)
  | float value => .tagged "Float" (.float value)
  | string value => .tagged "String" (.text value)
  | blob bytes => .tagged "Blob" (bytesDocument bytes)
  | boolean value => .tagged "Boolean" (.boolean value)
  | null => .text "Null"

def OrderDirection.document : OrderDirection → Document
  | asc => .text "Asc"
  | desc => .text "Desc"

def NullOrdering.document : NullOrdering → Document
  | first => .text "First"
  | last => .text "Last"

def JoinType.document : JoinType → Document
  | inner => .text "Inner"
  | left => .text "Left"
  | right => .text "Right"
  | full => .text "Full"
  | cross => .text "Cross"

mutual

def Expr.document : Expr → Document
  | ⟨kind, span⟩ => .object [("kind", kind.document), ("span", .span span)]

def ExprKind.document : ExprKind → Document
  | .literal value => .tagged "Literal" value.document
  | .column table name =>
    .record "Column" [("table", Ident.optionDocument table), ("name", name.document)]
  | .binary left op right =>
    .record "Binary" [("left", left.document), ("op", .text op.name), ("right", right.document)]
  | .unary op operand =>
    .record "Unary" [("op", .text op.name), ("operand", operand.document)]
  | .call f => .tagged "Function" f.document
  | .subquery query => .tagged "Subquery" query.document
  | .existsQuery query negated =>
    .record "Exists" [("query", query.document), ("negated", .boolean negated)]
  | .isNull expr negated =>
    .record "IsNull" [("expr", expr.document), ("negated", .boolean negated)]
  | .inList expr list negated =>
    .record "In"
      [("expr", expr.document), ("list", list.document), ("negated", .boolean negated)]
  | .between expr low high negated =>
    .record "Between"
      [("expr", expr.document), ("low", low.document), ("high", high.document),
        ("negated", .boolean negated)]
  | .like expr pattern caseInsensitive negated =>
    .record "Like"
      [("expr", expr.document), ("pattern", pattern.document),
        ("case_insensitive", .boolean caseInsensitive), ("negated", .boolean negated)]
  | .caseWhen operand whenClauses elseClause =>
    .record "Case"
      [("operand", Expr.optionDocument operand),
        ("when_clauses", .list (WhenClause.documents whenClauses)),
        ("else_clause", Expr.optionDocument elseClause)]
  | .cast expr type =>
    .record "Cast" [("expr", expr.document), ("data_type", type.document)]
  | .paren expr => .tagged "Paren" expr.document
  | .parameter name position =>
    .record "Parameter" [("name", .ofOption .text name), ("position", .number position)]
  | .wildcard table => .record "Wildcard" [("table", Ident.optionDocument table)]

def FunctionCall.document : FunctionCall → Document
  | ⟨name, arguments, distinct⟩ =>
    .object [("name", name.document), ("args", .list (Expr.documents arguments)),
      ("distinct", .boolean distinct)]

def InList.document : InList → Document
  | .values values => .tagged "Values" (.list (Expr.documents values))
  | .subquery query => .tagged "Subquery" query.document

def WhenClause.document : WhenClause → Document
  | ⟨condition, result, span⟩ =>
    .object [("condition", condition.document), ("result", result.document), ("span", .span span)]

def SelectStatement.document : SelectStatement → Document
  | ⟨distinct, columns, tables, condition, groupBy, having, orderBy, limit, span⟩ =>
    .object
      [("distinct", .boolean distinct), ("columns", .list (SelectColumn.documents columns)),
        ("from", .list (TableRef.documents tables)),
        ("where_clause", Expr.optionDocument condition),
        ("group_by", .list (Expr.documents groupBy)), ("having", Expr.optionDocument having),
        ("order_by", .list (OrderBy.documents orderBy)), ("limit", Limit.optionDocument limit),
        ("span", .span span)]

def SelectColumn.document : SelectColumn → Document
  | ⟨expr, alias?, span⟩ =>
    .object [("expr", expr.document), ("alias", Ident.optionDocument alias?), ("span", .span span)]

def TableRef.document : TableRef → Document
  | .table name alias? span =>
    .record "Table"
      [("name", name.document), ("alias", Ident.optionDocument alias?), ("span", .span span)]
  | .subquery query alias? span =>
    .record "Subquery"
      [("query", query.document), ("alias", Ident.optionDocument alias?), ("span", .span span)]
  | .join left join span =>
    .record "Join" [("left", left.document), ("join", join.document), ("span", .span span)]

def JoinClause.document : JoinClause → Document
  | ⟨type, natural, table, condition, columns, span⟩ =>
    .object
      [("join_type", type.document), ("natural", .boolean natural), ("table", table.document),
        ("on", Expr.optionDocument condition), ("using", .ofList Ident.document columns),
        ("span", .span span)]

def OrderBy.document : OrderBy → Document
  | ⟨expr, direction, nulls, span⟩ =>
    .object
      [("expr", expr.document), ("direction", direction.document),
        ("nulls", .ofOption NullOrdering.document nulls), ("span", .span span)]

def Limit.document : Limit → Document
  | ⟨count, offset, span⟩ =>
    .object [("count", Expr.optionDocument count), ("offset", Expr.optionDocument offset),
      ("span", .span span)]

def Expr.optionDocument : Option Expr → Document
  | none => .null
  | some e => e.document

def Limit.optionDocument : Option Limit → Document
  | none => .null
  | some limit => limit.document

def Expr.documents : List Expr → List Document
  | [] => []
  | e :: es => e.document :: Expr.documents es

def WhenClause.documents : List WhenClause → List Document
  | [] => []
  | w :: ws => w.document :: WhenClause.documents ws

def SelectColumn.documents : List SelectColumn → List Document
  | [] => []
  | c :: cs => c.document :: SelectColumn.documents cs

def TableRef.documents : List TableRef → List Document
  | [] => []
  | t :: ts => t.document :: TableRef.documents ts

def OrderBy.documents : List OrderBy → List Document
  | [] => []
  | o :: os => o.document :: OrderBy.documents os

end

def returningDocument (columns : List SelectColumn) : Document :=
  .ofList SelectColumn.document columns

def InsertSource.document : InsertSource → Document
  | values rows => .tagged "Values" (.ofList (.ofList Expr.document) rows)
  | query q => .tagged "Query" q.document
  | defaultValues => .text "DefaultValues"

def InsertStatement.document (s : InsertStatement) : Document :=
  .object
    [("table", s.table.document), ("columns", .ofList Ident.document s.columns),
      ("source", s.source.document), ("returning", returningDocument s.returning),
      ("span", .span s.span)]

def UpdateAssignment.document (a : UpdateAssignment) : Document :=
  .object [("column", a.column.document), ("value", a.value.document), ("span", .span a.span)]

def UpdateStatement.document (s : UpdateStatement) : Document :=
  .object
    [("table", s.table.document), ("alias", Ident.optionDocument s.alias?),
      ("assignments", .ofList UpdateAssignment.document s.assignments),
      ("where_clause", .ofOption Expr.document s.condition),
      ("returning", returningDocument s.returning), ("span", .span s.span)]

def DeleteStatement.document (s : DeleteStatement) : Document :=
  .object
    [("table", s.table.document), ("alias", Ident.optionDocument s.alias?),
      ("where_clause", .ofOption Expr.document s.condition),
      ("returning", returningDocument s.returning), ("span", .span s.span)]

def ReferentialAction.document (a : ReferentialAction) : Document := .text a.name

def ForeignKey.document (k : ForeignKey) : Document :=
  .object
    [("table", k.table.document), ("columns", .ofList Ident.document k.columns),
      ("on_delete", .ofOption ReferentialAction.document k.onDelete),
      ("on_update", .ofOption ReferentialAction.document k.onUpdate), ("span", .span k.span)]

def ColumnConstraintKind.document : ColumnConstraintKind → Document
  | notNull => .text "NotNull"
  | null => .text "Null"
  | primaryKey direction =>
    .record "PrimaryKey" [("direction", .ofOption OrderDirection.document direction)]
  | unique => .text "Unique"
  | default value => .tagged "Default" value.document
  | check condition => .tagged "Check" condition.document
  | references key => .tagged "References" key.document
  | autoIncrement => .text "AutoIncrement"

def ColumnConstraint.document (c : ColumnConstraint) : Document :=
  .object [("name", Ident.optionDocument c.name), ("kind", c.kind.document), ("span", .span c.span)]

def ColumnDef.document (c : ColumnDef) : Document :=
  .object
    [("name", c.name.document), ("data_type", .ofOption DataType.document c.type),
      ("constraints", .ofList ColumnConstraint.document c.constraints), ("span", .span c.span)]

def TableConstraintKind.document : TableConstraintKind → Document
  | primaryKey columns => .tagged "PrimaryKey" (.ofList Ident.document columns)
  | unique columns => .tagged "Unique" (.ofList Ident.document columns)
  | foreignKey columns key =>
    .record "ForeignKey"
      [("columns", .ofList Ident.document columns), ("references", key.document)]
  | check condition => .tagged "Check" condition.document

def TableConstraint.document (c : TableConstraint) : Document :=
  .object [("name", Ident.optionDocument c.name), ("kind", c.kind.document), ("span", .span c.span)]

def CreateTableStatement.document (s : CreateTableStatement) : Document :=
  .object
    [("temporary", .boolean s.temporary), ("if_not_exists", .boolean s.ifNotExists),
      ("name", s.name.document), ("columns", .ofList ColumnDef.document s.columns),
      ("constraints", .ofList TableConstraint.document s.constraints), ("span", .span s.span)]

def PragmaStatement.document (s : PragmaStatement) : Document :=
  .object [("name", s.name.document), ("value", .ofOption Expr.document s.value),
    ("span", .span s.span)]

def Statement.document : Statement → Document
  | select s => .tagged "Select" s.document
  | insert s => .tagged "Insert" s.document
  | update s => .tagged "Update" s.document
  | delete s => .tagged "Delete" s.document
  | createTable s => .tagged "CreateTable" s.document
  | pragma s => .tagged "Pragma" s.document

def Script.document (s : Script) : Document :=
  .object [("statements", .ofList Statement.document s.statements), ("span", .span s.span)]

/-- A model as data: each node is an object with a field per part, and each alternative carries its name. -/
def Model.document : Model → Document
  | statement s => s.document
  | select s => s.document
  | insert s => s.document
  | update s => s.document
  | delete s => s.document
  | createTable s => s.document
  | pragma s => s.document
  | script s => s.document
  | expression e => e.document

end SqlTree
