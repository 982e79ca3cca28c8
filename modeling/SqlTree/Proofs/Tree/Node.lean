import SqlTree.Grammar.Entry

namespace SqlTree

/-- What a model is made of: everything that was read from a stretch of the text and tells so by a
span. -/
inductive Node where
  | ident (i : Ident)
  | objectName (n : ObjectName)
  | expr (e : Expr)
  | whenClause (w : WhenClause)
  | select (s : SelectStatement)
  | column (c : SelectColumn)
  | table (t : TableRef)
  | join (j : JoinClause)
  | order (o : OrderBy)
  | limit (l : Limit)
  | insert (s : InsertStatement)
  | update (s : UpdateStatement)
  | assignment (a : UpdateAssignment)
  | delete (s : DeleteStatement)
  | createTable (s : CreateTableStatement)
  | columnDef (c : ColumnDef)
  | columnConstraint (c : ColumnConstraint)
  | tableConstraint (c : TableConstraint)
  | foreignKey (k : ForeignKey)
  | pragma (s : PragmaStatement)
  | script (s : Script)

namespace Node

def span : Node → Span
  | ident i => i.span
  | objectName n => n.span
  | expr e => e.span
  | whenClause w => w.span
  | select s => s.span
  | column c => c.span
  | table t => t.span
  | join j => j.span
  | order o => o.span
  | limit l => l.span
  | insert s => s.span
  | update s => s.span
  | assignment a => a.span
  | delete s => s.span
  | createTable s => s.span
  | columnDef c => c.span
  | columnConstraint c => c.span
  | tableConstraint c => c.span
  | foreignKey k => k.span
  | pragma s => s.span
  | script s => s.span

def ofStatement : Statement → Node
  | .select s => select s
  | .insert s => insert s
  | .update s => update s
  | .delete s => delete s
  | .createTable s => createTable s
  | .pragma s => pragma s

def ofTableElement : SqlRule.TableElement → Node
  | .column c => columnDef c
  | .constraint c => tableConstraint c

/-- The lists of nodes that an expression holds. -/
def fieldsOfExpr : ExprKind → List (List Node)
  | .literal _ | .parameter _ _ => []
  | .column owner name => [owner.toList.map ident, [ident name]]
  | .binary left _ right => [[expr left], [expr right]]
  | .unary _ e | .isNull e _ | .cast e _ | .paren e => [[expr e]]
  | .call f => [[ident f.name], f.arguments.map expr]
  | .subquery query | .existsQuery query _ => [[select query]]
  | .inList e (.values values) _ => [[expr e], values.map expr]
  | .inList e (.subquery query) _ => [[expr e], [select query]]
  | .between e low high _ => [[expr e], [expr low], [expr high]]
  | .like e pattern _ _ => [[expr e], [expr pattern]]
  | .caseWhen operand whenClauses elseClause =>
    [operand.toList.map expr, whenClauses.map whenClause, elseClause.toList.map expr]
  | .wildcard owner => [owner.toList.map ident]

def fieldsOfTable : TableRef → List (List Node)
  | .table name alias? _ => [[objectName name], alias?.toList.map ident]
  | .subquery query alias? _ => [[select query], alias?.toList.map ident]
  | .join left j _ => [[table left], [join j]]

def fieldsOfSource : InsertSource → List (List Node)
  | .values rows => [rows.flatten.map expr]
  | .query query => [[select query]]
  | .defaultValues => []

def fieldsOfColumnConstraint : ColumnConstraintKind → List (List Node)
  | .default e | .check e => [[expr e]]
  | .references k => [[foreignKey k]]
  | .notNull | .null | .primaryKey _ | .unique | .autoIncrement => []

def fieldsOfTableConstraint : TableConstraintKind → List (List Node)
  | .primaryKey columns | .unique columns => [columns.map ident]
  | .foreignKey columns k => [columns.map ident, [foreignKey k]]
  | .check e => [[expr e]]

/-- The lists of nodes that a node holds, one for each place that holds nodes. The rows of VALUES
make up one list. -/
def fields : Node → List (List Node)
  | ident _ => []
  | objectName n => [n.schema.toList.map ident, [ident n.name]]
  | expr e => fieldsOfExpr e.kind
  | whenClause w => [[expr w.condition], [expr w.result]]
  | select s =>
    [s.columns.map column, s.tables.map table, s.condition.toList.map expr, s.groupBy.map expr,
      s.having.toList.map expr, s.orderBy.map order, s.limit.toList.map limit]
  | column c => [[expr c.expr], c.alias?.toList.map ident]
  | table t => fieldsOfTable t
  | join j => [[table j.table], j.condition.toList.map expr, j.columns.map ident]
  | order o => [[expr o.expr]]
  | limit l => [l.count.toList.map expr, l.offset.toList.map expr]
  | insert s =>
    [[objectName s.table], s.columns.map ident] ++ fieldsOfSource s.source ++
      [s.returning.map column]
  | update s =>
    [[objectName s.table], s.alias?.toList.map ident, s.assignments.map assignment,
      s.condition.toList.map expr, s.returning.map column]
  | assignment a => [[ident a.column], [expr a.value]]
  | delete s =>
    [[objectName s.table], s.alias?.toList.map ident, s.condition.toList.map expr,
      s.returning.map column]
  | createTable s =>
    [[objectName s.name], s.columns.map columnDef, s.constraints.map tableConstraint]
  | columnDef c => [[ident c.name], c.constraints.map columnConstraint]
  | columnConstraint c => c.name.toList.map ident :: fieldsOfColumnConstraint c.kind
  | tableConstraint c => c.name.toList.map ident :: fieldsOfTableConstraint c.kind
  | foreignKey k => [[objectName k.table], k.columns.map ident]
  | pragma s => [[objectName s.name], s.value.toList.map expr]
  | script s => [s.statements.map ofStatement]

/-- The nodes that a node holds directly. -/
def parts (n : Node) : List Node := n.fields.flatten

/-- Whether a text may hold the parts of a node in another order than the node. A limit may be
written offset first, and columns and constraints of a table may be mixed. -/
def mixesParts : Node → Bool
  | limit _ | createTable _ => true
  | _ => false

/-- The nodes inside a node, itself included. -/
inductive Within (root : Node) : Node → Prop
  | root : Within root root
  | part {n p} : Within root n → p ∈ n.parts → Within root p

/-- Inside a node without parts is nothing but the node. -/
theorem Within.eq_root {root n : Node} (within : root.Within n) (none : root.parts = []) :
    n = root := by
  induction within with
  | root => rfl
  | part _ mem ih =>
    rw [ih, none] at mem
    cases mem

end Node

/-- The node that a model is. -/
def Model.node : Model → Node
  | statement s => .ofStatement s
  | select s => .select s
  | insert s => .insert s
  | update s => .update s
  | delete s => .delete s
  | createTable s => .createTable s
  | pragma s => .pragma s
  | script s => .script s
  | expression e => .expr e

end SqlTree
