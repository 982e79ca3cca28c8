import SqlTree.Model.Kind
import SqlTree.Model.Query

namespace SqlTree

inductive InsertSource where
  | values (rows : List (List Expr))
  | query (query : SelectStatement)
  | defaultValues

structure InsertStatement where
  table : ObjectName
  columns : List Ident
  source : InsertSource
  returning : List SelectColumn
  span : Span

structure UpdateAssignment where
  column : Ident
  value : Expr
  span : Span

structure UpdateStatement where
  table : ObjectName
  alias? : Option Ident
  assignments : List UpdateAssignment
  condition : Option Expr
  returning : List SelectColumn
  span : Span

structure DeleteStatement where
  table : ObjectName
  alias? : Option Ident
  condition : Option Expr
  returning : List SelectColumn
  span : Span

/-- What happens to a row that refers to one that goes away or changes. -/
inductive ReferentialAction where
  | cascade | restrict | setNull | setDefault | noAction
  deriving DecidableEq

namespace ReferentialAction

def sql : ReferentialAction → String
  | cascade => "CASCADE"
  | restrict => "RESTRICT"
  | setNull => "SET NULL"
  | setDefault => "SET DEFAULT"
  | noAction => "NO ACTION"

def name : ReferentialAction → String
  | cascade => "Cascade"
  | restrict => "Restrict"
  | setNull => "SetNull"
  | setDefault => "SetDefault"
  | noAction => "NoAction"

end ReferentialAction

structure ForeignKey where
  table : ObjectName
  columns : List Ident
  onDelete : Option ReferentialAction
  onUpdate : Option ReferentialAction
  span : Span
  deriving DecidableEq

inductive ColumnConstraintKind where
  | notNull
  | null
  | primaryKey (direction : Option OrderDirection)
  | unique
  | default (value : Expr)
  | check (condition : Expr)
  | references (key : ForeignKey)
  | autoIncrement

structure ColumnConstraint where
  name : Option Ident
  kind : ColumnConstraintKind
  span : Span

structure ColumnDef where
  name : Ident
  type : Option DataType
  constraints : List ColumnConstraint
  span : Span

inductive TableConstraintKind where
  | primaryKey (columns : List Ident)
  | unique (columns : List Ident)
  | foreignKey (columns : List Ident) (key : ForeignKey)
  | check (condition : Expr)

structure TableConstraint where
  name : Option Ident
  kind : TableConstraintKind
  span : Span

structure CreateTableStatement where
  temporary : Bool
  ifNotExists : Bool
  name : ObjectName
  columns : List ColumnDef
  constraints : List TableConstraint
  span : Span

structure PragmaStatement where
  name : ObjectName
  value : Option Expr
  span : Span

inductive Statement where
  | select (s : SelectStatement)
  | insert (s : InsertStatement)
  | update (s : UpdateStatement)
  | delete (s : DeleteStatement)
  | createTable (s : CreateTableStatement)
  | pragma (s : PragmaStatement)

structure Script where
  statements : List Statement
  span : Span

namespace ColumnConstraintKind

def isPrimaryKey : ColumnConstraintKind → Bool
  | primaryKey _ => true
  | _ => false

def isUnique : ColumnConstraintKind → Bool
  | unique => true
  | _ => false

def isAutoIncrement : ColumnConstraintKind → Bool
  | autoIncrement => true
  | _ => false

/-- Whether the constraint keeps NULL out of its column. -/
def forbidsNull : ColumnConstraintKind → Bool
  | notNull | primaryKey _ => true
  | _ => false

def default? : ColumnConstraintKind → Option Expr
  | default value => some value
  | _ => none

def references? : ColumnConstraintKind → Option ForeignKey
  | references key => some key
  | _ => none

end ColumnConstraintKind

namespace ColumnDef

def kinds (c : ColumnDef) : List ColumnConstraintKind := c.constraints.map (·.kind)

def isNullable (c : ColumnDef) : Bool := !c.kinds.any (·.forbidsNull)

def isPrimaryKey (c : ColumnDef) : Bool := c.kinds.any (·.isPrimaryKey)

def isUnique (c : ColumnDef) : Bool := c.kinds.any (·.isUnique)

def isAutoIncrement (c : ColumnDef) : Bool := c.kinds.any (·.isAutoIncrement)

/-- The first default of the column. -/
def default? (c : ColumnDef) : Option Expr := c.kinds.findSome? (·.default?)

/-- The first foreign key of the column. -/
def references? (c : ColumnDef) : Option ForeignKey := c.kinds.findSome? (·.references?)

end ColumnDef

namespace CreateTableStatement

/-- The first column with a name, whatever the case of its letters. -/
def column? (s : CreateTableStatement) (name : String) : Option ColumnDef :=
  s.columns.find? fun c => sameWord c.name.value name

/-- The names of the columns in the first primary key of the table, else of the columns that are
primary keys themselves. -/
def primaryKey (s : CreateTableStatement) : List String :=
  let ofTable : TableConstraint → Option (List Ident) := fun c =>
    match c.kind with
    | .primaryKey columns => some columns
    | _ => none
  match s.constraints.findSome? ofTable with
  | some columns => columns.map (·.value)
  | none => (s.columns.filter (·.isPrimaryKey)).map (·.name.value)

end CreateTableStatement

namespace Statement

def span : Statement → Span
  | select s => s.span
  | insert s => s.span
  | update s => s.span
  | delete s => s.span
  | createTable s => s.span
  | pragma s => s.span

def kind : Statement → ModelKind
  | select _ => .select
  | insert _ => .insert
  | update _ => .update
  | delete _ => .delete
  | createTable _ => .createTable
  | pragma _ => .pragma

def select? : Statement → Option SelectStatement
  | select s => some s
  | _ => none

end Statement

end SqlTree
