import SqlTree.Proofs.Tree.Node

namespace SqlTree

/-- A name without its place. -/
def Ident.bare (i : Ident) : Ident := { i with span := .nothing }

/-- Both ends of a span, put elsewhere. -/
def Span.placed (place : Position → Position) (s : Span) : Span := ⟨place s.start, place s.stop⟩

/-- A name whose ends are put elsewhere. -/
def Ident.placed (place : Position → Position) (i : Ident) : Ident := { i with span := i.span.placed place }

/-- How names, the numbers of positional placeholders and the places of nodes are shown. -/
structure Lens where
  name : Ident → Ident
  number : Nat → Nat
  span : Span → Span

namespace Lens

/-- All that is left out are places. -/
def bare : Lens := ⟨Ident.bare, id, fun _ => .nothing⟩

@[simp] theorem span_bare (s : Span) : bare.span s = .nothing := rfl

/-- All places are put elsewhere, those of names as well. -/
def placing (place : Position → Position) (number : Nat → Nat) : Lens :=
  ⟨Ident.placed place, number, Span.placed place⟩

/-- What one lens shows, seen through another one. -/
def andThen (first second : Lens) : Lens :=
  ⟨fun i => second.name (first.name i), fun n => second.number (first.number n),
    fun s => second.span (first.span s)⟩

end Lens

section

variable (lens : Lens)

def ObjectName.through (n : ObjectName) : ObjectName :=
  ⟨n.schema.map lens.name, lens.name n.name, lens.span n.span⟩

mutual

def Expr.through : Expr → Expr
  | ⟨kind, span⟩ => ⟨kind.through, lens.span span⟩

def ExprKind.through : ExprKind → ExprKind
  | .literal value => .literal value
  | .column table name => .column (table.map lens.name) (lens.name name)
  | .binary left op right => .binary left.through op right.through
  | .unary op operand => .unary op operand.through
  | .call f => .call f.through
  | .subquery query => .subquery query.through
  | .existsQuery query negated => .existsQuery query.through negated
  | .isNull expr negated => .isNull expr.through negated
  | .inList expr list negated => .inList expr.through list.through negated
  | .between expr low high negated => .between expr.through low.through high.through negated
  | .like expr pattern caseInsensitive negated =>
    .like expr.through pattern.through caseInsensitive negated
  | .caseWhen operand whenClauses elseClause =>
    .caseWhen (Expr.throughOption operand) (WhenClause.throughList whenClauses)
      (Expr.throughOption elseClause)
  | .cast expr type => .cast expr.through type
  | .paren expr => .paren expr.through
  | .parameter none number => .parameter none (lens.number number)
  | .parameter (some name) position => .parameter (some name) position
  | .wildcard table => .wildcard (table.map lens.name)

def FunctionCall.through : FunctionCall → FunctionCall
  | ⟨name, arguments, distinct⟩ => ⟨lens.name name, Expr.throughList arguments, distinct⟩

def InList.through : InList → InList
  | .values values => .values (Expr.throughList values)
  | .subquery query => .subquery query.through

def WhenClause.through : WhenClause → WhenClause
  | ⟨condition, result, span⟩ => ⟨condition.through, result.through, lens.span span⟩

def SelectStatement.through : SelectStatement → SelectStatement
  | ⟨distinct, columns, tables, condition, groupBy, having, orderBy, limit, span⟩ =>
    ⟨distinct, SelectColumn.throughList columns, TableRef.throughList tables,
      Expr.throughOption condition, Expr.throughList groupBy, Expr.throughOption having,
      OrderBy.throughList orderBy, Limit.throughOption limit, lens.span span⟩

def SelectColumn.through : SelectColumn → SelectColumn
  | ⟨expr, alias?, span⟩ => ⟨expr.through, alias?.map lens.name, lens.span span⟩

def TableRef.through : TableRef → TableRef
  | .table name alias? span => .table (name.through lens) (alias?.map lens.name) (lens.span span)
  | .subquery query alias? span => .subquery query.through (alias?.map lens.name) (lens.span span)
  | .join left join span => .join left.through join.through (lens.span span)

def JoinClause.through : JoinClause → JoinClause
  | ⟨type, natural, table, condition, columns, span⟩ =>
    ⟨type, natural, table.through, Expr.throughOption condition, columns.map lens.name, lens.span span⟩

def OrderBy.through : OrderBy → OrderBy
  | ⟨expr, direction, nulls, span⟩ => ⟨expr.through, direction, nulls, lens.span span⟩

def Limit.through : Limit → Limit
  | ⟨count, offset, span⟩ => ⟨Expr.throughOption count, Expr.throughOption offset, lens.span span⟩

def Expr.throughOption : Option Expr → Option Expr
  | none => none
  | some e => some e.through

def Limit.throughOption : Option Limit → Option Limit
  | none => none
  | some limit => some limit.through

def Expr.throughList : List Expr → List Expr
  | [] => []
  | e :: es => e.through :: Expr.throughList es

def WhenClause.throughList : List WhenClause → List WhenClause
  | [] => []
  | w :: ws => w.through :: WhenClause.throughList ws

def SelectColumn.throughList : List SelectColumn → List SelectColumn
  | [] => []
  | c :: cs => c.through :: SelectColumn.throughList cs

def TableRef.throughList : List TableRef → List TableRef
  | [] => []
  | t :: ts => t.through :: TableRef.throughList ts

def OrderBy.throughList : List OrderBy → List OrderBy
  | [] => []
  | o :: os => o.through :: OrderBy.throughList os

end

end

section

variable (lens : Lens)

@[simp] theorem Expr.throughOption_eq (e : Option Expr) :
    Expr.throughOption lens e = e.map (Expr.through lens) := by
  cases e <;> rfl

@[simp] theorem Limit.throughOption_eq (l : Option Limit) :
    Limit.throughOption lens l = l.map (Limit.through lens) := by
  cases l <;> rfl

@[simp] theorem Expr.throughList_eq (es : List Expr) :
    Expr.throughList lens es = es.map (Expr.through lens) := by
  induction es with
  | nil => rfl
  | cons e es ih => rw [throughList, ih, List.map_cons]

@[simp] theorem WhenClause.throughList_eq (ws : List WhenClause) :
    WhenClause.throughList lens ws = ws.map (WhenClause.through lens) := by
  induction ws with
  | nil => rfl
  | cons w ws ih => rw [throughList, ih, List.map_cons]

@[simp] theorem SelectColumn.throughList_eq (cs : List SelectColumn) :
    SelectColumn.throughList lens cs = cs.map (SelectColumn.through lens) := by
  induction cs with
  | nil => rfl
  | cons c cs ih => rw [throughList, ih, List.map_cons]

@[simp] theorem TableRef.throughList_eq (ts : List TableRef) :
    TableRef.throughList lens ts = ts.map (TableRef.through lens) := by
  induction ts with
  | nil => rfl
  | cons t ts ih => rw [throughList, ih, List.map_cons]

@[simp] theorem OrderBy.throughList_eq (os : List OrderBy) :
    OrderBy.throughList lens os = os.map (OrderBy.through lens) := by
  induction os with
  | nil => rfl
  | cons o os ih => rw [throughList, ih, List.map_cons]

def InsertSource.through : InsertSource → InsertSource
  | .values rows => .values (rows.map (·.map (Expr.through lens)))
  | .query q => .query (q.through lens)
  | .defaultValues => .defaultValues

def InsertStatement.through (s : InsertStatement) : InsertStatement :=
  ⟨s.table.through lens, s.columns.map lens.name, s.source.through lens,
    s.returning.map (SelectColumn.through lens), lens.span s.span⟩

def UpdateAssignment.through (a : UpdateAssignment) : UpdateAssignment :=
  ⟨lens.name a.column, a.value.through lens, lens.span a.span⟩

def UpdateStatement.through (s : UpdateStatement) : UpdateStatement :=
  ⟨s.table.through lens, s.alias?.map lens.name, s.assignments.map (UpdateAssignment.through lens),
    s.condition.map (Expr.through lens), s.returning.map (SelectColumn.through lens), lens.span s.span⟩

def DeleteStatement.through (s : DeleteStatement) : DeleteStatement :=
  ⟨s.table.through lens, s.alias?.map lens.name, s.condition.map (Expr.through lens),
    s.returning.map (SelectColumn.through lens), lens.span s.span⟩

def ForeignKey.through (k : ForeignKey) : ForeignKey :=
  ⟨k.table.through lens, k.columns.map lens.name, k.onDelete, k.onUpdate, lens.span k.span⟩

def ColumnConstraintKind.through : ColumnConstraintKind → ColumnConstraintKind
  | .notNull => .notNull
  | .null => .null
  | .primaryKey direction => .primaryKey direction
  | .unique => .unique
  | .default value => .default (value.through lens)
  | .check condition => .check (condition.through lens)
  | .references key => .references (key.through lens)
  | .autoIncrement => .autoIncrement

def ColumnConstraint.through (c : ColumnConstraint) : ColumnConstraint :=
  ⟨c.name.map lens.name, c.kind.through lens, lens.span c.span⟩

def ColumnDef.through (c : ColumnDef) : ColumnDef :=
  ⟨lens.name c.name, c.type, c.constraints.map (ColumnConstraint.through lens), lens.span c.span⟩

def TableConstraintKind.through : TableConstraintKind → TableConstraintKind
  | .primaryKey columns => .primaryKey (columns.map lens.name)
  | .unique columns => .unique (columns.map lens.name)
  | .foreignKey columns key => .foreignKey (columns.map lens.name) (key.through lens)
  | .check condition => .check (condition.through lens)

def TableConstraint.through (c : TableConstraint) : TableConstraint :=
  ⟨c.name.map lens.name, c.kind.through lens, lens.span c.span⟩

def CreateTableStatement.through (s : CreateTableStatement) : CreateTableStatement :=
  ⟨s.temporary, s.ifNotExists, s.name.through lens, s.columns.map (ColumnDef.through lens),
    s.constraints.map (TableConstraint.through lens), lens.span s.span⟩

def PragmaStatement.through (s : PragmaStatement) : PragmaStatement :=
  ⟨s.name.through lens, s.value.map (Expr.through lens), lens.span s.span⟩

def Statement.through : Statement → Statement
  | .select s => .select (s.through lens)
  | .insert s => .insert (s.through lens)
  | .update s => .update (s.through lens)
  | .delete s => .delete (s.through lens)
  | .createTable s => .createTable (s.through lens)
  | .pragma s => .pragma (s.through lens)

def Script.through (s : Script) : Script := ⟨s.statements.map (Statement.through lens), lens.span s.span⟩

def Model.through : Model → Model
  | .statement s => .statement (s.through lens)
  | .select s => .select (s.through lens)
  | .insert s => .insert (s.through lens)
  | .update s => .update (s.through lens)
  | .delete s => .delete (s.through lens)
  | .createTable s => .createTable (s.through lens)
  | .pragma s => .pragma (s.through lens)
  | .script s => .script (s.through lens)
  | .expression e => .expression (e.through lens)

end

section

variable (first second : Lens)

theorem ObjectName.through_through (n : ObjectName) :
    (n.through first).through second = n.through (first.andThen second) := by
  simp [through, Function.comp_def, Lens.andThen]

mutual

/-- Looking through two lenses is looking through one. -/
theorem Expr.through_through : ∀ e : Expr, (e.through first).through second = e.through (first.andThen second)
  | ⟨kind, _⟩ => by simp only [Expr.through, kind.through_through, Lens.andThen]

theorem ExprKind.through_through :
    ∀ k : ExprKind, (k.through first).through second = k.through (first.andThen second)
  | .literal _ | .parameter none _ | .parameter (some _) _ => by
    simp only [ExprKind.through, Lens.andThen]
  | .column _ _ | .wildcard _ => by simp [ExprKind.through, Function.comp_def, Lens.andThen]
  | .binary left _ right => by
    simp only [ExprKind.through, left.through_through, right.through_through, Lens.andThen]
  | .unary _ e | .isNull e _ | .cast e _ | .paren e => by
    simp only [ExprKind.through, e.through_through, Lens.andThen]
  | .call ⟨name, arguments, _⟩ => by
    simp only [ExprKind.through, FunctionCall.through, Lens.andThen, Expr.through_throughList arguments]
  | .subquery query | .existsQuery query _ => by simp only [ExprKind.through, query.through_through, Lens.andThen]
  | .inList e (.values values) _ => by
    simp only [ExprKind.through, InList.through, e.through_through, Expr.through_throughList values, Lens.andThen]
  | .inList e (.subquery query) _ => by
    simp only [ExprKind.through, InList.through, e.through_through, query.through_through, Lens.andThen]
  | .between e low high _ => by
    simp only [ExprKind.through, e.through_through, low.through_through, high.through_through, Lens.andThen]
  | .like e pattern _ _ => by simp only [ExprKind.through, e.through_through, pattern.through_through, Lens.andThen]
  | .caseWhen operand whenClauses elseClause => by
    simp only [ExprKind.through, Expr.through_throughOption operand, Expr.through_throughOption elseClause,
      WhenClause.through_throughList whenClauses, Lens.andThen]

theorem WhenClause.through_through :
    ∀ w : WhenClause, (w.through first).through second = w.through (first.andThen second)
  | ⟨condition, result, _⟩ => by
    simp only [WhenClause.through, condition.through_through, result.through_through, Lens.andThen]

theorem SelectStatement.through_through :
    ∀ s : SelectStatement, (s.through first).through second = s.through (first.andThen second)
  | ⟨_, columns, tables, condition, groupBy, having, orderBy, limit, _⟩ => by
    simp only [SelectStatement.through, SelectColumn.through_throughList columns, TableRef.through_throughList tables,
      Expr.through_throughOption condition, Expr.through_throughList groupBy,
      Expr.through_throughOption having, OrderBy.through_throughList orderBy,
      Limit.through_throughOption limit, Lens.andThen]

theorem SelectColumn.through_through :
    ∀ c : SelectColumn, (c.through first).through second = c.through (first.andThen second)
  | ⟨expr, _, _⟩ => by simp [SelectColumn.through, expr.through_through, Function.comp_def, Lens.andThen]

theorem TableRef.through_through :
    ∀ t : TableRef, (t.through first).through second = t.through (first.andThen second)
  | .table name _ _ => by simp [TableRef.through, name.through_through, Function.comp_def, Lens.andThen]
  | .subquery query _ _ => by simp [TableRef.through, query.through_through, Function.comp_def, Lens.andThen]
  | .join left join _ => by simp only [TableRef.through, left.through_through, join.through_through, Lens.andThen]

theorem JoinClause.through_through :
    ∀ j : JoinClause, (j.through first).through second = j.through (first.andThen second)
  | ⟨_, _, table, condition, _, _⟩ => by
    simp only [JoinClause.through, table.through_through, Expr.through_throughOption condition, List.map_map,
      Function.comp_def, Lens.andThen]

theorem OrderBy.through_through :
    ∀ o : OrderBy, (o.through first).through second = o.through (first.andThen second)
  | ⟨expr, _, _, _⟩ => by simp only [OrderBy.through, expr.through_through, Lens.andThen]

theorem Limit.through_through : ∀ l : Limit, (l.through first).through second = l.through (first.andThen second)
  | ⟨count, offset, _⟩ => by
    simp only [Limit.through, Expr.through_throughOption count, Expr.through_throughOption offset, Lens.andThen]

theorem Expr.through_throughOption : ∀ e : Option Expr,
    Expr.throughOption second (Expr.throughOption first e) =
      Expr.throughOption (first.andThen second) e
  | none => rfl
  | some e => by simp only [Expr.throughOption, e.through_through, Lens.andThen]

theorem Limit.through_throughOption : ∀ l : Option Limit,
    Limit.throughOption second (Limit.throughOption first l) =
      Limit.throughOption (first.andThen second) l
  | none => rfl
  | some l => by simp only [Limit.throughOption, l.through_through, Lens.andThen]

theorem Expr.through_throughList : ∀ es : List Expr,
    Expr.throughList second (Expr.throughList first es) =
      Expr.throughList (first.andThen second) es
  | [] => rfl
  | e :: es => by simp only [Expr.throughList, e.through_through, Expr.through_throughList es, Lens.andThen]

theorem WhenClause.through_throughList : ∀ ws : List WhenClause,
    WhenClause.throughList second (WhenClause.throughList first ws) =
      WhenClause.throughList (first.andThen second) ws
  | [] => rfl
  | w :: ws => by
    simp only [WhenClause.throughList, w.through_through, WhenClause.through_throughList ws, Lens.andThen]

theorem SelectColumn.through_throughList : ∀ cs : List SelectColumn,
    SelectColumn.throughList second (SelectColumn.throughList first cs) =
      SelectColumn.throughList (first.andThen second) cs
  | [] => rfl
  | c :: cs => by
    simp only [SelectColumn.throughList, c.through_through, SelectColumn.through_throughList cs, Lens.andThen]

theorem TableRef.through_throughList : ∀ ts : List TableRef,
    TableRef.throughList second (TableRef.throughList first ts) =
      TableRef.throughList (first.andThen second) ts
  | [] => rfl
  | t :: ts => by simp only [TableRef.throughList, t.through_through, TableRef.through_throughList ts, Lens.andThen]

theorem OrderBy.through_throughList : ∀ os : List OrderBy,
    OrderBy.throughList second (OrderBy.throughList first os) =
      OrderBy.throughList (first.andThen second) os
  | [] => rfl
  | o :: os => by simp only [OrderBy.throughList, o.through_through, OrderBy.through_throughList os, Lens.andThen]

end

theorem InsertSource.through_through (s : InsertSource) :
    (s.through first).through second = s.through (first.andThen second) := by
  cases s <;> simp [through, Function.comp_def, Expr.through_through,
    SelectStatement.through_through, Lens.andThen]

theorem InsertStatement.through_through (s : InsertStatement) :
    (s.through first).through second = s.through (first.andThen second) := by
  simp [through, Function.comp_def, Lens.andThen, ObjectName.through_through, InsertSource.through_through,
    SelectColumn.through_through]

theorem UpdateAssignment.through_through (a : UpdateAssignment) :
    (a.through first).through second = a.through (first.andThen second) := by
  simp [through, Lens.andThen, Expr.through_through]

theorem UpdateStatement.through_through (s : UpdateStatement) :
    (s.through first).through second = s.through (first.andThen second) := by
  simp [through, Function.comp_def, Lens.andThen, ObjectName.through_through,
    UpdateAssignment.through_through, Expr.through_through, SelectColumn.through_through]

theorem DeleteStatement.through_through (s : DeleteStatement) :
    (s.through first).through second = s.through (first.andThen second) := by
  simp [through, Function.comp_def, Lens.andThen, ObjectName.through_through, Expr.through_through,
    SelectColumn.through_through]

theorem ForeignKey.through_through (k : ForeignKey) :
    (k.through first).through second = k.through (first.andThen second) := by
  simp [through, Function.comp_def, Lens.andThen, ObjectName.through_through]

theorem ColumnConstraintKind.through_through (k : ColumnConstraintKind) :
    (k.through first).through second = k.through (first.andThen second) := by
  cases k <;> simp [through, Expr.through_through, ForeignKey.through_through, Lens.andThen]

theorem ColumnConstraint.through_through (c : ColumnConstraint) :
    (c.through first).through second = c.through (first.andThen second) := by
  simp [through, Function.comp_def, Lens.andThen, ColumnConstraintKind.through_through]

theorem ColumnDef.through_through (c : ColumnDef) :
    (c.through first).through second = c.through (first.andThen second) := by
  simp [through, Function.comp_def, Lens.andThen, ColumnConstraint.through_through]

theorem TableConstraintKind.through_through (k : TableConstraintKind) :
    (k.through first).through second = k.through (first.andThen second) := by
  cases k <;> simp [through, Function.comp_def, Lens.andThen, Expr.through_through,
    ForeignKey.through_through]

theorem TableConstraint.through_through (c : TableConstraint) :
    (c.through first).through second = c.through (first.andThen second) := by
  simp [through, Function.comp_def, Lens.andThen, TableConstraintKind.through_through]

theorem CreateTableStatement.through_through (s : CreateTableStatement) :
    (s.through first).through second = s.through (first.andThen second) := by
  simp [through, Function.comp_def, ObjectName.through_through, ColumnDef.through_through,
    TableConstraint.through_through, Lens.andThen]

theorem PragmaStatement.through_through (s : PragmaStatement) :
    (s.through first).through second = s.through (first.andThen second) := by
  simp [through, Function.comp_def, ObjectName.through_through, Expr.through_through, Lens.andThen]

/-- To see a statement through two lenses is to see it through both at once. -/
theorem Statement.through_through (s : Statement) :
    (s.through first).through second = s.through (first.andThen second) := by
  cases s <;> simp [through, SelectStatement.through_through, InsertStatement.through_through,
    UpdateStatement.through_through, DeleteStatement.through_through,
    CreateTableStatement.through_through, PragmaStatement.through_through, Lens.andThen]

theorem Script.through_through (s : Script) :
    (s.through first).through second = s.through (first.andThen second) := by
  simp [through, Function.comp_def, Statement.through_through, Lens.andThen]

theorem Model.through_through (m : Model) :
    (m.through first).through second = m.through (first.andThen second) := by
  cases m <;> simp [through, Expr.through_through, SelectStatement.through_through, InsertStatement.through_through,
    UpdateStatement.through_through, DeleteStatement.through_through, CreateTableStatement.through_through,
    PragmaStatement.through_through, Statement.through_through, Script.through_through, Lens.andThen]

end

/-- Values whose names, numbers and places can be seen through a lens. -/
class Visible (α : Type) where
  through : Lens → α → α
  through_through (first second : Lens) (value : α) :
    through second (through first value) = through (first.andThen second) value

/-- Values that hold no names and tell no places. -/
abbrev Visible.plain (α : Type) : Visible α := ⟨fun _ value => value, fun _ _ _ => rfl⟩

namespace Visible

instance : Visible Unit := plain Unit

instance : Visible Bool := plain Bool

instance : Visible Nat := plain Nat

instance : Visible String := plain String

instance : Visible Literal := plain Literal

instance : Visible JoinType := plain JoinType

instance : Visible OrderDirection := plain OrderDirection

instance : Visible NullOrdering := plain NullOrdering

instance : Visible ReferentialAction := plain ReferentialAction

instance : Visible DataType := plain DataType

instance {α : Type} [Visible α] : Visible (Option α) where
  through lens value := value.map (through lens)
  through_through first second value := by simp [Function.comp_def, through_through]

instance {α : Type} [Visible α] : Visible (List α) where
  through lens values := values.map (through lens)
  through_through first second values := by simp [Function.comp_def, through_through]

instance {α β : Type} [Visible α] [Visible β] : Visible (α × β) where
  through lens value := (through lens value.1, through lens value.2)
  through_through first second value := by simp [through_through]

instance : Visible Ident := ⟨fun lens => lens.name, fun _ _ _ => rfl⟩

instance : Visible Span := ⟨fun lens => lens.span, fun _ _ _ => rfl⟩

instance : Visible ObjectName := ⟨ObjectName.through, ObjectName.through_through⟩

instance : Visible Expr := ⟨Expr.through, Expr.through_through⟩

instance : Visible ExprKind := ⟨ExprKind.through, ExprKind.through_through⟩

instance : Visible InList where
  through := InList.through
  through_through first second list := by
    cases list <;> simp [InList.through, Function.comp_def, Expr.through_through,
      SelectStatement.through_through]

instance : Visible WhenClause := ⟨WhenClause.through, WhenClause.through_through⟩

instance : Visible SelectStatement := ⟨SelectStatement.through, SelectStatement.through_through⟩

instance : Visible SelectColumn := ⟨SelectColumn.through, SelectColumn.through_through⟩

instance : Visible TableRef := ⟨TableRef.through, TableRef.through_through⟩

instance : Visible JoinClause := ⟨JoinClause.through, JoinClause.through_through⟩

instance : Visible OrderBy := ⟨OrderBy.through, OrderBy.through_through⟩

instance : Visible Limit := ⟨Limit.through, Limit.through_through⟩

instance : Visible InsertSource := ⟨InsertSource.through, InsertSource.through_through⟩

instance : Visible InsertStatement := ⟨InsertStatement.through, InsertStatement.through_through⟩

instance : Visible UpdateAssignment := ⟨UpdateAssignment.through, UpdateAssignment.through_through⟩

instance : Visible UpdateStatement := ⟨UpdateStatement.through, UpdateStatement.through_through⟩

instance : Visible DeleteStatement := ⟨DeleteStatement.through, DeleteStatement.through_through⟩

instance : Visible ForeignKey := ⟨ForeignKey.through, ForeignKey.through_through⟩

instance : Visible ColumnConstraintKind :=
  ⟨ColumnConstraintKind.through, ColumnConstraintKind.through_through⟩

instance : Visible ColumnConstraint := ⟨ColumnConstraint.through, ColumnConstraint.through_through⟩

instance : Visible ColumnDef := ⟨ColumnDef.through, ColumnDef.through_through⟩

instance : Visible TableConstraintKind :=
  ⟨TableConstraintKind.through, TableConstraintKind.through_through⟩

instance : Visible TableConstraint := ⟨TableConstraint.through, TableConstraint.through_through⟩

instance : Visible CreateTableStatement :=
  ⟨CreateTableStatement.through, CreateTableStatement.through_through⟩

instance : Visible PragmaStatement := ⟨PragmaStatement.through, PragmaStatement.through_through⟩

instance : Visible Statement := ⟨Statement.through, Statement.through_through⟩

instance : Visible Script := ⟨Script.through, Script.through_through⟩

instance : Visible Model := ⟨Model.through, Model.through_through⟩

section

variable (lens : Lens)

@[simp] theorem through_plain (α : Type) (value : α) :
    letI := plain α
    through lens value = value := rfl

@[simp] theorem through_plainOption (α : Type) (value : Option α) :
    letI := plain α
    through lens value = value := by
  cases value <;> rfl

@[simp] theorem through_ident (i : Ident) : through lens i = lens.name i := rfl

@[simp] theorem through_span (span : Span) : through lens span = lens.span span := rfl

@[simp] theorem through_none {α : Type} [Visible α] : through lens (none : Option α) = none := rfl

@[simp] theorem through_some {α : Type} [Visible α] (value : α) :
    through lens (some value) = some (through lens value) := rfl

@[simp] theorem through_nil {α : Type} [Visible α] : through lens ([] : List α) = [] := rfl

@[simp] theorem through_cons {α : Type} [Visible α] (value : α) (values : List α) :
    through lens (value :: values) = through lens value :: through lens values := rfl

@[simp] theorem through_reverse {α : Type} [Visible α] (values : List α) :
    through lens values.reverse = (through lens values).reverse :=
  List.map_reverse

@[simp] theorem through_pair {α β : Type} [Visible α] [Visible β] (a : α) (b : β) :
    through lens (a, b) = (through lens a, through lens b) := rfl

@[simp] theorem through_expr (kind : ExprKind) (span : Span) :
    through lens (⟨kind, span⟩ : Expr) = ⟨through lens kind, lens.span span⟩ := by
  simp [through, Expr.through]

@[simp] theorem through_literal (value : Literal) :
    through lens (.literal value : ExprKind) = .literal value := by
  simp [through, ExprKind.through]

@[simp] theorem through_column (table : Option Ident) (name : Ident) :
    through lens (.column table name : ExprKind) =
      .column (through lens table) (through lens name) := by
  simp [through, ExprKind.through]

@[simp] theorem through_binary (left right : Expr) (op : BinaryOp) :
    through lens (.binary left op right : ExprKind) =
      .binary (through lens left) op (through lens right) := by
  simp [through, ExprKind.through]

@[simp] theorem through_unary (op : UnaryOp) (operand : Expr) :
    through lens (.unary op operand : ExprKind) = .unary op (through lens operand) := by
  simp [through, ExprKind.through]

@[simp] theorem through_call (name : Ident) (arguments : List Expr) (distinct : Bool) :
    through lens (.call ⟨name, arguments, distinct⟩ : ExprKind) =
      .call ⟨through lens name, through lens arguments, distinct⟩ := by
  simp [through, ExprKind.through, FunctionCall.through]

@[simp] theorem through_subquery (query : SelectStatement) :
    through lens (.subquery query : ExprKind) = .subquery (through lens query) := by
  simp [through, ExprKind.through]

@[simp] theorem through_existsQuery (query : SelectStatement) (negated : Bool) :
    through lens (.existsQuery query negated : ExprKind) =
      .existsQuery (through lens query) negated := by
  simp [through, ExprKind.through]

@[simp] theorem through_isNull (expr : Expr) (negated : Bool) :
    through lens (.isNull expr negated : ExprKind) = .isNull (through lens expr) negated := by
  simp [through, ExprKind.through]

@[simp] theorem through_inList (expr : Expr) (list : InList) (negated : Bool) :
    through lens (.inList expr list negated : ExprKind) =
      .inList (through lens expr) (through lens list) negated := by
  simp [through, ExprKind.through]

@[simp] theorem through_between (expr low high : Expr) (negated : Bool) :
    through lens (.between expr low high negated : ExprKind) =
      .between (through lens expr) (through lens low) (through lens high) negated := by
  simp [through, ExprKind.through]

@[simp] theorem through_like (expr pattern : Expr) (insensitive negated : Bool) :
    through lens (.like expr pattern insensitive negated : ExprKind) =
      .like (through lens expr) (through lens pattern) insensitive negated := by
  simp [through, ExprKind.through]

@[simp] theorem through_caseWhen (operand other : Option Expr) (clauses : List WhenClause) :
    through lens (.caseWhen operand clauses other : ExprKind) =
      .caseWhen (through lens operand) (through lens clauses) (through lens other) := by
  simp [through, ExprKind.through]

@[simp] theorem through_cast (expr : Expr) (type : DataType) :
    through lens (.cast expr type : ExprKind) = .cast (through lens expr) type := by
  simp [through, ExprKind.through]

@[simp] theorem through_paren (expr : Expr) :
    through lens (.paren expr : ExprKind) = .paren (through lens expr) := by
  simp [through, ExprKind.through]

@[simp] theorem through_positional (number : Nat) :
    through lens (.parameter none number : ExprKind) = .parameter none (lens.number number) := by
  simp [through, ExprKind.through]

@[simp] theorem through_named (name : String) (position : Nat) :
    through lens (.parameter (some name) position : ExprKind) = .parameter (some name) position := by
  simp [through, ExprKind.through]

@[simp] theorem through_wildcard (table : Option Ident) :
    through lens (.wildcard table : ExprKind) = .wildcard (through lens table) := by
  simp [through, ExprKind.through]

@[simp] theorem through_inValues (values : List Expr) :
    through lens (.values values : InList) = .values (through lens values) := by
  simp [through, InList.through]

@[simp] theorem through_inQuery (query : SelectStatement) :
    through lens (.subquery query : InList) = .subquery (through lens query) := by
  simp [through, InList.through]

@[simp] theorem through_whenClause (condition result : Expr) (span : Span) :
    through lens (⟨condition, result, span⟩ : WhenClause) =
      ⟨through lens condition, through lens result, lens.span span⟩ := by
  simp [through, WhenClause.through]

@[simp] theorem through_selectStatement (distinct : Bool) (columns : List SelectColumn) (tables : List TableRef)
    (condition : Option Expr) (groupBy : List Expr) (having : Option Expr) (orderBy : List OrderBy)
    (limit : Option Limit) (span : Span) :
    through lens
        (⟨distinct, columns, tables, condition, groupBy, having, orderBy, limit, span⟩ : SelectStatement) =
      ⟨distinct, through lens columns, through lens tables, through lens condition, through lens groupBy,
        through lens having, through lens orderBy, through lens limit, lens.span span⟩ := by
  simp [through, SelectStatement.through]

@[simp] theorem through_selectColumn (expr : Expr) (alias? : Option Ident) (span : Span) :
    through lens (⟨expr, alias?, span⟩ : SelectColumn) =
      ⟨through lens expr, through lens alias?, lens.span span⟩ := by
  simp [through, SelectColumn.through]

@[simp] theorem through_table (name : ObjectName) (alias? : Option Ident) (span : Span) :
    through lens (.table name alias? span : TableRef) =
      .table (through lens name) (through lens alias?) (lens.span span) := by
  simp [through, TableRef.through]

@[simp] theorem through_derived (query : SelectStatement) (alias? : Option Ident) (span : Span) :
    through lens (.subquery query alias? span : TableRef) =
      .subquery (through lens query) (through lens alias?) (lens.span span) := by
  simp [through, TableRef.through]

@[simp] theorem through_join (left : TableRef) (join : JoinClause) (span : Span) :
    through lens (.join left join span : TableRef) =
      .join (through lens left) (through lens join) (lens.span span) := by
  simp [through, TableRef.through]

@[simp] theorem through_joinClause (type : JoinType) (natural : Bool) (table : TableRef)
    (condition : Option Expr) (columns : List Ident) (span : Span) :
    through lens (⟨type, natural, table, condition, columns, span⟩ : JoinClause) =
      ⟨type, natural, through lens table, through lens condition, through lens columns, lens.span span⟩ := by
  simp [through, JoinClause.through]

@[simp] theorem through_orderBy (expr : Expr) (direction : OrderDirection)
    (nulls : Option NullOrdering) (span : Span) :
    through lens (⟨expr, direction, nulls, span⟩ : OrderBy) =
      ⟨through lens expr, direction, nulls, lens.span span⟩ := by
  simp [through, OrderBy.through]

@[simp] theorem through_limit (count offset : Option Expr) (span : Span) :
    through lens (⟨count, offset, span⟩ : Limit) =
      ⟨through lens count, through lens offset, lens.span span⟩ := by
  simp [through, Limit.through]

@[simp] theorem through_objectName (schema : Option Ident) (name : Ident) (span : Span) :
    through lens (⟨schema, name, span⟩ : ObjectName) =
      ⟨through lens schema, through lens name, lens.span span⟩ := rfl

@[simp] theorem through_valuesSource (rows : List (List Expr)) :
    through lens (.values rows : InsertSource) = .values (through lens rows) := rfl

@[simp] theorem through_querySource (query : SelectStatement) :
    through lens (.query query : InsertSource) = .query (through lens query) := rfl

@[simp] theorem through_defaultValues :
    through lens (.defaultValues : InsertSource) = .defaultValues := rfl

@[simp] theorem through_insertStatement (table : ObjectName) (columns : List Ident) (source : InsertSource)
    (returning : List SelectColumn) (span : Span) :
    through lens (⟨table, columns, source, returning, span⟩ : InsertStatement) =
      ⟨through lens table, through lens columns, through lens source, through lens returning, lens.span span⟩ := rfl

@[simp] theorem through_assignment (column : Ident) (value : Expr) (span : Span) :
    through lens (⟨column, value, span⟩ : UpdateAssignment) =
      ⟨through lens column, through lens value, lens.span span⟩ := rfl

@[simp] theorem through_updateStatement (table : ObjectName) (alias? : Option Ident)
    (assignments : List UpdateAssignment) (condition : Option Expr) (returning : List SelectColumn)
    (span : Span) :
    through lens (⟨table, alias?, assignments, condition, returning, span⟩ : UpdateStatement) =
      ⟨through lens table, through lens alias?, through lens assignments, through lens condition,
        through lens returning, lens.span span⟩ := rfl

@[simp] theorem through_deleteStatement (table : ObjectName) (alias? : Option Ident) (condition : Option Expr)
    (returning : List SelectColumn) (span : Span) :
    through lens (⟨table, alias?, condition, returning, span⟩ : DeleteStatement) =
      ⟨through lens table, through lens alias?, through lens condition, through lens returning,
        lens.span span⟩ := rfl

@[simp] theorem through_foreignKey (table : ObjectName) (columns : List Ident)
    (onDelete onUpdate : Option ReferentialAction) (span : Span) :
    through lens (⟨table, columns, onDelete, onUpdate, span⟩ : ForeignKey) =
      ⟨through lens table, through lens columns, onDelete, onUpdate, lens.span span⟩ := rfl

@[simp] theorem through_notNull : through lens (.notNull : ColumnConstraintKind) = .notNull := rfl

@[simp] theorem through_null : through lens (.null : ColumnConstraintKind) = .null := rfl

@[simp] theorem through_primaryKey (direction : Option OrderDirection) :
    through lens (.primaryKey direction : ColumnConstraintKind) = .primaryKey direction := rfl

@[simp] theorem through_unique : through lens (.unique : ColumnConstraintKind) = .unique := rfl

@[simp] theorem through_default (value : Expr) :
    through lens (.default value : ColumnConstraintKind) = .default (through lens value) := rfl

@[simp] theorem through_check (condition : Expr) :
    through lens (.check condition : ColumnConstraintKind) = .check (through lens condition) := rfl

@[simp] theorem through_references (key : ForeignKey) :
    through lens (.references key : ColumnConstraintKind) = .references (through lens key) := rfl

@[simp] theorem through_autoIncrement :
    through lens (.autoIncrement : ColumnConstraintKind) = .autoIncrement := rfl

@[simp] theorem through_columnConstraint (name : Option Ident) (kind : ColumnConstraintKind) (span : Span) :
    through lens (⟨name, kind, span⟩ : ColumnConstraint) =
      ⟨through lens name, through lens kind, lens.span span⟩ := rfl

@[simp] theorem through_columnDef (name : Ident) (type : Option DataType)
    (constraints : List ColumnConstraint) (span : Span) :
    through lens (⟨name, type, constraints, span⟩ : ColumnDef) =
      ⟨through lens name, type, through lens constraints, lens.span span⟩ := rfl

@[simp] theorem through_tableKey (columns : List Ident) :
    through lens (.primaryKey columns : TableConstraintKind) =
      .primaryKey (through lens columns) := rfl

@[simp] theorem through_tableUnique (columns : List Ident) :
    through lens (.unique columns : TableConstraintKind) = .unique (through lens columns) := rfl

@[simp] theorem through_tableForeignKey (columns : List Ident) (key : ForeignKey) :
    through lens (.foreignKey columns key : TableConstraintKind) =
      .foreignKey (through lens columns) (through lens key) := rfl

@[simp] theorem through_tableCheck (condition : Expr) :
    through lens (.check condition : TableConstraintKind) = .check (through lens condition) := rfl

@[simp] theorem through_tableConstraint (name : Option Ident) (kind : TableConstraintKind) (span : Span) :
    through lens (⟨name, kind, span⟩ : TableConstraint) =
      ⟨through lens name, through lens kind, lens.span span⟩ := rfl

@[simp] theorem through_createTable (temporary ifNotExists : Bool) (name : ObjectName)
    (columns : List ColumnDef) (constraints : List TableConstraint) (span : Span) :
    through lens (⟨temporary, ifNotExists, name, columns, constraints, span⟩ : CreateTableStatement) =
      ⟨temporary, ifNotExists, through lens name, through lens columns, through lens constraints,
        lens.span span⟩ := rfl

@[simp] theorem through_pragmaStatement (name : ObjectName) (value : Option Expr) (span : Span) :
    through lens (⟨name, value, span⟩ : PragmaStatement) =
      ⟨through lens name, through lens value, lens.span span⟩ := rfl

@[simp] theorem through_asSelect (s : SelectStatement) :
    through lens (.select s : Statement) = .select (through lens s) := rfl

@[simp] theorem through_asInsert (s : InsertStatement) :
    through lens (.insert s : Statement) = .insert (through lens s) := rfl

@[simp] theorem through_asUpdate (s : UpdateStatement) :
    through lens (.update s : Statement) = .update (through lens s) := rfl

@[simp] theorem through_asDelete (s : DeleteStatement) :
    through lens (.delete s : Statement) = .delete (through lens s) := rfl

@[simp] theorem through_asCreateTable (s : CreateTableStatement) :
    through lens (.createTable s : Statement) = .createTable (through lens s) := rfl

@[simp] theorem through_asPragma (s : PragmaStatement) :
    through lens (.pragma s : Statement) = .pragma (through lens s) := rfl

@[simp] theorem through_script (statements : List Statement) (span : Span) :
    through lens (⟨statements, span⟩ : Script) = ⟨through lens statements, lens.span span⟩ := rfl

@[simp] theorem through_modelStatement (s : Statement) :
    through lens (.statement s : Model) = .statement (through lens s) := rfl

@[simp] theorem through_modelSelect (s : SelectStatement) :
    through lens (.select s : Model) = .select (through lens s) := rfl

@[simp] theorem through_modelInsert (s : InsertStatement) :
    through lens (.insert s : Model) = .insert (through lens s) := rfl

@[simp] theorem through_modelUpdate (s : UpdateStatement) :
    through lens (.update s : Model) = .update (through lens s) := rfl

@[simp] theorem through_modelDelete (s : DeleteStatement) :
    through lens (.delete s : Model) = .delete (through lens s) := rfl

@[simp] theorem through_modelCreateTable (s : CreateTableStatement) :
    through lens (.createTable s : Model) = .createTable (through lens s) := rfl

@[simp] theorem through_modelPragma (s : PragmaStatement) :
    through lens (.pragma s : Model) = .pragma (through lens s) := rfl

@[simp] theorem through_modelScript (s : Script) :
    through lens (.script s : Model) = .script (through lens s) := rfl

@[simp] theorem through_modelExpression (e : Expr) :
    through lens (.expression e : Model) = .expression (through lens e) := rfl

end

end Visible

namespace Node

variable (lens : Lens)

def through : Node → Node
  | ident i => ident (lens.name i)
  | objectName n => objectName (n.through lens)
  | expr e => expr (e.through lens)
  | whenClause w => whenClause (w.through lens)
  | select s => select (s.through lens)
  | column c => column (c.through lens)
  | table t => table (t.through lens)
  | join j => join (j.through lens)
  | order o => order (o.through lens)
  | limit l => limit (l.through lens)
  | insert s => insert (s.through lens)
  | update s => update (s.through lens)
  | assignment a => assignment (a.through lens)
  | delete s => delete (s.through lens)
  | createTable s => createTable (s.through lens)
  | columnDef c => columnDef (c.through lens)
  | columnConstraint c => columnConstraint (c.through lens)
  | tableConstraint c => tableConstraint (c.through lens)
  | foreignKey k => foreignKey (k.through lens)
  | pragma s => pragma (s.through lens)
  | script s => script (s.through lens)

/-- A statement as a node, seen through a lens. -/
theorem ofStatement_through (s : Statement) : ofStatement (s.through lens) = (ofStatement s).through lens := by
  cases s <;> rfl

/-- What is in a place of a node for one thing at most is seen through a lens like what is in one for many. -/
theorem toList_through {α : Type} (g : α → Node) {h : α → α} (each : ∀ x, g (h x) = (g x).through lens)
    (x : Option α) : (x.map h).toList.map g = (x.toList.map g).map (through lens) := by
  cases x <;> simp [each]

theorem fieldsOfExpr_through (k : ExprKind) :
    fieldsOfExpr (k.through lens) = (fieldsOfExpr k).map (·.map (through lens)) := by
  cases k with
  | call f =>
    obtain ⟨name, arguments, distinct⟩ := f
    simp [ExprKind.through, FunctionCall.through, fieldsOfExpr, through]
  | inList e list => cases list <;> simp [ExprKind.through, InList.through, fieldsOfExpr, through]
  | parameter name => cases name <;> rfl
  | column owner => cases owner <;> simp [ExprKind.through, fieldsOfExpr, through]
  | wildcard owner => cases owner <;> simp [ExprKind.through, fieldsOfExpr, through]
  | caseWhen operand _ otherwise =>
    cases operand <;> cases otherwise <;> simp [ExprKind.through, fieldsOfExpr, through]
  | _ => simp [ExprKind.through, fieldsOfExpr, through]

theorem fieldsOfTable_through (t : TableRef) :
    fieldsOfTable (t.through lens) = (fieldsOfTable t).map (·.map (through lens)) := by
  cases t with
  | table _ alias? | subquery _ alias? => cases alias? <;> simp [TableRef.through, fieldsOfTable, through]
  | join => simp [TableRef.through, fieldsOfTable, through]

theorem fieldsOfSource_through (source : InsertSource) :
    fieldsOfSource (source.through lens) = (fieldsOfSource source).map (·.map (through lens)) := by
  cases source <;> simp [InsertSource.through, fieldsOfSource, through, List.map_flatten, Function.comp_def]

theorem fieldsOfColumnConstraint_through (k : ColumnConstraintKind) :
    fieldsOfColumnConstraint (k.through lens) = (fieldsOfColumnConstraint k).map (·.map (through lens)) := by
  cases k <;> rfl

theorem fieldsOfTableConstraint_through (k : TableConstraintKind) :
    fieldsOfTableConstraint (k.through lens) = (fieldsOfTableConstraint k).map (·.map (through lens)) := by
  cases k <;> simp [TableConstraintKind.through, fieldsOfTableConstraint, through]

/-- The parts of a node are seen through a lens as the node is. -/
theorem fields_through (n : Node) : (n.through lens).fields = n.fields.map (·.map (through lens)) := by
  have names := toList_through lens ident fun _ => rfl
  have exprs := toList_through lens expr fun _ => rfl
  have limits := toList_through lens limit fun _ => rfl
  cases n with
  | ident => rfl
  | objectName n => simp [through, fields, ObjectName.through, names]
  | expr e => cases e; exact fieldsOfExpr_through lens _
  | whenClause w => cases w; simp [through, fields, WhenClause.through]
  | select s =>
    cases s
    simp [through, fields, SelectStatement.through, exprs, limits]
  | column c => cases c; simp [through, fields, SelectColumn.through, names]
  | table t => exact fieldsOfTable_through lens t
  | join j => cases j; simp [through, fields, JoinClause.through, exprs]
  | order o => cases o; simp [through, fields, OrderBy.through]
  | limit l => cases l; simp [through, fields, Limit.through, exprs]
  | insert s => simp [through, fields, InsertStatement.through, fieldsOfSource_through]
  | update s => simp [through, fields, UpdateStatement.through, names, exprs]
  | assignment a => rfl
  | delete s => simp [through, fields, DeleteStatement.through, names, exprs]
  | createTable s => simp [through, fields, CreateTableStatement.through]
  | columnDef c => simp [through, fields, ColumnDef.through]
  | columnConstraint c => simp [through, fields, ColumnConstraint.through, names, fieldsOfColumnConstraint_through]
  | tableConstraint c => simp [through, fields, TableConstraint.through, names, fieldsOfTableConstraint_through]
  | foreignKey k => simp [through, fields, ForeignKey.through]
  | pragma s => simp [through, fields, PragmaStatement.through, exprs]
  | script s => simp [through, fields, Script.through, ofStatement_through]

theorem parts_through (n : Node) : (n.through lens).parts = n.parts.map (through lens) := by
  rw [parts, parts, fields_through, List.map_flatten]

variable {lens} {lens' : Lens}

/-- What two lenses show alike they show alike of everything inside it. -/
theorem Within.through_eq {root n : Node} (within : root.Within n)
    (same : root.through lens = root.through lens') : n.through lens = n.through lens' := by
  induction within with
  | root => exact same
  | part _ mem ih =>
    have parts := congrArg parts ih
    rw [parts_through, parts_through] at parts
    exact List.map_inj_left.mp parts _ mem

end Node

/-- The node of a model is seen through a lens as the model is. -/
theorem Model.node_through (lens : Lens) (m : Model) : (m.through lens).node = m.node.through lens := by
  cases m with
  | statement s => exact Node.ofStatement_through lens s
  | _ => rfl

/-- Lenses that show a model alike show its names alike. -/
theorem Model.name_eq {m : Model} {lens lens' : Lens} (same : m.through lens = m.through lens') {n : Node}
    {i : Ident} (within : m.node.Within n) (mem : .ident i ∈ n.parts) : lens.name i = lens'.name i := by
  have nodes : m.node.through lens = m.node.through lens' := by
    rw [← Model.node_through, same, Model.node_through]
  exact Node.ident.inj ((within.part mem).through_eq nodes)

/-- How names and the numbers of positional placeholders are shown in a sketch. -/
structure View where
  name : Ident → Ident
  number : Nat → Nat

namespace View

/-- All that is left out are the places of names. -/
def bare : View := ⟨Ident.bare, id⟩

/-- The lens of a sketch, which shows no places. -/
def lens (view : View) : Lens := ⟨view.name, view.number, fun _ => .nothing⟩

@[simp] theorem lens_bare : bare.lens = .bare := rfl

end View

section

variable (view : View)

def Limit.sketch (l : Limit) : Limit := l.through view.lens

def SelectStatement.sketch (s : SelectStatement) : SelectStatement := s.through view.lens

def Model.sketch (m : Model) : Model := m.through view.lens

end

end SqlTree
