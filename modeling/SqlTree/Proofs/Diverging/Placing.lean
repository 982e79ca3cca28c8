import SqlTree.Proofs.Diverging.Sketch
import SqlTree.Proofs.Tree.Placeholders

namespace SqlTree

theorem map_eq_self {α : Type} {g : α → α} {l : List α} : l.map g = l ↔ ∀ x ∈ l, g x = x := by
  induction l <;> simp_all

theorem optionMap_eq_self {α : Type} {g : α → α} {o : Option α} :
    o.map g = o ↔ ∀ x ∈ o.toList, g x = x := by
  cases o <;> simp

/-- A lens in which names and places are what they are. -/
structure Lens.Keeps (lens : Lens) : Prop where
  name : ∀ i, lens.name i = i
  span : ∀ s, lens.span s = s

namespace Node

section

variable {lens : Lens} (keeps : lens.Keeps)

include keeps

theorem idents_kept (l : List Ident) : l.map lens.name = l := map_eq_self.mpr fun i _ => keeps.name i

theorem ident?_kept (o : Option Ident) : o.map lens.name = o := optionMap_eq_self.mpr fun i _ => keeps.name i

/-- A node in which a lens changes neither a number nor any part is what it was. -/
theorem expr_of_parts {e : Expr} (numbers : ∀ k ∈ (expr e).placeholder?, lens.number k.number = k.number)
    (parts : ∀ p ∈ (expr e).parts, p.through lens = p) : e.through lens = e := by
  rcases e with ⟨kind, span⟩
  cases kind with
  | parameter name number =>
    cases name with
    | none => simp [Expr.through, ExprKind.through, keeps.span, numbers ⟨number, span⟩ rfl]
    | some => simp [Expr.through, ExprKind.through, keeps.span]
  | call f =>
    obtain ⟨name, arguments, distinct⟩ := f
    simpa [Node.parts, fields, fieldsOfExpr, through, Expr.through, ExprKind.through, FunctionCall.through,
      keeps.name, keeps.span, map_eq_self] using parts
  | inList e list =>
    cases list <;> simpa [Node.parts, fields, fieldsOfExpr, through, Expr.through, ExprKind.through,
      InList.through, keeps.span, map_eq_self] using parts
  | literal | column | wildcard => simp [Expr.through, ExprKind.through, keeps.span, keeps.name, ident?_kept keeps]
  | _ => simpa [Node.parts, fields, fieldsOfExpr, through, Expr.through, ExprKind.through, keeps.span,
      map_eq_self, optionMap_eq_self, or_imp, forall_and] using parts

theorem table_of_parts {t : TableRef} (parts : ∀ p ∈ (table t).parts, p.through lens = p) :
    t.through lens = t := by
  cases t <;> simpa [Node.parts, fields, fieldsOfTable, through, TableRef.through, keeps.span, keeps.name,
    ident?_kept keeps, or_imp, forall_and] using parts

omit keeps in
theorem source_of_parts {source : InsertSource}
    (parts : ∀ p ∈ (fieldsOfSource source).flatten, p.through lens = p) : source.through lens = source := by
  cases source with
  | values rows =>
    have rows_kept : ∀ row ∈ rows, ∀ e ∈ row, e.through lens = e := fun row memRow e mem =>
      expr.inj (parts (expr e) (by simpa [fieldsOfSource] using ⟨row, memRow, mem⟩))
    simpa [InsertSource.through, map_eq_self] using rows_kept
  | query => simpa [fieldsOfSource, through, InsertSource.through] using parts
  | defaultValues => rfl

omit keeps in
theorem columnConstraint_of_parts {k : ColumnConstraintKind}
    (parts : ∀ p ∈ (fieldsOfColumnConstraint k).flatten, p.through lens = p) : k.through lens = k := by
  cases k with
  | default | check | references =>
    simpa [fieldsOfColumnConstraint, through, ColumnConstraintKind.through] using parts
  | _ => rfl

theorem tableConstraint_of_parts {k : TableConstraintKind}
    (parts : ∀ p ∈ (fieldsOfTableConstraint k).flatten, p.through lens = p) : k.through lens = k := by
  cases k with
  | primaryKey | unique => simp [TableConstraintKind.through, idents_kept keeps]
  | foreignKey | check =>
    simpa [fieldsOfTableConstraint, through, TableConstraintKind.through, keeps.name, idents_kept keeps, or_imp,
      forall_and] using parts

omit keeps in
theorem statement_of_parts {s : Statement} (part : (ofStatement s).through lens = ofStatement s) :
    s.through lens = s := by
  cases s <;> simpa [ofStatement, through, Statement.through] using part

theorem through_of_parts {n : Node} (numbers : ∀ k ∈ n.placeholder?, lens.number k.number = k.number)
    (parts : ∀ p ∈ n.parts, p.through lens = p) : n.through lens = n := by
  have idents := idents_kept keeps
  have ident? := ident?_kept keeps
  cases n with
  | ident i => exact congrArg ident (keeps.name i)
  | expr e => exact congrArg expr (expr_of_parts keeps numbers parts)
  | table t => exact congrArg table (table_of_parts keeps parts)
  | insert s =>
    rcases s with ⟨table, columns, source, returning, span⟩
    have same : source.through lens = source := source_of_parts fun p mem => parts p (by
      simp only [Node.parts, fields, List.flatten_append, List.mem_append, mem, true_or, or_true])
    have name : table.through lens = table :=
      objectName.inj (parts (objectName table) (by simp [Node.parts, fields]))
    have columns_kept : ∀ c ∈ returning, c.through lens = c := fun c mem =>
      column.inj (parts (column c) (by simp [Node.parts, fields, mem]))
    simpa [through, InsertStatement.through, keeps.span, idents, same, name, map_eq_self] using columns_kept
  | columnConstraint c =>
    rcases c with ⟨name, kind, span⟩
    have same : kind.through lens = kind := columnConstraint_of_parts fun p mem =>
      parts p (List.mem_append_right _ mem)
    simp [through, ColumnConstraint.through, keeps.span, ident?, same]
  | tableConstraint c =>
    rcases c with ⟨name, kind, span⟩
    have same : kind.through lens = kind := tableConstraint_of_parts keeps fun p mem =>
      parts p (List.mem_append_right _ mem)
    simp [through, TableConstraint.through, keeps.span, ident?, same]
  | script s =>
    rcases s with ⟨statements, span⟩
    have same : ∀ s ∈ statements, s.through lens = s := fun s mem =>
      statement_of_parts (parts _ (by simpa [Node.parts, fields] using ⟨s, mem, rfl⟩))
    simpa [through, Script.through, keeps.span, map_eq_self] using same
  | objectName => simp [through, ObjectName.through, keeps.name, keeps.span, ident?]
  | _ s =>
    cases s
    simpa [Node.parts, fields, through, WhenClause.through, SelectStatement.through,
      SelectColumn.through, JoinClause.through, OrderBy.through, Limit.through, UpdateStatement.through,
      UpdateAssignment.through, DeleteStatement.through, CreateTableStatement.through, ColumnDef.through,
      ForeignKey.through, PragmaStatement.through, keeps.name, keeps.span, ident?, idents, map_eq_self,
      optionMap_eq_self, or_imp, forall_and] using parts

/-- A node with none but placeholders whose numbers stay is left as it is. -/
theorem through_self {n : Node} (numbers : ∀ k ∈ n.placeholders, lens.number k.number = k.number) :
    n.through lens = n := by
  induction n using Node.nodes.induct with
  | case1 n ih =>
    rw [placeholders_eq] at numbers
    simp only [List.mem_append, Option.mem_toList, List.mem_flatMap] at numbers
    exact through_of_parts keeps (fun k mem => numbers k (.inl mem)) fun p held =>
      ih ⟨p, held⟩ fun k mem => numbers k (.inr ⟨p, held, mem⟩)

end

end Node

namespace Model

variable {lens lens' : Lens} {m : Model}

/-- A model with such a node. -/
theorem through_self (keeps : lens.Keeps) (numbers : ∀ k ∈ m.node.placeholders, lens.number k.number = k.number) :
    m.through lens = m := by
  have same := Node.through_self keeps numbers
  cases m with
  | statement s => exact congrArg statement (Node.statement_of_parts same)
  | select s => exact congrArg select (Node.select.inj same)
  | insert s => exact congrArg insert (Node.insert.inj same)
  | update s => exact congrArg update (Node.update.inj same)
  | delete s => exact congrArg delete (Node.delete.inj same)
  | createTable s => exact congrArg createTable (Node.createTable.inj same)
  | pragma s => exact congrArg pragma (Node.pragma.inj same)
  | script s => exact congrArg script (Node.script.inj same)
  | expression e => exact congrArg expression (Node.expr.inj same)

/-- Lenses that differ only in numbers which no placeholder of a model has show the model alike. -/
theorem through_congr (name : lens.name = lens'.name) (span : lens.span = lens'.span)
    (zero : lens.number 0 = lens'.number 0)
    (numbers : ∀ k ∈ m.node.placeholders, lens.number k.number = lens'.number k.number) :
    m.through lens = m.through lens' := by
  -- All other numbers are zero in the model, so to speak.
  let own : Lens := ⟨id, fun k => if lens.number k = lens'.number k then k else 0, id⟩
  have self : m.through own = m :=
    through_self ⟨fun _ => rfl, fun _ => rfl⟩ fun k mem => if_pos (numbers k mem)
  have same : own.andThen lens = own.andThen lens' := by
    simp only [Lens.andThen, own, name, span, Lens.mk.injEq, true_and, and_true]
    funext k
    split
    · assumption
    · exact zero
  rw [← self, through_through, through_through, same]

end Model

end SqlTree
