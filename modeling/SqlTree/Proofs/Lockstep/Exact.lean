import SqlTree.Proofs.Lockstep.Like
import SqlTree.Proofs.Tree.Node

namespace SqlTree

section

variable {P : Position → Prop} {n p : Node}

/-- Every node inside a node starts and ends at places of some kind. -/
def Node.Placed (P : Position → Prop) (n : Node) : Prop :=
  ∀ m, n.Within m → P m.span.start ∧ P m.span.stop

/-- Every node in some lists of nodes does. -/
def FieldsPlaced (P : Position → Prop) : List (List Node) → Prop
  | [] => True
  | field :: fields => (∀ p ∈ field, p.Placed P) ∧ FieldsPlaced P fields

/-- What lies inside a part of a node lies inside the node. -/
theorem Node.Within.of_part {m : Node} (mem : p ∈ n.parts) (within : p.Within m) : n.Within m := by
  induction within with
  | root => exact .part .root mem
  | part _ mem ih => exact .part ih mem

theorem fieldsPlaced {fields : List (List Node)} (placed : ∀ p ∈ fields.flatten, p.Placed P) :
    FieldsPlaced P fields := by
  induction fields with
  | nil => trivial
  | cons field fields ih =>
    obtain ⟨first, rest⟩ := List.forall_mem_append.mp placed
    exact ⟨first, ih rest⟩

theorem fieldsPlaced_append {fields more : List (List Node)} :
    FieldsPlaced P (fields ++ more) ↔ FieldsPlaced P fields ∧ FieldsPlaced P more := by
  induction fields with
  | nil => exact (and_iff_right trivial).symm
  | cons field fields ih => exact (and_congr_right fun _ => ih).trans and_assoc.symm

/-- The parts of a node are placed as it is. -/
theorem Node.Placed.fields (placed : n.Placed P) : FieldsPlaced P n.fields :=
  fieldsPlaced fun _ mem m within => placed m (within.of_part mem)

theorem placed_one (placed : ∀ p ∈ [n], p.Placed P) : n.Placed P :=
  List.forall_mem_singleton.mp placed

end

/-- What says the same as something at places of some kind is the same. -/
structure Likeness.Faithful (L : Likeness) (P : Position → Prop) : Prop where
  place : ∀ p p', L.place p p' → P p' → p' = p
  shift : L.shift = 0
  written : ∀ words w w', L.written words w w' → w' = w

section

variable {L : Likeness} {P : Position → Prop}

/-- Lists are the same where what stands in them is. -/
theorem forall₂_eq {α : Type} {R : α → α → Prop} {node : α → Node}
    (same : ∀ x x', R x x' → (node x').Placed P → x' = x) {xs xs' : List α}
    (likes : List.Forall₂ R xs xs') (placed : ∀ p ∈ xs'.map node, p.Placed P) : xs' = xs := by
  induction likes with
  | nil => rfl
  | cons like _ ih =>
    obtain ⟨first, placed⟩ := List.forall_mem_cons.mp placed
    rw [same _ _ like first, ih placed]

theorem optionRel_eq {α : Type} {R : α → α → Prop} {node : α → Node}
    (same : ∀ x x', R x x' → (node x').Placed P → x' = x) {x x' : Option α}
    (like : Option.Rel R x x') (placed : ∀ p ∈ x'.toList.map node, p.Placed P) : x' = x := by
  cases like with
  | none => rfl
  | some like => rw [same _ _ like (placed _ List.mem_cons_self)]

variable (faithful : L.Faithful P)
include faithful

/-- Spans whose ends are at such places are the same. -/
theorem Span.Like.eq {s s' : Span} (like : s.Like L s') (placed : P s'.start ∧ P s'.stop) : s' = s := by
  cases s
  cases s'
  rw [Span.mk.injEq]
  exact ⟨faithful.place _ _ like.start placed.1, faithful.place _ _ like.stop placed.2⟩

theorem Ident.Like.eq {i i' : Ident} (like : i.Like L i') (placed : (Node.ident i').Placed P) :
    i' = i := by
  cases i
  cases i'
  rw [Ident.mk.injEq]
  exact ⟨like.value, like.quoted, like.span.eq faithful (placed _ .root)⟩

theorem idents_eq {is is' : List Ident} (likes : List.Forall₂ (Ident.Like L) is is')
    (placed : ∀ p ∈ is'.map Node.ident, p.Placed P) : is' = is :=
  forall₂_eq (fun _ _ like => like.eq faithful) likes placed

theorem identOption_eq {i i' : Option Ident} (like : Option.Rel (Ident.Like L) i i')
    (placed : ∀ p ∈ i'.toList.map Node.ident, p.Placed P) : i' = i :=
  optionRel_eq (fun _ _ like => like.eq faithful) like placed

theorem ObjectName.Like.eq {n n' : ObjectName} (like : n.Like L n')
    (placed : (Node.objectName n').Placed P) : n' = n := by
  have fields := placed.fields
  cases n
  cases n'
  rw [ObjectName.mk.injEq]
  exact ⟨identOption_eq faithful like.schema fields.1,
    like.name.eq faithful (placed_one fields.2.1), like.span.eq faithful (placed _ .root)⟩

/-- A type has no place. -/
theorem DataType.Like.eq {t t' : DataType} (like : t.Like L t') : t' = t := by
  cases like with
  | same => rfl
  | custom written => rw [faithful.written _ _ _ written]

theorem typeOption_eq {t t' : Option DataType} (like : Option.Rel (DataType.Like L) t t') : t' = t := by
  cases like with
  | none => rfl
  | some like => rw [like.eq faithful]

end

section

variable {L : Likeness} {P : Position → Prop}

mutual

/-- Expressions that say the same at such places are the same. -/
theorem Expr.Like.eq (faithful : L.Faithful P) {e e' : Expr} :
    e.Like L e' → (Node.expr e').Placed P → e' = e
  | .mk kind span, placed => by rw [kind.eq faithful placed.fields, span.eq faithful (placed _ .root)]
termination_by structural e'

theorem ExprKind.Like.eq (faithful : L.Faithful P) {k k' : ExprKind} :
    k.Like L k' → FieldsPlaced P (Node.fieldsOfExpr k') → k' = k
  | .literal _, _ => rfl
  | .column table name, placed => by
    rw [identOption_eq faithful table placed.1, name.eq faithful (placed_one placed.2.1)]
  | .binary _ left right, placed => by
    rw [left.eq faithful (placed_one placed.1), right.eq faithful (placed_one placed.2.1)]
  | .unary _ operand, placed => by rw [operand.eq faithful (placed_one placed.1)]
  | .call _ name arguments, placed => by
    rw [name.eq faithful (placed_one placed.1), exprs_eq faithful arguments placed.2.1]
  | .subquery query, placed => by rw [query.eq faithful (placed_one placed.1)]
  | .existsQuery _ query, placed => by rw [query.eq faithful (placed_one placed.1)]
  | .isNull _ expr, placed => by rw [expr.eq faithful (placed_one placed.1)]
  | .inList _ expr (.values values), placed => by
    rw [expr.eq faithful (placed_one placed.1), exprs_eq faithful values placed.2.1]
  | .inList _ expr (.subquery query), placed => by
    rw [expr.eq faithful (placed_one placed.1), query.eq faithful (placed_one placed.2.1)]
  | .between _ expr low high, placed => by
    rw [expr.eq faithful (placed_one placed.1), low.eq faithful (placed_one placed.2.1),
      high.eq faithful (placed_one placed.2.2.1)]
  | .like _ _ expr pattern, placed => by
    rw [expr.eq faithful (placed_one placed.1), pattern.eq faithful (placed_one placed.2.1)]
  | .caseWhen operand whenClauses elseClause, placed => by
    rw [exprOption_eq faithful operand placed.1, whenClauses_eq faithful whenClauses placed.2.1,
      exprOption_eq faithful elseClause placed.2.2.1]
  | .cast expr type, placed => by rw [expr.eq faithful (placed_one placed.1), type.eq faithful]
  | .paren expr, placed => by rw [expr.eq faithful (placed_one placed.1)]
  | .positional _, _ => by rw [faithful.shift, Nat.add_zero]
  | .named _, _ => rfl
  | .wildcard table, placed => by rw [identOption_eq faithful table placed.1]
termination_by structural k'

theorem WhenClause.Like.eq (faithful : L.Faithful P) {w w' : WhenClause} :
    w.Like L w' → (Node.whenClause w').Placed P → w' = w
  | .mk condition result span, placed => by
    rw [condition.eq faithful (placed_one placed.fields.1),
      result.eq faithful (placed_one placed.fields.2.1), span.eq faithful (placed _ .root)]
termination_by structural w'

theorem SelectStatement.Like.eq (faithful : L.Faithful P) {s s' : SelectStatement} :
    s.Like L s' → (Node.select s').Placed P → s' = s
  | .mk _ columns tables condition groupBy having orderBy limit span, placed => by
    have fields := placed.fields
    rw [columns_eq faithful columns fields.1, tables_eq faithful tables fields.2.1,
      exprOption_eq faithful condition fields.2.2.1, exprs_eq faithful groupBy fields.2.2.2.1,
      exprOption_eq faithful having fields.2.2.2.2.1, orders_eq faithful orderBy fields.2.2.2.2.2.1,
      limitOption_eq faithful limit fields.2.2.2.2.2.2.1, span.eq faithful (placed _ .root)]
termination_by structural s'

theorem SelectColumn.Like.eq (faithful : L.Faithful P) {c c' : SelectColumn} :
    c.Like L c' → (Node.column c').Placed P → c' = c
  | .mk expr alias? span, placed => by
    rw [expr.eq faithful (placed_one placed.fields.1), identOption_eq faithful alias? placed.fields.2.1,
      span.eq faithful (placed _ .root)]
termination_by structural c'

theorem TableRef.Like.eq (faithful : L.Faithful P) {t t' : TableRef} :
    t.Like L t' → (Node.table t').Placed P → t' = t
  | .table name alias? span, placed => by
    rw [name.eq faithful (placed_one placed.fields.1),
      identOption_eq faithful alias? placed.fields.2.1, span.eq faithful (placed _ .root)]
  | .subquery query alias? span, placed => by
    rw [query.eq faithful (placed_one placed.fields.1),
      identOption_eq faithful alias? placed.fields.2.1, span.eq faithful (placed _ .root)]
  | .join left join span, placed => by
    rw [left.eq faithful (placed_one placed.fields.1), join.eq faithful (placed_one placed.fields.2.1),
      span.eq faithful (placed _ .root)]
termination_by structural t'

theorem JoinClause.Like.eq (faithful : L.Faithful P) {j j' : JoinClause} :
    j.Like L j' → (Node.join j').Placed P → j' = j
  | .mk _ _ table condition columns span, placed => by
    rw [table.eq faithful (placed_one placed.fields.1),
      exprOption_eq faithful condition placed.fields.2.1,
      idents_eq faithful columns placed.fields.2.2.1, span.eq faithful (placed _ .root)]
termination_by structural j'

theorem OrderBy.Like.eq (faithful : L.Faithful P) {o o' : OrderBy} :
    o.Like L o' → (Node.order o').Placed P → o' = o
  | .mk _ _ expr span, placed => by
    rw [expr.eq faithful (placed_one placed.fields.1), span.eq faithful (placed _ .root)]
termination_by structural o'

theorem Limit.Like.eq (faithful : L.Faithful P) {l l' : Limit} :
    l.Like L l' → (Node.limit l').Placed P → l' = l
  | .mk count offset span, placed => by
    rw [exprOption_eq faithful count placed.fields.1, exprOption_eq faithful offset placed.fields.2.1,
      span.eq faithful (placed _ .root)]
termination_by structural l'

-- Lists and parts that may be missing are part of the recursion: the general lemmas above would hide
-- from it that what they are applied to is smaller.

theorem exprs_eq (faithful : L.Faithful P) {es es' : List Expr} :
    List.Forall₂ (Expr.Like L) es es' → (∀ p ∈ es'.map Node.expr, p.Placed P) → es' = es
  | .nil, _ => rfl
  | .cons like rest, placed => by
    obtain ⟨first, placed⟩ := List.forall_mem_cons.mp placed
    rw [like.eq faithful first, exprs_eq faithful rest placed]
termination_by structural es'

theorem whenClauses_eq (faithful : L.Faithful P) {ws ws' : List WhenClause} :
    List.Forall₂ (WhenClause.Like L) ws ws' → (∀ p ∈ ws'.map Node.whenClause, p.Placed P) → ws' = ws
  | .nil, _ => rfl
  | .cons like rest, placed => by
    obtain ⟨first, placed⟩ := List.forall_mem_cons.mp placed
    rw [like.eq faithful first, whenClauses_eq faithful rest placed]
termination_by structural ws'

theorem columns_eq (faithful : L.Faithful P) {cs cs' : List SelectColumn} :
    List.Forall₂ (SelectColumn.Like L) cs cs' → (∀ p ∈ cs'.map Node.column, p.Placed P) → cs' = cs
  | .nil, _ => rfl
  | .cons like rest, placed => by
    obtain ⟨first, placed⟩ := List.forall_mem_cons.mp placed
    rw [like.eq faithful first, columns_eq faithful rest placed]
termination_by structural cs'

theorem tables_eq (faithful : L.Faithful P) {ts ts' : List TableRef} :
    List.Forall₂ (TableRef.Like L) ts ts' → (∀ p ∈ ts'.map Node.table, p.Placed P) → ts' = ts
  | .nil, _ => rfl
  | .cons like rest, placed => by
    obtain ⟨first, placed⟩ := List.forall_mem_cons.mp placed
    rw [like.eq faithful first, tables_eq faithful rest placed]
termination_by structural ts'

theorem orders_eq (faithful : L.Faithful P) {os os' : List OrderBy} :
    List.Forall₂ (OrderBy.Like L) os os' → (∀ p ∈ os'.map Node.order, p.Placed P) → os' = os
  | .nil, _ => rfl
  | .cons like rest, placed => by
    obtain ⟨first, placed⟩ := List.forall_mem_cons.mp placed
    rw [like.eq faithful first, orders_eq faithful rest placed]
termination_by structural os'

theorem exprOption_eq (faithful : L.Faithful P) {e e' : Option Expr} :
    Option.Rel (Expr.Like L) e e' → (∀ p ∈ e'.toList.map Node.expr, p.Placed P) → e' = e
  | .none, _ => rfl
  | .some like, placed => by rw [like.eq faithful (placed _ List.mem_cons_self)]
termination_by structural e'

theorem limitOption_eq (faithful : L.Faithful P) {l l' : Option Limit} :
    Option.Rel (Limit.Like L) l l' → (∀ p ∈ l'.toList.map Node.limit, p.Placed P) → l' = l
  | .none, _ => rfl
  | .some like, placed => by rw [like.eq faithful (placed _ List.mem_cons_self)]
termination_by structural l'

end

variable (faithful : L.Faithful P)
include faithful

/-- Rows of values, each with its own expressions. -/
theorem rows_eq {rows rows' : List (List Expr)}
    (likes : List.Forall₂ (List.Forall₂ (Expr.Like L)) rows rows')
    (placed : ∀ p ∈ rows'.flatten.map Node.expr, p.Placed P) : rows' = rows := by
  induction likes with
  | nil => rfl
  | cons like _ ih =>
    rw [List.flatten_cons, List.map_append, List.forall_mem_append] at placed
    rw [exprs_eq faithful like placed.1, ih placed.2]

theorem InsertSource.Like.eq {s s' : InsertSource} (like : s.Like L s')
    (placed : FieldsPlaced P (Node.fieldsOfSource s')) : s' = s := by
  cases like with
  | values rows => rw [rows_eq faithful rows placed.1]
  | query query => rw [query.eq faithful (placed_one placed.1)]
  | defaultValues => rfl

theorem InsertStatement.Like.eq {s s' : InsertStatement} (like : s.Like L s')
    (placed : (Node.insert s').Placed P) : s' = s := by
  obtain ⟨front, returning⟩ := fieldsPlaced_append.mp placed.fields
  obtain ⟨names, source⟩ := fieldsPlaced_append.mp front
  cases s
  cases s'
  rw [InsertStatement.mk.injEq]
  exact ⟨like.table.eq faithful (placed_one names.1), idents_eq faithful like.columns names.2.1,
    like.source.eq faithful source, columns_eq faithful like.returning returning.1,
    like.span.eq faithful (placed _ .root)⟩

theorem UpdateAssignment.Like.eq {a a' : UpdateAssignment} (like : a.Like L a')
    (placed : (Node.assignment a').Placed P) : a' = a := by
  have fields := placed.fields
  cases a
  cases a'
  rw [UpdateAssignment.mk.injEq]
  exact ⟨like.column.eq faithful (placed_one fields.1), like.value.eq faithful (placed_one fields.2.1),
    like.span.eq faithful (placed _ .root)⟩

theorem UpdateStatement.Like.eq {s s' : UpdateStatement} (like : s.Like L s')
    (placed : (Node.update s').Placed P) : s' = s := by
  obtain ⟨table, name, assignments, condition, returning, -⟩ := placed.fields
  cases s
  cases s'
  rw [UpdateStatement.mk.injEq]
  exact ⟨like.table.eq faithful (placed_one table), identOption_eq faithful like.alias? name,
    forall₂_eq (fun _ _ like => like.eq faithful) like.assignments assignments,
    exprOption_eq faithful like.condition condition, columns_eq faithful like.returning returning,
    like.span.eq faithful (placed _ .root)⟩

theorem DeleteStatement.Like.eq {s s' : DeleteStatement} (like : s.Like L s')
    (placed : (Node.delete s').Placed P) : s' = s := by
  obtain ⟨table, name, condition, returning, -⟩ := placed.fields
  cases s
  cases s'
  rw [DeleteStatement.mk.injEq]
  exact ⟨like.table.eq faithful (placed_one table), identOption_eq faithful like.alias? name,
    exprOption_eq faithful like.condition condition, columns_eq faithful like.returning returning,
    like.span.eq faithful (placed _ .root)⟩

theorem ForeignKey.Like.eq {k k' : ForeignKey} (like : k.Like L k')
    (placed : (Node.foreignKey k').Placed P) : k' = k := by
  obtain ⟨table, columns, -⟩ := placed.fields
  cases k
  cases k'
  rw [ForeignKey.mk.injEq]
  exact ⟨like.table.eq faithful (placed_one table), idents_eq faithful like.columns columns,
    like.onDelete, like.onUpdate, like.span.eq faithful (placed _ .root)⟩

theorem ColumnConstraintKind.Like.eq {k k' : ColumnConstraintKind} (like : k.Like L k')
    (placed : FieldsPlaced P (Node.fieldsOfColumnConstraint k')) : k' = k := by
  cases like with
  | default value => rw [value.eq faithful (placed_one placed.1)]
  | check condition => rw [condition.eq faithful (placed_one placed.1)]
  | references key => rw [key.eq faithful (placed_one placed.1)]
  | _ => rfl

theorem ColumnConstraint.Like.eq {c c' : ColumnConstraint} (like : c.Like L c')
    (placed : (Node.columnConstraint c').Placed P) : c' = c := by
  obtain ⟨name, kind⟩ := placed.fields
  cases c
  cases c'
  rw [ColumnConstraint.mk.injEq]
  exact ⟨identOption_eq faithful like.name name, like.kind.eq faithful kind,
    like.span.eq faithful (placed _ .root)⟩

theorem ColumnDef.Like.eq {c c' : ColumnDef} (like : c.Like L c')
    (placed : (Node.columnDef c').Placed P) : c' = c := by
  obtain ⟨name, constraints, -⟩ := placed.fields
  cases c
  cases c'
  rw [ColumnDef.mk.injEq]
  exact ⟨like.name.eq faithful (placed_one name), typeOption_eq faithful like.type,
    forall₂_eq (fun _ _ like => like.eq faithful) like.constraints constraints,
    like.span.eq faithful (placed _ .root)⟩

theorem TableConstraintKind.Like.eq {k k' : TableConstraintKind} (like : k.Like L k')
    (placed : FieldsPlaced P (Node.fieldsOfTableConstraint k')) : k' = k := by
  cases like with
  | primaryKey columns => rw [idents_eq faithful columns placed.1]
  | unique columns => rw [idents_eq faithful columns placed.1]
  | foreignKey columns key =>
    rw [idents_eq faithful columns placed.1, key.eq faithful (placed_one placed.2.1)]
  | check condition => rw [condition.eq faithful (placed_one placed.1)]

theorem TableConstraint.Like.eq {c c' : TableConstraint} (like : c.Like L c')
    (placed : (Node.tableConstraint c').Placed P) : c' = c := by
  obtain ⟨name, kind⟩ := placed.fields
  cases c
  cases c'
  rw [TableConstraint.mk.injEq]
  exact ⟨identOption_eq faithful like.name name, like.kind.eq faithful kind,
    like.span.eq faithful (placed _ .root)⟩

/-- Tables that are created by the same columns and constraints. -/
theorem CreateTableStatement.Like.eq {s s' : CreateTableStatement} (like : s.Like L s')
    (placed : (Node.createTable s').Placed P) : s' = s := by
  obtain ⟨name, columns, constraints, -⟩ := placed.fields
  cases s
  cases s'
  rw [CreateTableStatement.mk.injEq]
  exact ⟨like.temporary, like.ifNotExists, like.name.eq faithful (placed_one name),
    forall₂_eq (fun _ _ like => like.eq faithful) like.columns columns,
    forall₂_eq (fun _ _ like => like.eq faithful) like.constraints constraints,
    like.span.eq faithful (placed _ .root)⟩

theorem PragmaStatement.Like.eq {s s' : PragmaStatement} (like : s.Like L s')
    (placed : (Node.pragma s').Placed P) : s' = s := by
  obtain ⟨name, value, -⟩ := placed.fields
  cases s
  cases s'
  rw [PragmaStatement.mk.injEq]
  exact ⟨like.name.eq faithful (placed_one name), exprOption_eq faithful like.value value,
    like.span.eq faithful (placed _ .root)⟩

/-- Statements that say the same, at places where that means being the same, are the same. -/
theorem Statement.Like.eq {s s' : Statement} (like : s.Like L s')
    (placed : (Node.ofStatement s').Placed P) : s' = s := by
  cases like with
  | select like => rw [like.eq faithful placed]
  | insert like => rw [like.eq faithful placed]
  | update like => rw [like.eq faithful placed]
  | delete like => rw [like.eq faithful placed]
  | createTable like => rw [like.eq faithful placed]
  | pragma like => rw [like.eq faithful placed]

end

end SqlTree
