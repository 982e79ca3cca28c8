import SqlTree.Model.Query
import SqlTree.Proofs.Writing.Follow

namespace SqlTree

def Ident.mapped (place : Span → Span) (i : Ident) : Ident := { i with span := place i.span }

def ObjectName.mapped (place : Span → Span) (n : ObjectName) : ObjectName :=
  ⟨n.schema.map (Ident.mapped place), n.name.mapped place, place n.span⟩

section

variable (place : Span → Span) (number : Nat → Nat)

mutual

/-- An expression with other spans, and other numbers for its positional placeholders. -/
def Expr.mapped : Expr → Expr
  | ⟨kind, span⟩ => ⟨kind.mapped, place span⟩

def ExprKind.mapped : ExprKind → ExprKind
  | .literal value => .literal value
  | .column table name => .column (table.map (Ident.mapped place)) (name.mapped place)
  | .binary left op right => .binary left.mapped op right.mapped
  | .unary op operand => .unary op operand.mapped
  | .call f => .call f.mapped
  | .subquery query => .subquery query.mapped
  | .existsQuery query negated => .existsQuery query.mapped negated
  | .isNull expr negated => .isNull expr.mapped negated
  | .inList expr list negated => .inList expr.mapped list.mapped negated
  | .between expr low high negated => .between expr.mapped low.mapped high.mapped negated
  | .like expr pattern caseInsensitive negated =>
    .like expr.mapped pattern.mapped caseInsensitive negated
  | .caseWhen operand whenClauses elseClause =>
    .caseWhen (Expr.mappedOption operand) (WhenClause.mappedList whenClauses)
      (Expr.mappedOption elseClause)
  | .cast expr type => .cast expr.mapped type
  | .paren expr => .paren expr.mapped
  | .parameter none position => .parameter none (number position)
  | .parameter (some name) position => .parameter (some name) position
  | .wildcard table => .wildcard (table.map (Ident.mapped place))

def FunctionCall.mapped : FunctionCall → FunctionCall
  | ⟨name, arguments, distinct⟩ => ⟨name.mapped place, Expr.mappedList arguments, distinct⟩

def InList.mapped : InList → InList
  | .values values => .values (Expr.mappedList values)
  | .subquery query => .subquery query.mapped

def WhenClause.mapped : WhenClause → WhenClause
  | ⟨condition, result, span⟩ => ⟨condition.mapped, result.mapped, place span⟩

def SelectStatement.mapped : SelectStatement → SelectStatement
  | ⟨distinct, columns, tables, condition, groupBy, having, orderBy, limit, span⟩ =>
    ⟨distinct, SelectColumn.mappedList columns, TableRef.mappedList tables,
      Expr.mappedOption condition, Expr.mappedList groupBy, Expr.mappedOption having,
      OrderBy.mappedList orderBy, Limit.mappedOption limit, place span⟩

def SelectColumn.mapped : SelectColumn → SelectColumn
  | ⟨expr, alias?, span⟩ => ⟨expr.mapped, alias?.map (Ident.mapped place), place span⟩

def TableRef.mapped : TableRef → TableRef
  | .table name alias? span =>
    .table (name.mapped place) (alias?.map (Ident.mapped place)) (place span)
  | .subquery query alias? span =>
    .subquery query.mapped (alias?.map (Ident.mapped place)) (place span)
  | .join left join span => .join left.mapped join.mapped (place span)

def JoinClause.mapped : JoinClause → JoinClause
  | ⟨type, natural, table, condition, columns, span⟩ =>
    ⟨type, natural, table.mapped, Expr.mappedOption condition, columns.map (Ident.mapped place),
      place span⟩

def OrderBy.mapped : OrderBy → OrderBy
  | ⟨expr, direction, nulls, span⟩ => ⟨expr.mapped, direction, nulls, place span⟩

def Limit.mapped : Limit → Limit
  | ⟨count, offset, span⟩ => ⟨Expr.mappedOption count, Expr.mappedOption offset, place span⟩

def Expr.mappedOption : Option Expr → Option Expr
  | none => none
  | some e => some e.mapped

def Limit.mappedOption : Option Limit → Option Limit
  | none => none
  | some limit => some limit.mapped

def Expr.mappedList : List Expr → List Expr
  | [] => []
  | e :: es => e.mapped :: Expr.mappedList es

def WhenClause.mappedList : List WhenClause → List WhenClause
  | [] => []
  | w :: ws => w.mapped :: WhenClause.mappedList ws

def SelectColumn.mappedList : List SelectColumn → List SelectColumn
  | [] => []
  | c :: cs => c.mapped :: SelectColumn.mappedList cs

def TableRef.mappedList : List TableRef → List TableRef
  | [] => []
  | t :: ts => t.mapped :: TableRef.mappedList ts

def OrderBy.mappedList : List OrderBy → List OrderBy
  | [] => []
  | o :: os => o.mapped :: OrderBy.mappedList os

end

end

/-- An expression without the places that its parts were read from. -/
def Expr.bare (e : Expr) : Expr := e.mapped (fun _ => .nothing) id

open Rule SqlRule

theorem length_quoted (closing : Char) (cs : List Char) :
    cs.length ≤ (cs.flatMap fun c => if c = closing then [c, c] else [c]).length := by
  induction cs with
  | nil => exact Nat.le_refl 0
  | cons c cs ih =>
    rw [List.flatMap_cons, List.length_append, List.length_cons]
    split <;> simp only [List.length_cons, List.length_nil] <;> omega

/-- Between quotes a name is longer than by itself. -/
theorem LexicalRules.quoteIdentifier_ne (rules : LexicalRules) (name : String) :
    rules.quoteIdentifier name ≠ name := by
  intro same
  have sizes := congrArg (fun text => text.toList.length) same
  have := length_quoted (rules.identifierQuotes.head?.getD ('"', '"')).2 name.toList
  simp only [quoteIdentifier, String.toList_ofList, List.cons_append, List.length_cons,
    List.length_append, List.length_nil] at sizes
  omega

section

variable {rules : LexicalRules} {tokens : List Token} {signs more : List Sign} {s : Tape}
  {levels : List (TapeLevel Symbol)} {l : Label}

/-- A name that can be read is read as a name. -/
theorem Label.Legible.kind (legible : l.Legible rules) :
    (Sign.name rules l).kind = .identifier l.value := by
  rw [Sign.name]
  split
  · rfl
  · rename_i bare
    rcases legible with quoted | ⟨-, free⟩
    · exact absurd quoted bare
    · rw [Sign.bare, free]

theorem Sign.name_number (rules : LexicalRules) (l : Label) : (name rules l).number = none := by
  rw [name]
  split <;> rfl

theorem Sign.name_isQuoted (rules : LexicalRules) (l : Label) :
    ((name rules l).text != l.value) = l.quoted := by
  rw [name]
  cases quoted : l.quoted with
  | true => exact bne_iff_ne.mpr (rules.quoteIdentifier_ne l.value)
  | false => exact bne_self_eq_false' (l.value)

/-- A name is read as it was written, with its quotes or without. -/
theorem Offers.identifier (legible : l.Legible rules)
    (offers : Offers tokens (.name rules l :: signs) s) {post : Ident → Tape → Prop}
    (next : ∀ i after, i.mapped (fun _ => .nothing) = l.ident → Offers tokens signs after →
      post i after) : SqlRule.identifier.Succeeds levels s post := by
  rw [SqlRule.identifier, succeeds_bind]
  refine offers.peekNext fun t fits => ?_
  have quoted : t.isQuoted = l.quoted := by
    rw [Token.isQuoted, fits.kind, legible.kind, fits.text]
    exact Sign.name_isQuoted rules l
  simp only [fits.kind, legible.kind, succeeds_bind]
  refine offers.bump (Sign.name_number rules l) fun _ after _ offers => ?_
  exact (succeeds_pure _).mpr (next _ after (by rw [quoted]; rfl) offers)

end

end SqlTree
