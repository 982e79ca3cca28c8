import SqlTree.Model.Query

namespace SqlTree

/-- What an expression is, in a few words. -/
def ExprKind.label : ExprKind → String
  | .literal _ => "literal"
  | .column none name => s!"column {name.value}"
  | .column (some table) name => s!"column {table.value}.{name.value}"
  | .binary _ op _ => s!"binary {op.sql}"
  | .unary op _ => s!"unary {op.sql}"
  | .call f => s!"function {f.name.value}"
  | .subquery _ => "subquery"
  | .existsQuery _ _ => "exists"
  | .isNull _ _ => "is null"
  | .inList _ _ _ => "in"
  | .between _ _ _ _ => "between"
  | .like _ _ _ _ => "like"
  | .caseWhen _ _ _ => "case"
  | .cast _ type => s!"cast {type.sql}"
  | .paren _ => "paren"
  | .parameter _ _ => "parameter"
  | .wildcard _ => "wildcard"

/-- One line of an outline: what an expression is, where it stands, and how many it is made of. -/
structure OutlineEntry where
  label : String
  span : Span
  children : Nat

def Expr.outlineEntry (e : Expr) : OutlineEntry := ⟨e.kind.label, e.span, e.children.length⟩

theorem Expr.sizeOf_lt_of_mem_children {e child : Expr} (h : child ∈ e.children) :
    sizeOf child < sizeOf e := by
  obtain ⟨kind, span⟩ := e
  simp only [children] at h
  cases kind with
  | literal | column | subquery | existsQuery | parameter | wildcard =>
    simp [ExprKind.children] at h
  | binary left op right =>
    simp only [ExprKind.children, List.mem_cons, List.not_mem_nil, or_false] at h
    rcases h with rfl | rfl <;> simp <;> omega
  | unary op operand =>
    simp only [ExprKind.children, List.mem_singleton] at h
    subst h; simp; omega
  | call f =>
    obtain ⟨name, arguments, distinct⟩ := f
    simp only [ExprKind.children] at h
    have := List.sizeOf_lt_of_mem h
    simp; omega
  | isNull expr negated =>
    simp only [ExprKind.children, List.mem_singleton] at h
    subst h; simp; omega
  | cast expr type =>
    simp only [ExprKind.children, List.mem_singleton] at h
    subst h; simp; omega
  | paren expr =>
    simp only [ExprKind.children, List.mem_singleton] at h
    subst h; simp; omega
  | inList expr list negated =>
    cases list with
    | values values =>
      simp only [ExprKind.children, List.mem_cons] at h
      rcases h with rfl | h
      · simp; omega
      · have := List.sizeOf_lt_of_mem h
        simp; omega
    | subquery query =>
      simp only [ExprKind.children, List.mem_singleton] at h
      subst h; simp; omega
  | between expr low high negated =>
    simp only [ExprKind.children, List.mem_cons, List.not_mem_nil, or_false] at h
    rcases h with rfl | rfl | rfl <;> simp <;> omega
  | like expr pattern caseInsensitive negated =>
    simp only [ExprKind.children, List.mem_cons, List.not_mem_nil, or_false] at h
    rcases h with rfl | rfl <;> simp <;> omega
  | caseWhen operand whenClauses elseClause =>
    simp only [ExprKind.children, List.mem_append, List.mem_flatMap, Option.mem_toList,
      List.mem_cons, List.not_mem_nil, or_false] at h
    rcases h with (rfl | ⟨w, mem, rfl | rfl⟩) | rfl
    · simp; omega
    · have := List.sizeOf_lt_of_mem mem
      obtain ⟨condition, result, place⟩ := w
      simp at this ⊢; omega
    · have := List.sizeOf_lt_of_mem mem
      obtain ⟨condition, result, place⟩ := w
      simp at this ⊢; omega
    · simp; omega

/-- The outline of an expression: itself, and then the outlines of its children in order. -/
def Expr.outline (e : Expr) : List OutlineEntry :=
  e.outlineEntry :: e.children.attach.flatMap fun child => child.1.outline
termination_by sizeOf e
decreasing_by exact Expr.sizeOf_lt_of_mem_children child.2

end SqlTree
