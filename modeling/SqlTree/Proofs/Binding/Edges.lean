import SqlTree.Proofs.Tree.Node

namespace SqlTree

namespace Expr

/-- The operator that an expression puts behind its left operand, and that operand. A cast by two
colons starts where its operand does; one by the word CAST does not. -/
def infix? (e : Expr) : Option (InfixOp × Expr) :=
  match e.kind with
  | .binary left op _ => some (.binary op, left)
  | .isNull left _ => some (.isNull, left)
  | .inList left _ negated => some (.inList negated, left)
  | .between left _ _ negated => some (.between negated, left)
  | .like left _ caseInsensitive negated => some (.like caseInsensitive negated, left)
  | .cast left _ => if e.span.start = left.span.start then some (.cast, left) else none
  | _ => none

/-- The operand at the right end of an expression. -/
def lastOperand? (e : Expr) : Option Expr :=
  match e.kind with
  | .binary _ _ right => some right
  | .between _ _ high _ => some high
  | .like _ pattern _ _ => some pattern
  | .unary _ operand => some operand
  | _ => none

/-- How weakly an expression binds what stands to its right. An EXISTS that NOT stands in front of
counts as a NOT. -/
def rightPower? (tokens : List Token) (e : Expr) : Option Nat :=
  match e.kind with
  | .binary _ op _ => some (InfixOp.binary op).rightPower
  | .between _ _ _ negated => some (InfixOp.between negated).rightPower
  | .like _ _ caseInsensitive negated => some (InfixOp.like caseInsensitive negated).rightPower
  | .unary .not _ => some SqlRule.notPower
  | .unary _ _ => some SqlRule.signPower
  | .existsQuery _ _ =>
    if ∃ t ∈ tokens, t.span.start = e.span.start ∧ t.spells .NOT = true then some SqlRule.notPower
    else none
  | _ => none

/-- The expressions at the right end of an expression, itself included. -/
inductive RightEdge (e : Expr) : Expr → Prop
  | self : RightEdge e e
  | last {x y} : RightEdge e x → x.lastOperand? = some y → RightEdge e y

/-- The expressions at the left end of an expression, itself included. -/
inductive LeftEdge (e : Expr) : Expr → Prop
  | self : LeftEdge e e
  | left {x y op} : LeftEdge e x → x.infix? = some (op, y) → LeftEdge e y

/-- All operators on the right edge bind what stands to their right more strongly than an operator
behind the expression binds it to the left. -/
def ClosedBefore (tokens : List Token) (e : Expr) (op : InfixOp) : Prop :=
  ∀ x, e.RightEdge x → ∀ power, x.rightPower? tokens = some power → op.leftPower < power

/-- All operators on the left edge bind what stands to their left at least that strongly. -/
def OpenFrom (e : Expr) (power : Nat) : Prop :=
  ∀ x, e.LeftEdge x → ∀ op left, x.infix? = some (op, left) → power ≤ op.leftPower

/-- The right edge of an expression is the expression and the right edge of its last operand. -/
theorem rightEdge_iff {e x : Expr} :
    e.RightEdge x ↔ x = e ∨ ∃ y, e.lastOperand? = some y ∧ y.RightEdge x := by
  constructor
  · intro edge
    induction edge with
    | self => exact .inl rfl
    | last _ last ih =>
      rcases ih with rfl | ⟨y, first, edge⟩
      · exact .inr ⟨_, last, .self⟩
      · exact .inr ⟨y, first, edge.last last⟩
  · rintro (rfl | ⟨y, first, edge⟩)
    · exact .self
    · induction edge with
      | self => exact .last .self first
      | last _ last ih => exact ih.last last

/-- The left edge of an expression is the expression and the left edge of its left operand. -/
theorem leftEdge_iff {e x : Expr} :
    e.LeftEdge x ↔ x = e ∨ ∃ op y, e.infix? = some (op, y) ∧ y.LeftEdge x := by
  constructor
  · intro edge
    induction edge with
    | self => exact .inl rfl
    | left _ left ih =>
      rcases ih with rfl | ⟨op, y, first, edge⟩
      · exact .inr ⟨_, _, left, .self⟩
      · exact .inr ⟨op, y, first, edge.left left⟩
  · rintro (rfl | ⟨op, y, first, edge⟩)
    · exact .self
    · induction edge with
      | self => exact .left .self first
      | left _ left ih => exact ih.left left

end Expr

/-- The operands of a node that are read with a power, with that power. -/
def Node.operands : Node → List (Expr × Nat)
  | .expr e =>
    match e.kind with
    | .binary _ op right => [(right, (InfixOp.binary op).rightPower)]
    | .between _ low high negated =>
      [(low, (InfixOp.between negated).rightPower), (high, (InfixOp.between negated).rightPower)]
    | .like _ pattern caseInsensitive negated =>
      [(pattern, (InfixOp.like caseInsensitive negated).rightPower)]
    | .unary .not operand => [(operand, SqlRule.notPower)]
    | .unary _ operand => [(operand, SqlRule.signPower)]
    | _ => []
  | .columnConstraint c =>
    match c.kind with
    | .default value => [(value, SqlRule.signPower)]
    | _ => []
  | .pragma s => s.value.toList.map fun value => (value, SqlRule.signPower)
  | _ => []

end SqlTree
