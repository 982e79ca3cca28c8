import SqlTree.Proofs.Binding.Sealed

namespace SqlTree

open Rule SqlRule

namespace Expr

variable {tokens : List Token} {e y left : Expr} {op : InfixOp} {power : Nat}

/-- An expression that ends with no operand is closed before weaker operators. -/
theorem closedBefore_of_none (none : e.lastOperand? = none)
    (strong : ∀ power, e.rightPower? tokens = some power → op.leftPower < power) :
    e.ClosedBefore tokens op := by
  intro x edge
  rcases rightEdge_iff.mp edge with rfl | ⟨y, last, -⟩
  · exact strong
  · rw [none] at last
    cases last

/-- An expression that ends with an operand is closed before weaker operators if this operand is. -/
theorem closedBefore_of_last (last : e.lastOperand? = some y)
    (strong : ∀ power, e.rightPower? tokens = some power → op.leftPower < power)
    (closed : y.ClosedBefore tokens op) : e.ClosedBefore tokens op := by
  intro x edge
  rcases rightEdge_iff.mp edge with rfl | ⟨z, last', edge⟩
  · exact strong
  · rw [last] at last'
    cases last'
    exact closed x edge

/-- What leaves no operator open is closed before any. -/
theorem Sealed.closedBefore (sealed : e.Sealed tokens) : e.ClosedBefore tokens op :=
  closedBefore_of_none sealed.right fun power known => by rw [sealed.power] at known; cases known

theorem openFrom_of_none (none : e.infix? = none) : e.OpenFrom power := by
  intro x edge op left found
  rcases leftEdge_iff.mp edge with rfl | ⟨op, y, first, -⟩
  · rw [none] at found
    cases found
  · rw [none] at first
    cases first

/-- An operator that binds strongly enough opens the left edge no further than its operand does. -/
theorem openFrom_of_infix (only : ∀ op' left', e.infix? = some (op', left') → op' = op ∧ left' = left)
    (enough : power ≤ op.leftPower) (opened : left.OpenFrom power) : e.OpenFrom power := by
  intro x edge op' left' found
  rcases leftEdge_iff.mp edge with rfl | ⟨op'', y, first, edge⟩
  · obtain ⟨rfl, -⟩ := only op' left' found
    exact enough
  · obtain ⟨-, rfl⟩ := only op'' y first
    exact opened x edge op' left' found

end Expr

/-- An expression that was read with a power: operators inside it bind strongly enough, and an
operator behind it does not. -/
structure Bound (f : Features) (tokens : List Token) (power : Nat) (e : Expr) (after : Tape) : Prop where
  closed : ∀ op, after.operator? f = some op → op.leftPower < power ∧ e.ClosedBefore tokens op
  opened : e.OpenFrom power

/-- Expressions that are called for from inside others are bound as their power tells. -/
def BoundCalls (f : Features) (tokens : List Token) (limit : Nat) : Prop :=
  ∀ power, Always f tokens limit (call (.expression power)) fun _ => Bound f tokens power

section

variable {f : Features} {tokens used : List Token} {limit power : Nat} {s s₀ : Tape} {nodes : List Node}

/-- An operand is read and bound as its power tells. -/
theorem Lays.operand (row : Lays f tokens limit s₀ used nodes s) (bound : BoundCalls f tokens limit)
    {post : Expr → Tape → Prop}
    (next : ∀ e after more, Lays f tokens limit s₀ (used ++ more) (nodes ++ [.expr e]) after →
      Bound f tokens power e after → post e after) :
    (call (.expression power)).Yields (sqlLevels f limit) s post := by
  intro e after read
  have bound := bound power s row.along e after read
  exact row.part ((callsAt f tokens limit).expression power)
    (fun e after more _ row bound => next e after more row bound) e after read bound

/-- What an operator makes of its left operand. -/
structure Infixed (f : Features) (tokens : List Token) (op : InfixOp) (left e : Expr) (after : Tape) :
    Prop where
  closed : ∀ op, after.operator? f = some op → e.ClosedBefore tokens op
  only : ∀ op' left', e.infix? = some (op', left') → op' = op ∧ left' = left
  operands : ∀ operand ∈ (Node.expr e).operands, operand.1.OpenFrom operand.2

/-- An operator that is open to the left only. -/
theorem Infixed.of_left {op : InfixOp} {left e : Expr} {after : Tape} (last : e.lastOperand? = none)
    (power : e.rightPower? tokens = none)
    (only : ∀ op' left', e.infix? = some (op', left') → op' = op ∧ left' = left)
    (none : (Node.expr e).operands = []) : Infixed f tokens op left e after where
  closed := fun _ _ => Expr.closedBefore_of_none last fun p known => by rw [power] at known; cases known
  only := only
  operands := by simp [none]

/-- An operator whose last operand was read with its right power. -/
theorem Infixed.of_last {op : InfixOp} {left e last : Expr} {after : Tape}
    (bound : Bound f tokens op.rightPower last after) (atEnd : e.lastOperand? = some last)
    (power : e.rightPower? tokens = some op.rightPower) (infixed : e.infix? = some (op, left))
    (operands : ∀ operand ∈ (Node.expr e).operands, operand.1.OpenFrom operand.2) :
    Infixed f tokens op left e after where
  closed := by
    intro op follows
    obtain ⟨weak, closed⟩ := bound.closed op follows
    refine Expr.closedBefore_of_last atEnd (fun p known => ?_) closed
    rw [power] at known
    cases known
    exact weak
  only := by
    intro op' left' found
    rw [infixed] at found
    cases found
    exact ⟨rfl, rfl⟩
  operands := operands

/-- Whatever stands behind an operator is bound as the operator asks. -/
theorem infixed_binds (bound : BoundCalls f tokens limit) {op : InfixOp} (left : Expr)
    (along : s.Along tokens)
    (ahead : (infixOp? f).read (sqlLevels f limit) s = (.ok (some op), s)) :
    (infixed op left).Yields (sqlLevels f limit) s fun kind after =>
      ∀ span, Infixed f tokens op left ⟨kind, span⟩ after := by
  have row := Lays.refl (f := f) limit along
  cases op with
  | binary o =>
    obtain ⟨t, peek, binary⟩ := infixOp?_binary _ _ ahead o rfl
    simp only [infixed, yields_bind, yields_pure]
    refine row.bump peek (Token.isEof_of_binaryOp? binary) fun s row => ?_
    refine row.operand bound fun right s _ row bound span => .of_last bound rfl rfl rfl ?_
    simpa [Node.operands] using bound.opened
  | isNull =>
    refine yields_then fun _ _ => yields_then fun _ _ => yields_then fun _ _ => ?_
    exact (yields_pure _).mpr fun _ => .of_left rfl rfl (by rintro _ _ ⟨⟩; exact ⟨rfl, rfl⟩) rfl
  | inList negated =>
    refine yields_then fun _ _ => yields_then fun _ _ => yields_then fun _ _ => ?_
    refine yields_then fun _ _ => yields_then fun _ _ => ?_
    exact (yields_pure _).mpr fun _ => .of_left rfl rfl (by rintro _ _ ⟨⟩; exact ⟨rfl, rfl⟩) rfl
  | between negated =>
    simp only [infixed, yields_bind, yields_pure]
    refine row.part (negation_skips negated) fun _ s _ _ row => ?_
    refine row.expectKeyword fun _ s row => ?_
    refine row.operand bound fun low s _ row boundLow => ?_
    refine row.expectKeyword fun _ s row => ?_
    refine row.operand bound fun high s _ row boundHigh span => .of_last boundHigh rfl rfl rfl ?_
    simpa [Node.operands] using ⟨boundLow.opened, boundHigh.opened⟩
  | like caseInsensitive negated =>
    simp only [infixed, yields_bind, yields_pure]
    refine row.part (negation_skips negated) fun _ s _ _ row => ?_
    refine row.expectKeyword fun _ s row => ?_
    refine row.operand bound fun pattern s _ row bound span => .of_last bound rfl rfl rfl ?_
    simpa [Node.operands] using bound.opened
  | cast =>
    refine yields_then fun _ _ => yields_then fun _ _ => (yields_pure _).mpr fun span => ?_
    refine .of_left rfl rfl (fun op' left' found => ?_) rfl
    simp only [Expr.infix?] at found
    split at found
    · cases found
      exact ⟨rfl, rfl⟩
    · cases found

/-- A sign or a NOT in front of an operand, or an operand without operators around its parts. -/
structure Prefixed (f : Features) (tokens : List Token) (e : Expr) (after : Tape) : Prop where
  closed : ∀ op, after.operator? f = some op → e.ClosedBefore tokens op
  left : e.infix? = none
  operands : ∀ operand ∈ (Node.expr e).operands, operand.1.OpenFrom operand.2

theorem Expr.Sealed.operands {e : Expr} (sealed : e.Sealed tokens) :
    (Node.expr e).operands = [] := by
  have none := sealed.right
  rcases e with ⟨kind, span⟩
  cases kind <;> first | rfl | cases none

theorem Expr.Sealed.prefixed {e : Expr} {after : Tape} (sealed : e.Sealed tokens) :
    Prefixed f tokens e after where
  closed := fun _ _ => sealed.closedBefore
  left := sealed.left
  operands := by simp [sealed.operands]

/-- A sign binds its operand more strongly than any operator behind it. -/
theorem Bound.signed {op : UnaryOp} {operand : Expr} {after : Tape} {span : Span}
    (bound : Bound f tokens signPower operand after) (sign : op ≠ .not) :
    Prefixed f tokens ⟨.unary op operand, span⟩ after := by
  have power : (Expr.mk (.unary op operand) span).rightPower? tokens = some signPower := by
    cases op <;> first | rfl | exact absurd rfl sign
  have operands : (Node.expr ⟨.unary op operand, span⟩).operands = [(operand, signPower)] := by
    cases op <;> first | rfl | exact absurd rfl sign
  refine ⟨fun op follows => ?_, rfl, by simpa [operands] using bound.opened⟩
  obtain ⟨weak, closed⟩ := bound.closed op follows
  refine Expr.closedBefore_of_last rfl (fun p known => ?_) closed
  rw [power] at known
  cases known
  exact weak

/-- NOT leaves the edge of its operand open, or takes the place of an EXISTS without an edge. -/
theorem Bound.negated {operand : Expr} {after : Tape} {span : Span}
    (bound : Bound f tokens notPower operand after) :
    Prefixed f tokens ⟨SqlRule.negated operand, span⟩ after := by
  rcases operand with ⟨kind, inner⟩
  cases kind with
  | existsQuery query not =>
    refine ⟨fun op follows => ?_, rfl, by simp [SqlRule.negated, Node.operands]⟩
    refine Expr.closedBefore_of_none rfl fun p known => ?_
    simp only [SqlRule.negated, Expr.rightPower?] at known
    split at known
    · cases known
      exact (bound.closed op follows).1
    · cases known
  | _ =>
    refine ⟨fun op follows => ?_, rfl, ?_⟩
    · obtain ⟨weak, closed⟩ := bound.closed op follows
      exact Expr.closedBefore_of_last rfl (by rintro _ ⟨⟩; exact weak) closed
    · simpa [SqlRule.negated, Node.operands] using bound.opened

/-- A first operand is a prefix with its operand, or has no operators around its parts. -/
theorem prefixed_binds (bound : BoundCalls f tokens limit) (along : s.Along tokens) :
    prefixed.Yields (sqlLevels f limit) s (Prefixed f tokens) := by
  have row := Lays.refl (f := f) limit along
  simp only [prefixed, yields_bind, yields_start, yields_peek]
  intro first peek t peek'
  rw [peek] at peek'
  cases peek'
  split
  · rename_i op sign
    have notEof : first.isEof = false := by
      rw [Token.isEof, beq_eq_false_iff_ne]
      intro eof
      rw [eof] at sign
      cases sign
    have notNot : op ≠ .not := by
      rintro rfl
      unfold TokenKind.signOp? at sign
      split at sign <;> cases sign
    simp only [yields_bind, yields_spanFrom, yields_pure]
    refine row.bump peek notEof fun s row => ?_
    exact row.operand bound fun operand after _ row bound => bound.signed notNot
  · simp only [yields_bind, yields_ite, yields_spanFrom, yields_pure]
    refine row.eatKeyword (fun _ s row => ?_) ?_
    · exact row.operand bound fun operand after _ row bound => bound.negated
    · exact (primary_sealed along).mono fun e after sealed => sealed.prefixed

/-- An expression that goes on from its first operand has been reached operator by operator. -/
theorem Chain.reached (along : s.Along tokens) {e : Expr} {after : Tape}
    (chain : Chain f (sqlLevels f limit) power s e after) :
    Reached f tokens (limit + 1) limit power s e after := by
  have calls := calls f tokens (Nat.le_succ limit)
  have deep := Nat.lt_succ_self limit
  induction chain with
  | first read => exact prefixed_reached calls deep along power _ _ read
  | next _ ahead enough read peek ih => exact (ih.next calls deep along peek ahead enough read).1

/-- Where an expression comes from decides how its edges bind. -/
theorem Chain.binds (bound : BoundCalls f tokens limit) (along : s.Along tokens) {e : Expr}
    {after : Tape} (chain : Chain f (sqlLevels f limit) power s e after) :
    (∀ op, after.operator? f = some op → e.ClosedBefore tokens op) ∧ e.OpenFrom power := by
  induction chain with
  | first read =>
    have binds := prefixed_binds bound along _ _ read
    exact ⟨binds.closed, Expr.openFrom_of_none binds.left⟩
  | next chain ahead enough read peek ih =>
    obtain ⟨used, moves, -⟩ := (chain.reached along).covers
    have binds := infixed_binds bound _ (along.moves moves) ahead _ _ read
    exact ⟨(binds _).closed, Expr.openFrom_of_infix (binds _).only enough ih.2⟩

/-- So all expressions that are called for are bound as their power tells. -/
theorem boundCalls (f : Features) (tokens : List Token) (limit : Nat) : BoundCalls f tokens limit := by
  induction limit with
  | zero => exact fun _ _ _ => Rule.yields_tooDeep
  | succ limit ih =>
    intro power s along e after read
    have calls := calls f tokens (Nat.le_succ limit)
    obtain ⟨reached, weak⟩ :=
      expressionBody_reached calls (Nat.lt_succ_self limit) along power e after read
    obtain ⟨closed, opened⟩ := reached.chain.binds ih along
    exact ⟨fun op follows => ⟨weak op follows, closed op follows⟩, opened⟩

end

end SqlTree
