import SqlTree.Proofs.Naming.Words

namespace SqlTree

open Rule SqlRule

variable {N : Naming} {f : Features}

theorem expression_accords (power : Nat) :
    Accords N (Expr.Alike N) (call (.expression power)) (call (.expression power)) :=
  accords_call (.expression power)

theorem any_accords : Accords N (Expr.Alike N) expression expression := expression_accords 0

theorem selectStatement_accords : Accords N (SelectStatement.Alike N) selectStatement selectStatement :=
  accords_call .query

theorem predicate?_accords (negated : Bool) : Accords N Eq (predicate? f negated) (predicate? f negated) := by
  refine ((accords_pure rfl).choose (accords_checkKeyword _)).ite (accords_pure rfl) ?_
  refine (accords_checkKeyword _).ite (accords_pure rfl) ?_
  refine (accords_checkKeyword _).ite (accords_pure rfl) ?_
  refine (accords_checkKeyword _).ite (accords_pure rfl) ?_
  exact ((accords_checkKeyword _).choose (accords_pure rfl)).ite (accords_pure rfl) (accords_pure rfl)

/-- Asking for the operator that follows finds the same one on both sides. -/
theorem infixOp?_accords : Accords N Eq (infixOp? f) (infixOp? f) := by
  have word : Accords N Eq (do
      if ← checkKeyword .NOT then
        lookahead do
          let _ ← bump
          predicate? f true
      else predicate? f false) (do
      if ← checkKeyword .NOT then
        lookahead do
          let _ ← bump
          predicate? f true
      else predicate? f false) :=
    (accords_checkKeyword _).ite (bump_then fun _ _ => predicate?_accords true).lookahead
      (predicate?_accords false)
  refine accords_peek.bind fun t t' token => ?_
  rcases (N.recased token).kind_or with same | ⟨value, value', kind, kind'⟩
  · dsimp only
    rw [same]
    split
    · exact accords_pure rfl
    · split
      · exact accords_pure rfl
      · exact word
  · dsimp only
    rw [kind, kind']
    exact word

/-- What stands behind an operator accords on both sides. -/
theorem infixed_accords (op : InfixOp) {left left' : Expr} (like : left.Alike N left') :
    Accords N (ExprKind.Alike N) (infixed op left) (infixed op left') := by
  cases op with
  | binary o =>
    exact bump_then fun _ _ => (expression_accords _).map fun _ _ right => .binary o like right
  | isNull =>
    refine Accords.behindWord ((accords_eatKeyword _).same_bind fun negated => ?_)
    exact (accords_pure (.isNull negated like)).behindWord
  | inList negated =>
    refine (negation_accords negated).same_bind fun _ => Accords.behindWord (Accords.behind ?_)
    refine Accords.bind (R := InList.Alike N) ((accords_checkKeyword _).ite ?_ ?_) fun _ _ list => ?_
    · exact selectStatement_accords.map fun _ _ query => .subquery query
    · exact any_accords.commaSeparated.map fun _ _ values => .values values
    · exact (accords_pure (.inList negated like list)).behind
  | between negated =>
    refine (negation_accords negated).same_bind fun _ => Accords.behindWord ?_
    refine (expression_accords _).bind fun _ _ low => Accords.behindWord ?_
    exact (expression_accords _).map fun _ _ high => .between negated like low high
  | like caseInsensitive negated =>
    refine (negation_accords negated).same_bind fun _ => Accords.behindWord ?_
    exact (expression_accords _).map fun _ _ pattern => .like caseInsensitive negated like pattern
  | cast => exact (dataType_accords.map fun _ _ type => .cast like type).behind

/-- A call accords if the names of its function may stand for each other. -/
theorem functionCall_accords {name name' : Ident} (like : N.function name name') (start : Position) :
    Accords N (Expr.Alike N) (functionCall name start) (functionCall name' start) := by
  refine Accords.behind ((accords_eatKeyword _).same_bind fun distinct => ?_)
  refine Accords.bind (R := List.Forall₂ (Expr.Alike N)) ?_ fun _ _ arguments => ?_
  · refine (accords_check _).ite (accords_pure .nil) ((accords_check _).ite ?_ any_accords.commaSeparated)
    refine accords_start.same_bind fun star => bump_then fun _ _ => ?_
    exact spanFrom_then fun _ => .cons (.mk (.wildcard .none)) .nil
  · exact Accords.behind (spanFrom_then fun _ => .mk (.call distinct like arguments))

/-- What begins with a name accords as a column or as a call. -/
theorem nameExpression_accords : Accords N (Expr.Alike N) nameExpression nameExpression := by
  refine accords_start.same_bind fun start => identifier_accords.bind fun name name' like => ?_
  refine (accords_check _).ite (functionCall_accords (N.function_of_name like) start) ?_
  refine Accords.bind (R := ExprKind.Alike N) ?_ fun _ _ kind => spanFrom_then fun _ => .mk kind
  refine (accords_eat _).ite ((accords_eat _).ite ?_ ?_) (accords_pure (.column .none like))
  · exact accords_pure (.wildcard (.some like))
  · exact identifier_accords.map fun _ _ column => .column (.some like) column

theorem castExpression_accords : Accords N (Expr.Alike N) castExpression castExpression := by
  refine accords_start.same_bind fun _ => Accords.behindWord (Accords.behind ?_)
  refine any_accords.bind fun _ _ like => Accords.behindWord (dataType_accords.bind fun _ _ type => ?_)
  exact Accords.behind (spanFrom_then fun _ => .mk (.cast like type))

theorem existsExpression_accords : Accords N (Expr.Alike N) existsExpression existsExpression := by
  refine accords_start.same_bind fun _ => Accords.behindWord (Accords.behind ?_)
  refine selectStatement_accords.bind fun _ _ query => Accords.behind ?_
  exact spanFrom_then fun _ => .mk (.existsQuery false query)

theorem whenClause_accords : Accords N (WhenClause.Alike N) whenClause whenClause := by
  refine accords_start.same_bind fun _ => Accords.behindWord (any_accords.bind fun _ _ condition => ?_)
  refine Accords.behindWord (any_accords.bind fun _ _ result => ?_)
  exact spanFrom_then fun _ => .mk condition result

theorem caseExpression_accords : Accords N (Expr.Alike N) caseExpression caseExpression := by
  refine accords_start.same_bind fun _ => Accords.behindWord ?_
  refine Accords.bind (R := Option.Rel (Expr.Alike N)) ?_ fun _ _ operand => ?_
  · exact (accords_checkKeyword _).ite (accords_pure .none) (any_accords.map fun _ _ like => .some like)
  refine whenClause_accords.many.bind fun _ _ clauses => ?_
  cases clauses with
  | nil => exact accords_failAny _
  | cons first rest =>
    refine any_accords.ifWord.bind fun _ _ elseClause => Accords.behindWord ?_
    exact spanFrom_then fun _ => .mk (.caseWhen operand (.cons first rest) elseClause)

theorem keywordForm_accords {form : SqlRule Expr} (reserved : Bool)
    (fits : Accords N (Expr.Alike N) form form) :
    Accords N (Expr.Alike N) (keywordForm reserved form) (keywordForm reserved form) := by
  refine fits.choose (accords_choice ?_)
  simp only [List.forall_mem_cons, List.not_mem_nil, false_implies, implies_true, and_true]
  exact ⟨fits, nameExpression_accords⟩

theorem literalWord?_accords : Accords N Eq literalWord? literalWord? := by
  refine (accords_pure rfl).ifEaten ((accords_pure rfl).ifEaten ?_)
  exact (accords_pure rfl).ifEaten (accords_pure rfl)

/-- A reserved word is a name if it names a function. -/
theorem wordExpression_accords (start : Position) :
    Accords N (Expr.Alike N) (wordExpression start) (wordExpression start) := by
  refine accords_peek.bind fun t t' token => ?_
  rw [(N.recased token).isKeyword]
  refine (accords_checkKeyword _).ite (keywordForm_accords _ caseExpression_accords) ?_
  refine (accords_checkKeyword _).ite (keywordForm_accords _ castExpression_accords) ?_
  refine (accords_checkKeyword _).ite (keywordForm_accords _ existsExpression_accords) ?_
  refine literalWord?_accords.same_bind fun literal => ?_
  cases literal with
  | some value => exact spanFrom_then fun _ => .mk (.literal value)
  | none =>
    refine accords_peek.bind fun t t' token => ?_
    rw [(N.recased token).keyword?]
    cases word : t.keyword? with
    | none => exact nameExpression_accords
    | some k =>
      dsimp only
      split
      · rename_i function
        refine bump_then fun _ _ => functionCall_accords ?_ start
        exact N.function_of_word token (Token.kind_of_keyword? word) (List.contains_iff_mem.mp function)
      · exact accords_failAny _

theorem single_accords {kind : ExprKind} (alike : kind.Alike N kind) (start : Position) :
    Accords N (Expr.Alike N) (single start kind) (single start kind) :=
  bump_then fun _ _ => spanFrom_then fun _ => .mk alike

/-- Expressions without operators accord. -/
theorem primary_accords : Accords N (Expr.Alike N) primary primary := by
  refine accords_start.same_bind fun start => accords_peek.bind fun t t' token => ?_
  rcases (N.recased token).kind_or with same | ⟨value, value', kind, kind'⟩
  case inr =>
    rw [kind, kind']
    exact wordExpression_accords start
  rw [same]
  split
  · exact single_accords (.literal _) start
  · exact single_accords (.literal _) start
  · exact single_accords (.literal _) start
  · exact single_accords (.literal _) start
  · exact single_accords (.wildcard .none) start
  · refine bump_then fun _ _ => accords_nextParam.same_bind fun number => ?_
    exact spanFrom_then fun _ => .mk (.positional number)
  · refine bump_then fun _ _ => identifier_accords.bind fun name name' like => ?_
    exact spanFrom_then fun _ => .mk (.named (N.sameWord_of_name like))
  · refine bump_then fun _ _ => Accords.bind (R := ExprKind.Alike N) ?_ fun _ _ kind => ?_
    · exact (accords_checkKeyword _).ite (selectStatement_accords.map fun _ _ query => .subquery query)
        (any_accords.map fun _ _ like => .paren like)
    · exact Accords.behind (spanFrom_then fun _ => .mk kind)
  · exact wordExpression_accords start
  · exact wordExpression_accords start
  · exact accords_failAny _

/-- NOT turns around what is alike into what is alike. -/
theorem negated_alike {operand operand' : Expr} (like : operand.Alike N operand') :
    (negated operand).Alike N (negated operand') := by
  obtain ⟨kind⟩ := like
  cases kind with
  | existsQuery negated query => exact .existsQuery (!negated) query
  | _ => exact .unary .not (.mk (by constructor <;> assumption))

theorem prefixed_accords : Accords N (Expr.Alike N) prefixed prefixed := by
  have unsigned (start : Position) : Accords N (Expr.Alike N) (do
      if ← eatKeyword .NOT then
        let operand ← call (.expression notPower)
        return ⟨negated operand, ← spanFrom start⟩
      else primary) (do
      if ← eatKeyword .NOT then
        let operand ← call (.expression notPower)
        return ⟨negated operand, ← spanFrom start⟩
      else primary) := by
    refine Accords.ifEaten ((expression_accords _).bind fun _ _ like => ?_) primary_accords
    exact spanFrom_then fun _ => .mk (negated_alike like)
  refine accords_start.same_bind fun start => accords_peek.bind fun t t' token => ?_
  rcases (N.recased token).kind_or with same | ⟨value, value', kind, kind'⟩
  · rw [same]
    split
    · refine bump_then fun _ _ => (expression_accords _).bind fun _ _ like => ?_
      exact spanFrom_then fun _ => .mk (.unary _ like)
    · exact unsigned start
  · rw [kind, kind']
    exact unsigned start

/-- Expressions as a whole accord. -/
theorem expressionBody_accords (power : Nat) :
    Accords N (Expr.Alike N) (expressionBody f power) (expressionBody f power) := by
  refine accords_start.same_bind fun start => prefixed_accords.bind fun _ _ first => ?_
  refine Accords.loop (fun left left' like => infixOp?_accords.same_bind fun op => ?_) first
  cases op with
  | none => exact accords_pure .none
  | some op =>
    dsimp only
    split
    · exact accords_pure .none
    · refine (infixed_accords op like).bind fun _ _ kind => ?_
      exact spanFrom_then fun _ => .some (.mk kind)

end SqlTree
