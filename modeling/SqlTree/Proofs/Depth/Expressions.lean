import SqlTree.Proofs.Depth.Descent
import SqlTree.Proofs.Reading.Makes
import SqlTree.Proofs.Tree.Steps

namespace SqlTree

open Rule SqlRule

section

variable {f : Features} {limit b c : Nat} {p : Position}

/-- What the named rules give where `limit` levels of nesting are left is shallow. -/
structure ShallowCalls (f : Features) (limit b : Nat) : Prop where
  expression : ∀ power, (call (.expression power) : SqlRule Expr).Makes (sqlLevels f limit) fun e =>
    (Node.expr e).Shallow b
  query : selectStatement.Makes (sqlLevels f limit) fun q => (Node.select q).Shallow b
  joinGroup : joinGroup.Makes (sqlLevels f limit) fun t => (Node.table t).Shallow b

theorem ShallowCalls.mono (calls : ShallowCalls f limit b) (le : b ≤ c) : ShallowCalls f limit c where
  expression power := (calls.expression power).mono fun _ shallow => shallow.mono le
  query := calls.query.mono fun _ shallow => shallow.mono le
  joinGroup := calls.joinGroup.mono fun _ shallow => shallow.mono le

theorem makes_spanFrom (p : Position) :
    (spanFrom p : SqlRule Span).Makes (sqlLevels f limit) fun span => span.start = p :=
  fun _ => (yields_spanFrom p).mpr rfl

/-- What an expression is made of is shallow. -/
def ExprKind.Low (c : Nat) (kind : ExprKind) : Prop :=
  ∀ p ∈ (Node.fieldsOfExpr kind).flatten, p.Shallow c

/-- An expression that starts at some place and is shallow. -/
structure Expr.ShallowFrom (c : Nat) (p : Position) (e : Expr) : Prop where
  shallow : (Node.expr e).Shallow c
  start : e.span.start = p

theorem ExprKind.Low.shallow {kind : ExprKind} (low : kind.Low c) (span : Span) :
    (Node.expr ⟨kind, span⟩).Shallow (c + 1) :=
  .around low

/-- An expression with the span of all that was read for it. -/
theorem ExprKind.Low.spanned {kind : ExprKind} (low : kind.Low c) (p : Position) :
    (do return ⟨kind, ← spanFrom p⟩ : SqlRule Expr).Makes (sqlLevels f limit) (Expr.ShallowFrom (c + 1) p) :=
  (makes_spanFrom p).bind fun span start => makes_pure ⟨low.shallow span, start⟩

/-- What an expression is made of is shallow if each of its parts is. -/
theorem ExprKind.low_of_fields {kind : ExprKind} (low : ∀ field ∈ Node.fieldsOfExpr kind, ∀ p ∈ field,
    p.Shallow c) : kind.Low c := by
  intro p mem
  obtain ⟨field, inside, mem⟩ := List.mem_flatten.mp mem
  exact low field inside p mem

/-- An operator is no higher for its left operand. -/
theorem shallow_behind {e left : Expr} {op : InfixOp} {others : List Node}
    (found : e.infix? = some (op, left)) (parts : (Node.expr e).parts = .expr left :: others)
    (shallow : (Node.expr left).Shallow (c + 1)) (low : ∀ p ∈ others, p.Shallow c) :
    (Node.expr e).Shallow (c + 1) := by
  have first : (Node.expr e).left? = some (.expr left) := by rw [Node.left?, found]; rfl
  refine .behind first shallow (fun p mem counts => ?_) (Nat.le_refl _)
  rw [parts] at mem
  rcases List.mem_cons.mp mem with rfl | mem
  · exact absurd first counts
  · exact low p mem

section

variable (calls : ShallowCalls f limit c)
include calls

/-- An operator is higher than its other operands by one at most. -/
theorem infixed_shallow (op : InfixOp) {left : Expr} (shallow : (Node.expr left).Shallow (c + 1)) :
    (infixed op left).Makes (sqlLevels f limit) fun kind =>
      ∀ span : Span, span.start = left.span.start → (Node.expr ⟨kind, span⟩).Shallow (c + 1) := by
  cases op with
  | binary op =>
    refine makes_then fun _ => (calls.expression _).bind fun right holds => makes_pure ?_
    exact fun span _ => shallow_behind rfl rfl shallow (by simpa using holds)
  | isNull =>
    refine makes_then fun _ => makes_then fun _ => makes_then fun _ => makes_pure ?_
    exact fun span _ => shallow_behind rfl rfl shallow (by simp)
  | inList negated =>
    have listed : (do
        if ← checkKeyword .SELECT then return InList.subquery (← selectStatement)
        else return .values (← commaSeparated expression) : SqlRule InList).Makes (sqlLevels f limit)
          fun list => ∃ others, (Node.fieldsOfExpr (.inList left list negated)).flatten =
            .expr left :: others ∧ ∀ p ∈ others, p.Shallow c := by
      refine makes_then fun _ => Makes.ite ?_ ?_
      · refine calls.query.bind fun query holds => makes_pure ⟨[.select query], rfl, ?_⟩
        simpa using holds
      · refine (Makes.commaSeparated (sqlLevels_forward f limit) (calls.expression 0)).bind
          fun values each => makes_pure ⟨values.map .expr, by simp [Node.fieldsOfExpr], ?_⟩
        simpa using each
    refine makes_then fun _ => makes_then fun _ => makes_then fun _ => listed.bind fun list holds => ?_
    obtain ⟨others, parts, low⟩ := holds
    exact makes_then fun _ => makes_pure fun span _ => shallow_behind rfl parts shallow low
  | between negated =>
    refine makes_then fun _ => makes_then fun _ => (calls.expression _).bind fun low holds => ?_
    refine makes_then fun _ => (calls.expression _).bind fun high holds' => makes_pure ?_
    exact fun span _ => shallow_behind rfl rfl shallow (by simp [holds, holds'])
  | like caseInsensitive negated =>
    refine makes_then fun _ => makes_then fun _ => (calls.expression _).bind fun pattern holds => ?_
    exact makes_pure fun span _ => shallow_behind rfl rfl shallow (by simpa using holds)
  | cast =>
    refine makes_then fun _ => makes_then fun type => makes_pure fun span start => ?_
    exact shallow_behind (if_pos start) rfl shallow (by simp)

/-- A call is higher than its arguments by one at most. -/
theorem functionCall_shallow (some : 1 ≤ c) (name : Ident) (p : Position) :
    (functionCall name p).Makes (sqlLevels f limit) (Expr.ShallowFrom (c + 1) p) := by
  have each : (do
      if ← check .rightParen then return []
      else if ← check .star then
        let star ← Rule.start
        let _ ← bump
        return [⟨.wildcard none, ← spanFrom star⟩]
      else commaSeparated expression : SqlRule (List Expr)).Makes (sqlLevels f limit)
        fun arguments => ∀ e ∈ arguments, (Node.expr e).Shallow c := by
    refine makes_then fun _ => Makes.ite (makes_pure (by simp)) (makes_then fun _ => Makes.ite ?_ ?_)
    · refine makes_then fun _ => makes_then fun _ => makes_then fun span => makes_pure ?_
      refine List.forall_mem_singleton.mpr (Node.Shallow.mono (b := 0 + 1) ?_ some)
      exact ExprKind.Low.shallow (ExprKind.low_of_fields (by simp [Node.fieldsOfExpr])) span
    · exact Makes.commaSeparated (sqlLevels_forward f limit) (calls.expression 0)
  refine makes_then fun _ => makes_then fun _ => each.bind fun arguments low => makes_then fun _ => ?_
  exact ExprKind.Low.spanned (ExprKind.low_of_fields (by simpa [Node.fieldsOfExpr] using low)) p

theorem nameExpression_shallow (some : 1 ≤ c) :
    nameExpression.MakesFrom (sqlLevels f limit) (Expr.ShallowFrom (c + 1)) := by
  refine makesFrom_start fun p => makes_then fun name => makes_then fun _ => Makes.ite ?_ ?_
  · exact functionCall_shallow calls some name p
  refine Makes.bind (P := ExprKind.Low c) ?_ fun kind low => low.spanned p
  have low {kind : ExprKind} (names : ∀ field ∈ Node.fieldsOfExpr kind, ∀ p ∈ field, p.Shallow c) :
      (Pure.pure kind : SqlRule ExprKind).Makes (sqlLevels f limit) (ExprKind.Low c) :=
    makes_pure (ExprKind.low_of_fields names)
  refine makes_then fun _ => Makes.ite (makes_then fun _ => Makes.ite ?_ ?_) ?_
  · exact low (by simp [Node.fieldsOfExpr])
  · exact makes_then fun column => low (by simp [Node.fieldsOfExpr])
  · exact low (by simp [Node.fieldsOfExpr])

theorem castExpression_shallow :
    castExpression.MakesFrom (sqlLevels f limit) (Expr.ShallowFrom (c + 1)) := by
  refine makesFrom_start fun p => makes_then fun _ => makes_then fun _ => ?_
  refine (calls.expression 0).bind fun e shallow => ?_
  refine makes_then fun _ => makes_then fun type => makes_then fun _ => ?_
  exact ExprKind.Low.spanned (ExprKind.low_of_fields (by simpa [Node.fieldsOfExpr] using shallow)) p

theorem existsExpression_shallow :
    existsExpression.MakesFrom (sqlLevels f limit) (Expr.ShallowFrom (c + 1)) := by
  refine makesFrom_start fun p => makes_then fun _ => makes_then fun _ => ?_
  refine calls.query.bind fun query shallow => makes_then fun _ => ?_
  exact ExprKind.Low.spanned (ExprKind.low_of_fields (by simpa [Node.fieldsOfExpr] using shallow)) p

theorem whenClause_shallow :
    whenClause.Makes (sqlLevels f limit) fun w => (Node.whenClause w).Shallow c := by
  refine makes_then fun _ => makes_then fun _ => (calls.expression 0).bind fun condition holds => ?_
  refine makes_then fun _ => (calls.expression 0).bind fun result holds' => makes_then fun _ => ?_
  exact makes_pure (.light rfl (by simp [Node.parts, Node.fields, holds, holds']))

theorem caseExpression_shallow :
    caseExpression.MakesFrom (sqlLevels f limit) (Expr.ShallowFrom (c + 1)) := by
  have forward := sqlLevels_forward f limit
  refine makesFrom_start fun p => makes_then fun _ => ?_
  refine Makes.bind (P := fun operand : Option Expr => ∀ e ∈ operand, (Node.expr e).Shallow c) ?_
    fun operand low => ?_
  · refine makes_then fun _ => Makes.ite (makes_pure (by simp)) ?_
    exact (calls.expression 0).bind fun e shallow => makes_pure (by simpa using shallow)
  refine (Makes.many forward (whenClause_shallow calls)).bind fun clauses each => ?_
  refine Makes.ite (makes_failAny _) ?_
  refine Makes.bind (P := fun last : Option Expr => ∀ e ∈ last, (Node.expr e).Shallow c) ?_
    fun last low' => makes_then fun _ => ?_
  · refine makes_then fun _ => Makes.ite ?_ (makes_pure (by simp))
    exact (calls.expression 0).bind fun e shallow => makes_pure (by simpa using shallow)
  · refine ExprKind.Low.spanned (ExprKind.low_of_fields ?_) p
    simp only [Node.fieldsOfExpr, List.forall_mem_cons, List.forall_mem_map, Option.mem_toList]
    exact ⟨low, each, low', by simp⟩

theorem keywordForm_shallow (some : 1 ≤ c) (reserved : Bool) {form : SqlRule Expr}
    (makes : form.MakesFrom (sqlLevels f limit) (Expr.ShallowFrom (c + 1))) :
    (keywordForm reserved form).MakesFrom (sqlLevels f limit) (Expr.ShallowFrom (c + 1)) := by
  unfold keywordForm
  split
  · exact makes
  · refine makesFrom_choice (sqlLevels_forward f limit) (List.forall_mem_cons.mpr ⟨makes, ?_⟩)
    exact List.forall_mem_singleton.mpr (nameExpression_shallow calls some)

omit calls in
/-- Where a word is not found nothing is consumed. -/
theorem eatKeyword_stays (k : Keyword) {s : Tape} :
    (eatKeyword k : SqlRule Bool).Yields (sqlLevels f limit) s fun found after =>
      found = false → after = s := by
  simp only [eatKeyword, yields_bind, yields_checkKeyword, yields_ite, yields_pure]
  intro t _
  split
  · exact yields_of_forall fun _ _ found => by cases found
  · simp

omit calls in
/-- Where no literal is found nothing is consumed. -/
theorem literalWord?_stays {s : Tape} : literalWord?.Yields (sqlLevels f limit) s fun value after =>
    value = none → after = s := by
  have next {k : Keyword} {value : Literal} {other : SqlRule (Option Literal)}
      (rest : other.Yields (sqlLevels f limit) s fun value after => value = none → after = s) :
      (do if ← eatKeyword k then return some value else other).Yields (sqlLevels f limit) s
        fun value after => value = none → after = s := by
    refine yields_bind.mpr ((eatKeyword_stays k).mono fun found after stays => ?_)
    cases found with
    | true => exact (yields_pure _).mpr fun none => by cases none
    | false => exact stays rfl ▸ rest
  exact next (next (next ((yields_pure _).mpr fun _ => rfl)))

/-- What starts with a word is read from the place where the word stands. -/
theorem wordExpression_shallow (some : 1 ≤ c) {s : Tape} {t : Token} (peek : s.peek = .ok t) :
    (wordExpression t.span.start).Yields (sqlLevels f limit) s fun e _ =>
      e.ShallowFrom (c + 1) t.span.start := by
  simp only [wordExpression, yields_bind, yields_peek, yields_checkKeyword, yields_ite]
  intro _ _ _ _
  split
  · exact keywordForm_shallow calls some _ (caseExpression_shallow calls) s t peek
  intro _ _
  split
  · exact keywordForm_shallow calls some _ (castExpression_shallow calls) s t peek
  intro _ _
  split
  · exact keywordForm_shallow calls some _ (existsExpression_shallow calls) s t peek
  refine literalWord?_stays.mono fun value after stays => ?_
  cases value with
  | some value => exact ExprKind.Low.spanned (ExprKind.low_of_fields (by simp [Node.fieldsOfExpr])) _ _
  | none =>
    obtain rfl := stays rfl
    refine yields_bind.mpr (yields_peek.mpr fun u _ => ?_)
    split
    · rw [yields_ite]
      split
      · exact yields_then fun _ after => functionCall_shallow calls some _ _ after
      · exact (yields_failAny _).mpr trivial
    · exact nameExpression_shallow calls some _ t peek

/-- An expression without operators is higher by one than what is read for it one level deeper. -/
theorem primary_shallow (some : 1 ≤ c) :
    primary.MakesFrom (sqlLevels f limit) (Expr.ShallowFrom (c + 1)) := by
  have leaf {kind : ExprKind} (none : (Node.fieldsOfExpr kind).flatten = []) (p : Position) :
      (do return ⟨kind, ← spanFrom p⟩ : SqlRule Expr).Makes (sqlLevels f limit)
        (Expr.ShallowFrom (c + 1) p) :=
    ExprKind.Low.spanned (fun _ mem => by simp [none] at mem) p
  have alone {kind : ExprKind} (none : (Node.fieldsOfExpr kind).flatten = []) (p : Position) :
      (single p kind).Makes (sqlLevels f limit) (Expr.ShallowFrom (c + 1) p) :=
    makes_then fun _ => leaf none p
  intro s t peek
  refine yields_bind.mpr (yields_start.mpr fun u peek' => ?_)
  obtain rfl := Except.ok.inj (peek.symm.trans peek')
  refine yields_bind.mpr (yields_peek.mpr fun u _ => ?_)
  split
  · exact alone rfl _ s
  · exact alone rfl _ s
  · exact alone rfl _ s
  · exact alone rfl _ s
  · exact alone rfl _ s
  · exact makes_then (fun _ => makes_then fun _ => leaf rfl _) s
  · exact makes_then (fun _ => makes_then fun _ => leaf rfl _) s
  · refine makes_then (fun _ => ?_) s
    refine Makes.bind (P := ExprKind.Low c) (makes_then fun _ => Makes.ite ?_ ?_) fun kind low =>
      makes_then fun _ => low.spanned _
    · refine calls.query.bind fun query shallow => makes_pure (ExprKind.low_of_fields ?_)
      simpa [Node.fieldsOfExpr] using shallow
    · refine (calls.expression 0).bind fun e shallow => makes_pure (ExprKind.low_of_fields ?_)
      simpa [Node.fieldsOfExpr] using shallow
  · exact wordExpression_shallow calls some peek
  · exact wordExpression_shallow calls some peek
  · exact (yields_failAny _).mpr trivial

omit calls in
/-- Neither a NOT nor an EXISTS that it turns around is higher than its operand by more than one. -/
theorem negated_low {operand : Expr} (shallow : (Node.expr operand).Shallow c) :
    (negated operand).Low c := by
  unfold negated
  split
  · rename_i query _ exists?
    refine ExprKind.low_of_fields ?_
    have inside : .select query ∈ (Node.expr operand).parts := by
      simp [Node.parts, Node.fields, exists?, Node.fieldsOfExpr]
    simpa [Node.fieldsOfExpr] using shallow.part inside
  · exact ExprKind.low_of_fields (by simpa [Node.fieldsOfExpr] using shallow)

theorem prefixed_shallow (some : 1 ≤ c) :
    prefixed.MakesFrom (sqlLevels f limit) (Expr.ShallowFrom (c + 1)) := by
  intro s t peek
  refine yields_bind.mpr (yields_start.mpr fun u peek' => ?_)
  obtain rfl := Except.ok.inj (peek.symm.trans peek')
  refine yields_bind.mpr (yields_peek.mpr fun u _ => ?_)
  split
  · refine makes_then (fun _ => (calls.expression _).bind fun operand shallow => ?_) s
    exact ExprKind.Low.spanned (ExprKind.low_of_fields (by simpa [Node.fieldsOfExpr] using shallow)) _
  · refine yields_bind.mpr ((eatKeyword_stays .NOT).mono fun found after stays => ?_)
    cases found with
    | true => exact (calls.expression _).bind (fun operand shallow => (negated_low shallow).spanned _) after
    | false =>
      obtain rfl := stays rfl
      exact primary_shallow calls some _ t peek

/-- An expression is higher by one than what is read for it one level of nesting deeper, however many
operators it has. -/
theorem expressionBody_shallow (some : 1 ≤ c) (power : Nat) :
    (expressionBody f power).Makes (sqlLevels f limit) fun e => (Node.expr e).Shallow (c + 1) := by
  intro s
  refine yields_bind.mpr (yields_start.mpr fun t peek => ?_)
  refine yields_bind.mpr ((prefixed_shallow calls some s t peek).mono fun first after holds => ?_)
  refine Makes.mono (makes_loop (sqlLevels_forward f limit) _ holds fun left kept => ?_)
    (fun e (kept : e.ShallowFrom (c + 1) t.span.start) => kept.shallow) after
  refine makes_then fun op => ?_
  cases op with
  | none => exact makes_pure (by simp)
  | some op =>
    refine Makes.ite (makes_pure (by simp)) ((infixed_shallow calls op kept.shallow).bind fun kind low => ?_)
    refine (makes_spanFrom _).bind fun span start => makes_pure ?_
    rintro _ ⟨⟩
    exact ⟨low span (start.trans kept.start.symm), start⟩

end

end

end SqlTree
