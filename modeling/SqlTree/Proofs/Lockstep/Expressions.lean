import SqlTree.Proofs.Lockstep.Types
import SqlTree.Proofs.Tree.Expressions

namespace SqlTree

open Rule SqlRule

/-- What the rules that may be called from inside others do one level of nesting deeper. -/
structure CallsMatch {L : Likeness} (texts : Facing L) (f : Features) (limit : Nat) : Prop where
  expression : ∀ power, Matches texts (sqlLevels f limit) (call (.expression power)) (Expr.Like L)
  query : Matches texts (sqlLevels f limit) (call .query) (SelectStatement.Like L)
  joinGroup : Matches texts (sqlLevels f limit) (call .joinGroup) (TableRef.Like L)

variable {L : Likeness} {texts : Facing L} {f : Features} {limit i : Nat}

/-- An expression with operators of any power, one level of nesting deeper. -/
theorem CallsMatch.any (calls : CallsMatch texts f limit) :
    Matches texts (sqlLevels f limit) SqlRule.expression (Expr.Like L) := calls.expression 0

/-- Both runs see the same predicate, which is no token by itself. -/
theorem predicate?_matches (negated : Bool) :
    Matches texts (sqlLevels f limit) (predicate? f negated) fun op op' =>
      op = op' ∧ ∀ o, op ≠ some (.binary o) := by
  have found {op : InfixOp} (no : ∀ o, op ≠ .binary o) (i : Nat) :
      Mirrors texts (sqlLevels f limit) i (Pure.pure (some op) : SqlRule (Option InfixOp))
        (Pure.pure (some op)) fun _ op op' => op = op' ∧ ∀ o, op ≠ some (.binary o) :=
    mirrors_pure ⟨rfl, fun o same => no o (Option.some.inj same)⟩
  refine fun _ => (Matches.choose (matches_pure rfl) (matches_checkKeyword _)).ite
    (found nofun) fun _ => ?_
  refine (matches_checkKeyword _).ite (found nofun) fun _ => ?_
  refine (matches_checkKeyword _).ite (found nofun) fun _ => ?_
  refine (matches_checkKeyword _).ite (found nofun) fun _ => ?_
  exact (Matches.choose (matches_checkKeyword _) (matches_pure rfl)).ite (found nofun)
    fun _ => mirrors_pure ⟨rfl, nofun⟩

/-- Both runs see the same predicate, perhaps behind NOT. -/
theorem wordOp_mirrors : Mirrors texts (sqlLevels f limit) i (do
      if ← checkKeyword .NOT then
        lookahead do
          let _ ← bump
          predicate? f true
      else predicate? f false)
    (do
      if ← checkKeyword .NOT then
        lookahead do
          let _ ← bump
          predicate? f true
      else predicate? f false) fun j op op' => op = op' ∧
        ∀ o, op = some (.binary o) → (texts.left.tokenAt j).kind.binaryOp? = some o := by
  refine checkKeyword_bind fun found spells => ?_
  cases found with
  | true =>
    have negated : Mirrors texts (sqlLevels f limit) i (do let _ ← bump; predicate? f true)
        (do let _ ← bump; predicate? f true) fun _ op op' => op = op' ∧ ∀ o, op ≠ some (.binary o) :=
      bump_bind (Token.isEof_of_spells (spells rfl)) fun _ => predicate?_matches true _
    exact negated.lookahead fun _ _ _ ⟨same, no⟩ => ⟨same, fun o binary => absurd binary (no o)⟩
  | false =>
    exact (predicate?_matches false _).mono fun _ _ _ ⟨same, no⟩ =>
      ⟨same, fun o binary => absurd binary (no o)⟩

/-- Both runs see the same operator; if it is a token by itself, it is the next one. -/
theorem infixOp?_mirrors : Mirrors texts (sqlLevels f limit) i (infixOp? f) (infixOp? f)
    fun j op op' => op = op' ∧
      ∀ o, op = some (.binary o) → (texts.left.tokenAt j).kind.binaryOp? = some o := by
  refine peek_cases (fun kind text span span' here _ => ?_) fun _ _ _ _ _ _ => wordOp_mirrors
  dsimp only
  split
  · rename_i op binary
    refine mirrors_pure ⟨rfl, ?_⟩
    rintro o ⟨⟩
    rw [here, binary]
  · split
    · split
      · exact mirrors_pure ⟨rfl, by rintro _ ⟨⟩⟩
      · exact mirrors_pure ⟨rfl, by rintro _ ⟨⟩⟩
    · exact wordOp_mirrors

/-- Both runs go on with the same operator behind operands that say the same. -/
theorem infixed_mirrors (calls : CallsMatch texts f limit) (op : InfixOp) {left left' : Expr}
    (like : left.Like L left')
    (ahead : ∀ o, op = .binary o → (texts.left.tokenAt i).kind.binaryOp? = some o) :
    Mirrors texts (sqlLevels f limit) i (infixed op left) (infixed op left')
      fun _ => ExprKind.Like L := by
  cases op with
  | binary o =>
    refine bump_bind (Token.isEof_of_binaryOp? (ahead o rfl)) fun _ => ?_
    exact (calls.expression _).bind fun _ _ _ right => mirrors_pure (.binary o like right)
  | isNull =>
    refine (matches_expectKeyword _).bind fun _ _ _ _ => (matches_eatKeyword _).bind ?_
    rintro _ negated _ rfl
    exact (matches_expectKeyword _).bind fun _ _ _ _ => mirrors_pure (.isNull negated like)
  | inList negated =>
    have list : Matches texts (sqlLevels f limit) (do
        if ← checkKeyword .SELECT then return InList.subquery (← selectStatement)
        else return .values (← commaSeparated expression)) (InList.Like L) :=
      fun _ => (matches_checkKeyword _).ite (calls.query.map fun _ _ like => .subquery like)
        (calls.any.commaSeparated.map fun _ _ likes => .values likes)
    refine (negation_matches negated).bind fun _ _ _ _ => ?_
    refine (matches_expectKeyword _).bind fun _ _ _ _ => (matches_expect rfl).bind fun _ _ _ _ => ?_
    refine list.bind fun _ _ _ likeList => ?_
    exact (matches_expect rfl).bind fun _ _ _ _ => mirrors_pure (.inList negated like likeList)
  | between negated =>
    refine (negation_matches negated).bind fun _ _ _ _ => ?_
    refine (matches_expectKeyword _).bind fun _ _ _ _ => ?_
    refine (calls.expression _).bind fun _ _ _ low => ?_
    refine (matches_expectKeyword _).bind fun _ _ _ _ => ?_
    exact (calls.expression _).bind fun _ _ _ high => mirrors_pure (.between negated like low high)
  | like caseInsensitive negated =>
    refine (negation_matches negated).bind fun _ _ _ _ => ?_
    refine (matches_expectKeyword _).bind fun _ _ _ _ => ?_
    exact (calls.expression _).bind fun _ _ _ pattern =>
      mirrors_pure (.like caseInsensitive negated like pattern)
  | cast =>
    refine (matches_expect rfl).bind fun _ _ _ _ => ?_
    exact dataType_matches.bind fun _ _ _ type => mirrors_pure (.cast like type)

/-- A call behind the same name. -/
theorem functionCall_mirrors (calls : CallsMatch texts f limit) {name name' : Ident}
    {start start' : Position} (like : name.Like L name') (starts : texts.Starts start start') :
    Mirrors texts (sqlLevels f limit) i (functionCall name start) (functionCall name' start')
      fun _ => Expr.Like L := by
  have arguments : Matches texts (sqlLevels f limit) (do
      if ← check .rightParen then return []
      else if ← check .star then
        let star ← Rule.start
        let _ ← bump
        return [⟨.wildcard none, ← spanFrom star⟩]
      else commaSeparated expression) (List.Forall₂ (Expr.Like L)) := by
    refine fun i => (matches_check (.inr rfl)).ite (fun _ => mirrors_pure .nil) fun i => ?_
    refine check_bind (.inr rfl) fun found here => ?_
    cases found with
    | true =>
      refine start_bind (bump_bind (TokenKind.sameKind_eof (here rfl) rfl) fun lt => ?_)
      refine spanFrom_bind ⟨i, Nat.le_of_lt lt, rfl, rfl⟩ fun _ _ span => ?_
      exact mirrors_pure (.cons (.mk (.wildcard .none) span) .nil)
    | false => exact calls.any.commaSeparated i
  refine (matches_expect rfl).bind fun _ _ _ _ => (matches_eatKeyword _).bind ?_
  rintro _ distinct _ rfl
  refine arguments.bind fun _ _ _ likes => (matches_expect rfl).bind fun _ _ _ _ => ?_
  exact spanFrom_bind starts fun _ _ span => mirrors_pure (.mk (.call distinct like likes) span)

/-- A name stands for the same call, column or column of a table in both texts. -/
theorem nameExpression_matches (calls : CallsMatch texts f limit) :
    Matches texts (sqlLevels f limit) nameExpression (Expr.Like L) := by
  have behind {name name' : Ident} (like : name.Like L name') (i : Nat) :
      Mirrors texts (sqlLevels f limit) i (do
          if ← eat .dot then
            if ← eat .star then return ExprKind.wildcard (some name)
            else return .column (some name) (← identifier)
          else return .column none name)
        (do
          if ← eat .dot then
            if ← eat .star then return ExprKind.wildcard (some name')
            else return .column (some name') (← identifier)
          else return .column none name') fun _ => ExprKind.Like L := by
    refine (matches_eat rfl).ite (fun _ => ?_) fun _ => mirrors_pure (.column .none like)
    refine (matches_eat rfl).ite (fun _ => mirrors_pure (.wildcard (.some like))) fun _ => ?_
    exact identifier_matches.bind fun _ _ _ column => mirrors_pure (.column (.some like) column)
  refine fun _ => matches_start.bind fun _ _ _ starts => ?_
  refine identifier_matches.bind fun _ _ _ like => ?_
  refine (matches_check (.inr rfl)).ite (fun _ => functionCall_mirrors calls like starts) fun i => ?_
  exact (behind like i).bind fun _ _ _ kind =>
    spanFrom_bind starts fun _ _ span => mirrors_pure (.mk kind span)

theorem castExpression_matches (calls : CallsMatch texts f limit) :
    Matches texts (sqlLevels f limit) castExpression (Expr.Like L) := by
  refine fun _ => matches_start.bind fun _ _ _ starts => ?_
  refine (matches_expectKeyword _).bind fun _ _ _ _ => (matches_expect rfl).bind fun _ _ _ _ => ?_
  refine calls.any.bind fun _ _ _ like => (matches_expectKeyword _).bind fun _ _ _ _ => ?_
  refine dataType_matches.bind fun _ _ _ type => (matches_expect rfl).bind fun _ _ _ _ => ?_
  exact spanFrom_bind starts fun _ _ span => mirrors_pure (.mk (.cast like type) span)

theorem existsExpression_matches (calls : CallsMatch texts f limit) :
    Matches texts (sqlLevels f limit) existsExpression (Expr.Like L) := by
  refine fun _ => matches_start.bind fun _ _ _ starts => ?_
  refine (matches_expectKeyword _).bind fun _ _ _ _ => (matches_expect rfl).bind fun _ _ _ _ => ?_
  refine calls.query.bind fun _ _ _ like => (matches_expect rfl).bind fun _ _ _ _ => ?_
  exact spanFrom_bind starts fun _ _ span => mirrors_pure (.mk (.existsQuery false like) span)

theorem whenClause_matches (calls : CallsMatch texts f limit) :
    Matches texts (sqlLevels f limit) whenClause (WhenClause.Like L) := by
  refine fun _ => matches_start.bind fun _ _ _ starts => ?_
  refine (matches_expectKeyword _).bind fun _ _ _ _ => calls.any.bind fun _ _ _ condition => ?_
  refine (matches_expectKeyword _).bind fun _ _ _ _ => calls.any.bind fun _ _ _ result => ?_
  exact spanFrom_bind starts fun _ _ span => mirrors_pure (.mk condition result span)

theorem caseExpression_matches (calls : CallsMatch texts f limit) :
    Matches texts (sqlLevels f limit) caseExpression (Expr.Like L) := by
  have operand : Matches texts (sqlLevels f limit) (do
      if ← checkKeyword .WHEN then return none else return some (← expression))
      (Option.Rel (Expr.Like L)) :=
    fun _ => (matches_checkKeyword _).ite (matches_pure .none)
      (calls.any.map fun _ _ like => .some like)
  refine fun _ => matches_start.bind fun _ _ _ starts => ?_
  refine (matches_expectKeyword _).bind fun _ _ _ _ => operand.bind fun _ _ _ likeOperand => ?_
  refine (whenClause_matches calls).many.bind fun _ clauses clauses' likes => ?_
  cases likes with
  | nil => exact mirrors_failAny _
  | cons first rest =>
    refine calls.any.behindKeyword.bind fun _ _ _ likeElse => ?_
    refine (matches_expectKeyword _).bind fun _ _ _ _ => ?_
    exact spanFrom_bind starts fun _ _ span =>
      mirrors_pure (.mk (.caseWhen likeOperand (.cons first rest) likeElse) span)

/-- A form that a word begins is read only where the word may begin it, which both runs see. -/
theorem keywordForm_matches (calls : CallsMatch texts f limit) {form : SqlRule Expr} (reserved : Bool)
    (fits : Matches texts (sqlLevels f limit) form (Expr.Like L)) :
    Matches texts (sqlLevels f limit) (keywordForm reserved form) (Expr.Like L) := by
  unfold keywordForm
  split
  · exact fits
  · refine matches_choice ?_
    simp only [List.forall_mem_cons, List.not_mem_nil, false_implies, implies_true, and_true]
    exact ⟨fits, nameExpression_matches calls⟩

theorem literalWord?_matches : Matches texts (sqlLevels f limit) literalWord? Eq := by
  refine matches_ifEaten (matches_pure rfl) (matches_ifEaten (matches_pure rfl) ?_)
  exact matches_ifEaten (matches_pure rfl) (matches_pure rfl)

theorem wordExpression_mirrors (calls : CallsMatch texts f limit) {start start' : Position}
    (starts : texts.Starts start start') :
    Mirrors texts (sqlLevels f limit) i (wordExpression start) (wordExpression start')
      fun _ => Expr.Like L := by
  refine peek_bind fun meets => ?_
  rw [meets.isKeyword]
  refine (matches_checkKeyword _).ite (keywordForm_matches calls _ (caseExpression_matches calls))
    fun _ => ?_
  refine (matches_checkKeyword _).ite (keywordForm_matches calls _ (castExpression_matches calls))
    fun _ => ?_
  refine (matches_checkKeyword _).ite (keywordForm_matches calls _ (existsExpression_matches calls))
    fun _ => ?_
  refine literalWord?_matches.bind ?_
  rintro _ literal _ rfl
  cases literal with
  | some value => exact spanFrom_bind starts fun _ _ span => mirrors_pure (.mk (.literal value) span)
  | none =>
    refine peek_cases (fun kind text span span' here spans => ?_)
      fun _ _ _ _ _ _ => nameExpression_matches calls _
    have same : (⟨kind, text, span'⟩ : Token).keyword? = (⟨kind, text, span⟩ : Token).keyword? := rfl
    rw [same]
    cases word : (⟨kind, text, span⟩ : Token).keyword? with
    | none => exact nameExpression_matches calls _
    | some k =>
      dsimp only
      split
      · refine bump_bind ?_ fun lt => functionCall_mirrors calls ⟨rfl, rfl, spans lt⟩ starts
        rw [here]
        cases kind <;> first | rfl | cases word
      · exact mirrors_failAny _

/-- A token that is an operand by itself. -/
theorem single_mirrors {start start' : Position} {kind : ExprKind} (like : kind.Like L kind)
    (notEof : (texts.left.tokenAt i).isEof = false) (starts : texts.Starts start start') :
    Mirrors texts (sqlLevels f limit) i (single start kind) (single start' kind)
      fun _ => Expr.Like L :=
  bump_bind notEof fun _ => spanFrom_bind starts fun _ _ span => mirrors_pure (.mk like span)

/-- Operands without operators are read alike. -/
theorem primary_matches (calls : CallsMatch texts f limit) :
    Matches texts (sqlLevels f limit) primary (Expr.Like L) := by
  have inner : Matches texts (sqlLevels f limit) (do
      if ← checkKeyword .SELECT then return ExprKind.subquery (← selectStatement)
      else return .paren (← expression)) (ExprKind.Like L) :=
    fun _ => (matches_checkKeyword _).ite (calls.query.map fun _ _ like => .subquery like)
      (calls.any.map fun _ _ like => .paren like)
  refine fun _ => matches_start.bind fun _ _ _ starts => ?_
  refine peek_cases (fun kind text span span' here _ => ?_) fun _ _ _ _ _ _ => mirrors_failAny _
  dsimp only
  split
  · exact single_mirrors (.literal _) (by rw [here]; rfl) starts
  · exact single_mirrors (.literal _) (by rw [here]; rfl) starts
  · exact single_mirrors (.literal _) (by rw [here]; rfl) starts
  · exact single_mirrors (.literal _) (by rw [here]; rfl) starts
  · exact single_mirrors (.wildcard .none) (by rw [here]; rfl) starts
  · refine bump_bind (by rw [here]; rfl) fun _ => ?_
    have numbers {i : Nat} : Mirrors texts (sqlLevels f limit) i nextParam nextParam
        fun _ n n' => n = n' + L.shift := mirrors_nextParam fun _ => rfl
    refine numbers.bind ?_
    rintro _ _ number rfl
    exact spanFrom_bind starts fun _ _ span => mirrors_pure (.mk (.positional number) span)
  · refine bump_bind (by rw [here]; rfl) fun _ => ?_
    refine identifier_matches.bind fun _ name name' like => spanFrom_bind starts fun _ _ span => ?_
    rw [like.value]
    exact mirrors_pure (.mk (.named _) span)
  · refine bump_bind (by rw [here]; rfl) fun _ => inner.bind fun _ _ _ like => ?_
    refine (matches_expect rfl).bind fun _ _ _ _ => ?_
    exact spanFrom_bind starts fun _ _ span => mirrors_pure (.mk like span)
  · exact wordExpression_mirrors calls starts
  · exact wordExpression_mirrors calls starts
  · exact mirrors_failAny _

/-- NOT turns around what says the same into what says the same. -/
theorem negated_like {operand operand' : Expr} (like : operand.Like L operand') :
    (negated operand).Like L (negated operand') := by
  obtain ⟨kind, span⟩ := like
  cases kind with
  | existsQuery negated query => exact .existsQuery (!negated) query
  | _ => exact .unary .not (.mk (by constructor <;> assumption) span)

/-- An operand without a sign in front of it. -/
theorem unsigned_mirrors (calls : CallsMatch texts f limit) {start start' : Position}
    (starts : texts.Starts start start') : Mirrors texts (sqlLevels f limit) i (do
        if ← eatKeyword .NOT then
          let operand ← call (.expression notPower)
          return ⟨negated operand, ← spanFrom start⟩
        else primary)
      (do
        if ← eatKeyword .NOT then
          let operand ← call (.expression notPower)
          return ⟨negated operand, ← spanFrom start'⟩
        else primary) fun _ => Expr.Like L := by
  refine (matches_eatKeyword _).ite (fun _ => ?_) (primary_matches calls)
  refine (calls.expression _).bind fun _ _ _ like => ?_
  exact spanFrom_bind starts fun _ _ span => mirrors_pure (.mk (negated_like like) span)

theorem prefixed_matches (calls : CallsMatch texts f limit) :
    Matches texts (sqlLevels f limit) prefixed (Expr.Like L) := by
  refine fun _ => matches_start.bind fun _ _ _ starts => ?_
  refine peek_cases (fun kind text span span' here _ => ?_)
    fun _ _ _ _ _ _ => unsigned_mirrors calls starts
  dsimp only
  split
  · rename_i op sign
    have notEof : (⟨kind, text, span⟩ : Token).isEof = false := by
      cases kind <;> first | rfl | cases sign
    refine bump_bind (by rw [here, notEof]) fun _ => ?_
    refine (calls.expression _).bind fun _ _ _ like => ?_
    exact spanFrom_bind starts fun _ _ span => mirrors_pure (.mk (.unary op like) span)
  · exact unsigned_mirrors calls starts

/-- Expressions with all their operators are read alike. -/
theorem expressionBody_matches (calls : CallsMatch texts f limit) (power : Nat) :
    Matches texts (sqlLevels f limit) (expressionBody f power) (Expr.Like L) := by
  refine fun _ => matches_start.bind fun _ _ _ starts => ?_
  refine (prefixed_matches calls).bind fun _ _ _ like => ?_
  refine Mirrors.loop like fun i left left' like => ?_
  refine infixOp?_mirrors.bind ?_
  rintro j op _ ⟨rfl, ahead⟩
  cases op with
  | none => exact mirrors_pure (.stop like)
  | some op =>
    dsimp only
    split
    · exact mirrors_pure (.stop like)
    · refine (infixed_mirrors calls op like fun o same => ahead o (congrArg some same)).bind ?_
      exact fun _ _ _ kind => spanFrom_bind starts fun _ _ span => mirrors_pure (.next (.mk kind span))

end SqlTree
