import SqlTree.Proofs.Reading.Awaits
import SqlTree.Proofs.Scripts.Closes
import SqlTree.Proofs.Tree.Expressions

namespace SqlTree

open Rule SqlRule

section

variable {f : Features} {tokens : List Token} {limit : Nat}

/-- Names have no parentheses. -/
theorem identifier_nests : Nests f tokens limit identifier := by
  intro s along
  refine yields_bind.mpr (yields_peek.mpr fun t shown => ?_)
  split
  · rename_i kind
    exact bump_closes along shown (by rw [kind]; rfl) fun _ => nests_pure _
  · exact (yields_failAny _).mpr trivial

theorem identifierList_nests : Nests f tokens limit identifierList := identifier_nests.parenthesizedList

theorem objectName_nests : Nests f tokens limit objectName := by
  refine nests_start.bind fun _ => identifier_nests.bind fun _ => (nests_eat rfl).bind fun _ => ?_
  refine Closes.ite ?_ ((nests_spanFrom _).map _)
  exact identifier_nests.bind fun _ => (nests_spanFrom _).map _

theorem eatWord_nests (word : String) : Nests f tokens limit (eatWord word) := by
  intro s along
  refine yields_bind.mpr (yields_peek.mpr fun t shown => ?_)
  split
  · rename_i kind
    split
    · exact bump_closes along shown (by rw [kind]; rfl) fun _ => nests_pure _
    · exact nests_pure _ s along
  · exact nests_pure _ s along

theorem integerUpTo_nests (most : Nat) (what : String) : Nests f tokens limit (integerUpTo most what) := by
  intro s along
  refine yields_bind.mpr (yields_peek.mpr fun t shown => ?_)
  split
  · rename_i kind
    split
    · exact bump_closes along shown (by rw [kind]; rfl) fun _ => nests_pure _
    · exact (yields_failAny _).mpr trivial
  · exact (yields_failAny _).mpr trivial

/-- The parentheses of the arguments of a type close each other. -/
theorem lengthArgument_nests : Nests f tokens limit lengthArgument := by
  refine closes_ifLeft ((integerUpTo_nests _ _).bind fun _ => ?_) (nests_pure _)
  exact closes_right fun _ => nests_pure _

theorem scaleArguments_nests : Nests f tokens limit scaleArguments := by
  have scale : Nests f tokens limit (do
      if ← eat .comma then return some (← integerUpTo 0xFFFF "scale") else return none) :=
    (nests_eat rfl).bind fun _ => ((integerUpTo_nests _ _).map _).ite (nests_pure _)
  refine closes_ifLeft ((integerUpTo_nests _ _).bind fun _ => scale.bind fun _ => ?_) (nests_pure _)
  exact closes_right fun _ => nests_pure _

/-- The first word of a type, or another one, is consumed where it is one. -/
theorem typeWord?_closes {α : Type} {isFirst : Bool} {missing : SqlRule α}
    {found : String → Token → SqlRule α} (absent : Nests f tokens limit missing)
    (present : ∀ word t, Nests f tokens limit (found word t)) {next : Option String → SqlRule α}
    (none : next none = missing) (some : ∀ word, next (some word) = bump >>= found word) :
    Nests f tokens limit (typeWord? isFirst >>= next) := by
  intro s along
  have take {t : Token} (shown : s.peek = .ok t) (plain : t.kind.isPlain = true) (c : Bool)
      (word : String) : (Pure.pure (if c then Option.some word else Option.none) >>= next).Yields
        (sqlLevels f limit) s fun _ after => s.Closes 0 after := by
    rw [yields_bind, yields_pure]
    split
    · rw [some]
      exact bump_closes along shown plain (present word)
    · rw [none]
      exact absent s along
  refine yields_bind.mpr (yields_bind.mpr (yields_peek.mpr fun t shown => ?_))
  split
  · rename_i kind
    exact yields_bind.mp (take shown (by rw [kind]; rfl) _ _)
  · rename_i kind
    exact yields_bind.mp (take shown (by rw [kind]; rfl) _ _)
  · rw [yields_pure, none]
    exact absent s along

/-- Tokens were consumed from a tape on that leave `depth` parentheses open. -/
def Tape.Opens (s : Tape) (depth : Nat) (after : Tape) : Prop :=
  ∃ used, s.Moves used after ∧ ∀ outer, openBehind outer used = some (outer + depth)

/-- One more token, by which parentheses may be opened or closed. -/
theorem Tape.Opens.moves {s mid after : Tape} {depth depth' : Nat} {t : Token}
    (opens : s.Opens depth mid) (moves : mid.Moves [t] after)
    (one : ∀ outer, openBehind (outer + depth) [t] = some (outer + depth')) : s.Opens depth' after := by
  obtain ⟨used, moves', nested⟩ := opens
  refine ⟨used ++ [t], moves'.trans moves, fun outer => ?_⟩
  rw [openBehind_append, nested]
  exact one outer

/-- Tokens are consumed until the parenthesis is closed that comes first. -/
theorem balanced_closes {s : Tape} {t : Token} (along : s.Along tokens) (shown : s.peek = .ok t)
    (left : t.kind = .leftParen) :
    balanced.Yields (sqlLevels f limit) s fun _ after => s.Closes 0 after := by
  refine yields_bind.mpr (Rule.Yields.mono (yields_loop_until
    (fun depth mid => s.Opens depth mid ∧ (depth = 0 → mid = s)) (fun _ after => s.Closes 0 after)
    (sqlLevels_forward f limit) ⟨⟨[], .refl s, fun _ => rfl⟩, fun _ => rfl⟩ ?_) fun _ _ closes => ?_)
  · rintro depth mid ⟨opens, start⟩
    have along' : mid.Along tokens := along.moves opens.choose_spec.1
    have first {u : Token} (shown' : mid.peek = .ok u) (other : u.kind ≠ .leftParen) : depth ≠ 0 := by
      intro zero
      rw [start zero, shown] at shown'
      cases shown'
      exact other left
    refine yields_bind.mpr (yields_peek.mpr fun u shown' => ?_)
    have take (notEof : u.isEof = false) {depth' : Nat}
        (one : ∀ outer, openBehind (outer + depth) [u] = some (outer + depth')) :
        (bump : SqlRule Token).Yields (sqlLevels f limit) mid fun _ after =>
          s.Opens depth' after ∧ mid.lastEnd.offset < after.lastEnd.offset :=
      along'.yields_bump shown' notEof fun after moves =>
        ⟨opens.moves moves one, along'.lastEnd_lt moves (by simp)⟩
    split
    · rename_i kind
      have one : ∀ outer, openBehind (outer + depth) [u] = some (outer + (depth + 1)) :=
        fun outer => openBehind_left kind
      exact yields_bind.mpr ((take (by rw [Token.isEof, kind]; rfl) one).mono fun _ after moved =>
        (yields_pure _).mpr ⟨⟨moved.1, fun zero => absurd zero (Nat.succ_ne_zero _)⟩, moved.2⟩)
    · rename_i kind
      obtain ⟨depth, rfl⟩ := Nat.exists_eq_succ_of_ne_zero (first shown' (by simp [kind]))
      have one : ∀ outer, openBehind (outer + (depth + 1)) [u] = some (outer + depth) :=
        fun outer => openBehind_right kind
      refine yields_bind.mpr ((take (by rw [Token.isEof, kind]; rfl) one).mono fun _ after moved =>
        (yields_pure _).mpr ?_)
      cases depth with
      | zero => exact moved.1
      | succ depth => exact ⟨⟨moved.1, fun zero => absurd zero (Nat.succ_ne_zero _)⟩, moved.2⟩
    · exact (yields_failAny _).mpr trivial
    · rename_i notLeft notRight notEof
      have one : ∀ outer, openBehind (outer + depth) [u] = some (outer + depth) :=
        fun outer => openBehind_other notLeft notRight
      refine yields_bind.mpr ((take (by simpa [Token.isEof] using notEof) one).mono fun _ after moved =>
        (yields_pure _).mpr ?_)
      rw [if_neg (first shown' notLeft)]
      exact ⟨⟨moved.1, fun zero => absurd zero (first shown' notLeft)⟩, moved.2⟩
  · exact (yields_pure _).mpr closes

/-- Arguments that are kept as written end where the parenthesis in front of them is closed. -/
theorem customType_nests (first : String) : Nests f tokens limit (customType first) := by
  refine (nests_loop (fun name => ?_) first).bind fun name => ?_
  · exact typeWord?_closes (nests_pure _) (fun _ _ => nests_pure _) rfl fun _ => rfl
  · intro s along
    refine yields_bind.mpr ((yields_check _).mpr fun t shown => ?_)
    split
    · have left := TokenKind.eq_of_sameKind_paren.1 ‹_›
      refine yields_bind.mpr (yields_start.mpr fun u _ => yields_bind.mpr ?_)
      refine (balanced_closes along shown left).mono fun _ mid first => ?_
      have rest : Nests f tokens limit (do
          let arguments ← slice (← spanFrom u.span.start)
          return DataType.custom (name ++ arguments)) :=
        (nests_spanFrom _).bind fun _ => (nests_slice _).map _
      exact (rest mid (first.along along)).mono fun _ _ => first.trans
    · exact nests_pure _ s along

theorem typeName_nests (first : String) : Nests f tokens limit (typeName first) := by
  unfold typeName
  split
  · exact (nests_eatKeyword _).map _
  · split
    · exact (eatWord_nests _).map _
    · exact nests_pure _

theorem dataType_nests : Nests f tokens limit dataType := by
  refine typeWord?_closes (fun _ _ => (yields_failAny _).mpr trivial) (fun _ _ => ?_) rfl fun _ => rfl
  refine (typeName_nests _).bind fun name => ?_
  cases DataType.argumentsOf name with
  | none => exact nests_pure _
  | length => exact lengthArgument_nests.map _
  | precisionScale => exact scaleArguments_nests.map _
  | verbatim => exact customType_nests _

end

/-- The rules that may be called again close what they open. -/
abbrev CallsNest (f : Features) (tokens : List Token) (limit : Nat) : Prop :=
  ∀ (α : Type) (name : Symbol α), Nests f tokens limit (call name)

/-- Operators have no parentheses in them. -/
theorem TokenKind.isPlain_of_binaryOp? {kind : TokenKind} {o : BinaryOp} (op : kind.binaryOp? = some o) :
    kind.isPlain = true := by
  cases kind <;> first | rfl | cases op

theorem TokenKind.isPlain_of_signOp? {kind : TokenKind} {o : UnaryOp} (op : kind.signOp? = some o) :
    kind.isPlain = true := by
  cases kind <;> first | rfl | cases op

theorem Token.isPlain_of_keyword? {t : Token} {k : Keyword} (word : t.keyword? = some k) :
    t.kind.isPlain = true := by
  rcases t with ⟨kind, text, span⟩
  cases kind <;> first | rfl | cases word

section

variable {f : Features} {tokens : List Token} {limit : Nat} {s : Tape}

theorem negation_nests (negated : Bool) : Nests f tokens limit (negation negated) :=
  ((nests_expectKeyword _).map _).ite (nests_pure _)

variable (calls : CallsNest f tokens limit)
include calls

/-- What an operator is followed by closes what it opens. -/
theorem infixed_nests {op : InfixOp} (left : Expr) (along : s.Along tokens)
    (ahead : (infixOp? f).read (sqlLevels f limit) s = (.ok (some op), s)) :
    (infixed op left).Yields (sqlLevels f limit) s fun _ after => s.Closes 0 after := by
  cases op with
  | binary o =>
    obtain ⟨t, shown, binary⟩ := infixOp?_binary _ _ ahead o rfl
    exact bump_closes along shown (TokenKind.isPlain_of_binaryOp? binary) fun _ => (calls _ _).map _
  | isNull =>
    refine Nests.bind (nests_expectKeyword _) (fun _ => ?_) s along
    exact (nests_eatKeyword _).bind fun _ => (nests_expectKeyword _).map _
  | inList negated =>
    refine (negation_nests negated).bind (fun _ => (nests_expectKeyword _).bind fun _ => ?_) s along
    refine closes_left fun _ => Nests.bind ?_ fun _ => closes_right fun _ => nests_pure _
    refine (nests_checkKeyword _).bind fun _ => ((calls _ _).map _).ite ?_
    exact (Nests.commaSeparated (calls _ _)).map _
  | between negated =>
    refine (negation_nests negated).bind (fun _ => (nests_expectKeyword _).bind fun _ => ?_) s along
    exact (calls _ _).bind fun _ => (nests_expectKeyword _).bind fun _ => (calls _ _).map _
  | like caseInsensitive negated =>
    refine (negation_nests negated).bind (fun _ => (nests_expectKeyword _).bind fun _ => ?_) s along
    exact (calls _ _).map _
  | cast => exact Nests.bind (nests_expect rfl) (fun _ => dataType_nests.map _) s along

/-- A call closes the parenthesis behind its name. -/
theorem functionCall_nests (name : Ident) (place : Position) :
    Nests f tokens limit (functionCall name place) := by
  refine closes_left fun _ => (nests_eatKeyword _).bind fun _ => Nests.bind ?_ fun _ => ?_
  · refine (nests_check _).bind fun _ => (nests_pure _).ite ?_
    intro s along
    refine yields_bind.mpr ((yields_check _).mpr fun t shown => ?_)
    split
    · have plain := TokenKind.isPlain_of_sameKind ‹_› rfl
      refine yields_bind.mpr (yields_start.mpr fun u _ => ?_)
      exact bump_closes along shown plain fun _ => (nests_spanFrom _).map _
    · exact Nests.commaSeparated (calls _ _) s along
  · exact closes_right fun _ => (nests_spanFrom _).map _

theorem nameExpression_nests : Nests f tokens limit nameExpression := by
  refine nests_start.bind fun _ => identifier_nests.bind fun _ => (nests_check _).bind fun _ => ?_
  refine (functionCall_nests calls _ _).ite (Nests.bind ?_ fun _ => (nests_spanFrom _).map _)
  refine (nests_eat rfl).bind fun _ => Closes.ite ?_ (nests_pure _)
  exact (nests_eat rfl).bind fun _ => (nests_pure _).ite (identifier_nests.map _)

theorem castExpression_nests : Nests f tokens limit castExpression := by
  refine nests_start.bind fun _ => (nests_expectKeyword _).bind fun _ => closes_left fun _ => ?_
  refine (calls _ _).bind fun _ => (nests_expectKeyword _).bind fun _ => dataType_nests.bind fun _ => ?_
  exact closes_right fun _ => (nests_spanFrom _).map _

theorem existsExpression_nests : Nests f tokens limit existsExpression := by
  refine nests_start.bind fun _ => (nests_expectKeyword _).bind fun _ => closes_left fun _ => ?_
  exact (calls _ _).bind fun _ => closes_right fun _ => (nests_spanFrom _).map _

theorem whenClause_nests : Nests f tokens limit whenClause := by
  refine nests_start.bind fun _ => (nests_expectKeyword _).bind fun _ => (calls _ _).bind fun _ => ?_
  exact (nests_expectKeyword _).bind fun _ => (calls _ _).bind fun _ => (nests_spanFrom _).map _

theorem caseExpression_nests : Nests f tokens limit caseExpression := by
  refine nests_start.bind fun _ => (nests_expectKeyword _).bind fun _ => Nests.bind ?_ fun _ => ?_
  · exact (nests_checkKeyword _).bind fun _ => (nests_pure _).ite ((calls _ _).map _)
  refine (whenClause_nests calls).many.bind fun _ => Closes.ite ?_ (Nests.bind ?_ fun _ => ?_)
  · exact fun _ _ => (yields_failAny _).mpr trivial
  · exact nests_ifEaten ((calls _ _).map _) (nests_pure _)
  · exact (nests_expectKeyword _).bind fun _ => (nests_spanFrom _).map _

theorem keywordForm_nests {form : SqlRule Expr} (reserved : Bool) (nests : Nests f tokens limit form) :
    Nests f tokens limit (keywordForm reserved form) := by
  refine nests.ite (always_choice steady_closes ?_)
  simp only [List.forall_mem_cons, List.not_mem_nil, false_implies, implies_true, and_true]
  exact ⟨nests, nameExpression_nests calls⟩

omit calls in
theorem literalWord?_nests : Nests f tokens limit literalWord? :=
  nests_ifEaten (nests_pure _) (nests_ifEaten (nests_pure _) (nests_ifEaten (nests_pure _) (nests_pure _)))

theorem wordExpression_nests (place : Position) : Nests f tokens limit (wordExpression place) := by
  refine nests_peek.bind fun _ => (nests_checkKeyword _).bind fun _ => Closes.ite ?_ ?_
  · exact keywordForm_nests calls _ (caseExpression_nests calls)
  refine (nests_checkKeyword _).bind fun _ => Closes.ite ?_ ?_
  · exact keywordForm_nests calls _ (castExpression_nests calls)
  refine (nests_checkKeyword _).bind fun _ => Closes.ite ?_ ?_
  · exact keywordForm_nests calls _ (existsExpression_nests calls)
  refine literalWord?_nests.bind fun value => ?_
  cases value with
  | some value => exact (nests_spanFrom _).map _
  | none =>
    intro s along
    refine yields_bind.mpr (yields_peek.mpr fun t shown => ?_)
    split
    · rename_i k word
      split
      · exact bump_closes along shown (Token.isPlain_of_keyword? word) fun _ =>
          functionCall_nests calls _ _
      · exact (yields_failAny _).mpr trivial
    · exact nameExpression_nests calls s along

theorem primary_nests : Nests f tokens limit primary := by
  refine nests_start.bind fun place => ?_
  intro s along
  refine yields_bind.mpr (yields_peek.mpr fun t shown => ?_)
  have alone {kind : TokenKind} (same : t.kind = kind) (plain : kind.isPlain = true) (e : ExprKind) :
      (single place e).Yields (sqlLevels f limit) s fun _ after => s.Closes 0 after :=
    bump_closes along shown (by rw [same, plain]) fun _ => (nests_spanFrom _).map _
  split
  · exact alone ‹_› rfl _
  · exact alone ‹_› rfl _
  · exact alone ‹_› rfl _
  · exact alone ‹_› rfl _
  · exact alone ‹_› rfl _
  · rename_i kind
    exact bump_closes along shown (by rw [kind]; rfl) fun _ =>
      nests_nextParam.bind fun _ => (nests_spanFrom _).map _
  · rename_i kind
    exact bump_closes along shown (by rw [kind]; rfl) fun _ =>
      identifier_nests.bind fun _ => (nests_spanFrom _).map _
  · rename_i left
    have inner : Closes f tokens limit 1 (do
        let kind ← (do
          if ← checkKeyword .SELECT then return ExprKind.subquery (← selectStatement)
          else return .paren (← expression))
        let _ ← expect .rightParen
        return (⟨kind, ← spanFrom place⟩ : Expr)) := by
      refine Nests.bind ?_ fun _ => closes_right fun _ => (nests_spanFrom _).map _
      exact (nests_checkKeyword _).bind fun _ => ((calls _ _).map _).ite ((calls _ _).map _)
    refine yields_bind.mpr (along.yields_bump shown (by rw [Token.isEof, left]; rfl) fun mid moves => ?_)
    exact (inner mid (along.moves moves)).mono fun _ _ => .left moves left
  · exact wordExpression_nests calls _ s along
  · exact wordExpression_nests calls _ s along
  · exact (yields_failAny _).mpr trivial

theorem prefixed_nests : Nests f tokens limit prefixed := by
  refine nests_start.bind fun place => ?_
  intro s along
  refine yields_bind.mpr (yields_peek.mpr fun t shown => ?_)
  split
  · rename_i op sign
    exact bump_closes along shown (TokenKind.isPlain_of_signOp? sign) fun _ =>
      (calls _ _).bind fun _ => (nests_spanFrom _).map _
  · refine nests_ifEaten ?_ (primary_nests calls) s along
    exact (calls _ _).bind fun _ => (nests_spanFrom _).map _

/-- Expressions close what they open. -/
theorem expressionBody_nests (power : Nat) : Nests f tokens limit (expressionBody f power) := by
  refine nests_start.bind fun place => (prefixed_nests calls).bind fun first => ?_
  refine nests_loop (fun left => ?_) first
  intro s along
  refine yields_bind.mpr (infixOp?_yields fun op ahead => ?_)
  cases op with
  | none => exact nests_pure _ s along
  | some op =>
    simp only [yields_ite]
    split
    · exact nests_pure _ s along
    · refine yields_bind.mpr ((infixed_nests calls left along ahead).mono fun kind mid first => ?_)
      have rest : Nests f tokens limit (do return some (⟨kind, ← spanFrom place⟩ : Expr)) :=
        (nests_spanFrom _).map _
      exact (rest mid (first.along along)).mono fun _ _ => first.trans

end

end SqlTree
