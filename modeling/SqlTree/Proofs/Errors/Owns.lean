import SqlTree.Proofs.Reading.Furthest
import SqlTree.Proofs.Tree.Entries

namespace SqlTree

open Rule SqlRule

/-- The words that tell a query, a form or a constraint from what begins with a name. -/
def tellingWords : List Keyword :=
  [.SELECT, .CASE, .CAST, .CONSTRAINT, .PRIMARY, .UNIQUE, .FOREIGN, .CHECK]

/-- A token that, as a name, is none of the telling words. -/
def Token.Telling (t : Token) : Prop :=
  t.isKeyword = false → ∀ k ∈ tellingWords, t.spells k = false

section

variable {f : Features} {good : Token → Prop} {levels : List (TapeLevel Symbol)}
  {noted : Option Mismatch} {limit : Nat}

namespace SqlRule

@[simp] theorem identifier_owns : identifier.Owns good levels noted := by
  refine .bind trivial fun t => ?_
  split <;> simp

@[simp] theorem objectName_owns : objectName.Owns good levels noted := by simp [objectName]

@[simp] theorem identifierList_owns : identifierList.Owns good levels noted := by simp [identifierList]

@[simp] theorem expression_owns : expression.Owns good levels noted := trivial

@[simp] theorem operand_owns : operand.Owns good levels noted := trivial

@[simp] theorem selectStatement_owns : selectStatement.Owns good levels noted := trivial

@[simp] theorem joinGroup_owns : joinGroup.Owns good levels noted := trivial

@[simp] theorem typeWord?_owns (isFirst : Bool) : (typeWord? isFirst).Owns good levels noted := by
  refine .bind trivial fun t => ?_
  split <;> simp

@[simp] theorem eatWord_owns (word : String) : (eatWord word).Owns good levels noted := by
  refine .bind trivial fun t => ?_
  split <;> simp

@[simp] theorem integerUpTo_owns (limit : Nat) (what : String) :
    (integerUpTo limit what).Owns good levels noted := by
  refine .bind trivial fun t => ?_
  split <;> simp

@[simp] theorem balanced_owns : balanced.Owns good levels noted := by
  refine .bind (fun depth => .bind trivial fun t => ?_) fun _ => trivial
  split <;> simp

@[simp] theorem customType_owns (first : String) : (customType first).Owns good levels noted := by
  refine .bind (fun name => .bind (typeWord?_owns false) fun word => ?_) fun name => by simp
  split <;> simp

@[simp] theorem dataType_owns : dataType.Owns good levels noted := by
  refine .bind (typeWord?_owns true) fun word => ?_
  split
  · simp
  · refine .bind trivial fun _ => .bind (by simp [typeName]) fun name => ?_
    dsimp only
    split <;> simp [lengthArgument, scaleArguments]

@[simp] theorem infixOp?_owns (f : Features) : (infixOp? f).Owns good levels noted := by
  refine .bind trivial fun t => ?_
  dsimp only
  split <;> simp [predicate?]

@[simp] theorem infixed_owns (op : InfixOp) (left : Expr) : (infixed op left).Owns good levels noted := by
  cases op <;> simp [infixed, negation]

@[simp] theorem functionCall_owns (name : Ident) (p : Position) :
    (functionCall name p).Owns good levels noted := by simp [functionCall]

@[simp] theorem nameExpression_owns : nameExpression.Owns good levels noted := by simp [nameExpression]

@[simp] theorem caseExpression_owns : caseExpression.Owns good levels noted := by
  simp [caseExpression, whenClause]

@[simp] theorem castExpression_owns : castExpression.Owns good levels noted := by
  simp [castExpression]

@[simp] theorem existsExpression_owns : existsExpression.Owns good levels noted := by
  simp [existsExpression]

@[simp] theorem single_owns (p : Position) (kind : ExprKind) : (single p kind).Owns good levels noted := by
  simp [single]

@[simp] theorem alias?_owns (f : Features) : (alias? f).Owns good levels noted := by simp [alias?]

@[simp] theorem selectColumn_owns (f : Features) : (selectColumn f).Owns good levels noted := by
  simp [selectColumn]

@[simp] theorem clause?_owns (k : Keyword) : (clause? k).Owns good levels noted := by simp [clause?]

@[simp] theorem whereClause?_owns : whereClause?.Owns good levels noted := clause?_owns .WHERE

@[simp] theorem returningClause_owns (f : Features) : (returningClause f).Owns good levels noted := by
  simp [returningClause]

@[simp] theorem namedTable_owns (f : Features) : (namedTable f).Owns good levels noted := by
  simp [namedTable]

@[simp] theorem derivedTable_owns (f : Features) : (derivedTable f).Owns good levels noted := by
  simp [derivedTable]

@[simp] theorem limit?_owns (f : Features) : (limit? f).Owns good levels noted := by
  have clause (form : LimitForm) : (limitClause form).Owns good levels none := by
    cases form <;> simp [limitClause, limitCountFirst, limitAnyOrder, limitCount?, limitOffset]
  unfold limit?
  split <;> simp [clause]

@[simp] theorem foreignKey_owns : foreignKey.Owns good levels noted := by
  simp [foreignKey, referentialActions, referentialAction]

@[simp] theorem constraintName?_owns : constraintName?.Owns good levels noted := by
  simp [constraintName?]

@[simp] theorem parenthesizedCondition_owns : parenthesizedCondition.Owns good levels noted := by
  simp [parenthesizedCondition]

@[simp] theorem tableConstraint_owns : tableConstraint.Owns good levels noted := by
  simp [tableConstraint, tableConstraintKind]

section forms

/-- A name stands where a rule begins that gives a value. -/
theorem identifier_opens : identifier.Opens levels fun t => ∃ name, t.kind = .identifier name := by
  intro s
  simp only [identifier, yields_bind, yields_peek]
  intro t shown
  split
  · rename_i name kind
    exact yields_of_forall fun _ _ => ⟨t, shown, name, kind⟩
  · exact (yields_failAny _).mpr trivial

/-- An expression that begins with a name begins with a name that is no keyword. -/
theorem nameExpression_opens : nameExpression.Opens levels fun t => ∃ name, t.kind = .identifier name :=
  .start fun _ => identifier_opens.bind _

theorem identifier_refuses {s : Tape} {t : Token} (shown : s.peek = .ok t)
    (other : ∀ name, t.kind ≠ .identifier name) : identifier.Refuses levels s := by
  obtain ⟨m, read, place⟩ : (failAny ["identifier"] : SqlRule Ident).Refuses levels s :=
    refuses_failAny shown _
  refine ⟨m, ?_, place⟩
  change (Rule.bind peek _).read levels s = _
  simpa only [Rule.read, shown] using read

/-- A name is none of the telling words. -/
theorem not_spells_of_identifier {t : Token} (telling : t.Telling) {name : String}
    (kind : t.kind = .identifier name) {k : Keyword} (mem : k ∈ tellingWords) : t.spells k = false :=
  telling (by rw [Token.isKeyword, Token.keyword?, kind]; rfl) k mem

/-- A form of a word that is no name is refused where a name stands. -/
theorem givesWay_name {α : Type} {rule other : SqlRule α} {k : Keyword} (awaits : rule.Awaits levels [k])
    (mem : k ∈ tellingWords) (telling : ∀ t, good t → t.Telling)
    (opens : other.Opens levels fun t => ∃ name, t.kind = .identifier name)
    (forward : ∀ level ∈ levels, level.Forward) : GivesWay good levels rule other := by
  refine opens.givesWay forward fun s t fair shown ⟨name, kind⟩ => ?_
  refine awaits.refuses s t fair.calm shown fun j same => ?_
  obtain rfl := List.mem_singleton.mp same
  exact not_spells_of_identifier (telling t (fair.peek shown)) kind mem

theorem yields_peek_of {s : Tape} {t : Token} {post : Token → Tape → Prop} (shown : s.peek = .ok t) :
    (peek : SqlRule Token).Yields levels s post ↔ post t s := by
  rw [yields_peek]
  exact ⟨fun all => all t shown, fun holds u same => by cases shown.symm.trans same; exact holds⟩

theorem yields_checkKeyword_of {s : Tape} {t : Token} {post : Bool → Tape → Prop}
    (shown : s.peek = .ok t) (k : Keyword) :
    (checkKeyword k : SqlRule Bool).Yields levels s post ↔ post (t.spells k) s := by
  simp only [checkKeyword, yields_bind, yields_peek_of shown, yields_pure]

/-- No expression begins with SELECT. -/
theorem expressionBody_shut {s : Tape} {t : Token} (shown : s.peek = .ok t)
    (kind : t.kind = .keyword .SELECT) (power : Nat) :
    (expressionBody f power).Yields levels s fun _ _ => False := by
  have spells (k : Keyword) (other : (Keyword.SELECT == k) = false) : t.spells k = false := by
    rw [Token.spells, kind]
    exact other
  have word (p : Position) : (wordExpression p).Yields levels s fun _ _ => False := by
    have keyword : t.keyword? = some .SELECT := by rw [Token.keyword?, kind]
    have free : functionKeywords.contains .SELECT = false := by decide
    simp only [wordExpression, literalWord?, eatKeyword, yields_bind, yields_peek_of shown,
      yields_checkKeyword_of shown, yields_pure, spells .CASE rfl, spells .CAST rfl,
      spells .EXISTS rfl, spells .NULL rfl, spells .TRUE rfl, spells .FALSE rfl, keyword, free,
      Bool.false_eq_true, if_false, yields_failAny]
  have first : prefixed.Yields levels s fun _ _ => False := by
    simp only [prefixed, primary, eatKeyword, yields_bind, yields_start, yields_peek_of shown,
      yields_checkKeyword_of shown, kind, TokenKind.signOp?, yields_pure, spells .NOT rfl,
      Bool.false_eq_true, if_false]
    exact fun _ _ _ _ => word _
  exact yields_bind.mpr (yields_start.mpr fun _ _ => yields_bind.mpr (first.mono fun _ _ => False.elim))

/-- Where SELECT stands, no expression is read. -/
theorem expression_shut {s : Tape} {t : Token} (shown : s.peek = .ok t)
    (kind : t.kind = .keyword .SELECT) : expression.Yields (sqlLevels f limit) s fun _ _ => False :=
  yields_call fun _ => expressionBody_shut shown kind 0

/-- Behind the parenthesis of a call stands no query. -/
theorem functionCall_leads {s : Tape} (name : Ident) (p : Position) :
    (functionCall name p).Yields (sqlLevels f limit) s fun _ after => s.bump.2.Leads after ∧
      ∀ v, s.bump.2.peek = .ok v → v.kind ≠ .keyword .SELECT := by
  simp only [functionCall]
  refine yields_bind.mpr (yields_expect fun t _ _ _ value after read =>
    ⟨yields_leads _ (sqlLevels_forward f limit) _ value after read, fun v shown kind => ?_⟩)
  have spells : v.spells .DISTINCT = false := by rw [Token.spells, kind]; rfl
  have paren : v.kind.sameKind .rightParen = false := by rw [kind]; rfl
  have star : v.kind.sameKind .star = false := by rw [kind]; rfl
  have never : (commaSeparated expression).Yields (sqlLevels f limit) s.bump.2 fun _ _ => False := by
    simp only [commaSeparated, yields_bind]
    exact (expression_shut shown kind).mono fun _ _ => False.elim
  refine (?_ : Rule.Yields _ _ s.bump.2 fun _ _ => False) value after read
  simp only [eatKeyword, yields_bind, yields_checkKeyword_of shown, spells, yields_pure, check,
    yields_peek_of shown, paren, star, Bool.false_eq_true, if_false]
  exact never.mono fun _ _ => False.elim

/-- An expression that begins with a name goes on behind the name, and behind the parenthesis of a call. -/
theorem nameExpression_leads (s : Tape) : nameExpression.Yields (sqlLevels f limit) s fun _ after =>
    s.bump.2.Leads after ∧ ∀ u, s.bump.2.peek = .ok u → u.kind.sameKind .leftParen = true →
      s.bump.2.bump.2.Leads after ∧
        ∀ v, s.bump.2.bump.2.peek = .ok v → v.kind ≠ .keyword .SELECT := by
  have named : identifier.Yields (sqlLevels f limit) s fun _ mid => mid = s.bump.2 := by
    simp only [identifier, yields_bind, yields_peek]
    intro t shown
    split
    · simp only [yields_bind, yields_bump, yields_pure, implies_true]
    · exact (yields_failAny _).mpr trivial
  simp only [nameExpression]
  refine yields_bind.mpr (yields_start.mpr fun t _ => yields_bind.mpr (named.mono ?_))
  rintro name _ rfl
  refine yields_bind.mpr ((yields_check _).mpr fun u shown => ?_)
  split
  · refine (functionCall_leads name _).mono fun _ after inner => ?_
    exact ⟨(Tape.leads_bump _).trans inner.1, fun _ _ _ => inner⟩
  · rename_i other
    refine fun value after read => ⟨yields_leads _ (sqlLevels_forward f limit) _ value after read,
      fun v shown' same => ?_⟩
    cases shown.symm.trans shown'
    exact absurd same other

/-- A query is missed at the first token, unless that is its first word. -/
theorem selectStatement_misses {s : Tape} {post : Mismatch → Prop}
    (holds : ∀ t m, s.peek = .ok t → t.spells .SELECT = false → m.position = t.span.start → post m)
    (query : ∀ t, s.peek = .ok t → t.spells .SELECT = true → ∀ m, post m) :
    selectStatement.Misses (sqlLevels f limit) s post := by
  intro m after fails
  cases limit with
  | zero =>
    simp only [selectStatement, Rule.read, sqlLevels, tapeLevels, Tape.tooDeep, Tape.peek] at fails
    split at fails
    · cases fails
    · rename_i unread
      split at unread
      · cases unread
      · cases stop : s.stop <;> rw [stop] at unread <;> cases unread
        cases fails
  | succ limit =>
    refine (?_ : (queryBody f).Misses (sqlLevels f limit) s post) m after fails
    refine misses_bind misses_start (yields_start.mpr fun t shown => ?_)
    cases spells : t.spells .SELECT with
    | true => exact fun m _ _ => query t shown spells m
    | false =>
      refine misses_bind (misses_expectKeyword fun u m shown' place => ?_)
        (yields_expectKeyword fun u shown' same => ?_)
      all_goals obtain rfl : t = u := Except.ok.inj (shown.symm.trans shown')
      · exact holds t m shown spells place
      · rw [spells] at same
        cases same

/-- A telling word is reserved. -/
theorem Token.kind_of_spells {t : Token} (telling : t.Telling) {k : Keyword} (mem : k ∈ tellingWords)
    (spells : t.spells k = true) : t.kind = .keyword k := by
  cases keyword : t.isKeyword with
  | false =>
    rw [telling keyword k mem] at spells
    cases spells
  | true =>
    rcases t with ⟨kind, text, span⟩
    cases kind with
    | keyword j => exact congrArg _ (beq_iff_eq.mp spells)
    | _ => cases keyword

/-- A query begins with SELECT. -/
theorem selectStatement_opens : selectStatement.Opens (sqlLevels f limit) fun t =>
    ∃ k ∈ [Keyword.SELECT], t.spells k = true := fun s =>
  yields_call fun _ => (Opens.start fun _ => (awaits_expectKeyword .SELECT).gives.bind _) s

/-- What is missed where a query was to stand is reached from there. -/
theorem misses_selectStatement {α : Type} {next : SelectStatement → SqlRule α} {s after : Tape}
    (fair : s.Fair good) (leads : s.Leads after)
    (noQuery : ∀ v, s.peek = .ok v → v.spells .SELECT = false) :
    (selectStatement >>= next).Misses (sqlLevels f limit) s after.Reaches := by
  refine misses_bind (selectStatement_misses (fun t m shown _ place => ?_) fun v shown spells => ?_) ?_
  · exact fair.reaches leads shown (Nat.le_of_eq (congrArg _ place))
  · rw [noQuery v shown] at spells
    cases spells
  · refine (selectStatement_opens s).mono fun _ _ ⟨v, shown, k, mem, spells⟩ => ?_
    rw [List.mem_singleton.mp mem, noQuery v shown] at spells
    cases spells

theorem not_spells_SELECT (telling : ∀ t, good t → t.Telling) {s s' : Tape} (fair : s.Fair good)
    (stays : s.Moves [] s') (noQuery : ∀ v, s'.peek = .ok v → v.kind ≠ .keyword .SELECT) :
    ∀ v, s.peek = .ok v → v.spells .SELECT = false := by
  intro v shown
  rw [Bool.eq_false_iff]
  intro spells
  have kind := Token.kind_of_spells (telling v (fair.peek shown)) (by decide) spells
  exact noQuery v (stays.peek_eq.trans shown) kind

/-- A name comes as far as EXISTS in its place: between the parentheses of a call stands no query. -/
theorem existsExpression_givesWay (telling : ∀ t, good t → t.Telling) :
    GivesWay good (sqlLevels f limit) existsExpression nameExpression := by
  intro s s' mid after m value fair stays fails fits
  have whole := stays.leads.trans (yields_leads _ (sqlLevels_forward f limit) s' value after fits)
  obtain ⟨leads, call⟩ := nameExpression_leads s' value after fits
  replace leads := stays.bump.leads.trans leads
  refine (?_ : existsExpression.Misses (sqlLevels f limit) s after.Reaches) m mid fails
  refine misses_bind misses_start (yields_start.mpr fun _ _ => ?_)
  refine misses_bind (misses_expectKeyword fun t m shown place => ?_)
    (yields_expectKeyword fun _ _ _ _ => ?_)
  · exact fair.reaches whole shown (Nat.le_of_eq (congrArg _ place))
  refine misses_bind (misses_expect fun t m shown place => ?_) (yields_expect fun u shown paren _ => ?_)
  · exact fair.bump.reaches leads shown (Nat.le_of_eq (congrArg _ place))
  obtain ⟨inner, noQuery⟩ := call u (stays.bump.peek_eq.trans shown) paren
  exact misses_selectStatement fair.bump.bump (stays.bump.bump.leads.trans inner)
    (not_spells_SELECT telling fair.bump.bump stays.bump.bump noQuery)

/-- What a table begins with: a name or a parenthesis. -/
theorem tableFactor_opens : (tableFactor f).Opens (sqlLevels f limit) fun t =>
    (∃ name, t.kind = .identifier name) ∨ t.kind.sameKind .leftParen = true := by
  refine opens_choiceAfter (sqlLevels_forward f limit) ?_ none
  simp only [List.forall_mem_cons, List.not_mem_nil, false_implies, implies_true, and_true]
  refine ⟨.start fun _ => .bind ?_ _, .start fun _ => ?_, fun s => yields_call fun limit => ?_⟩
  · exact .start fun _ => (identifier_opens.mono fun _ => .inl).bind _
  · exact ((opens_expect _).mono fun _ => .inr).bind _
  · exact ((opens_expect _).mono fun _ => .inr).bind _ s

/-- Behind the parenthesis of a group of joins stands no query. -/
theorem joinGroup_leads (s : Tape) : joinGroup.Yields (sqlLevels f limit) s fun _ after =>
    s.bump.2.Leads after ∧ ∀ v, s.bump.2.peek = .ok v → v.kind ≠ .keyword .SELECT := by
  refine yields_call fun limit => yields_bind.mpr (yields_expect fun _ _ _ _ value after read => ?_)
  refine ⟨yields_leads _ (sqlLevels_forward f limit) _ value after read, fun v shown kind => ?_⟩
  have opens : (tableRef f).Opens (sqlLevels f limit) _ := .start fun _ => tableFactor_opens.bind _
  obtain ⟨u, shown', first⟩ := opens.bind _ s.bump.2 value after read
  obtain rfl : v = u := Except.ok.inj (shown.symm.trans shown')
  rcases first with ⟨name, other⟩ | other
  · rw [kind] at other
    cases other
  · rw [kind] at other
    cases other

/-- Joins between parentheses come as far as a query in their place. -/
theorem derivedTable_givesWay (telling : ∀ t, good t → t.Telling) :
    GivesWay good (sqlLevels f limit) (derivedTable f) joinGroup := by
  intro s s' mid after m value fair stays fails fits
  have whole := stays.leads.trans (yields_leads _ (sqlLevels_forward f limit) s' value after fits)
  obtain ⟨leads, noQuery⟩ := joinGroup_leads s' value after fits
  refine (?_ : (derivedTable f).Misses (sqlLevels f limit) s after.Reaches) m mid fails
  refine misses_bind misses_start (yields_start.mpr fun _ _ => ?_)
  refine misses_bind (misses_expect fun t m shown place => ?_) (yields_expect fun _ _ _ _ => ?_)
  · exact fair.reaches whole shown (Nat.le_of_eq (congrArg _ place))
  exact misses_selectStatement fair.bump (stays.bump.leads.trans leads)
    (not_spells_SELECT telling fair.bump stays.bump noQuery)

/-- What begins with a parenthesis comes as far as a name in its place. -/
theorem namedTable_givesWay {other : SqlRule TableRef}
    (opens : other.Opens (sqlLevels f limit) fun t => t.kind.sameKind .leftParen = true) :
    GivesWay good (sqlLevels f limit) (namedTable f) other := by
  refine opens.givesWay (sqlLevels_forward f limit) fun s t fair shown paren => ?_
  refine refuses_start shown (Refuses.bind (refuses_start shown (Refuses.bind ?_ _)) _)
  refine identifier_refuses shown fun name kind => ?_
  rw [kind] at paren
  cases paren

@[simp] theorem tableFactor_owns (telling : ∀ t, good t → t.Telling) :
    (tableFactor f).Owns good (sqlLevels f limit) noted := by
  refine owns_choice (sqlLevels_forward f limit) (by simp) ?_
  simp only [List.pairwise_cons, List.mem_cons, List.not_mem_nil, or_false, forall_eq_or_imp, forall_eq,
    false_implies, implies_true, List.Pairwise.nil, and_true]
  refine ⟨⟨namedTable_givesWay ?_, namedTable_givesWay fun s => yields_call fun limit => ?_⟩,
    derivedTable_givesWay telling⟩
  · exact .start fun _ => (opens_expect _).bind _
  · exact (opens_expect _).bind _ s

/-- The form of a word owns up to its mismatches if it does so by itself and gives way to a name. -/
theorem keywordForm_owns {form : SqlRule Expr} (reserved : Bool)
    (owns : ∀ noted, form.Owns good (sqlLevels f limit) noted)
    (way : GivesWay good (sqlLevels f limit) form nameExpression) :
    (keywordForm reserved form).Owns good (sqlLevels f limit) noted := by
  unfold keywordForm
  split
  · exact owns noted
  · exact owns_choice (sqlLevels_forward f limit) (by simp [owns]) (by simpa using way)

theorem wordExpression_owns (telling : ∀ t, good t → t.Telling) (p : Position) :
    (wordExpression p).Owns good (sqlLevels f limit) noted := by
  have named {form : SqlRule Expr} {k : Keyword} (awaits : form.Awaits (sqlLevels f limit) [k])
      (mem : k ∈ tellingWords) : GivesWay good (sqlLevels f limit) form nameExpression :=
    givesWay_name awaits mem telling nameExpression_opens (sqlLevels_forward f limit)
  have isCase (reserved : Bool) (noted : Option Mismatch) :
      (keywordForm reserved caseExpression).Owns good (sqlLevels f limit) noted :=
    keywordForm_owns reserved (by simp)
      (named (.start fun _ => (awaits_expectKeyword .CASE).bind _) (by decide))
  have isCast (reserved : Bool) (noted : Option Mismatch) :
      (keywordForm reserved castExpression).Owns good (sqlLevels f limit) noted :=
    keywordForm_owns reserved (by simp)
      (named (.start fun _ => (awaits_expectKeyword .CAST).bind _) (by decide))
  have isExists (reserved : Bool) (noted : Option Mismatch) :
      (keywordForm reserved existsExpression).Owns good (sqlLevels f limit) noted :=
    keywordForm_owns reserved (by simp) (existsExpression_givesWay telling)
  simp only [wordExpression, owns_bind, owns_peek, owns_checkKeyword, owns_ite, isCase, isCast, isExists,
    implies_true, true_and]
  intro t _ _ _ _ _ _ _ _ _ _
  refine ⟨by simp [literalWord?], fun word _ => ?_⟩
  split
  · simp
  · refine .bind trivial fun t => ?_
    split <;> simp

/-- Expressions own up to their mismatches. -/
theorem expressionBody_owns (telling : ∀ t, good t → t.Telling) (power : Nat) :
    (expressionBody f power).Owns good (sqlLevels f limit) noted := by
  have primary (noted : Option Mismatch) : primary.Owns good (sqlLevels f limit) noted := by
    refine .bind (by simp) fun p => .bind trivial fun t => ?_
    split <;> simp [wordExpression_owns telling]
  have first : prefixed.Owns good (sqlLevels f limit) none := by
    refine .bind (by simp) fun p => .bind trivial fun t => ?_
    split <;> simp [primary]
  refine .bind (by simp) fun p => .bind first fun _ left => .bind (by simp) fun op => ?_
  split <;> simp

theorem tableRef_owns (telling : ∀ t, good t → t.Telling) :
    (tableRef f).Owns good (sqlLevels f limit) noted := by
  have factor (noted : Option Mismatch) : (tableFactor f).Owns good (sqlLevels f limit) noted :=
    tableFactor_owns telling
  have joins : (joinClause f).Owns good (sqlLevels f limit) none := by
    simp [joinClause, joinType, joinCondition, factor]
  simp [tableRef, factor, joins]

theorem queryBody_owns (telling : ∀ t, good t → t.Telling) :
    (queryBody f).Owns good (sqlLevels f limit) noted := by
  have item : (orderByItem f).Owns good (sqlLevels f limit) none := by
    simp [orderByItem, orderDirection, nullOrdering?]
  simp [queryBody, distinct, byClause, item, tableRef_owns telling]

/-- What the names of rules stand for owns up to its mismatches. -/
theorem body_owns (telling : ∀ t, good t → t.Telling) (f : Features) (limit : Nat) (α : Type)
    (name : Symbol α) : (Symbol.body f α name).Owns good (tapeLevels (Symbol.body f) limit) none := by
  cases name with
  | expression power => exact expressionBody_owns telling power
  | query => exact queryBody_owns telling
  | joinGroup => simp [Symbol.body, joinGroupBody, tableRef_owns telling]

/-- The constraints on a column that every dialect has, with the words that they wait for. -/
def columnAlternatives : List (SqlRule ColumnConstraintKind × List Keyword) :=
  [(notNull, [.NOT]), (null, [.NULL]), (primaryKey, [.PRIMARY]), (unique, [.UNIQUE]),
    (defaultValue, [.DEFAULT]), (checkConstraint, [.CHECK]), (references, [.REFERENCES])]

/-- Each constraint on a column waits for its words. -/
theorem columnAlternatives_await : ∀ a ∈ columnAlternatives, a.1.Awaits levels a.2 := by
  have word (k : Keyword) : (expectKeyword k : SqlRule Token).Awaits levels [k] := awaits_expectKeyword k
  simp only [columnAlternatives, List.forall_mem_cons, List.not_mem_nil, false_implies, implies_true,
    and_true]
  exact ⟨(word .NOT).bind _, (word .NULL).bind _, (word .PRIMARY).bind _, (word .UNIQUE).bind _,
    (word .DEFAULT).bind _, (word .CHECK).bind _,
    Awaits.bind (.start fun _ => (word .REFERENCES).bind _) _⟩

theorem columnAlternatives_apart : (columnAlternatives.map Prod.snd).Pairwise Apart := by
  simp only [columnAlternatives, List.map_cons, List.map_nil]
  decide

/-- The word that numbers rows is none of those that a constraint on a column begins with. -/
def Numbers (f : Features) : Prop :=
  ∀ k ∈ f.autoIncrement, Apart (columnAlternatives.flatMap Prod.snd) [k]

/-- The definition of a column owns up to its mismatches. -/
theorem columnDef_owns (numbers : Numbers f) : (columnDef f).Owns good (sqlLevels f limit) noted := by
  have forward := sqlLevels_forward f limit
  have kind : columnConstraintKind.Owns good (sqlLevels f limit) none := by
    refine owns_choice_of_awaits forward ?_ columnAlternatives_await columnAlternatives_apart
    simp [notNull, null, primaryKey, unique, defaultValue, checkConstraint, references]
  have named {kind : SqlRule ColumnConstraintKind} (owns : kind.Owns good (sqlLevels f limit) none) :
      (namedColumnConstraint kind).Owns good (sqlLevels f limit) none := by
    simp [namedColumnConstraint, owns]
  have constraint : (columnConstraint f).Owns good (sqlLevels f limit) none := by
    unfold columnConstraint
    split
    · rename_i k known
      refine named (owns_choice forward (by simp [kind, autoIncrement]) ?_)
      have number : (autoIncrement k).Awaits (sqlLevels f limit) [k] := (awaits_expectKeyword k).bind _
      have way : GivesWay good (sqlLevels f limit) columnConstraintKind (autoIncrement k) :=
        (awaits_choice forward columnAlternatives_await).givesWay number (numbers k known) forward
      simpa using way
    · exact named kind
  simp [columnDef, constraint]

theorem constraintName?_read {s : Tape} {t : Token} (shown : s.peek = .ok t)
    (other : t.spells .CONSTRAINT = false) : constraintName?.read levels s = (.ok none, s) := by
  change (Rule.bind _ _).read _ s = _
  rw [Rule.read, eatKeyword_read shown other]
  rfl

/-- No constraint on a table begins with a token that is none of the telling words. -/
theorem constraintElement_refuses {s : Tape} {t : Token} (shown : s.peek = .ok t)
    (other : ∀ k ∈ tellingWords, t.spells k = false) : constraintElement.Refuses levels s := by
  have eats {k : Keyword} (mem : k ∈ tellingWords) :
      (eatKeyword k : SqlRule Bool).read levels s = (.ok false, s) :=
    eatKeyword_read shown (other k mem)
  have unnamed : constraintName?.read levels s = _ := constraintName?_read shown (other .CONSTRAINT (by decide))
  refine Refuses.bind (refuses_start shown (refuses_then unnamed (Refuses.bind ?_ _))) _
  exact refuses_then (eats (by decide)) (refuses_then (eats (by decide))
    (refuses_then (eats (by decide)) (refuses_then (eats (by decide)) (refuses_failAny shown _))))

theorem columnElement_opens : (columnElement f).Opens levels fun t => ∃ name, t.kind = .identifier name :=
  .bind (.start fun _ => identifier_opens.bind _) _

/-- A constraint on a table is none where a column is named. -/
theorem tableElement_owns (telling : ∀ t, good t → t.Telling) (numbers : Numbers f) :
    (tableElement f).Owns good (sqlLevels f limit) noted := by
  have forward := sqlLevels_forward f limit
  refine owns_choice forward (by simp [constraintElement, columnElement, columnDef_owns numbers]) ?_
  have way : GivesWay good (sqlLevels f limit) constraintElement (columnElement f) := by
    refine columnElement_opens.givesWay forward fun s t fair shown ⟨name, kind⟩ => ?_
    exact constraintElement_refuses shown fun k mem =>
      not_spells_of_identifier (telling t (fair.peek shown)) kind mem
  simpa using way

@[simp] theorem createTableStatement_owns (telling : ∀ t, good t → t.Telling) (numbers : Numbers f) :
    (createTableStatement f).Owns good (sqlLevels f limit) noted := by
  have element : (tableElement f).Owns good (sqlLevels f limit) none := tableElement_owns telling numbers
  simp [createTableStatement, temporary, ifNotExists, element]

/-- Where the rows of an INSERT come from, with the words that the alternatives wait for. -/
def sourceAlternatives : List (SqlRule InsertSource × List Keyword) :=
  [(valuesSource, [.VALUES]), (defaultValuesSource, [.DEFAULT]), (querySource, [.SELECT])]

/-- Each source of rows waits for its words. -/
theorem sourceAlternatives_await : ∀ a ∈ sourceAlternatives, a.1.Awaits (sqlLevels f (limit + 1)) a.2 := by
  have word (k : Keyword) : (expectKeyword k : SqlRule Token).Awaits (sqlLevels f (limit + 1)) [k] :=
    awaits_expectKeyword k
  simp only [sourceAlternatives, List.forall_mem_cons, List.not_mem_nil, false_implies, implies_true,
    and_true]
  exact ⟨(word .VALUES).bind _, (word .DEFAULT).bind _, selectStatement_awaits.bind _⟩

theorem sourceAlternatives_apart : (sourceAlternatives.map Prod.snd).Pairwise Apart := by
  simp only [sourceAlternatives, List.map_cons, List.map_nil]
  decide

theorem insertStatement_owns : (insertStatement f).Owns good (sqlLevels f (limit + 1)) noted := by
  have source : insertSource.Owns good (sqlLevels f (limit + 1)) none := by
    refine owns_choice_of_awaits (sqlLevels_forward f (limit + 1)) ?_ sourceAlternatives_await
      sourceAlternatives_apart
    simp [valuesSource, defaultValuesSource, querySource]
  simp [insertStatement, source]

theorem updateStatement_owns : (updateStatement f).Owns good levels noted := by
  simp [updateStatement, assignment]

theorem deleteStatement_owns : (deleteStatement f).Owns good levels noted := by
  simp [deleteStatement]

/-- A pragma owns up to its mismatches where none is found. -/
theorem pragmaStatement_owns (none : ∀ t, good t → t.spells .PRAGMA = false) :
    pragmaStatement.Owns good levels noted := by
  refine .bind (by simp) fun _ => owns_bind.mpr ⟨owns_expectKeyword _, fun _ ⟨s, after, fair, found⟩ => ?_⟩
  obtain ⟨t, shown, k, mem, spells⟩ := (awaits_expectKeyword .PRAGMA).gives s _ after found
  rw [List.mem_singleton.mp mem, none t (fair.peek shown)] at spells
  cases spells

end forms

section statements

variable (telling : ∀ t, good t → t.Telling) (numbers : Numbers f)

include telling numbers

theorem standardStatement_owns : (standardStatement f).Owns good (sqlLevels f (limit + 1)) noted := by
  refine owns_choice_of_awaits (sqlLevels_forward f (limit + 1)) ?_ standardAlternatives_await
    standardAlternatives_apart
  simp [selectAsStatement, insertAsStatement, updateAsStatement, deleteAsStatement,
    createTableAsStatement, insertStatement_owns, updateStatement_owns, deleteStatement_owns,
    createTableStatement_owns telling numbers]

/-- A statement owns up to its mismatches where no pragma is. -/
theorem statement_owns (none : f.pragma = true → ∀ t, good t → t.spells .PRAGMA = false) :
    (statement f).Owns good (sqlLevels f (limit + 1)) noted := by
  unfold statement
  split
  · rename_i pragma
    refine owns_choice_of_awaits (sqlLevels_forward f (limit + 1)) ?_ pragmaAlternatives_await
      pragmaAlternatives_apart
    simp [standardStatement_owns telling numbers, pragmaAsStatement, pragmaStatement_owns (none pragma)]
  · exact standardStatement_owns telling numbers

end statements

end SqlRule

end

/-- Whether a text may hold a pragma as a model of some kind. -/
def Features.allowsPragma (f : Features) : ModelKind → Bool
  | .pragma => true
  | .statement | .script => f.pragma
  | _ => false

/-- The rule for a text owns up to its mismatches if the text holds no pragma. -/
theorem SqlRule.entry_owns {f : Features} {good : Token → Prop} {limit : Nat} {kind : ModelKind}
    (telling : ∀ t, good t → t.Telling) (numbers : Numbers f)
    (pragmas : f.allowsPragma kind = true → ∀ t, good t → t.spells .PRAGMA = false) :
    (entry f kind).Owns good (sqlLevels f (limit + 1)) none := by
  have statements (allowed : f.pragma = true → f.allowsPragma kind = true) (noted : Option Mismatch) :
      (statement f).Owns good (sqlLevels f (limit + 1)) noted :=
    statement_owns telling numbers fun pragma => pragmas (allowed pragma)
  cases kind with
  | statement => simp [entry, statements id]
  | script => simp [entry, script, semicolons, statements id]
  | pragma => simp [entry, pragmaStatement_owns (pragmas rfl)]
  | createTable => simp [entry, createTableStatement_owns telling numbers]
  | select => simp [entry]
  | insert => simp [entry, insertStatement_owns]
  | update => simp [entry, updateStatement_owns]
  | delete => simp [entry, deleteStatement_owns]
  | expression => simp [entry]

end SqlTree
