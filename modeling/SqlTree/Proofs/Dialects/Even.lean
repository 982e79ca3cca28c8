import SqlTree.Grammar.Entry
import SqlTree.Proofs.Dialects.Concurs

namespace SqlTree

namespace Rule

variable {Sym : Type → Type} {α β σ : Type} {f : Features}

/-- A rule that goes on in the same way whatever a mismatch says. It neither asks for the mismatches put
aside nor says when to leave, and goes deeper only by the names of rules. -/
def Even (f : Features) {α : Type} : Rule Sym α → Prop
  | bind first next => first.Even f ∧ ∀ value, (next value).Even f
  | orElse rule other => rule.Even f ∧ ∀ m m', (other m).Concurs f (other m')
  | lookahead rule => rule.Even f
  | loop step _ => ∀ x, (step x).Even f
  | checkCancelled | setCancelAfter _ | reporting _ | nested _ => False
  | _ => True

theorem concurs_call (name : Sym α) : (call name).Concurs f (call name) := by
  intro levels levels' concur s s' twin
  cases concur with
  | nil => exact twin.tooDeep
  | cons level _ => exact level _ name s s' twin

/-- A rule that no feature takes part in comes to the same on both sides. -/
theorem Even.concurs {rule : Rule Sym α} (even : rule.Even f) : rule.Concurs f rule := by
  induction rule with
  | pure value => exact concurs_pure value
  | bind first next ihFirst ihNext => exact (ihFirst even.1).bind fun value => ihNext value (even.2 value)
  | fail failure => exact concurs_fail failure
  | peek =>
    intro levels levels' _ s s' twin
    obtain ⟨t, shown, shown', -⟩ := twin.peek
    simp only [Rule.read, shown, shown']
    exact .ok twin
  | bump => exact fun _ _ _ _ _ twin => twin.bump
  | lastEnd =>
    intro levels levels' _ s s' twin
    simp only [Rule.read, twin.lastEnd]
    exact .ok twin
  | slice span =>
    intro levels levels' _ s s' twin
    simp only [Rule.read, twin.text]
    exact .ok twin
  | nextParam =>
    intro levels levels' _ s s' twin
    simp only [Rule.read, twin.params]
    exact .ok { twin with params := rfl }
  | note m => exact concurs_note m m
  | orElse rule other ihRule _ => exact (ihRule even.1).orElse even.2
  | lookahead rule ih => exact (ih even).lookahead
  | loop step first ih => exact .loop (fun x => ih x (even x)) first
  | call name => exact concurs_call name
  | checkCancelled | setCancelAfter | reporting | nested => exact even.elim

/-- What follows a rule that no feature takes part in. -/
theorem Even.bind {first : Rule Sym β} {next next' : β → Rule Sym α} (even : first.Even f)
    (rest : ∀ value, (next value).Concurs f (next' value)) :
    (first >>= next).Concurs f (first >>= next') :=
  even.concurs.bind rest

section

@[simp] theorem even_pure (value : α) : (Pure.pure value : Rule Sym α).Even f := trivial

@[simp] theorem even_bind {first : Rule Sym α} {next : α → Rule Sym β} :
    (first >>= next).Even f ↔ first.Even f ∧ ∀ value, (next value).Even f := Iff.rfl

@[simp] theorem even_ite {c : Prop} [Decidable c] {rule other : Rule Sym α} :
    (if c then rule else other).Even f ↔ (c → rule.Even f) ∧ (¬ c → other.Even f) := by
  split <;> simp_all

@[simp] theorem even_fail (failure : Failure) : (fail failure : Rule Sym α).Even f := trivial

@[simp] theorem even_peek : (peek : Rule Sym Token).Even f := trivial

@[simp] theorem even_bump : (bump : Rule Sym Token).Even f := trivial

@[simp] theorem even_lastEnd : (lastEnd : Rule Sym Position).Even f := trivial

@[simp] theorem even_slice (span : Span) : (slice span : Rule Sym String).Even f := trivial

@[simp] theorem even_nextParam : (nextParam : Rule Sym Nat).Even f := trivial

@[simp] theorem even_call (name : Sym α) : (call name).Even f := trivial

@[simp] theorem even_loop (step : σ → Rule Sym (Option σ)) (first : σ) :
    (loop step first).Even f ↔ ∀ x, (step x).Even f := Iff.rfl

@[simp] theorem even_start : (start : Rule Sym Position).Even f := by simp [start]

@[simp] theorem even_spanFrom (p : Position) : (spanFrom p : Rule Sym Span).Even f := by
  simp [spanFrom]

@[simp] theorem even_failAny (expected : List String) : (failAny expected : Rule Sym α).Even f := by
  simp [failAny]

@[simp] theorem even_check (kind : TokenKind) : (check kind : Rule Sym Bool).Even f := by simp [check]

@[simp] theorem even_checkKeyword (k : Keyword) : (checkKeyword k : Rule Sym Bool).Even f := by
  simp [checkKeyword]

@[simp] theorem even_eat (kind : TokenKind) : (eat kind : Rule Sym Bool).Even f := by simp [eat]

@[simp] theorem even_eatKeyword (k : Keyword) : (eatKeyword k : Rule Sym Bool).Even f := by
  simp [eatKeyword]

@[simp] theorem even_expect (kind : TokenKind) : (expect kind : Rule Sym Token).Even f := by
  simp [expect]

@[simp] theorem even_expectKeyword (k : Keyword) : (expectKeyword k : Rule Sym Token).Even f := by
  simp [expectKeyword]

@[simp] theorem Even.optional {rule : Rule Sym α} (even : rule.Even f) : (optional rule).Even f :=
  ⟨⟨even, fun _ => trivial⟩, fun m m' => (concurs_note m m').bind fun _ => concurs_pure _⟩

@[simp] theorem Even.many {rule : Rule Sym α} (even : rule.Even f) : (many rule).Even f :=
  ⟨fun _ => ⟨even.optional, fun _ => trivial⟩, fun _ => trivial⟩

@[simp] theorem Even.commaSeparated {rule : Rule Sym α} (even : rule.Even f) :
    (commaSeparated rule).Even f := by
  have behindComma : (do let _ ← expect .comma; rule).Even f := by simp [even]
  simp [Rule.commaSeparated, even, behindComma]

@[simp] theorem Even.parenthesizedList {rule : Rule Sym α} (even : rule.Even f) :
    (parenthesizedList rule).Even f := by
  simp [Rule.parenthesizedList, even]

theorem even_choice {rule : Rule Sym α} {rules : List (Rule Sym α)}
    (all : ∀ alternative ∈ rule :: rules, alternative.Even f) : (choice (rule :: rules)).Even f := by
  obtain ⟨even, rest⟩ := List.forall_mem_cons.mp all
  exact ⟨even, fun m m' => concurs_choiceAfter (List.forall₂_same.mpr fun alternative mem =>
    (rest alternative mem).concurs) rfl⟩

theorem Concurs.commaSeparated {rule rule' : Rule Sym α} (same : rule.Concurs f rule') :
    (commaSeparated rule).Concurs f (Rule.commaSeparated rule') :=
  same.bind fun _ => (((even_expect .comma).bind fun _ => same).many).bind fun _ => concurs_pure _

theorem Concurs.parenthesizedList {rule rule' : Rule Sym α} (same : rule.Concurs f rule') :
    (parenthesizedList rule).Concurs f (Rule.parenthesizedList rule') :=
  (even_expect _).bind fun _ => same.commaSeparated.bind fun _ =>
    (even_expect _).bind fun _ => concurs_pure _

theorem Concurs.run {rule rule' : Rule Sym α} (same : rule.Concurs f rule') :
    (run rule).Concurs f (Rule.run rule') :=
  Concurs.reporting <| same.attempt.bind fun _ => (even_eat _).bind fun _ =>
    (even_check _).bind fun _ => .ite (concurs_pure _) (concurs_failAny _)

/-- What names stand for comes to the same at every level of nesting if it does so where the names are
read. -/
theorem tapeLevels_concur {body body' : ∀ α : Type, Sym α → Rule Sym α}
    (same : ∀ α name, (body α name).Concurs f (body' α name)) (limit : Nat) :
    List.Forall₂ (TapeLevel.Concurs f) (tapeLevels body limit) (tapeLevels body' limit) := by
  induction limit with
  | zero => exact .nil
  | succ limit ih => exact .cons (fun α name s s' twin => same α name _ _ ih s s' twin) ih

end

end Rule

namespace SqlRule

open Rule

variable {f : Features}

@[simp] theorem identifier_even : identifier.Even f := by
  simp only [identifier, even_bind, even_peek, true_and]
  intro t
  split <;> simp

@[simp] theorem objectName_even : objectName.Even f := by simp [objectName]

@[simp] theorem identifierList_even : identifierList.Even f := by simp [identifierList]

@[simp] theorem expression_even : expression.Even f := trivial

@[simp] theorem operand_even : operand.Even f := trivial

@[simp] theorem selectStatement_even : selectStatement.Even f := trivial

@[simp] theorem joinGroup_even : joinGroup.Even f := trivial

@[simp] theorem typeWord?_even (isFirst : Bool) : (typeWord? isFirst).Even f := by
  simp only [typeWord?, even_bind, even_peek, true_and]
  intro t
  split <;> simp

@[simp] theorem eatWord_even (word : String) : (eatWord word).Even f := by
  simp only [eatWord, even_bind, even_peek, true_and]
  intro t
  split <;> simp

@[simp] theorem integerUpTo_even (limit : Nat) (what : String) : (integerUpTo limit what).Even f := by
  simp only [integerUpTo, even_bind, even_peek, true_and]
  intro t
  split <;> simp

@[simp] theorem balanced_even : balanced.Even f := by
  simp only [balanced, even_bind, even_loop, even_peek, even_pure, true_and, and_true, implies_true]
  intro depth t
  split <;> simp

@[simp] theorem customType_even (first : String) : (customType first).Even f := by
  simp only [customType, even_bind, even_loop, typeWord?_even, true_and]
  refine ⟨fun name word => ?_, by simp⟩
  split <;> simp

@[simp] theorem dataType_even : dataType.Even f := by
  simp only [dataType, even_bind, typeWord?_even, true_and]
  intro word
  split
  · simp
  · refine ⟨trivial, fun _ => ⟨by simp [typeName], fun name => ?_⟩⟩
    dsimp only
    split <;> simp [lengthArgument, scaleArguments]

@[simp] theorem infixed_even (op : InfixOp) (left : Expr) : (infixed op left).Even f := by
  cases op <;> simp [infixed, negation]

@[simp] theorem functionCall_even (name : Ident) (p : Position) : (functionCall name p).Even f := by
  simp [functionCall]

@[simp] theorem nameExpression_even : nameExpression.Even f := by simp [nameExpression]

@[simp] theorem caseExpression_even : caseExpression.Even f := by simp [caseExpression, whenClause]

@[simp] theorem keywordForm_even {form : SqlRule Expr} (reserved : Bool) (even : form.Even f) :
    (keywordForm reserved form).Even f := by
  unfold keywordForm
  split
  · exact even
  · exact even_choice (by simp [even])

@[simp] theorem wordExpression_even (p : Position) : (wordExpression p).Even f := by
  simp only [wordExpression, even_bind, even_peek, even_checkKeyword, true_and, even_ite]
  refine fun t isCase => ⟨by simp, fun _ isCast => ⟨by simp [castExpression], fun _ isExists =>
    ⟨by simp [existsExpression], fun _ => ⟨by simp [literalWord?], fun word => ?_⟩⟩⟩⟩
  split
  · simp
  · refine ⟨trivial, fun t => ?_⟩
    dsimp only
    split <;> simp

@[simp] theorem primary_even : primary.Even f := by
  simp only [primary, even_bind, even_start, even_peek, true_and]
  intro p t
  split <;> simp [single]

@[simp] theorem prefixed_even : prefixed.Even f := by
  simp only [prefixed, even_bind, even_start, even_peek, true_and]
  intro p t
  split <;> simp

@[simp] theorem clause?_even (k : Keyword) : (clause? k).Even f := by simp [clause?]

@[simp] theorem joinType_even : joinType.Even f := by simp [joinType]

@[simp] theorem joinCondition_even : joinCondition.Even f := by simp [joinCondition]

@[simp] theorem orderDirection_even : orderDirection.Even f := by simp [orderDirection]

@[simp] theorem distinct_even : distinct.Even f := by simp [distinct]

@[simp] theorem foreignKey_even : foreignKey.Even f := by
  simp [foreignKey, referentialActions, referentialAction]

@[simp] theorem constraintName?_even : constraintName?.Even f := by simp [constraintName?]

@[simp] theorem columnConstraintKind_even : columnConstraintKind.Even f :=
  even_choice (by
    simp [notNull, null, primaryKey, unique, defaultValue, checkConstraint, parenthesizedCondition,
      references])

@[simp] theorem tableConstraint_even : tableConstraint.Even f := by
  simp [tableConstraint, tableConstraintKind, parenthesizedCondition]

@[simp] theorem temporary_even : temporary.Even f := by simp [temporary]

@[simp] theorem insertSource_even : insertSource.Even f :=
  even_choice (by simp [valuesSource, defaultValuesSource, querySource])

@[simp] theorem assignment_even : assignment.Even f := by simp [assignment]

@[simp] theorem pragmaStatement_even : pragmaStatement.Even f := by
  have value : pragmaValue.Even f := even_choice (by simp [keywordValue])
  simp [pragmaStatement, value]

@[simp] theorem semicolons_even : semicolons.Even f := by simp [semicolons]

end SqlRule

end SqlTree
