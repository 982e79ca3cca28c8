import SqlTree.Proofs.Naming.Accords

namespace SqlTree

open Rule SqlRule

variable {N : Naming} {f : Features}

theorem orderDirection_accords : Accords N Eq orderDirection orderDirection :=
  (accords_pure rfl).ifEaten (accords_wordThen rfl)

theorem distinct_accords : Accords N Eq distinct distinct :=
  (accords_pure rfl).ifEaten (accords_wordThen rfl)

theorem temporary_accords : Accords N Eq temporary temporary :=
  (accords_pure rfl).ifEaten (accords_eatKeyword _)

theorem nullOrdering?_accords : Accords N Eq (nullOrdering? f) (nullOrdering? f) := by
  refine ((accords_eatKeyword _).choose (accords_pure rfl)).ite ?_ (accords_pure rfl)
  exact (accords_pure rfl).ifEaten ((accords_pure rfl).ifEaten (accords_failAny _))

theorem ifNotExists_accords : Accords N Eq (ifNotExists f) (ifNotExists f) :=
  ((accords_eatKeyword _).choose (accords_pure rfl)).ite (accords_pure rfl).behindWord.behindWord
    (accords_pure rfl)

theorem negation_accords (negated : Bool) : Accords N Eq (negation negated) (negation negated) :=
  (accords_pure rfl).behindWord.choose (accords_pure rfl)

/-- The kind of a join is the same on both sides. -/
theorem joinType_accords : Accords N Eq joinType joinType := by
  refine Accords.same_bind ?_ fun _ => (accords_pure rfl).behindWord
  refine (accords_pure rfl).ifEaten ((accords_wordThen rfl).ifEaten ?_)
  refine (accords_wordThen rfl).ifEaten ((accords_wordThen rfl).ifEaten ?_)
  refine (accords_pure rfl).ifEaten ?_
  exact (accords_checkKeyword _).ite (accords_pure rfl) (accords_failAny _)

theorem referentialAction_accords : Accords N Eq referentialAction referentialAction := by
  refine (accords_pure rfl).ifEaten ((accords_pure rfl).ifEaten ?_)
  refine ((accords_pure rfl).ifEaten (accords_pure rfl).behindWord).ifEaten ?_
  exact (accords_pure rfl).behindWord.ifEaten (accords_failAny _)

theorem referentialActions_accords : Accords N Eq referentialActions referentialActions := by
  refine Accords.loop (fun actions _ same => ?_) rfl
  subst same
  refine Accords.ifEaten ?_ (accords_pure .none)
  refine (referentialAction_accords.map ?_).ifEaten
    ((referentialAction_accords.map ?_).ifEaten (accords_failAny _))
  · rintro _ _ rfl
    exact .some rfl
  · rintro _ _ rfl
    exact .some rfl

theorem semicolons_accords : Accords N Eq semicolons semicolons :=
  Accords.loop (fun _ _ _ => (accords_eat _).ite (accords_pure (.some rfl)) (accords_pure .none)) rfl

/-- Names may stand for each other if their tokens may. -/
theorem identifier_accords : Accords N N.name identifier identifier := by
  refine accords_peek.bind fun t t' token => ?_
  rcases (N.recased token).kind_or with same | ⟨value, value', kind, kind'⟩
  · rw [same]
    split
    · rename_i kind
      exact bump_then fun _ _ => accords_pure (N.name_of token kind (same.trans kind))
    · exact accords_failAny _
  · rw [kind, kind']
    exact bump_then fun _ _ => accords_pure (N.name_of token kind kind')

theorem identifierList_accords : Accords N (List.Forall₂ N.name) identifierList identifierList :=
  identifier_accords.parenthesizedList

/-- The names of tables accord with those of their schemas. -/
theorem objectName_accords : Accords N (ObjectName.Alike N) objectName objectName := by
  refine accords_start.same_bind fun _ => identifier_accords.bind fun _ _ first => ?_
  refine (accords_eat _).ite (identifier_accords.bind fun _ _ name => ?_) ?_
  · exact spanFrom_then fun _ => ⟨.some first, name, rfl⟩
  · exact spanFrom_then fun _ => ⟨.none, first, rfl⟩

theorem constraintName?_accords : Accords N (Option.Rel N.name) constraintName? constraintName? :=
  identifier_accords.ifWord

/-- Whether a name can do without AS does not depend on the case of its letters. -/
theorem Token.Recased.isBareAlias {t t' : Token} (recased : t.Recased t') :
    isBareAlias f t' = isBareAlias f t := by
  cases recased with
  | same => rfl
  | keyword => rfl
  | name same => simp [SqlRule.isBareAlias, Token.isQuoted, Keyword.ofWord?_eq_of_sameWord same]

/-- An alias is there on both sides or on neither. -/
theorem alias?_accords : Accords N (Option.Rel N.name) (alias? f) (alias? f) := by
  have name : Accords N (Option.Rel N.name) (do return some (← identifier))
      (do return some (← identifier)) := identifier_accords.map fun _ _ name => .some name
  refine name.ifEaten (accords_peek.bind fun t t' token => ?_)
  rw [(N.recased token).isBareAlias]
  exact name.choose (accords_pure .none)

/-- Words that agree up to the case of their letters. -/
abbrev SameWord (a a' : String) : Prop := sameWord a a' = true

/-- A word of a type may be written in any case. -/
theorem isTypeWord_eq_of_sameWord {a a' : String} (same : sameWord a a' = true) :
    isTypeWord a' = isTypeWord a := by
  rw [isTypeWord, isTypeWord, Keyword.ofWord?_eq_of_sameWord same]

theorem typeWord?_accords (isFirst : Bool) :
    Accords N (Option.Rel SameWord) (typeWord? isFirst) (typeWord? isFirst) := by
  refine accords_peek.bind fun t t' token => ?_
  have named {found : Bool} {a a' : String} (same : SameWord a a') :
      Accords N (Option.Rel SameWord) (return if found then some a else none)
        (return if found then some a' else none) := by
    refine accords_pure ?_
    cases found
    · exact .none
    · exact .some same
  cases N.recased token with
  | same =>
    split
    · exact named (sameWord_refl _)
    · exact named (sameWord_refl _)
    · exact accords_pure .none
  | keyword same => exact named same
  | name same =>
    simp only [Token.isQuoted, bne_self_eq_false, Bool.false_eq_true, if_false,
      isTypeWord_eq_of_sameWord same]
    exact named same

theorem eatWord_accords (word : String) : Accords N Eq (eatWord word) (eatWord word) := by
  refine accords_peek.bind fun t t' token => ?_
  have recased := N.recased token
  have eaten : Accords N Eq (if sameWord t.text word then do let _ ← Rule.bump; return true else return false)
      (if sameWord t'.text word then do let _ ← Rule.bump; return true else return false) := by
    rw [sameWord_congr recased.text]
    exact (bump_then fun _ _ => accords_pure rfl).choose (accords_pure rfl)
  rcases recased.kind_or with same | ⟨value, value', kind, kind'⟩
  · rw [same]
    split
    · exact eaten
    · exact accords_pure rfl
  · rw [kind, kind']
    exact eaten

theorem integerUpTo_accords (most : Nat) (what : String) :
    Accords N Eq (integerUpTo most what) (integerUpTo most what) := by
  refine accords_peek.bind fun t t' token => ?_
  rcases (N.recased token).kind_or with same | ⟨value, value', kind, kind'⟩
  · rw [same]
    split
    · split
      · exact bump_then fun _ _ => accords_pure rfl
      · exact accords_failAny _
    · exact accords_failAny _
  · rw [kind, kind']
    exact accords_failAny _

theorem lengthArgument_accords : Accords N Eq lengthArgument lengthArgument := by
  refine (accords_eat _).ite ?_ (accords_pure rfl)
  exact (integerUpTo_accords _ _).same_bind fun _ => (accords_pure rfl).behind

theorem scaleArguments_accords : Accords N Eq scaleArguments scaleArguments := by
  refine (accords_eat _).ite ((integerUpTo_accords _ _).same_bind fun _ => ?_) (accords_pure rfl)
  refine Accords.same_bind ?_ fun _ => (accords_pure rfl).behind
  exact (accords_eat _).ite ((integerUpTo_accords _ _).map fun _ _ => congrArg some) (accords_pure rfl)

theorem balanced_accords : Accords N Eq balanced balanced := by
  refine Accords.same_bind (Accords.loop (fun depth _ same => ?_) rfl) fun _ => accords_pure rfl
  subst same
  have consumed {depth? : Option Nat} : Accords N (Option.Rel Eq)
      (do let _ ← Rule.bump; return depth?) (do let _ ← Rule.bump; return depth?) := by
    refine bump_then fun _ _ => accords_pure ?_
    cases depth?
    · exact .none
    · exact .some rfl
  refine accords_peek.bind fun t t' token => ?_
  rcases (N.recased token).kind_or with same | ⟨value, value', kind, kind'⟩
  · rw [same]
    split
    · exact consumed
    · exact consumed
    · exact accords_failAny _
    · exact consumed
  · rw [kind, kind']
    exact consumed

/-- A type whose name no dialect shares keeps its words in their own case. -/
theorem customType_accords {first first' : String} (same : SameWord first first') :
    Accords N DataType.Alike (customType first) (customType first') := by
  refine Accords.bind (R := SameWord) (Accords.loop (fun name name' same => ?_) same)
    fun name name' same => ?_
  · refine (typeWord?_accords false).bind fun _ _ word => ?_
    cases word with
    | none => exact accords_pure .none
    | some word =>
      refine bump_then fun _ _ => accords_pure (.some ?_)
      exact sameWord_append (sameWord_append same (sameWord_refl " ")) word
  · refine (accords_check _).ite ?_ (accords_pure (.custom same))
    refine accords_start.same_bind fun _ => balanced_accords.same_bind fun _ => ?_
    refine (accords_spanFrom _).same_bind fun span => (accords_slice span).bind fun _ _ written => ?_
    exact accords_pure (.custom (sameWord_append same written))

theorem typeName_accords {first first' : String} (same : SameWord first first') :
    Accords N SameWord (typeName first) (typeName first') := by
  unfold typeName
  rw [sameWord_congr same, sameWord_congr same]
  refine ((accords_eatKeyword _).same_bind fun _ => accords_pure same).choose ?_
  refine ((eatWord_accords _).same_bind fun _ => accords_pure ?_).choose (accords_pure same)
  split
  · exact sameWord_refl _
  · exact same

/-- Types of words that agree up to the case of their letters are alike. -/
theorem ofParts_alike {name name' : String} (same : SameWord name name')
    (length precision scale : Option Nat) :
    (DataType.ofParts name length precision scale).Alike
      (DataType.ofParts name' length precision scale) := by
  unfold DataType.ofParts
  rw [upperCase_eq_of_sameWord same]
  split
  · exact .same _
  · exact .same _
  · exact .same _
  · exact .custom same

/-- Types are the same but for the case of the words of a type that no dialect shares. -/
theorem dataType_accords : Accords N DataType.Alike dataType dataType := by
  refine (typeWord?_accords true).bind fun _ _ first => ?_
  cases first with
  | none => exact accords_failAny _
  | some first =>
    refine bump_then fun _ _ => (typeName_accords first).bind fun name name' same => ?_
    have arguments : DataType.argumentsOf name' = DataType.argumentsOf name := by
      rw [DataType.argumentsOf, DataType.argumentsOf, upperCase_eq_of_sameWord same]
    rw [arguments]
    split
    · exact accords_pure (ofParts_alike same _ _ _)
    · exact lengthArgument_accords.same_bind fun _ => accords_pure (ofParts_alike same _ _ _)
    · exact scaleArguments_accords.same_bind fun _ => accords_pure (ofParts_alike same _ _ _)
    · exact customType_accords same

end SqlTree
