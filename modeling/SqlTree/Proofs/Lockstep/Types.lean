import SqlTree.Proofs.Lockstep.Steps

namespace SqlTree

open Rule SqlRule

section

variable {α : Type} {L : Likeness} {texts : Facing L} {f : Features}
  {levels : List (TapeLevel Symbol)} {R : α → α → Prop} {rule other : SqlRule α}

/-- A word that is followed by something else than what stands there without it. -/
theorem matches_ifEaten {k : Keyword} (found : Matches texts levels rule R)
    (missing : Matches texts levels other R) :
    Matches texts levels (do if ← eatKeyword k then rule else other) R :=
  fun _ => (matches_eatKeyword k).ite found missing

/-- A choice that the dialect makes. -/
theorem Rule.Matches.choose {condition : Bool} (first : Matches texts levels rule R)
    (second : Matches texts levels other R) :
    Matches texts levels (if condition then rule else other) R := by
  split
  · exact first
  · exact second

/-- Something behind a word, or nothing without the word. -/
theorem Rule.Matches.behindKeyword {k : Keyword} (present : Matches texts levels rule R) :
    Matches texts levels (do if ← eatKeyword k then return some (← rule) else return none)
      (Option.Rel R) :=
  matches_ifEaten (present.map fun _ _ like => .some like) (matches_pure .none)

/-- A word that changes nothing. -/
theorem matches_wordThen {k : Keyword} {value : α} (related : R value value) :
    Matches texts levels (do
      let _ ← eatKeyword k
      return value) R :=
  fun _ => (matches_eatKeyword k).bind fun _ _ _ _ => mirrors_pure related

theorem orderDirection_matches : Matches texts levels orderDirection Eq :=
  matches_ifEaten (matches_pure rfl) (matches_wordThen rfl)

theorem distinct_matches : Matches texts levels distinct Eq :=
  matches_ifEaten (matches_pure rfl) (matches_wordThen rfl)

theorem temporary_matches : Matches texts levels temporary Eq :=
  matches_ifEaten (matches_pure rfl) (matches_eatKeyword _)

theorem nullOrdering?_matches : Matches texts levels (nullOrdering? f) Eq :=
  fun _ => (Matches.choose (matches_eatKeyword _) (matches_pure rfl)).ite
    (matches_ifEaten (matches_pure rfl) (matches_ifEaten (matches_pure rfl) (matches_failAny _)))
    (matches_pure rfl)

theorem ifNotExists_matches : Matches texts levels (ifNotExists f) Eq := by
  refine fun _ => (Matches.choose (matches_eatKeyword _) (matches_pure rfl)).ite (fun _ => ?_)
    (matches_pure rfl)
  refine (matches_expectKeyword _).bind fun _ _ _ _ => ?_
  exact (matches_expectKeyword _).bind fun _ _ _ _ => mirrors_pure rfl

/-- Words that say something by themselves. -/
theorem negation_matches (negated : Bool) : Matches texts levels (negation negated) Eq := by
  unfold negation
  split
  · exact fun _ => (matches_expectKeyword _).bind fun _ _ _ _ => mirrors_pure rfl
  · exact matches_pure rfl

theorem joinType_matches : Matches texts levels joinType Eq := by
  have type : Matches texts levels (do
      if ← eatKeyword .INNER then return JoinType.inner
      else if ← eatKeyword .LEFT then
        let _ ← eatKeyword .OUTER
        return .left
      else if ← eatKeyword .RIGHT then
        let _ ← eatKeyword .OUTER
        return .right
      else if ← eatKeyword .FULL then
        let _ ← eatKeyword .OUTER
        return .full
      else if ← eatKeyword .CROSS then return .cross
      else if ← checkKeyword .JOIN then return .inner
      else failAny ["JOIN", "INNER", "LEFT", "RIGHT", "FULL", "CROSS"]) Eq := by
    refine matches_ifEaten (matches_pure rfl) (matches_ifEaten (matches_wordThen rfl) ?_)
    refine matches_ifEaten (matches_wordThen rfl) (matches_ifEaten (matches_wordThen rfl) ?_)
    refine matches_ifEaten (matches_pure rfl) fun _ => ?_
    exact (matches_checkKeyword _).ite (matches_pure rfl) (matches_failAny _)
  refine fun _ => type.bind fun _ _ _ same => ?_
  exact (matches_expectKeyword _).bind fun _ _ _ _ => mirrors_pure same

theorem referentialAction_matches : Matches texts levels referentialAction Eq := by
  have behind {k : Keyword} {action : ReferentialAction} : Matches texts levels (do
      let _ ← expectKeyword k
      return action) Eq := fun _ => (matches_expectKeyword _).bind fun _ _ _ _ => mirrors_pure rfl
  refine matches_ifEaten (matches_pure rfl) (matches_ifEaten (matches_pure rfl) ?_)
  refine matches_ifEaten (matches_ifEaten (matches_pure rfl) behind) ?_
  exact matches_ifEaten behind (matches_failAny _)

theorem referentialActions_matches : Matches texts levels referentialActions Eq := by
  intro i
  refine Mirrors.loop rfl ?_
  rintro j actions _ rfl
  refine (matches_eatKeyword _).ite (fun _ => ?_) fun _ => mirrors_pure (.stop rfl)
  refine (matches_eatKeyword _).ite (fun _ => ?_) fun _ => ?_
  · refine referentialAction_matches.bind ?_
    rintro _ action _ rfl
    exact mirrors_pure (.next rfl)
  · refine (matches_eatKeyword _).ite (fun _ => ?_) fun _ => mirrors_failAny _
    refine referentialAction_matches.bind ?_
    rintro _ action _ rfl
    exact mirrors_pure (.next rfl)

/-- Empty statements are passed if both texts end together. -/
theorem semicolons_matches (closed : texts.Closed) : Matches texts levels semicolons Eq := by
  intro i
  refine Mirrors.loop rfl fun j _ _ _ => ?_
  exact (matches_eatIf (.inl closed) rfl).ite (fun _ => mirrors_pure (.next rfl))
    fun _ => mirrors_pure (.stop rfl)

/-- Names of things are read alike. -/
theorem identifier_matches : Matches texts levels identifier (Ident.Like L) := by
  refine fun i => peek_cases (fun kind text span span' here spans => ?_)
    fun _ _ _ _ _ _ => matches_failAny _ _
  dsimp only
  split
  · exact bump_bind (by rw [here]; rfl) fun lt => mirrors_pure ⟨rfl, rfl, spans lt⟩
  · exact matches_failAny _ _

theorem identifierList_matches :
    Matches texts levels identifierList (List.Forall₂ (Ident.Like L)) :=
  identifier_matches.parenthesizedList

theorem objectName_matches : Matches texts levels objectName (ObjectName.Like L) := by
  intro i
  refine matches_start.bind fun _ _ _ starts => ?_
  refine identifier_matches.bind fun _ first first' likeFirst => ?_
  refine (matches_eat rfl).ite (fun _ => ?_) fun _ => ?_
  · refine identifier_matches.bind fun _ name name' likeName => ?_
    exact spanFrom_bind starts fun _ _ span => mirrors_pure ⟨.some likeFirst, likeName, span⟩
  · exact spanFrom_bind starts fun _ _ span => mirrors_pure ⟨.none, likeFirst, span⟩

theorem constraintName?_matches :
    Matches texts levels constraintName? (Option.Rel (Ident.Like L)) :=
  identifier_matches.behindKeyword

/-- The names that expressions are given are read alike. -/
theorem alias?_matches : Matches texts levels (alias? f) (Option.Rel (Ident.Like L)) := by
  have name : Matches texts levels (do return some (← identifier)) (Option.Rel (Ident.Like L)) :=
    identifier_matches.map fun _ _ like => .some like
  refine matches_ifEaten name fun _ => peek_cases (fun kind text span span' _ _ => ?_)
    fun _ _ _ _ _ _ => mirrors_pure .none
  have same : isBareAlias f ⟨kind, text, span'⟩ = isBareAlias f ⟨kind, text, span⟩ := rfl
  rw [same]
  split
  · exact name _
  · exact mirrors_pure .none

end

variable {L : Likeness} {texts : Facing L} {levels : List (TapeLevel Symbol)} {i : Nat}

theorem eatWord_matches (word : String) : Matches texts levels (eatWord word) Eq := by
  refine fun i => peek_cases (fun kind text span span' here _ => ?_)
    fun _ _ _ _ _ _ => mirrors_pure rfl
  dsimp only
  split
  · split
    · exact bump_bind (by rw [here]; rfl) fun _ => mirrors_pure rfl
    · exact mirrors_pure rfl
  · exact mirrors_pure rfl

/-- Numbers in the arguments of a type have the same value in both texts. -/
theorem integerUpTo_matches (most : Nat) (what : String) :
    Matches texts levels (integerUpTo most what) Eq := by
  refine fun i => peek_cases (fun kind text span span' here _ => ?_)
    fun _ _ _ _ _ _ => mirrors_failAny _
  dsimp only
  split
  · split
    · exact bump_bind (by rw [here]; rfl) fun _ => mirrors_pure rfl
    · exact mirrors_failAny _
  · exact mirrors_failAny _

theorem lengthArgument_matches : Matches texts levels lengthArgument Eq := by
  refine fun _ => (matches_eat rfl).ite (fun _ => ?_) fun _ => mirrors_pure rfl
  refine (integerUpTo_matches _ _).bind ?_
  rintro _ length _ rfl
  exact (matches_expect rfl).bind fun _ _ _ _ => mirrors_pure rfl

theorem scaleArguments_matches : Matches texts levels scaleArguments Eq := by
  have scale : Matches texts levels (do
      if ← eat .comma then return some (← integerUpTo 0xFFFF "scale") else return none) Eq := by
    refine fun _ => (matches_eat rfl).ite (fun _ => ?_) fun _ => mirrors_pure rfl
    exact (integerUpTo_matches _ _).bind fun _ _ _ same => mirrors_pure (congrArg some same)
  refine fun _ => (matches_eat rfl).ite (fun _ => ?_) fun _ => mirrors_pure rfl
  refine (integerUpTo_matches _ _).bind ?_
  rintro _ precision _ rfl
  refine scale.bind ?_
  rintro _ scale _ rfl
  exact (matches_expect rfl).bind fun _ _ _ _ => mirrors_pure rfl

/-- How deeply both runs are in arguments that begin behind the first `i` tokens. Where one text goes on
with another statement, all parentheses that are open are closed before. -/
structure InArguments (texts : Facing L) (i j depth depth' : Nat) : Prop where
  same : depth = depth'
  inside : i = j ∨ i < j ∧ 0 < depth
  closes : ¬ texts.Closed → ∃ outer, openBehind (outer + depth) (texts.left.tokens.drop j) = some 0
  onward : ∀ rest, Enclosed depth rest → Enclosed 0 (texts.left.between i j ++ rest)

namespace InArguments

variable {j depth depth' deeper : Nat}

theorem le (held : InArguments texts i j depth depth') : i ≤ j := by
  rcases held.inside with rfl | ⟨lt, -⟩ <;> omega

/-- A token behind which parentheses are open. -/
theorem next (held : InArguments texts i j depth depth) (lt : j < texts.left.length)
    (notEof : (texts.left.tokenAt j).isEof = false)
    (goesOn : depthBehind depth (texts.left.tokenAt j) = some deeper) :
    InArguments texts i (j + 1) deeper deeper := by
  refine ⟨rfl, .inr ⟨Nat.lt_succ_of_le held.le, depthBehind_pos goesOn⟩, fun opens => ?_, fun rest enclosed => ?_⟩
  · obtain ⟨outer, closes⟩ := held.closes opens
    rw [texts.left.drop_of_lt lt, openBehind_of_depthBehind goesOn] at closes
    exact ⟨outer, closes⟩
  · rw [texts.left.between_succ held.le lt, List.append_assoc]
    exact held.onward _ (.next notEof goesOn enclosed)

/-- The token that closes the last parenthesis. -/
theorem last (held : InArguments texts i j depth depth) (lt : j < texts.left.length)
    (notEof : (texts.left.tokenAt j).isEof = false) (closes : depthBehind depth (texts.left.tokenAt j) = none) :
    Enclosed 0 (texts.left.between i (j + 1)) := by
  rw [texts.left.between_succ held.le lt]
  exact held.onward _ (.last notEof closes)

/-- Within arguments the first text ends only if the second one does. -/
theorem not_ended (held : InArguments texts i j depth depth')
    (leftParen : (texts.left.tokenAt i).kind = .leftParen)
    (isEof : (texts.left.tokenAt j).kind = .eof) : texts.Closed := by
  by_contra opens
  obtain ⟨outer, closes⟩ := held.closes opens
  have ended : texts.left.length ≤ j := by
    by_contra lt
    have notEof := texts.left.notEof _ (List.getElem_mem (Nat.lt_of_not_le lt))
    rw [← texts.left.tokenAt_of_lt (Nat.lt_of_not_le lt), Token.isEof, isEof] at notEof
    cases notEof
  rw [List.drop_eq_nil_of_le ended] at closes
  have none : outer + depth = 0 := Option.some.inj closes
  rcases held.inside with rfl | ⟨-, positive⟩
  · rw [isEof] at leftParen
    cases leftParen
  · omega

end InArguments

/-- Both runs stop at the parenthesis that closes the first one. -/
theorem balanced_mirrors (leftParen : (texts.left.tokenAt i).kind = .leftParen) :
    Mirrors texts levels i balanced balanced fun j _ _ => Enclosed 0 (texts.left.between i j) := by
  let closed (j : Nat) (_ _ : Nat) : Prop := Enclosed 0 (texts.left.between i j)
  have start : InArguments texts i i 0 0 := by
    refine ⟨rfl, .inl rfl, fun opens => ?_, fun rest enclosed => ?_⟩
    · rcases texts.closing with closed | ⟨-, nested, -⟩
      · exact absurd closed opens
      · exact nested.drop i
    · rwa [texts.left.between_self, List.nil_append]
  refine (Mirrors.loop_until (InArguments texts i) closed start ?_).bind
    fun _ _ _ enclosed => mirrors_pure enclosed
  rintro j depth _ held
  obtain rfl := held.same
  -- Every token is consumed; what differs is how deep it leaves both runs.
  have take {next : Option Nat} (notEof : (texts.left.tokenAt j).isEof = false)
      (behind : depthBehind depth (texts.left.tokenAt j) = next) :
      Mirrors texts levels j (do let _ ← bump; return next : SqlRule (Option Nat)) (do let _ ← bump; return next)
        fun k => Turns (InArguments texts i) closed depth depth j k := by
    refine bump_bind notEof fun lt => mirrors_pure ?_
    cases next with
    | none => exact .stop (held.last lt notEof behind)
    | some deeper => exact .next (held.next lt notEof behind) fun stays => absurd stays (Nat.not_succ_le_self j)
  refine peek_cases (fun kind text span span' here _ => ?_) fun text span _ _ here opens =>
    absurd (held.not_ended leftParen (by rw [here])) opens
  dsimp only
  split
  · exact take (by rw [here]; rfl) (by rw [here, depthBehind])
  · exact take (by rw [here]; rfl) (by rw [here, depthBehind])
  · exact mirrors_failAny _
  · rename_i left right notEof
    refine take (by rw [here]; simpa [Token.isEof] using notEof) ?_
    rw [here, depthBehind]
    split
    · exact absurd ‹_› left
    · exact absurd ‹_› right
    · rfl

/-- Both runs find the same word, which stays. -/
theorem typeWord?_mirrors (isFirst : Bool) :
    Mirrors texts levels i (typeWord? isFirst) (typeWord? isFirst) fun j word word' =>
      j = i ∧ word' = word ∧ (texts.left.tokenAt i).typeWord? isFirst = word := by
  refine peek_cases (fun kind text span span' here _ => ?_) fun text span _ _ here _ => ?_
  · rw [here, Token.typeWord?]
    cases kind <;> exact mirrors_pure ⟨rfl, rfl, rfl⟩
  · rw [here]
    exact mirrors_pure ⟨rfl, rfl, rfl⟩

theorem TokenKind.eq_leftParen {kind : TokenKind} (same : kind.sameKind .leftParen = true) :
    kind = .leftParen := by
  cases kind <;> first | rfl | cases same

section

variable {h : Nat} {first : String}

/-- Arguments from a parenthesis to the one that closes it correspond as written behind the words in front
of them. -/
theorem writtenArguments_mirrors {words : List String}
    (named : TypeWords (texts.left.between h i) words)
    (leftParen : (texts.left.tokenAt i).kind = .leftParen) :
    Mirrors texts levels i (do
        let opening ← start
        balanced
        let arguments ← slice (← spanFrom opening)
        return DataType.custom (" ".intercalate words ++ arguments))
      (do
        let opening ← start
        balanced
        let arguments ← slice (← spanFrom opening)
        return DataType.custom (" ".intercalate words ++ arguments)) fun _ => DataType.Like L := by
  refine start_bind ((balanced_mirrors leftParen).bind fun j _ _ encloses => mirrors_within fun within => ?_)
  have tokens : TypeTokens texts.left.tokens words h i j := by
    refine ⟨named, ⟨texts.left.tokenAt i, ?_, leftParen⟩, encloses, within⟩
    rw [texts.left.tokenAt_of_lt encloses.lt.2, List.getElem?_eq_getElem]
  refine (mirrors_spanFrom _ _).bind ?_
  rintro k _ _ ⟨rfl, rfl, rfl⟩
  rw [Position.later_of_lt (texts.left.startAt_lt_stopAt encloses.lt.1 within),
    Position.later_of_lt (texts.right.startAt_lt_stopAt encloses.lt.1 (texts.length ▸ within))]
  have slices : Mirrors texts levels k
      (slice ⟨texts.left.startAt i, texts.left.stopAt k⟩ : SqlRule String)
      (slice ⟨texts.right.startAt i, texts.right.stopAt k⟩) fun _ => L.written words :=
    mirrors_slice (texts.written words h i k tokens)
  exact slices.bind fun _ _ _ written => mirrors_pure (.custom written)

/-- What a name is while its words are read, the first of which stands behind the first `h` tokens. -/
structure InName (texts : Facing L) (h : Nat) (first : String) (j : Nat) (name name' : String) : Prop where
  same : name' = name
  lt : h < j
  words : ∃ words, FurtherWords (texts.left.between (h + 1) j) words ∧ name = joined first words

/-- One more word of the name is the same in both texts. -/
theorem InName.next {j : Nat} {name word : String} (held : InName texts h first j name name)
    (lt : j < texts.left.length) (found : (texts.left.tokenAt j).typeWord? false = some word) :
    InName texts h first (j + 1) s!"{name} {word}" s!"{name} {word}" := by
  obtain ⟨words, further, rfl⟩ := held.words
  refine ⟨rfl, Nat.lt_succ_of_lt held.lt, words ++ [word], ?_, (joined_append first words word).symm⟩
  rw [texts.left.between_succ held.lt lt]
  exact List.rel_append further (.cons found .nil)

/-- A name that no dialect knows has the same words, and the same tokens in its arguments. -/
theorem customType_mirrors (lt : h < texts.left.length)
    (found : (texts.left.tokenAt h).typeWord? true = some first) :
    Mirrors texts levels (h + 1) (customType first) (customType first) fun _ => DataType.Like L := by
  have start : InName texts h first (h + 1) first first := by
    refine ⟨rfl, Nat.lt_succ_self h, [], ?_, rfl⟩
    rw [texts.left.between_self]
    exact .nil
  refine Mirrors.loop_bind (InName texts h first) start ?_ ?_
  · rintro j name _ held
    obtain rfl := held.same
    refine (typeWord?_mirrors false).bind ?_
    rintro k _ word ⟨rfl, rfl, found⟩
    cases word with
    | none => exact mirrors_pure (.stop held)
    | some word =>
      exact bump_bind (Token.isEof_of_typeWord? found) fun lt => mirrors_pure (.next (held.next lt found))
  · rintro j name _ held
    obtain rfl := held.same
    refine check_bind (.inr rfl) fun paren here => ?_
    cases paren with
    | false => exact mirrors_pure (.same _)
    | true =>
      obtain ⟨words, further, rfl⟩ := held.words
      have named : TypeWords (texts.left.between h j) (first :: words) := by
        rw [texts.left.between_of_lt held.lt lt]
        exact .cons found further
      rw [joined_eq]
      exact writtenArguments_mirrors named (TokenKind.eq_leftParen (here rfl))

/-- A name that takes no arguments, or known ones, goes on to such a name. -/
theorem typeName_matches (known : DataType.argumentsOf first ≠ .verbatim) :
    Matches texts levels (typeName first) fun name name' =>
      name' = name ∧ DataType.argumentsOf name ≠ .verbatim := by
  unfold typeName
  split
  · exact fun _ => (matches_eatKeyword _).bind fun _ _ _ _ => mirrors_pure ⟨rfl, known⟩
  · split
    · refine fun _ => (eatWord_matches _).bind ?_
      rintro _ varying _ rfl
      cases varying with
      | false => exact mirrors_pure ⟨rfl, known⟩
      | true => exact mirrors_pure ⟨rfl, (by decide : DataType.argumentsOf "VARCHAR" ≠ .verbatim)⟩
    · exact matches_pure ⟨rfl, known⟩

/-- Types are read alike in both texts. -/
theorem dataType_matches : Matches texts levels dataType (DataType.Like L) := by
  intro i
  refine (typeWord?_mirrors true).bind ?_
  rintro j _ word ⟨rfl, rfl, found⟩
  cases word with
  | none => exact mirrors_failAny _
  | some first =>
    refine bump_bind (Token.isEof_of_typeWord? found) fun lt => ?_
    by_cases verbatim : DataType.argumentsOf first = .verbatim
    · rw [typeName_of_verbatim verbatim]
      have names : Mirrors texts levels (j + 1) (Pure.pure first : SqlRule String) (Pure.pure first)
          fun k name name' => k = j + 1 ∧ name = first ∧ name' = first := mirrors_pure ⟨rfl, rfl, rfl⟩
      refine names.bind ?_
      rintro _ _ _ ⟨rfl, rfl, rfl⟩
      rw [verbatim]
      exact customType_mirrors lt found
    · refine (typeName_matches verbatim).bind ?_
      rintro _ name _ ⟨rfl, known⟩
      dsimp only
      split
      · exact mirrors_pure (.same _)
      · refine lengthArgument_matches.bind ?_
        rintro _ length _ rfl
        exact mirrors_pure (.same _)
      · refine scaleArguments_matches.bind ?_
        rintro _ ⟨precision, scale⟩ _ rfl
        exact mirrors_pure (.same _)
      · exact absurd ‹_› known

end

end SqlTree
