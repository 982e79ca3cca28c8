import SqlTree.Proofs.Diverging.Steps
import SqlTree.Proofs.Writing.Words

namespace SqlTree

open Rule SqlRule

namespace Diverging

variable {f : Features} {q : Diverging f} {limit i : Nat} {known : Prop}

theorem orderDirection_keeps : q.Keeps limit orderDirection :=
  keeps_ifEaten (by decide) (keeps_value fun _ _ => rfl)
    (keeps_wordThen (by decide) (keeps_value fun _ _ => rfl))

/-- Words that say something by themselves. -/
theorem distinct_keeps : q.Keeps limit distinct :=
  keeps_ifEaten (by decide) (keeps_value fun _ _ => rfl)
    (keeps_wordThen (by decide) (keeps_value fun _ _ => rfl))

/-- A word that only some dialects have. -/
theorem keeps_ifHad {condition : Bool} {k : Keyword} {α : Type} [Visible α] {rule other : SqlRule α}
    (low : k ∉ limitWords) (found : q.Keeps limit rule) (missing : q.Keeps limit other) :
    q.Keeps limit (do if ← (if condition then eatKeyword k else return false) then rule else other) := by
  split
  · exact keeps_ifEaten low found missing
  · exact fun known i => pure_bind (missing known i)

theorem nullOrdering?_keeps : q.Keeps limit (nullOrdering? f) :=
  keeps_ifHad (by decide) (keeps_ifEaten (by decide) (keeps_value fun _ _ => rfl)
    (keeps_ifEaten (by decide) (keeps_value fun _ _ => rfl) (keeps_failAny _)))
    (keeps_value fun _ _ => rfl)

/-- NOT is asked for, or stays out and what follows begins with no name. -/
theorem negation_follows (negated : Bool) : q.Follows limit known i (negation negated)
    (negation negated) q.Clean fun _ => q.Clean := by
  cases negated
  · exact follows_value (fun _ _ => rfl) id
  · exact expectKeyword_bind (fun _ => id) fun _ _ _ => follows_value (fun _ _ => rfl) fun _ => trivial

/-- A join ends its words with JOIN. -/
theorem joinType_follows : q.Follows limit known i joinType joinType q.Clean fun _ _ => True := by
  have value {known : Prop} {k : Nat} {type : JoinType} : q.Follows limit known k
      (Pure.pure type : SqlRule JoinType) (Pure.pure type) (fun _ => True) fun _ => q.Clean :=
    follows_value (fun _ _ => rfl) fun _ => trivial
  have outer {k : Nat} {type : JoinType} : q.Follows limit known k (do
      let _ ← eatKeyword .OUTER
      return type) (do
      let _ ← eatKeyword .OUTER
      return type) (fun _ => True) fun _ => q.Clean :=
    ((keeps_wordThen (by decide) (keeps_value fun _ _ => rfl)).follows (fun _ => trivial)
      fun _ _ => Clean.calm)
  refine Follows.bind (?_ : q.Follows limit known i _ _ q.Clean fun (_ : JoinType) => q.Clean)
    fun k _ _ quoted => expectKeyword_bind (fun _ => id) fun _ _ _ => ?_
  · refine eatKeyword_ite (by decide) Clean.calm (fun _ => id) (fun _ => value) fun _ => ?_
    refine eatKeyword_ite (by decide) Clean.calm (fun _ => id) (fun _ => outer) fun _ => ?_
    refine eatKeyword_ite (by decide) Clean.calm (fun _ => id) (fun _ => outer) fun _ => ?_
    refine eatKeyword_ite (by decide) Clean.calm (fun _ => id) (fun _ => outer) fun _ => ?_
    refine eatKeyword_ite (by decide) Clean.calm (fun _ => id) (fun _ => value) fun _ => ?_
    refine checkKeyword_ite (by decide) Clean.calm (fun _ => ?_) fun _ => follows_failAny _
    exact follows_value (fun _ _ => rfl) fun clean => ⟨clean, clean⟩
  · exact follows_pure (fun holds => holds.2) quoted fun _ => trivial

/-- Names need nothing behind them. -/
theorem identifier_holds : q.Holds limit identifier := fun _ _ => follows_identifier id

theorem identifierList_follows : q.Follows limit known i identifierList identifierList q.Clean
    fun _ _ => True :=
  follows_parenthesizedList identifier_blames.plain (identifier_holds · ·) (fun _ _ _ => trivial)
    fun _ => id

/-- Names with a schema need nothing behind them, as a dot goes on with every name. -/
theorem objectName_holds : q.Holds limit objectName := by
  refine fun known i => start_bind id fun p p' opens => ?_
  refine (identifier_holds known i).bind fun k first first' quoted => ?_
  refine eat_ite rfl (fun _ _ => trivial) (fun _ => ?_) fun _ => ?_
  · refine (identifier_holds _ _).freely.bind fun k name name' quoted' => ?_
    refine spanFrom_bind opens fun _ _ _ => follows_pure ?_ ?_ fun _ => trivial
    · simp +contextual [Lacks]
    · simp_all [Quoted]
  · refine spanFrom_bind opens fun _ _ _ => follows_pure ?_ ?_ fun _ => trivial
    · simp +contextual [Lacks]
    · simp_all [Quoted]

theorem someIdentifier_holds : q.Holds limit (do return some (← identifier)) :=
  identifier_holds.map fun _ _ => rfl

/-- An alias without AS is none of the clause words, and what follows begins with no name. -/
theorem alias?_follows : q.Follows limit known i (alias? f) (alias? f) q.Calm
    fun _ => q.Clear [] [] := by
  refine eatKeyword_ite (by decide) id (fun _ => Clean.calm)
    (fun _ => someIdentifier_holds.follows fun _ => trivial) fun _ => ?_
  refine peek_bind ?_
  cases same : isBareAlias f (q.left.tokenAt i) with
  | true =>
    simp only [if_true]
    by_cases inside : q.Inside i
    · have right : isBareAlias f (q.right.tokenAt i) = true := by
        by_cases here : i = q.spot
        · have rejoins : q.rejoins := inside.resolve_left (by omega)
          rw [here, isBareAlias, q.kind rejoins, q.isQuoted rejoins]
          rfl
        · have like := q.like i (q.clean_of_ne inside.reads here)
          rw [← same, isBareAlias, isBareAlias, like.kind, like.isQuoted]
      rw [right]
      exact someIdentifier_holds.follows Inside.calm
    · exact (someIdentifier_holds known i).lost inside |>.mono id id fun _ _ _ => trivial
  | false =>
    simp only [Bool.false_eq_true, if_false]
    have stays : q.Follows limit known i (Pure.pure none : SqlRule (Option Ident)) (Pure.pure none)
        q.Calm fun _ => q.Clear [] [] := follows_value (fun _ _ => rfl) Clear.calm
    by_cases reads : q.Reads i
    · by_cases clear : q.Clear [] [] i
      · have right : isBareAlias f (q.right.tokenAt i) = false := by
          by_cases here : i = q.spot
          · rcases clear.calm with inside | mild
            · have rejoins : q.rejoins := inside.resolve_left (by omega)
              exact absurd here (clear.unnamed rejoins)
            · rw [here] at same ⊢
              exact mild.bareAlias same
          · have like := q.like i (q.clean_of_ne reads here)
            rw [← same, isBareAlias, isBareAlias, like.kind, like.isQuoted]
        rw [right]
        exact stays
      · exact follows_pure_barred (fun _ _ => rfl) clear
    · exact stays.unread reads

end Diverging

/-- Tokens that are written alike are the same plain word. -/
theorem Token.Like.isPlainWord {t t' : Token} (like : t.Like t') (word : String) :
    t'.isPlainWord word = t.isPlainWord word := by
  simp only [Token.isPlainWord, like.kind, like.text]

theorem Token.isEof_of_isPlainWord {t : Token} {word : String} (plain : t.isPlainWord word = true) :
    t.isEof = false := by
  rw [Token.isEof, beq_eq_false_iff_ne]
  intro isEof
  simp only [Token.isPlainWord, isEof] at plain
  cases plain

/-- One more word behind those of a name of a type. -/
def furtherWord (name : String) : SqlRule (Option String) := do
  match ← typeWord? false with
  | some word =>
    let _ ← bump
    return some s!"{name} {word}"
  | none => return none

/-- A name that no dialect knows by its words and its arguments. -/
theorem customType_eq (first : String) : customType first = (do
    let name ← loop furtherWord first
    if ← check .leftParen then
      let opening ← start
      balanced
      let arguments ← slice (← spanFrom opening)
      return .custom (name ++ arguments)
    else return .custom name) := rfl

section

variable {levels : List (TapeLevel Symbol)} {sheet : Sheet} {i : Nat}

/-- Asking for a word of a type. -/
theorem Rule.comes_typeWord? (isFirst : Bool) :
    (typeWord? isFirst).Comes levels sheet i ((sheet.tokenAt i).typeWord? isFirst) i := by
  refine comes_peek.bind ?_
  unfold Token.typeWord?
  cases (sheet.tokenAt i).kind <;> exact comes_pure _

/-- A plain word is consumed. -/
theorem Rule.comes_eatWord {word : String} (lt : i < sheet.length)
    (plain : (sheet.tokenAt i).isPlainWord word = true) :
    (eatWord word).Comes levels sheet i true (i + 1) := by
  refine comes_peek.bind ?_
  split
  · rename_i kind
    simp only [Token.isPlainWord, kind] at plain
    rw [plain]
    exact (comes_bump lt).bind (comes_pure true)
  · rename_i other
    unfold Token.isPlainWord at plain
    split at plain
    · exact absurd ‹_› (other _)
    · cases plain

/-- What is no plain word stays. -/
theorem Rule.comes_eatWord_not {word : String} (other : (sheet.tokenAt i).isPlainWord word = false) :
    (eatWord word).Comes levels sheet i false i := by
  refine comes_peek.bind ?_
  unfold Token.isPlainWord at other
  split
  · rename_i kind
    simp only [kind] at other
    rw [other]
    exact comes_pure false
  · exact comes_pure false

end

namespace Diverging

section

variable {f : Features} {q : Diverging f} {α : Type} [Visible α] {limit i k : Nat}
  {known : Prop} {need : Nat → Prop} {free : α → Nat → Prop}

/-- A token that may be left out, where the next tokens are alike. -/
theorem eat_clean {kind : TokenKind} (notEof : kind.sameKind .eof = false) {a a' b b' : SqlRule α}
    (found : (q.left.tokenAt i).kind.sameKind kind = true →
      q.Follows limit known (i + 1) a a' (fun _ => True) free)
    (missing : (q.left.tokenAt i).kind.sameKind kind = false → q.Follows limit known i b b' q.Clean free) :
    q.Follows limit known i (do if ← eat kind then a else b) (do if ← eat kind then a' else b')
      q.Clean free :=
  .eating (fun t => t.kind.sameKind kind) (fun _ => comes_eat_not) (fun _ => comes_eat)
    (fun _ _ like => by rw [like.kind]) (fun same => TokenKind.sameKind_eof same notEof)
    (fun clean _ other => by rwa [(q.like i clean).kind]) (fun _ => id) found missing

/-- Where the texts part, no type that begins behind the first `i` tokens and has only words up to there
goes on in the second text. -/
def Settled (q : Diverging f) (i j : Nat) : Prop :=
  j = q.spot → q.rejoins ∨ q.Mild ∨ ¬ TypeGoesOn (q.left.between i q.spot) (q.right.tokenAt q.spot)

/-- Where the next tokens are alike, a type goes on in both texts or in neither. -/
theorem Clean.settled (clean : q.Clean k) : q.Settled i k := fun here => absurd here clean.ne

theorem Calm.settled (calm : q.Calm k) : q.Settled i k := by
  rintro rfl
  refine calm.imp (fun inside => inside.resolve_left (Nat.lt_irrefl _)) .inl

/-- No type behind the sign of a cast goes on where the texts part. -/
theorem settled_of_doubleColon (colons : (q.left.tokenAt i).kind = .doubleColon) (j : Nat) : q.Settled (i + 1) j := by
  rintro rfl
  rcases Nat.lt_or_ge i q.spot with lt | le
  · exact .inr (.inr (q.casts i lt colons))
  · refine .inr (.inr ?_)
    have none : q.left.between (i + 1) q.spot = [] := by
      rw [Sheet.between, List.drop_eq_nil_iff]
      exact Nat.le_trans (List.length_take_le _ _) (by omega)
    rw [none]
    rintro (_ | _ | _)

/-- No word but the first one of the name of a type may be quoted. -/
theorem typeWord?_spot (rejoins : q.rejoins) : (q.right.tokenAt q.spot).typeWord? false = none := by
  simp [Token.typeWord?, q.kind rejoins, q.isQuoted rejoins]

/-- A name in quotes is no plain word. -/
theorem isPlainWord_spot (rejoins : q.rejoins) {word : String}
    (letter : ∃ c cs, word.toList = c :: cs ∧ c.toLower.isAlpha = true) :
    (q.right.tokenAt q.spot).isPlainWord word = false := by
  rw [Token.isPlainWord, q.kind rejoins]
  exact q.unlike rejoins word letter

/-- The first word of a type, which the second one may follow. -/
structure Heads (q : Diverging f) (i : Nat) (first : String) : Prop where
  lt : i < q.left.length
  word : (q.left.tokenAt i).typeWord? true = some first

/-- DOUBLE goes on with PRECISION in both texts or in neither. -/
theorem Heads.precision {first : String} (heads : q.Heads i first)
    (double : sameWord first "DOUBLE" = true) (settled : q.Settled i (i + 1)) (reads : q.Reads (i + 1))
    (other : (q.left.tokenAt (i + 1)).spells .PRECISION = false) :
    (q.right.tokenAt (i + 1)).spells .PRECISION = false := by
  by_cases here : i + 1 = q.spot
  · rcases settled here with rejoins | mild | ends
    · rw [here]
      exact q.noWord rejoins _
    · rw [here] at other ⊢
      exact mild.words _ (by decide) other
    · rw [← here, q.left.between_of_lt (Nat.lt_succ_self i) heads.lt, Sheet.between_self] at ends
      exact Bool.eq_false_iff.mpr fun spells => ends (.precision heads.word double spells)
  · rwa [(q.clean_of_ne reads here).spells]

theorem Heads.varying {first : String} (heads : q.Heads i first)
    (character : sameWord first "CHARACTER" = true) (settled : q.Settled i (i + 1))
    (reads : q.Reads (i + 1)) (other : (q.left.tokenAt (i + 1)).isPlainWord "VARYING" = false) :
    (q.right.tokenAt (i + 1)).isPlainWord "VARYING" = false := by
  by_cases here : i + 1 = q.spot
  · rcases settled here with rejoins | mild | ends
    · rw [here]
      exact q.isPlainWord_spot rejoins ⟨'V', _, rfl, rfl⟩
    · rw [here] at other ⊢
      exact mild.plainWord _ other
    · rw [← here, q.left.between_of_lt (Nat.lt_succ_self i) heads.lt, Sheet.between_self] at ends
      exact Bool.eq_false_iff.mpr fun plain => ends (.varying heads.word character plain)
  · rwa [(q.like _ (q.clean_of_ne reads here)).isPlainWord]

/-- The second word of a name that is known is taken in both texts or in neither. -/
theorem typeName_follows {first : String} (heads : q.Heads i first) :
    q.Follows limit known (i + 1) (typeName first) (typeName first) (q.Settled i)
      fun _ => q.Settled i := by
  unfold typeName
  split
  · rename_i double
    refine .eating (·.spells .PRECISION) (fun _ => comes_eatKeyword_not) (fun _ => comes_eatKeyword)
      (fun _ _ like => like.spells _) Token.isEof_of_spells (heads.precision double)
      (fun _ => Clean.settled) (fun _ => ?_) fun _ => ?_
    · exact follows_value (fun _ _ => rfl) fun _ => trivial
    · exact follows_value (fun _ _ => rfl) id
  · split
    · rename_i character
      refine .eating (·.isPlainWord "VARYING") (fun _ => comes_eatWord_not) (fun _ => comes_eatWord)
        (fun _ _ like => like.isPlainWord _) Token.isEof_of_isPlainWord (heads.varying character)
        (fun _ => Clean.settled) (fun _ => ?_) fun _ => ?_
      · exact follows_value (fun _ _ => rfl) fun _ => trivial
      · exact follows_value (fun _ _ => rfl) id
    · exact follows_value (fun _ _ => rfl) id

theorem integerUpTo_follows (most : Nat) (what : String) :
    q.Follows limit known i (integerUpTo most what) (integerUpTo most what) q.Clean
      fun _ => q.Clean := by
  refine peek_same (fun clean _ => by rw [(q.like _ clean).kind]) ?_
  split
  · rename_i kind
    split
    · refine bump_bind (by rw [Token.isEof, kind]; rfl) id ?_
      exact follows_value (fun _ _ => rfl) fun _ => trivial
    · exact follows_failAny _
  · exact follows_failAny _

theorem lengthArgument_follows {ends : Nat → Prop} (enter : ∀ k, q.Clean k → ends k) :
    q.Follows limit known i lengthArgument lengthArgument ends fun _ => ends := by
  refine eat_ite rfl (fun _ => enter i) (fun _ => ?_) fun _ => follows_value (fun _ _ => rfl) id
  refine (integerUpTo_follows _ _).freely.bind fun k length _ same => ?_
  obtain rfl : length = _ := same
  exact expect_bind rfl (fun _ => id) fun _ _ _ => follows_value (fun _ _ => rfl) fun _ => trivial

theorem scaleArguments_follows {ends : Nat → Prop} (enter : ∀ k, q.Clean k → ends k) :
    q.Follows limit known i scaleArguments scaleArguments ends fun _ => ends := by
  have scale (known : Prop) (i : Nat) : q.Follows limit known i (do
        if ← eat .comma then return some (← integerUpTo 0xFFFF "scale") else return none) (do
        if ← eat .comma then return some (← integerUpTo 0xFFFF "scale") else return none) q.Clean
      fun _ => q.Clean := by
    refine eat_clean rfl (fun _ => ?_) fun _ => follows_value (fun _ _ => rfl) id
    refine (integerUpTo_follows _ _).freely.bind fun _ scale _ same => ?_
    obtain rfl : scale = _ := same
    exact follows_value (fun _ _ => by simp) id
  refine eat_ite rfl (fun _ => enter i) (fun _ => ?_) fun _ => follows_value (fun _ _ => rfl) id
  refine (integerUpTo_follows _ _).freely.bind fun k precision _ same => ?_
  obtain rfl : precision = _ := same
  refine (scale _ k).bind fun k scale scale' same => ?_
  obtain rfl : scale = scale' := by simpa [Quoted] using same
  exact expect_bind rfl (fun _ => id) fun _ _ _ => follows_value (fun _ _ => rfl) fun _ => trivial

/-- Arguments that are kept as written end at the same parenthesis. -/
theorem balanced_follows :
    q.Follows limit known i balanced balanced (fun _ => True) fun _ _ => True := by
  have taken {known : Prop} {k : Nat} {next : Option Nat} (notEof : (q.left.tokenAt k).isEof = false) :
      q.Follows limit known k (do let _ ← bump; return next : SqlRule (Option Nat))
        (do let _ ← bump; return next) q.Clean fun _ _ => True :=
    bump_bind notEof id (follows_value (fun _ _ => by simp) id)
  refine Follows.bind (?_ : q.Follows limit known i _ _ (fun _ => True) fun (_ : Nat) _ => True)
    fun _ _ _ _ => follows_value (fun _ _ => rfl) id
  refine follows_loop (fun _ _ _ => rfl) rfl (fun known k depth _ _ same => ?_) fun _ _ => id
  obtain rfl : depth = _ := same
  refine Follows.mono (?_ : q.Follows limit known k _ _ q.Clean fun _ _ => True) id (fun _ => trivial)
    fun _ _ _ => trivial
  refine peek_same (fun clean _ => by rw [(q.like _ clean).kind]) ?_
  split
  · rename_i kind
    exact taken (by rw [Token.isEof, kind]; rfl)
  · rename_i kind
    exact taken (by rw [Token.isEof, kind]; rfl)
  · exact follows_failAny _
  · rename_i notEof
    exact taken (by rw [Token.isEof]; simpa using notEof)

/-- Each step consumes a token, so that at least one is consumed. -/
theorem balanced_moves {s : Tape} (here : s.At q.left i) :
    balanced.Yields (sqlLevels f limit) s fun _ after => ∃ j, i < j ∧ after.At q.left j := by
  refine yields_bind.mpr ((yields_loop_until (fun _ s => ∃ j, i ≤ j ∧ s.At q.left j)
    (fun _ s => ∃ j, i < j ∧ s.At q.left j) (sqlLevels_forward f limit) ⟨i, Nat.le_refl i, here⟩ ?_).mono
    fun _ _ moved => (yields_pure ()).mpr moved)
  rintro depth s ⟨j, le, there⟩
  refine Yields.mono (?_ : Rule.Yields _ _ s fun _ after => (∃ j, i < j ∧ after.At q.left j) ∧
    s.lastEnd.offset < after.lastEnd.offset) fun next after ⟨⟨j, lt, place⟩, further⟩ => ?_
  case refine_2 =>
    cases next with
    | none => exact ⟨j, lt, place⟩
    | some _ => exact ⟨⟨j, Nat.le_of_lt lt, place⟩, further⟩
  have take (notEof : (q.left.tokenAt j).isEof = false) (next : Option Nat) :
      (do let _ ← bump; return next : SqlRule (Option Nat)).Yields (sqlLevels f limit) s
        fun _ after => (∃ j, i < j ∧ after.At q.left j) ∧ s.lastEnd.offset < after.lastEnd.offset := by
    obtain ⟨-, moved, -⟩ := there.bump (q.lt_of_notEof there.within notEof)
    refine yields_bind.mpr (yields_bump.mpr fun _ _ => (yields_pure next).mpr ⟨⟨j + 1, by omega, moved⟩, ?_⟩)
    rw [there.lastEnd, moved.lastEnd]
    exact q.left.stopAt_lt (Nat.lt_succ_self j) moved.within
  refine yields_bind.mpr (yields_peek.mpr fun t shown => ?_)
  obtain rfl : q.left.tokenAt j = t := Except.ok.inj (there.peek.symm.trans shown)
  split
  · rename_i kind
    exact take (by rw [Token.isEof, kind]; rfl) _
  · rename_i kind
    exact take (by rw [Token.isEof, kind]; rfl) _
  · exact (yields_failAny _).mpr trivial
  · rename_i notEof
    exact take (by rw [Token.isEof]; simpa using notEof) _

/-- The text from the start of a token to the end of the last one that was consumed. -/
theorem succeeds_written {sheet : Sheet} {k : Nat} {levels : List (TapeLevel Symbol)} (name : String)
    (lt : i < k) {s : Tape} (here : s.At sheet k) :
    (do
      let arguments ← slice (← spanFrom (sheet.startAt i))
      return DataType.custom (name ++ arguments) : SqlRule DataType).Succeeds levels s
      fun v after => v = .custom (name ++ sheet.written i k) ∧ after = s := by
  refine succeeds_bind.mpr ((succeeds_spanFrom _).mpr (succeeds_bind.mpr ?_))
  refine ⟨sheet.written i k, s, ?_, (succeeds_pure _).mpr ⟨rfl, rfl⟩⟩
  rw [here.lastEnd, Position.later_of_lt (sheet.startAt_lt_stopAt lt here.within)]
  simp only [Rule.read, here.text, Sheet.written]

/-- Arguments as written from a parenthesis to the one that closes it. -/
theorem writtenArguments_follows (name : String) : q.Follows limit known i (do
    let opening ← start
    balanced
    let arguments ← slice (← spanFrom opening)
    return DataType.custom (name ++ arguments)) (do
    let opening ← start
    balanced
    let arguments ← slice (← spanFrom opening)
    return DataType.custom (name ++ arguments)) q.Clean fun _ _ => True := by
  refine .asking comes_start (fun _ => comes_start) fun s here => ?_
  refine yields_bind.mpr fun done between read => ?_
  obtain ⟨k, lt, there⟩ := balanced_moves here done between read
  obtain ⟨k', step⟩ := (balanced_follows : q.Follows limit known i _ _ _ _) s here done between read
  obtain rfl := there.same step.place
  refine (succeeds_written name lt there).yields.mono ?_
  rintro _ _ ⟨rfl, rfl⟩
  -- a type holds no name, so that all of it lies on one side of where the texts part
  have alike (all : q.Kept known i k (.custom (name ++ q.left.written i k) : DataType)) : q.Alike i k :=
    all.2.resolve_right fun named => named.2 fun _ _ => rfl
  refine ⟨k, step.le, there, fun _ _ _ _ => rfl,
    fun _ all => q.alike_succ.mp ((alike all).mono (Nat.le_refl i) lt), fun _ all s' here' counts => ?_⟩
  have kept : q.Kept known i k done := ⟨all.1, .inl (alike all)⟩
  refine succeeds_bind.mpr ((step.right trivial kept s' here' counts).mono fun _ mid ⟨place, same, _⟩ => ?_)
  refine (succeeds_written name lt place).mono ?_
  rintro _ _ ⟨rfl, rfl⟩
  refine ⟨place, same, ?_⟩
  rw [q.written i k lt there.within (alike all)]
  rfl

/-- The next token of the second text is no word that a type goes on with, unless both texts have it. -/
def Ends (q : Diverging f) (k : Nat) : Prop :=
  k = q.spot → q.rejoins ∨ q.Mild ∨ (q.right.tokenAt q.spot).typeWord? false = none

/-- A name that ends in the first text ends in the second one. -/
theorem Ends.quiet (ends : q.Ends k) (reads : q.Reads k)
    (other : (q.left.tokenAt k).typeWord? false = none) : (q.right.tokenAt k).typeWord? false = none := by
  by_cases here : k = q.spot
  · rw [here] at other ⊢
    rcases ends here with rejoins | mild | none
    · exact q.typeWord?_spot rejoins
    · exact mild.type other
    · exact none
  · rwa [(q.like k (q.clean_of_ne reads here)).typeWord?]

/-- Words of which no type goes on in the second text end the name there. -/
theorem Heads.ends {first : String} (heads : q.Heads i first)
    (verbatim : DataType.argumentsOf first = .verbatim) (settled : q.Settled i k) (lt : i < k)
    (words : ∀ t ∈ q.left.between (i + 1) k, t.typeWord? false ≠ none) : q.Ends k := by
  rintro rfl
  refine (settled rfl).imp_right (·.imp_right fun ends => ?_)
  rw [q.left.between_of_lt lt heads.lt] at ends
  by_contra some
  obtain ⟨word, found⟩ := Option.ne_none_iff_exists'.mp some
  exact ends (.verbatim heads.word verbatim words found)

/-- A word of a type that needs one is one in both texts, and where there is none in the first text,
there is none in the second one. -/
theorem furtherWord_follows (name : String) : q.Follows limit known i (furtherWord name)
    (furtherWord name) q.Ends fun _ => q.Ends := by
  cases found : (q.left.tokenAt i).typeWord? false with
  | some word =>
    refine Follows.mono (?_ : q.Follows limit known i _ _ q.Clean fun _ => q.Ends) id
      (fun clean here => absurd here clean.ne) fun _ _ => id
    refine .asked (·.typeWord? false) (fun _ => comes_typeWord? false)
      (fun clean _ => (q.like i clean).typeWord? false) ?_
    rw [found]
    refine bump_bind (Token.isEof_of_typeWord? found) id ?_
    exact follows_value (fun _ _ => by simp) fun _ => trivial
  | none =>
    refine .asked (·.typeWord? false) (fun _ => comes_typeWord? false)
      (fun ends reads => (ends.quiet reads found).trans found.symm) ?_
    rw [found]
    exact follows_value (fun _ _ => rfl) id

/-- All tokens that the first run consumes are words of a type. -/
theorem furtherWords_yields {s : Tape} (here : s.At q.left i) (first : String) :
    (loop furtherWord first).Yields (sqlLevels f limit) s fun _ after =>
      ∃ j, after.At q.left j ∧ i ≤ j ∧ ∀ t ∈ q.left.between i j, t.typeWord? false ≠ none := by
  refine yields_loop_of_kept
    (fun _ s => ∃ j, s.At q.left j ∧ i ≤ j ∧ ∀ t ∈ q.left.between i j, t.typeWord? false ≠ none)
    (sqlLevels_forward f limit) ⟨i, here, Nat.le_refl i, by simp [Sheet.between_self]⟩ ?_
  rintro name s ⟨j, there, le, words⟩
  have word : (typeWord? false).Yields (sqlLevels f limit) s _ := (comes_typeWord? false s there).yields
  refine yields_bind.mpr (word.mono ?_)
  rintro found between ⟨rfl, there, -⟩
  split
  · rename_i word found
    have lt := q.lt_of_notEof there.within (Token.isEof_of_typeWord? found)
    obtain ⟨-, moved, -⟩ := there.bump lt
    refine yields_bind.mpr (yields_bump.mpr fun _ _ => (yields_pure _).mpr
      ⟨j + 1, moved, Nat.le_succ_of_le le, ?_⟩)
    rw [q.left.between_succ le lt]
    simp only [List.mem_append, List.mem_singleton]
    rintro t (mem | rfl)
    · exact words t mem
    · simp [found]
  · exact (yields_pure _).mpr ⟨j, there, le, words⟩

/-- Where a name ends no type goes on. -/
theorem Heads.settled {first : String} (heads : q.Heads i first)
    (verbatim : DataType.argumentsOf first = .verbatim) (ends : q.Ends (i + 1)) :
    q.Settled i (i + 1) := by
  intro here
  refine (ends here).imp_right (·.imp_right fun none goesOn => ?_)
  rw [← here, q.left.between_of_lt (Nat.lt_succ_self i) heads.lt, Sheet.between_self, here] at goesOn
  cases goesOn with
  | precision word double =>
    obtain rfl := Option.some.inj (heads.word.symm.trans word)
    rw [not_sameWord_of_verbatim verbatim (by decide)] at double
    cases double
  | varying word character =>
    obtain rfl := Option.some.inj (heads.word.symm.trans word)
    rw [not_sameWord_of_verbatim verbatim (by decide)] at character
    cases character
  | verbatim _ _ _ found =>
    rw [none] at found
    cases found

/-- A name that no dialect knows is the same in both texts, with its arguments as written. -/
theorem customType_follows {first : String} (heads : q.Heads i first)
    (verbatim : DataType.argumentsOf first = .verbatim) :
    q.Follows limit known (i + 1) (customType first) (customType first) (q.Settled i)
      fun _ => q.Settled i := by
  have words : q.Follows limit known (i + 1) (loop furtherWord first) (loop furtherWord first) q.Ends
      fun _ => q.Ends :=
    follows_loop (fun _ _ _ => rfl) rfl (fun known k name _ _ same => by
      obtain rfl : name = _ := same
      refine (furtherWord_follows name).mono id id fun next k => ?_
      cases next <;> exact id) fun _ _ => id
  rw [customType_eq]
  refine Follows.mono (?_ : q.Follows limit known (i + 1) _ _ q.Ends fun _ => q.Settled i) id
    (heads.settled verbatim) fun _ _ => id
  refine .bindKnown (fun _ k => i < k ∧ ∀ t ∈ q.left.between (i + 1) k, t.typeWord? false ≠ none) words
    (fun s here => furtherWords_yields here first) fun k name _ fact same => ?_
  obtain rfl : name = _ := same
  refine check_ite rfl (fun _ => ?_) fun _ => ?_
  · exact (writtenArguments_follows name).mono id
      (fun clean => ⟨clean, fun here => absurd here clean.ne⟩) fun _ _ _ => trivial
  · exact follows_value (fun _ _ => rfl) fun settled => heads.ends verbatim settled fact.1 fact.2

/-- A name that takes any arguments is its first word. -/
theorem typeName_yields {s : Tape} (here : s.At q.left i) (first : String) :
    (typeName first).Yields (sqlLevels f limit) s fun name after => ∃ k, after.At q.left k ∧
      (DataType.argumentsOf name = .verbatim → name = first ∧ k = i) := by
  have comes {rule : SqlRule String} {name : String} {k : Nat}
      (read : rule.Comes (sqlLevels f limit) q.left i name k)
      (other : DataType.argumentsOf name ≠ .verbatim) :
      rule.Yields (sqlLevels f limit) s fun name after => ∃ k, after.At q.left k ∧
        (DataType.argumentsOf name = .verbatim → name = first ∧ k = i) := by
    refine (read s here).yields.mono ?_
    rintro _ after ⟨rfl, there, -⟩
    exact ⟨k, there, fun verbatim => absurd verbatim other⟩
  have known {word : String} (same : sameWord first word = true)
      (other : DataType.argumentsOf word ≠ .verbatim) : DataType.argumentsOf first ≠ .verbatim := by
    intro verbatim
    rw [not_sameWord_of_verbatim verbatim other] at same
    cases same
  unfold typeName
  split
  · rename_i double
    cases spells : (q.left.tokenAt i).spells .PRECISION with
    | true =>
      have lt := q.lt_of_notEof here.within (Token.isEof_of_spells spells)
      exact comes ((comes_eatKeyword lt spells).bind (comes_pure first)) (known double (by decide))
    | false => exact comes ((comes_eatKeyword_not spells).bind (comes_pure first)) (known double (by decide))
  · split
    · rename_i character
      cases plain : (q.left.tokenAt i).isPlainWord "VARYING" with
      | true =>
        have lt := q.lt_of_notEof here.within (Token.isEof_of_isPlainWord plain)
        exact comes ((comes_eatWord lt plain).bind (comes_pure "VARCHAR")) (by decide)
      | false => exact comes ((comes_eatWord_not plain).bind (comes_pure first)) (known character (by decide))
    · exact (yields_pure first).mpr ⟨i, here, fun _ => ⟨rfl, rfl⟩⟩

/-- A type is the same in both texts, if no type goes on where the texts part. -/
theorem dataType_follows : q.Follows limit known i dataType dataType q.Clean fun _ => q.Settled i := by
  refine .within fun within => ?_
  cases found : (q.left.tokenAt i).typeWord? true with
  | none =>
    refine follows_left (comes_typeWord? true) ?_
    rw [found]
    exact follows_failAny _
  | some first =>
    have heads : q.Heads i first := ⟨q.lt_of_notEof within (Token.isEof_of_typeWord? found), found⟩
    have value {type : DataType} {known : Prop} {k : Nat} : q.Follows limit known k
        (Pure.pure type : SqlRule DataType) (Pure.pure type) (q.Settled i) fun _ => q.Settled i :=
      follows_value (fun _ _ => rfl) id
    refine .asked (·.typeWord? true) (fun _ => comes_typeWord? true)
      (fun clean _ => (q.like i clean).typeWord? true) ?_
    rw [found]
    refine bump_bind (Token.isEof_of_typeWord? found) id ?_
    refine Follows.mono (?_ : q.Follows limit known (i + 1) _ _ (q.Settled i) fun _ => q.Settled i) id
      (fun _ => trivial) fun _ _ => id
    refine .bindKnown (fun name k => DataType.argumentsOf name = .verbatim → name = first ∧ k = i + 1)
      (typeName_follows heads) (fun s here => typeName_yields here first) fun k name _ fact same => ?_
    obtain rfl : name = _ := same
    split
    · exact value
    · refine (lengthArgument_follows fun _ => Clean.settled).bind fun k length length' same => ?_
      obtain rfl : length = length' := by simpa [Quoted] using same
      exact value
    · refine (scaleArguments_follows fun _ => Clean.settled).bind fun k parts parts' same => ?_
      obtain ⟨precision, scale⟩ := parts
      obtain ⟨precision', scale'⟩ := parts'
      obtain ⟨rfl, rfl⟩ : precision = precision' ∧ scale = scale' := by simpa [Quoted] using same
      exact value
    · rename_i verbatim
      obtain ⟨rfl, rfl⟩ := fact verbatim
      exact customType_follows heads verbatim

end

end Diverging

end SqlTree
