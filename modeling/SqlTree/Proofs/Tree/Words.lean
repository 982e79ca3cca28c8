import SqlTree.Proofs.Tree.Steps

namespace SqlTree

open Rule SqlRule

/-- A rule whose values hold no nodes. -/
abbrev Skips {α : Type} (f : Features) (tokens : List Token) (top limit least : Nat)
    (rule : SqlRule α) : Prop :=
  Reads f tokens top limit least rule fun _ => []

section

variable {α β : Type} {f : Features} {tokens used : List Token} {s₀ s : Tape} {top limit least more : Nat}

theorem skips_pure (value : α) : Skips f tokens top limit 0 (Pure.pure value : SqlRule α) :=
  reads_pure value rfl

/-- Two rules without nodes one behind the other have none. -/
theorem Skips.bind {first : SqlRule α} {next : α → SqlRule β} (skips : Skips f tokens top limit least first)
    (rest : ∀ value, Skips f tokens top limit more (next value)) :
    Skips f tokens top limit (least + more) (first >>= next) := by
  intro s along
  rw [yields_bind]
  refine (Lays.refl top along).part skips fun value after used enough row => ?_
  refine row.part (rest value) fun value after used' enough' row => ⟨_, ?_, row⟩
  simp
  omega

/-- Two rules one behind the other, whatever the first one consumes. -/
theorem Skips.andThen {first : SqlRule α} {next : α → SqlRule β}
    (skips : Skips f tokens top limit 0 first) (rest : ∀ value, Skips f tokens top limit least (next value)) :
    Skips f tokens top limit least (first >>= next) := by
  have both := skips.bind rest
  rwa [Nat.zero_add] at both

theorem Skips.ite {rule other : SqlRule α} {c : Bool} (first : Skips f tokens top limit least rule)
    (second : Skips f tokens top limit least other) :
    Skips f tokens top limit least (if c then rule else other) := by
  split
  · exact first
  · exact second

theorem skips_peek : Skips f tokens top limit 0 (Rule.peek : SqlRule Token) := by
  intro s along
  rw [yields_peek]
  exact fun t _ => ⟨[], Nat.zero_le _, .refl _ along⟩

theorem skips_checkKeyword (k : Keyword) : Skips f tokens top limit 0 (checkKeyword k : SqlRule Bool) :=
  skips_peek.bind fun _ => skips_pure _

theorem skips_eatKeyword (k : Keyword) : Skips f tokens top limit 0 (eatKeyword k : SqlRule Bool) :=
  fun _ along => (Lays.refl top along).mayEatKeyword fun _ _ _ row => ⟨_, Nat.zero_le _, row⟩

theorem skips_expectKeyword (k : Keyword) : Skips f tokens top limit 1 (expectKeyword k : SqlRule Token) :=
  fun _ along => (Lays.refl top along).expectKeyword fun _ _ row => ⟨_, Nat.le_refl _, row⟩

theorem skips_expect {kind : TokenKind} (notEof : kind.sameKind .eof = false) :
    Skips f tokens top limit 1 (expect kind : SqlRule Token) :=
  fun _ along => (Lays.refl top along).expect notEof fun _ _ row => ⟨_, Nat.le_refl _, row⟩

/-- A word that is followed by something else than what stands there without it. -/
theorem skips_ifEaten {k : Keyword} {rule other : SqlRule α} (found : Skips f tokens top limit 0 rule)
    (missing : Skips f tokens top limit 0 other) :
    Skips f tokens top limit 0 (do if ← eatKeyword k then rule else other) :=
  (skips_eatKeyword k).bind fun _ => found.ite missing

end

variable {f : Features} {tokens : List Token} {top limit : Nat}

theorem orderDirection_skips : Skips f tokens top limit 0 orderDirection :=
  skips_ifEaten (skips_pure _) ((skips_eatKeyword _).bind fun _ => skips_pure _)

theorem distinct_skips : Skips f tokens top limit 0 distinct :=
  skips_ifEaten (skips_pure _) ((skips_eatKeyword _).bind fun _ => skips_pure _)

theorem temporary_skips : Skips f tokens top limit 0 temporary :=
  skips_ifEaten (skips_pure _) (skips_eatKeyword _)

theorem nullOrdering?_skips : Skips f tokens top limit 0 (nullOrdering? f) := by
  refine Skips.andThen (Skips.ite (skips_eatKeyword _) (skips_pure _)) fun _ => ?_
  refine Skips.ite (skips_ifEaten (skips_pure _) ?_) (skips_pure _)
  exact skips_ifEaten (skips_pure _) (always_failAny _)

theorem ifNotExists_skips : Skips f tokens top limit 0 (ifNotExists f) := by
  refine Skips.andThen (Skips.ite (skips_eatKeyword _) (skips_pure _)) fun _ => ?_
  refine Skips.ite ?_ (skips_pure _)
  exact (((skips_expectKeyword _).bind fun _ => (skips_expectKeyword _).bind fun _ =>
    skips_pure _).mono (Nat.zero_le _))

theorem negation_skips (negated : Bool) : Skips f tokens top limit 0 (negation negated) := by
  refine Skips.ite ?_ (skips_pure _)
  exact ((skips_expectKeyword _).bind fun _ => skips_pure _).mono (Nat.zero_le _)

theorem joinType_skips : Skips f tokens top limit 1 joinType := by
  have side (type : JoinType) : Skips f tokens top limit 0 (do let _ ← eatKeyword .OUTER; return type) :=
    (skips_eatKeyword _).bind fun _ => skips_pure _
  have bare : Skips f tokens top limit 0 (do
      if ← checkKeyword .JOIN then return JoinType.inner
      else failAny ["JOIN", "INNER", "LEFT", "RIGHT", "FULL", "CROSS"]) :=
    (skips_checkKeyword _).andThen fun _ => (skips_pure _).ite (always_failAny _)
  refine Skips.andThen ?_ fun _ => (skips_expectKeyword _).bind fun _ => skips_pure _
  refine skips_ifEaten (skips_pure _) (skips_ifEaten (side _) (skips_ifEaten (side _) ?_))
  exact skips_ifEaten (side _) (skips_ifEaten (skips_pure _) bare)

theorem referentialAction_skips : Skips f tokens top limit 0 referentialAction := by
  refine skips_ifEaten (skips_pure _) (skips_ifEaten (skips_pure _) (skips_ifEaten ?_ ?_))
  · refine skips_ifEaten (skips_pure _) ?_
    exact ((skips_expectKeyword _).bind fun _ => skips_pure _).mono (Nat.zero_le _)
  · refine skips_ifEaten ?_ (always_failAny _)
    exact ((skips_expectKeyword _).bind fun _ => skips_pure _).mono (Nat.zero_le _)

/-- A loop whose steps give no nodes gives none. -/
theorem Skips.loop {σ : Type} {step : σ → SqlRule (Option σ)}
    (skips : ∀ x, Skips f tokens top limit 0 (step x)) (x : σ) :
    Skips f tokens top limit 0 (Rule.loop step x) := by
  intro s along
  refine yields_loop_of_kept _ (sqlLevels_forward f limit) ⟨[], Nat.zero_le _, .refl _ along⟩ ?_
  rintro x mid ⟨used, -, row⟩
  exact row.part (skips x) fun y after more _ row => ⟨_, Nat.zero_le _, row⟩

theorem referentialActions_skips : Skips f tokens top limit 0 referentialActions := by
  refine Skips.loop (fun actions => ?_) _
  refine skips_ifEaten ?_ (skips_pure _)
  have read {β : Type} (g : ReferentialAction → β) :
      Skips f tokens top limit 0 (do return g (← referentialAction)) :=
    referentialAction_skips.bind fun _ => skips_pure _
  exact skips_ifEaten (read _) (skips_ifEaten (read _) (always_failAny _))

theorem skips_eat {kind : TokenKind} (notEof : kind.sameKind .eof = false) :
    Skips f tokens top limit 0 (eat kind : SqlRule Bool) := by
  intro s along
  exact (Lays.refl top along).mayEat notEof fun _ _ _ row => ⟨_, Nat.zero_le _, row⟩

theorem semicolons_skips : Skips f tokens top limit 0 semicolons :=
  Skips.loop (fun _ => (skips_eat rfl).bind fun _ => (skips_pure _).ite (skips_pure _)) _

/-- One more statement of a script, if any is left, with the semicolons around it. -/
def scriptStep (f : Features) (statements : List Statement) : SqlRule (Option (List Statement)) := do
  semicolons
  if ← check .eof then return none
  else
    let next ← attempt (statement f)
    if ← check .eof then return some (next :: statements)
    else
      let _ ← expect .semicolon
      return some (next :: statements)

/-- A script is a loop over its statements. -/
theorem script_eq : script f = (do
    let start ← start
    let statements ← loop (scriptStep f) []
    return ⟨statements.reverse, ← spanFrom start⟩) := rfl

/-- What the rules that may be called from inside others do one level of nesting deeper. -/
structure Calls (f : Features) (tokens : List Token) (top limit : Nat) : Prop where
  expression : ∀ power, Reads f tokens top limit 1 (call (.expression power)) fun e => [.expr e]
  query : Reads f tokens top limit 1 (call .query) fun s => [.select s]
  joinGroup : Reads f tokens top limit 1 (call .joinGroup) fun t => [.table t]

/-- A token that was consumed as a name is the node of the name. -/
theorem Lays.name {s after : Tape} {t : Token} {i : Ident} (row : Lays f tokens top s [t] [] after)
    (named : Named t i) : Lays f tokens top s [t] [.ident i] after := by
  have span : i.span = t.span := by
    cases named <;> rfl
  exact row.node ⟨by simp, span, arranged_of_parts rfl, row.laid⟩ ⟨t, rfl, named⟩ rfl

/-- A name is a node that lies on its token. -/
theorem identifier_reads : Reads f tokens top limit 1 identifier fun i => [.ident i] := by
  intro s along
  simp only [identifier, yields_bind, yields_peek]
  intro t peek
  split
  · rename_i kind
    rw [yields_bind]
    refine (Lays.refl top along).bump peek (by simp [Token.isEof, kind]) fun after row => ?_
    exact (yields_pure _).mpr ⟨[t], Nat.le_refl _, row.name (.name kind)⟩
  · exact (yields_failAny _).mpr trivial

theorem identifier_skips : Skips f tokens top limit 1 identifier := by
  have reads : Reads f tokens top limit 1 identifier fun i => [.ident i] := identifier_reads
  refine fun s along => (reads s along).mono fun i after ⟨used, enough, row⟩ => ⟨used, enough, ?_⟩
  have same := (countedAll_singleton.mp row.counted).eq_of_leaf rfl rfl
  exact ⟨row.start, row.moves, laid_none used, .none same⟩

theorem objectName_fills : Fills f tokens top limit objectName .objectName := by
  refine Fills.intro fun s first peek row => ?_
  simp only [yields_bind]
  refine row.part identifier_reads fun schema s used some row => ?_
  simp only [yields_ite, yields_bind, yields_spanFrom, yields_pure]
  have some : [] ++ used ≠ [] := by simpa using List.length_pos_iff.mp some
  refine row.eat rfl (fun dot s row => ?_) ?_
  · refine row.part identifier_reads fun name after more _ row => ⟨_, _, ?_, row, rfl, ?_⟩
    · simp
    · exact ⟨arranged_of_parts rfl, rfl⟩
  · exact ⟨_, _, some, row, rfl, arranged_of_parts rfl, rfl⟩

/-- The name of a table lies on its tokens with that of its schema. -/
theorem objectName_reads : Reads f tokens top limit 1 objectName fun n => [.objectName n] :=
  objectName_fills.reads fun _ _ origin => origin

theorem identifierList_reads : Reads f tokens top limit 2 identifierList (fun names => names.map .ident) :=
  identifier_reads.parenthesizedNodes

theorem constraintName?_reads :
    Reads f tokens top limit 0 constraintName? fun name => name.toList.map .ident :=
  reads_behindKeyword (identifier_reads.map fun _ => rfl) rfl

/-- An alias is a name, if there is one. -/
theorem alias?_reads : Reads f tokens top limit 0 (alias? f) fun name => name.toList.map .ident := by
  intro s along
  have row := Lays.refl (f := f) top along
  simp only [alias?, yields_bind, yields_ite, yields_pure, yields_peek]
  refine row.eatKeyword (fun _ s row => ?_) fun t _ => ?_
  · exact row.part identifier_reads fun name after more _ row => ⟨_, Nat.zero_le _, row⟩
  · split
    · exact row.part identifier_reads fun name after more _ row => ⟨_, Nat.zero_le _, row⟩
    · exact ⟨_, Nat.zero_le _, row⟩

section

variable {α : Type} {used : List Token} {nodes : List Node} {s₀ s : Tape}

/-- A word of a type is a token that is not the end of the text. -/
theorem typeWord?_yields {isFirst : Bool} {post : Option String → Tape → Prop}
    (missing : post none s)
    (found : ∀ word t, s.peek = .ok t → t.isEof = false → post (some word) s) :
    (typeWord? isFirst).Yields (sqlLevels f limit) s post := by
  simp only [typeWord?, yields_bind, yields_peek]
  intro t peek
  have answer (c : Bool) (word : String) (notEof : t.isEof = false) :
      post (if c = true then some word else none) s := by
    split
    · exact found word t peek notEof
    · exact missing
  split
  · rename_i kind
    exact (yields_pure _).mpr (answer _ _ (by simp [Token.isEof, kind]))
  · rename_i kind
    exact (yields_pure _).mpr (answer _ _ (by simp [Token.isEof, kind]))
  · exact (yields_pure _).mpr missing

theorem yields_slice {post : String → Tape → Prop} {span : Span} (next : ∀ written, post written s) :
    (slice span : SqlRule String).Yields (sqlLevels f limit) s post := by
  intro written after read
  cases read
  exact next _

end

variable {f : Features} {tokens : List Token} {top limit : Nat}

theorem eatWord_skips (word : String) : Skips f tokens top limit 0 (eatWord word) := by
  intro s along
  have row := Lays.refl (f := f) top along
  simp only [eatWord, yields_bind, yields_peek]
  intro t peek
  split
  · rename_i kind
    rw [yields_ite]
    split
    · rw [yields_bind]
      refine row.bump peek (by simp [Token.isEof, kind]) fun after row => ?_
      exact (yields_pure _).mpr ⟨_, Nat.zero_le _, row⟩
    · exact (yields_pure _).mpr ⟨_, Nat.zero_le _, row⟩
  · exact (yields_pure _).mpr ⟨_, Nat.zero_le _, row⟩

theorem integerUpTo_skips (most : Nat) (what : String) :
    Skips f tokens top limit 0 (integerUpTo most what) := by
  intro s along
  simp only [integerUpTo, yields_bind, yields_peek]
  intro t peek
  split
  · rename_i kind
    rw [yields_ite]
    split
    · rw [yields_bind]
      refine (Lays.refl top along).bump peek (by simp [Token.isEof, kind]) fun after row => ?_
      exact (yields_pure _).mpr ⟨_, Nat.zero_le _, row⟩
    · exact (yields_failAny _).mpr trivial
  · exact (yields_failAny _).mpr trivial

theorem lengthArgument_skips : Skips f tokens top limit 0 lengthArgument := by
  refine (skips_eat rfl).andThen fun _ => Skips.ite ?_ (skips_pure _)
  refine (integerUpTo_skips _ _).andThen fun _ => ?_
  exact ((skips_expect rfl).bind fun _ => skips_pure _).mono (Nat.zero_le _)

theorem scaleArguments_skips : Skips f tokens top limit 0 scaleArguments := by
  refine (skips_eat rfl).andThen fun _ => Skips.ite ?_ (skips_pure _)
  refine (integerUpTo_skips _ _).andThen fun _ => Skips.andThen ?_ fun _ => ?_
  · refine (skips_eat rfl).andThen fun _ => Skips.ite ?_ (skips_pure _)
    exact (integerUpTo_skips _ _).andThen fun _ => skips_pure _
  · exact ((skips_expect rfl).bind fun _ => skips_pure _).mono (Nat.zero_le _)

theorem balanced_skips : Skips f tokens top limit 0 balanced := by
  refine Skips.andThen (Skips.loop (fun depth => ?_) 0) fun _ => skips_pure _
  intro s along
  simp only [yields_bind, yields_peek]
  intro t peek
  have take (notEof : t.isEof = false) (depth : Option Nat) :
      (do let _ ← bump; return depth : SqlRule (Option Nat)).Yields (sqlLevels f limit) s
        (Laying f tokens top s 0 fun _ => []) := by
    rw [yields_bind]
    refine (Lays.refl top along).bump peek notEof fun after row => ?_
    exact (yields_pure _).mpr ⟨_, Nat.zero_le _, row⟩
  split
  · rename_i kind
    exact take (by simp [Token.isEof, kind]) _
  · rename_i kind
    exact take (by simp [Token.isEof, kind]) _
  · exact (yields_failAny _).mpr trivial
  · rename_i notEof
    exact take (by simpa [Token.isEof] using notEof) _

theorem customType_skips (first : String) : Skips f tokens top limit 0 (customType first) := by
  refine Skips.andThen (Skips.loop (fun name => ?_) first) fun name => ?_
  · intro s along
    rw [yields_bind]
    refine typeWord?_yields ?_ fun word t peek notEof => ?_
    · exact (yields_pure _).mpr ⟨_, Nat.zero_le _, .refl _ along⟩
    · rw [yields_bind]
      refine (Lays.refl top along).bump peek notEof fun after row => ?_
      exact (yields_pure _).mpr ⟨_, Nat.zero_le _, row⟩
  · intro s along
    simp only [yields_bind, yields_check, yields_ite, yields_start, yields_spanFrom, yields_pure]
    intro t peek
    split
    · intro opening _
      refine (Lays.refl top along).part balanced_skips fun _ s _ _ row => ?_
      exact yields_slice fun _ => ⟨_, Nat.zero_le _, row⟩
    · exact ⟨_, Nat.zero_le _, .refl _ along⟩

theorem typeName_skips (first : String) : Skips f tokens top limit 0 (typeName first) := by
  unfold typeName
  split
  · exact (skips_eatKeyword _).andThen fun _ => skips_pure _
  · split
    · exact (eatWord_skips _).andThen fun _ => skips_pure _
    · exact skips_pure _

/-- Types hold no nodes. -/
theorem dataType_skips : Skips f tokens top limit 1 dataType := by
  intro start along
  simp only [dataType, yields_bind]
  refine typeWord?_yields ((yields_failAny _).mpr trivial) fun first t peek notEof => ?_
  rw [yields_bind]
  refine (Lays.refl top along).bump peek notEof fun s row => ?_
  rw [yields_bind]
  refine row.part (typeName_skips first) fun name s more _ row => ?_
  have finish {rest : SqlRule DataType} (skips : Skips f tokens top limit 0 rest) :
      rest.Yields (sqlLevels f limit) s (Laying f tokens top start 1 fun _ => []) :=
    row.part skips fun _ _ _ _ row => ⟨_, by simp, row⟩
  split
  · exact finish (skips_pure _)
  · exact finish (lengthArgument_skips.andThen fun _ => skips_pure _)
  · exact finish (scaleArguments_skips.andThen fun _ => skips_pure _)
  · exact finish (customType_skips _)

end SqlTree
