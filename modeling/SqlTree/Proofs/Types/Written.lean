import SqlTree.Proofs.Diverging.Types
import SqlTree.Proofs.Reading.Makes
import SqlTree.Proofs.Scripts.Closes

namespace SqlTree

open Rule SqlRule

/-- Consumes a token of the arguments of a type. -/
def balancedStep (depth : Nat) : SqlRule (Option Nat) := do
  match (← peek).kind with
  | .leftParen =>
    let _ ← bump
    return some (depth + 1)
  | .rightParen =>
    let _ ← bump
    return if depth ≤ 1 then none else some (depth - 1)
  | .eof => failAny ["')'"]
  | _ =>
    let _ ← bump
    return if depth = 0 then none else some depth

section

variable {f : Features} {tokens : List Token} {limit : Nat} {s : Tape}

/-- A step consumes a token of the arguments, and goes on unless it closes the last parenthesis. -/
theorem balancedStep_yields (along : s.Along tokens) (depth : Nat) :
    (balancedStep depth).Yields (sqlLevels f limit) s fun next after =>
      ∃ t, t.isEof = false ∧ depthBehind depth t = next ∧ s.Moves [t] after := by
  refine yields_bind.mpr (yields_peek.mpr fun t shown => ?_)
  have take (notEof : t.isEof = false) {next : Option Nat} (same : depthBehind depth t = next) :
      (do let _ ← bump; return next : SqlRule (Option Nat)).Yields (sqlLevels f limit) s fun next after =>
        ∃ t, t.isEof = false ∧ depthBehind depth t = next ∧ s.Moves [t] after :=
    yields_bind.mpr (along.yields_bump shown notEof fun after moves =>
      (yields_pure _).mpr ⟨t, notEof, same, moves⟩)
  split
  · rename_i kind
    exact take (by rw [Token.isEof, kind]; rfl) (by rw [depthBehind, kind])
  · rename_i kind
    exact take (by rw [Token.isEof, kind]; rfl) (by rw [depthBehind, kind])
  · exact (yields_failAny _).mpr trivial
  · rename_i left right notEof
    refine take (by simpa [Token.isEof] using notEof) ?_
    rw [depthBehind]
    split
    · exact absurd ‹_› left
    · exact absurd ‹_› right
    · rfl

/-- Steps are taken up to the token that closes the last parenthesis. -/
theorem balancedSteps_yields (along : s.Along tokens) (depth : Nat) :
    (loop balancedStep depth).Yields (sqlLevels f limit) s fun _ after =>
      ∃ used, Enclosed depth used ∧ s.Moves used after := by
  refine yields_loop (sqlLevels_forward f limit) fun _ _ runs => ?_
  revert along
  induction runs with
  | stop read =>
    intro along
    obtain ⟨t, notEof, closes, moves⟩ := balancedStep_yields along _ _ _ read
    exact ⟨[t], .last notEof closes, moves⟩
  | stay read stays =>
    intro along
    obtain ⟨t, -, -, moves⟩ := balancedStep_yields along _ _ _ read
    exact absurd (along.lastEnd_lt moves (by simp)) stays
  | next read _ _ ih =>
    intro along
    obtain ⟨t, notEof, goesOn, moves⟩ := balancedStep_yields along _ _ _ read
    obtain ⟨used, enclosed, moves'⟩ := ih (along.moves moves)
    exact ⟨t :: used, .next notEof goesOn enclosed, moves.trans moves'⟩

/-- Arguments are read up to the parenthesis that closes the first one. -/
theorem balanced_yields (along : s.Along tokens) :
    balanced.Yields (sqlLevels f limit) s fun _ after => ∃ used, Enclosed 0 used ∧ s.Moves used after :=
  yields_bind.mpr ((balancedSteps_yields along 0).mono fun _ _ used => (yields_pure _).mpr used)

/-- Asking whether the next token is a word of a type. -/
theorem yields_typeWord? {isFirst : Bool} {post : Option String → Tape → Prop}
    (next : ∀ t, s.peek = .ok t → post (t.typeWord? isFirst) s) :
    (typeWord? isFirst).Yields (sqlLevels f limit) s post := by
  refine yields_bind.mpr (yields_peek.mpr fun t shown => ?_)
  have holds := next t shown
  unfold Token.typeWord? at holds
  revert holds
  cases t.kind <;> exact (yields_pure _).mpr

/-- The words of a name, up to the first token that is none of them. -/
theorem furtherWords_reads (along : s.Along tokens) (first : String) :
    (loop furtherWord first).Yields (sqlLevels f limit) s fun name after =>
      ∃ used words, FurtherWords used words ∧ name = joined first words ∧ s.Moves used after := by
  refine yields_loop_of_kept (fun name after =>
    ∃ used words, FurtherWords used words ∧ name = joined first words ∧ s.Moves used after)
    (sqlLevels_forward f limit) ⟨[], [], .nil, rfl, .refl s⟩ ?_
  rintro _ mid ⟨used, words, further, rfl, moves⟩
  refine yields_bind.mpr (yields_typeWord? fun t shown => ?_)
  split
  · rename_i word found
    refine yields_bind.mpr ((along.moves moves).yields_bump shown (Token.isEof_of_typeWord? found)
      fun after one => (yields_pure _).mpr ⟨used ++ [t], words ++ [word], ?_, ?_, moves.trans one⟩)
    · exact List.rel_append further (.cons found .nil)
    · rw [joined, joined, List.foldl_append]
      rfl
  · exact (yields_pure _).mpr ⟨used, words, further, rfl, moves⟩

/-- What the first word of a type, which no dialect shares, goes on with: further words, perhaps with
arguments behind them, which are kept as they are written. -/
inductive Verbatim (s : Tape) (first : String) : DataType → Tape → Prop
  | words {used words after} : FurtherWords used words → s.Moves used after →
      Verbatim s first (.custom (joined first words)) after
  | arguments {used words t args after} : FurtherWords used words → t.kind = .leftParen →
      Enclosed 0 (t :: args) → s.Moves (used ++ t :: args) after →
      Verbatim s first (.custom (joined first words ++ String.ofList
        ((sliceBytes s.text t.span.start.offset (endBehind t.span.stop args).offset).getD []))) after

/-- A type that no dialect shares has the words of its name and perhaps arguments. -/
theorem customType_reads (along : s.Along tokens) (first : String) :
    (customType first).Yields (sqlLevels f limit) s (Verbatim s first) := by
  rw [customType_eq]
  refine yields_bind.mpr ((furtherWords_reads along first).mono ?_)
  rintro _ mid ⟨used, words, further, rfl, moves⟩
  have along := along.moves moves
  refine yields_bind.mpr ((yields_check _).mpr fun t shown => ?_)
  split
  · rename_i paren
    refine yields_bind.mpr (yields_start.mpr fun t' shown' => ?_)
    obtain rfl : t = t' := Except.ok.inj (shown.symm.trans shown')
    refine yields_bind.mpr ((balanced_yields along).mono ?_)
    rintro _ after ⟨args, enclosed, moves'⟩
    obtain ⟨t', args, rfl, first⟩ := moves'.peek (by cases enclosed <;> simp)
    obtain rfl : t = t' := Except.ok.inj (shown.symm.trans first)
    refine yields_bind.mpr ((yields_spanFrom _).mpr (yields_bind.mpr ?_))
    have stop : after.lastEnd = endBehind t.span.stop args := by rw [moves'.lastEnd, endBehind_cons]
    have starts : t.span.start.offset < after.lastEnd.offset := by
      rw [moves'.lastEnd]
      exact (along.ordered_used moves').start_lt_endBehind
    rintro _ _ ⟨⟩
    refine (yields_pure _).mpr ?_
    rw [Position.later_of_lt starts, stop, moves'.text, moves.text]
    exact .arguments further (TokenKind.eq_leftParen paren) enclosed (moves.trans moves')
  · exact (yields_pure _).mpr (.words further moves)

/-- Numbers in the arguments of a type are in range. -/
theorem integerUpTo_bounds (most : Nat) (what : String) :
    (integerUpTo most what).Makes (sqlLevels f limit) (· ≤ most) := by
  refine makes_then fun t => ?_
  split
  · split
    · rename_i le
      exact makes_then fun _ => makes_pure le
    · exact makes_failAny _
  · exact makes_failAny _

/-- The length in a type is in range. -/
theorem lengthArgument_bounds :
    lengthArgument.Makes (sqlLevels f limit) fun length => ∀ n ∈ length, n ≤ 0xFFFFFFFF := by
  refine makes_then fun _ => Makes.ite ?_ (makes_pure nofun)
  exact (integerUpTo_bounds _ _).bind fun length le => makes_then fun _ => makes_pure (by simpa using le)

/-- A precision and a scale are in range, and a scale never stands alone. -/
theorem scaleArguments_bounds : scaleArguments.Makes (sqlLevels f limit) fun parts =>
    (∀ n ∈ parts.1, n ≤ 0xFFFF) ∧ (∀ n ∈ parts.2, n ≤ 0xFFFF) ∧
      (parts.2.isSome = true → parts.1.isSome = true) := by
  have scale : Makes (sqlLevels f limit) (do
      if ← eat .comma then return some (← integerUpTo 0xFFFF "scale") else return none : SqlRule (Option Nat))
      fun scale => ∀ n ∈ scale, n ≤ 0xFFFF :=
    makes_then fun _ => Makes.ite ((integerUpTo_bounds _ _).bind fun _ le => makes_pure (by simpa using le))
      (makes_pure nofun)
  refine makes_then fun _ => Makes.ite ?_ (makes_pure ⟨nofun, nofun, nofun⟩)
  refine (integerUpTo_bounds _ _).bind fun precision le => scale.bind fun scale le' => ?_
  exact makes_then fun _ => makes_pure ⟨by simpa using le, le', fun _ => rfl⟩

/-- What a word that all dialects share makes can be written in all of them, with arguments in range. -/
def TypeWord.Legible : TypeWord → Prop
  | plain type => type.Legible
  | sized type => ∀ length, (∀ n ∈ length, n ≤ 0xFFFFFFFF) → (type length).Legible
  | scaled type => ∀ precision scale, (∀ n ∈ precision, n ≤ 0xFFFF) → (∀ n ∈ scale, n ≤ 0xFFFF) →
    (scale.isSome = true → precision.isSome = true) → (type precision scale).Legible

/-- Every word that all dialects share makes such a type. -/
theorem TypeWord.legible {name : String} {word : TypeWord} (found : ofUpper? name = some word) :
    word.Legible := by
  unfold ofUpper? at found
  split at found <;> cases found <;> first
    | exact trivial
    | exact fun _ short => short
    | exact fun _ _ fits fits' behind => ⟨fits, fits', behind⟩

theorem DataType.legible_ofParts {name : String} {length precision scale : Option Nat}
    (known : argumentsOf name ≠ .verbatim) (short : ∀ n ∈ length, n ≤ 0xFFFFFFFF)
    (fits : ∀ n ∈ precision, n ≤ 0xFFFF) (fits' : ∀ n ∈ scale, n ≤ 0xFFFF)
    (behind : scale.isSome = true → precision.isSome = true) :
    (ofParts name length precision scale).Legible := by
  unfold argumentsOf at known
  unfold ofParts
  cases found : TypeWord.ofUpper? (upperCase name) with
  | none => simp [found] at known
  | some word =>
    have legible := TypeWord.legible found
    cases word with
    | plain => exact legible
    | sized => exact legible length short
    | scaled => exact legible precision scale fits fits' behind

/-- A name that takes any arguments is its first word, and nothing is read behind it here. -/
theorem typeName_reads (first : String) : (typeName first).Yields (sqlLevels f limit) s fun name after =>
    DataType.argumentsOf name = .verbatim → name = first ∧ after = s := by
  by_cases verbatim : DataType.argumentsOf first = .verbatim
  · rw [typeName_of_verbatim verbatim]
    exact (yields_pure first).mpr fun _ => ⟨rfl, rfl⟩
  · have known {name : String} {mid : Tape} (other : DataType.argumentsOf name ≠ .verbatim) :
        (Pure.pure name : SqlRule String).Yields (sqlLevels f limit) mid fun name after =>
          DataType.argumentsOf name = .verbatim → name = first ∧ after = s :=
      (yields_pure name).mpr fun found => absurd found other
    unfold typeName
    split
    · exact yields_then fun _ _ => known verbatim
    · split
      · refine yields_then fun varying _ => known ?_
        cases varying with
        | false => exact verbatim
        | true => exact (by decide : DataType.argumentsOf "VARCHAR" ≠ .verbatim)
      · exact known verbatim

/-- A type is one that all dialects share, or one that is kept as it is written. -/
theorem dataType_reads (along : s.Along tokens) : dataType.Yields (sqlLevels f limit) s fun type after =>
    type.Legible ∨ ∃ t first mid, s.peek = .ok t ∧ t.typeWord? true = some first ∧
      DataType.argumentsOf first = .verbatim ∧ s.Moves [t] mid ∧ Verbatim mid first type after := by
  refine yields_bind.mpr (yields_typeWord? fun t shown => ?_)
  split
  · exact (yields_failAny _).mpr trivial
  · rename_i first found
    refine yields_bind.mpr (along.yields_bump shown (Token.isEof_of_typeWord? found) fun mid moves => ?_)
    refine yields_bind.mpr ((typeName_reads first).mono fun name after same => ?_)
    have shared {rule : SqlRule DataType} (makes : rule.Makes (sqlLevels f limit) DataType.Legible) :
        rule.Yields (sqlLevels f limit) after fun type after =>
          type.Legible ∨ ∃ t first mid, s.peek = .ok t ∧ t.typeWord? true = some first ∧
            DataType.argumentsOf first = .verbatim ∧ s.Moves [t] mid ∧ Verbatim mid first type after :=
      (makes after).mono fun _ _ legible => .inl legible
    have known {other : TypeArguments} (takes : DataType.argumentsOf name = other)
        (differ : other ≠ .verbatim) : DataType.argumentsOf name ≠ .verbatim := takes ▸ differ
    split
    · rename_i none
      exact shared (makes_pure (DataType.legible_ofParts (known none nofun) nofun nofun nofun nofun))
    · rename_i length
      exact shared (lengthArgument_bounds.bind fun _ short => makes_pure
        (DataType.legible_ofParts (known length nofun) short nofun nofun nofun))
    · rename_i precision
      exact shared (scaleArguments_bounds.bind fun _ ⟨fits, fits', behind⟩ => makes_pure
        (DataType.legible_ofParts (known precision nofun) nofun fits fits' behind))
    · rename_i verbatim
      obtain ⟨rfl, rfl⟩ := same verbatim
      refine (customType_reads (along.moves moves) name).mono fun type after written => ?_
      exact .inr ⟨t, name, _, shown, found, verbatim, moves, written⟩

end

end SqlTree
