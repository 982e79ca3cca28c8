import SqlTree.Proofs.Lexing.Parentheses
import SqlTree.Proofs.Tree.Steps

namespace SqlTree

open Rule

/-- Tokens were consumed from a tape on that close `depth` of the parentheses that are open there, and
every one that they open. -/
def Tape.Closes (s : Tape) (depth : Nat) (after : Tape) : Prop :=
  ∃ used, s.Moves used after ∧ ∀ outer, openBehind (outer + depth) used = some outer

/-- Whatever a rule gives, it has closed `depth` parentheses that were open before. -/
abbrev Closes {α : Type} (f : Features) (tokens : List Token) (limit depth : Nat) (rule : SqlRule α) :
    Prop :=
  Always f tokens limit rule fun s _ after => s.Closes depth after

/-- Whatever a rule gives, it has closed what it has opened. -/
abbrev Nests {α : Type} (f : Features) (tokens : List Token) (limit : Nat) (rule : SqlRule α) : Prop :=
  Closes f tokens limit 0 rule

/-- Whether tokens of a kind neither open nor close anything, nor end a text. -/
def TokenKind.isPlain : TokenKind → Bool
  | .leftParen | .rightParen | .eof => false
  | _ => true

/-- Whether tokens are plain depends on their kind alone. -/
theorem TokenKind.isPlain_of_sameKind {a b : TokenKind} (same : a.sameKind b = true)
    (plain : b.isPlain = true) : a.isPlain = true := by
  cases a <;> first | rfl | (cases b <;> first | (cases same; done) | cases plain)

/-- Words are plain. -/
theorem Token.isPlain_of_spells {t : Token} {k : Keyword} (spells : t.spells k = true) :
    t.kind.isPlain = true := by
  rcases t with ⟨kind, text, span⟩
  cases kind <;> first | rfl | cases spells

theorem TokenKind.eq_of_sameKind_paren {kind : TokenKind} :
    (kind.sameKind .leftParen = true → kind = .leftParen) ∧
      (kind.sameKind .rightParen = true → kind = .rightParen) := by
  constructor <;> intro same <;> cases kind <;> first | rfl | cases same

namespace Tape

variable {tokens : List Token} {s mid after : Tape} {t : Token} {depth : Nat}

/-- Consuming nothing closes nothing. -/
theorem Closes.refl (s : Tape) : s.Closes 0 s := ⟨[], .refl s, fun _ => rfl⟩

theorem Closes.of_stays (stays : s.Moves [] after) : s.Closes 0 after := ⟨[], stays, fun _ => rfl⟩

/-- What closes all that it opens may stand in front of anything. -/
theorem Closes.trans (first : s.Closes 0 mid) (second : mid.Closes depth after) :
    s.Closes depth after := by
  obtain ⟨used, moves, nested⟩ := first
  obtain ⟨more, moves', closes⟩ := second
  refine ⟨used ++ more, moves.trans moves', fun outer => ?_⟩
  rw [openBehind_append, show openBehind (outer + depth) used = some (outer + depth) from nested _]
  exact closes outer

/-- A parenthesis that opens is one more to be closed. -/
theorem Closes.left (moves : s.Moves [t] mid) (left : t.kind = .leftParen)
    (rest : mid.Closes (depth + 1) after) : s.Closes depth after := by
  obtain ⟨used, moves', closes⟩ := rest
  refine ⟨t :: used, moves.trans moves', fun outer => ?_⟩
  rw [openBehind_left left]
  exact closes outer

/-- A parenthesis that closes is one less to be closed. -/
theorem Closes.right (moves : s.Moves [t] mid) (right : t.kind = .rightParen)
    (rest : mid.Closes depth after) : s.Closes (depth + 1) after := by
  obtain ⟨used, moves', closes⟩ := rest
  refine ⟨t :: used, moves.trans moves', fun outer => ?_⟩
  rw [show outer + (depth + 1) = outer + depth + 1 from rfl, openBehind_right right]
  exact closes outer

theorem Closes.plain (moves : s.Moves [t] after) (plain : t.kind.isPlain = true) : s.Closes 0 after := by
  refine ⟨[t], moves, fun outer => ?_⟩
  rw [openBehind_other]
  · rfl
  · intro left
    rw [left] at plain
    cases plain
  · intro right
    rw [right] at plain
    cases plain

theorem Closes.along (closes : s.Closes depth after) (along : s.Along tokens) : after.Along tokens :=
  along.moves closes.choose_spec.1

end Tape

section

variable {α β σ : Type} {f : Features} {tokens : List Token} {limit depth : Nat} {s : Tape} {t : Token}
  {rule other : SqlRule α}

/-- Closing parentheses depends only on the tokens that are consumed. -/
theorem steady_closes : Steady tokens fun (s : Tape) (_ : α) after => s.Closes depth after :=
  fun _ _ _ _ _ stays _ closes => (Tape.Closes.of_stays stays).trans closes

/-- Consuming the token that is known to be the next one. -/
theorem Tape.Along.yields_bump (along : s.Along tokens) (shown : s.peek = .ok t)
    (notEof : t.isEof = false) {post : Token → Tape → Prop}
    (next : ∀ after, s.Moves [t] after → post t after) :
    (Rule.bump : SqlRule Token).Yields (sqlLevels f limit) s post := by
  obtain ⟨bumped, moves⟩ := along.bump shown notEof
  refine Rule.yields_bump.mpr fun u shown' => ?_
  rw [bumped] at shown'
  cases shown'
  exact next _ moves

/-- A rule that consumes nothing. -/
theorem nests_of_stays (stays : ∀ s, rule.Yields (sqlLevels f limit) s fun _ after => after = s) :
    Nests f tokens limit rule :=
  fun s _ => (stays s).mono fun _ _ same => same ▸ .refl s

/-- A rule that gives a value at once. -/
theorem nests_pure (value : α) : Nests f tokens limit (Pure.pure value : SqlRule α) :=
  nests_of_stays fun _ => (yields_pure _).mpr rfl

/-- Consuming a token that is known to open and close nothing, and what follows it. -/
theorem bump_closes (along : s.Along tokens) (shown : s.peek = .ok t) (plain : t.kind.isPlain = true)
    {rest : Token → SqlRule α} (closes : ∀ t, Closes f tokens limit depth (rest t)) :
    (bump >>= rest).Yields (sqlLevels f limit) s fun _ after => s.Closes depth after := by
  have notEof : t.isEof = false := by
    cases isEof : t.isEof with
    | false => rfl
    | true =>
      rw [beq_iff_eq.mp isEof] at plain
      cases plain
  refine yields_bind.mpr (along.yields_bump shown notEof fun mid moves => ?_)
  exact (closes t mid (along.moves moves)).mono fun _ _ => (Tape.Closes.plain moves plain).trans

/-- Consuming a token that neither opens nor closes. -/
theorem bump_nests (along : s.Along tokens) (shown : s.peek = .ok t) (plain : t.kind.isPlain = true) :
    (bump : SqlRule Token).Yields (sqlLevels f limit) s fun _ after => s.Closes 0 after := by
  have alone : (bump >>= Pure.pure : SqlRule Token).Yields (sqlLevels f limit) s
      fun _ after => s.Closes 0 after := bump_closes along shown plain fun _ => nests_pure _
  exact (yields_bind.mp alone).mono fun _ _ => (yields_pure _).mp

/-- What closes all that it opens may come first. -/
theorem Nests.bind {next : α → SqlRule β} (nests : Nests f tokens limit rule)
    (rest : ∀ value, Closes f tokens limit depth (next value)) :
    Closes f tokens limit depth (rule >>= next) := by
  intro s along
  refine yields_bind.mpr ((nests s along).mono fun value mid first => ?_)
  exact (rest value mid (first.along along)).mono fun _ _ => first.trans

theorem Closes.ite {c : Bool} (first : Closes f tokens limit depth rule)
    (second : Closes f tokens limit depth other) :
    Closes f tokens limit depth (if c then rule else other) := by
  split
  · exact first
  · exact second

/-- Looking at the next token consumes none. -/
theorem nests_peek : Nests f tokens limit (peek : SqlRule Token) :=
  nests_of_stays fun _ => yields_peek.mpr fun _ _ => rfl

theorem nests_start : Nests f tokens limit (start : SqlRule Position) :=
  nests_of_stays fun _ => yields_start.mpr fun _ _ => rfl

theorem nests_spanFrom (p : Position) : Nests f tokens limit (spanFrom p : SqlRule Span) :=
  nests_of_stays fun _ => (yields_spanFrom p).mpr rfl

theorem nests_check (kind : TokenKind) : Nests f tokens limit (check kind : SqlRule Bool) :=
  nests_of_stays fun _ => (yields_check kind).mpr fun _ _ => rfl

theorem nests_checkKeyword (k : Keyword) : Nests f tokens limit (checkKeyword k : SqlRule Bool) :=
  nests_of_stays fun _ => (yields_checkKeyword k).mpr fun _ _ => rfl

theorem nests_slice (span : Span) : Nests f tokens limit (slice span : SqlRule String) := by
  intro s _ value after read
  cases read
  exact .refl s

theorem nests_nextParam : Nests f tokens limit (nextParam : SqlRule Nat) := by
  intro s _ value after read
  cases read
  exact .of_stays (.of_place rfl rfl rfl rfl)

/-- A token that is no parenthesis opens and closes nothing. -/
theorem nests_eat {kind : TokenKind} (plain : kind.isPlain = true) :
    Nests f tokens limit (eat kind : SqlRule Bool) := by
  intro s along
  refine yields_bind.mpr ((yields_check kind).mpr fun t shown => ?_)
  split
  · exact bump_closes along shown (TokenKind.isPlain_of_sameKind ‹_› plain) fun _ => nests_pure _
  · exact nests_pure _ s along

theorem nests_eatKeyword (k : Keyword) : Nests f tokens limit (eatKeyword k : SqlRule Bool) := by
  intro s along
  refine yields_bind.mpr ((yields_checkKeyword k).mpr fun t shown => ?_)
  split
  · exact bump_closes along shown (Token.isPlain_of_spells ‹_›) fun _ => nests_pure _
  · exact nests_pure _ s along

theorem nests_expect {kind : TokenKind} (plain : kind.isPlain = true) :
    Nests f tokens limit (expect kind : SqlRule Token) := by
  intro s along
  refine yields_bind.mpr ((yields_check kind).mpr fun t shown => ?_)
  split
  · exact bump_nests along shown (TokenKind.isPlain_of_sameKind ‹_› plain)
  · exact (yields_failAny _).mpr trivial

theorem nests_expectKeyword (k : Keyword) : Nests f tokens limit (expectKeyword k : SqlRule Token) := by
  intro s along
  refine yields_bind.mpr ((yields_checkKeyword k).mpr fun t shown => ?_)
  split
  · exact bump_nests along shown (Token.isPlain_of_spells ‹_›)
  · exact (yields_failAny _).mpr trivial

/-- Behind a parenthesis that is opened, what follows has one more to close. -/
theorem closes_left {rest : Token → SqlRule α} (closes : ∀ t, Closes f tokens limit (depth + 1) (rest t)) :
    Closes f tokens limit depth (expect .leftParen >>= rest) := by
  intro s along
  refine yields_bind.mpr (yields_bind.mpr ((yields_check _).mpr fun t shown => ?_))
  split
  · rename_i same
    have left := TokenKind.eq_of_sameKind_paren.1 same
    refine along.yields_bump shown (by rw [Token.isEof, left]; rfl) fun mid moves => ?_
    exact (closes t mid (along.moves moves)).mono fun _ _ => .left moves left
  · exact (yields_failAny _).mpr trivial

/-- A parenthesis that is asked for closes one. -/
theorem closes_right {rest : Token → SqlRule α} (closes : ∀ t, Closes f tokens limit depth (rest t)) :
    Closes f tokens limit (depth + 1) (expect .rightParen >>= rest) := by
  intro s along
  refine yields_bind.mpr (yields_bind.mpr ((yields_check _).mpr fun t shown => ?_))
  split
  · rename_i same
    have right := TokenKind.eq_of_sameKind_paren.2 same
    refine along.yields_bump shown (by rw [Token.isEof, right]; rfl) fun mid moves => ?_
    exact (closes t mid (along.moves moves)).mono fun _ _ => .right moves right
  · exact (yields_failAny _).mpr trivial

/-- What stands between parentheses if the first one is there. -/
theorem closes_ifLeft (present : Closes f tokens limit (depth + 1) rule)
    (absent : Closes f tokens limit depth other) :
    Closes f tokens limit depth (do if ← eat .leftParen then rule else other) := by
  intro s along
  refine yields_bind.mpr (yields_bind.mpr ((yields_check _).mpr fun t shown => ?_))
  cases same : t.kind.sameKind .leftParen with
  | true =>
    have left := TokenKind.eq_of_sameKind_paren.1 same
    refine yields_bind.mpr (along.yields_bump shown (by rw [Token.isEof, left]; rfl) fun mid moves => ?_)
    refine (yields_pure _).mpr ?_
    exact (present mid (along.moves moves)).mono fun _ _ => .left moves left
  | false => exact (yields_pure _).mpr (absent s along)

/-- Repetitions of a step that closes all that it opens. -/
theorem nests_loop {step : σ → SqlRule (Option σ)} (nests : ∀ x, Nests f tokens limit (step x)) (x : σ) :
    Nests f tokens limit (loop step x) := by
  intro s along
  refine yields_loop_of_kept (fun _ after => s.Closes 0 after) (sqlLevels_forward f limit) (.refl s) ?_
  exact fun x mid kept => (nests x mid (kept.along along)).mono fun _ _ => kept.trans

/-- Combinators close what the rules in them close. -/
theorem Nests.attempt (nests : Nests f tokens limit rule) : Nests f tokens limit (attempt rule) :=
  always_orElse steady_closes nests fun _ => always_fail _

theorem Nests.map (nests : Nests f tokens limit rule) (g : α → β) :
    Nests f tokens limit (do return g (← rule)) :=
  nests.bind fun _ => nests_pure _

theorem Nests.optional (nests : Nests f tokens limit rule) : Nests f tokens limit (optional rule) := by
  refine always_orElse steady_closes (nests.map _) fun m => ?_
  intro s along value after read
  cases read
  exact .of_stays (.of_place rfl rfl rfl rfl)

theorem Nests.many (nests : Nests f tokens limit rule) : Nests f tokens limit (many rule) :=
  (nests_loop (fun _ => nests.optional.map _) []).map _

theorem Nests.commaSeparated (nests : Nests f tokens limit rule) :
    Nests f tokens limit (commaSeparated rule) :=
  nests.bind fun _ => Nests.map (Nests.many ((nests_expect rfl).bind fun _ => nests)) _

/-- A list closes the parenthesis that it opens. -/
theorem Nests.parenthesizedList (nests : Nests f tokens limit rule) :
    Nests f tokens limit (parenthesizedList rule) :=
  closes_left fun _ => nests.commaSeparated.bind fun _ => closes_right fun _ => nests_pure _

/-- A word with what follows it, or something else without it. -/
theorem nests_ifEaten {k : Keyword} (present : Nests f tokens limit rule)
    (absent : Nests f tokens limit other) :
    Nests f tokens limit (do if ← eatKeyword k then rule else other) :=
  (nests_eatKeyword k).bind fun _ => present.ite absent

end

end SqlTree
