import SqlTree.Proofs.Progress.Consumes
import SqlTree.Proofs.Reading.Succeeds

namespace SqlTree

open Rule SqlRule

namespace InfixOp

/-- Whether NOT stands in front of the word of an operator. -/
def negated : InfixOp → Bool
  | inList negated | between negated | like _ negated => negated
  | _ => false

/-- The word that an operator is written with, NOT apart. -/
def word? : InfixOp → Option Keyword
  | binary _ | cast => none
  | isNull => some .IS
  | inList _ => some .IN
  | between _ => some .BETWEEN
  | like caseInsensitive _ => some (if caseInsensitive then .ILIKE else .LIKE)

/-- The tokens that an operator is written with: a symbol, or a word with NOT in front of it perhaps. -/
inductive Written : InfixOp → List Token → Prop
  | binary {op t} : t.kind.binaryOp? = some op → Written (.binary op) [t]
  | cast {t} : t.kind = .doubleColon → Written .cast [t]
  | word {op k t} : op.word? = some k → op.negated = false → t.spells k = true → Written op [t]
  | negatedWord {op k n t} : op.word? = some k → op.negated = true → n.spells .NOT = true →
      t.spells k = true → Written op [n, t]

/-- An operator is written with one token, or with NOT and one more. -/
theorem Written.length {op : InfixOp} {used : List Token} (written : op.Written used) :
    used.length = if op.negated then 2 else 1 := by
  cases written with
  | binary => rfl
  | cast => rfl
  | word _ plain => simp [plain]
  | negatedWord _ negated => simp [negated]

end InfixOp

namespace SqlRule

/-- Consumes an operator: its symbol, or its word with NOT in front of it where NOT was announced. -/
def operator : InfixOp → SqlRule Unit
  | .binary _ => do let _ ← bump
  | .isNull => do let _ ← expectKeyword .IS
  | .inList negated => do
    negation negated
    let _ ← expectKeyword .IN
  | .between negated => do
    negation negated
    let _ ← expectKeyword .BETWEEN
  | .like caseInsensitive negated => do
    negation negated
    let _ ← expectKeyword (if caseInsensitive then .ILIKE else .LIKE)
  | .cast => do let _ ← expect .doubleColon

/-- What follows `left` behind its operator. -/
def behindOperator (op : InfixOp) (left : Expr) : SqlRule ExprKind := do
  match op with
  | .binary operator => return .binary left operator (← call (.expression op.rightPower))
  | .isNull =>
    let negated ← eatKeyword .NOT
    let _ ← expectKeyword .NULL
    return .isNull left negated
  | .inList negated =>
    let _ ← expect .leftParen
    let list ← (do
      if ← checkKeyword .SELECT then return InList.subquery (← selectStatement)
      else return .values (← commaSeparated expression))
    let _ ← expect .rightParen
    return .inList left list negated
  | .between negated =>
    let low ← call (.expression op.rightPower)
    let _ ← expectKeyword .AND
    let high ← call (.expression op.rightPower)
    return .between left low high negated
  | .like caseInsensitive negated =>
    let pattern ← call (.expression op.rightPower)
    return .like left pattern caseInsensitive negated
  | .cast => return .cast left (← dataType)

end SqlRule

section

variable {Sym : Type → Type} {α β γ : Type} {rules : LexicalRules} {levels : List (Level Sym)}
  {st after : State}

/-- It makes no difference how a sequence of rules is grouped. -/
theorem Rule.eval_bind_assoc (first : Rule Sym α) (second : α → Rule Sym β) (third : β → Rule Sym γ) :
    ((first >>= second) >>= third).eval rules levels st =
      (first >>= fun value => second value >>= third).eval rules levels st := by
  change ((first.bind second).bind third).eval rules levels st =
    (first.bind fun value => (second value).bind third).eval rules levels st
  simp only [Rule.eval]
  rcases first.eval rules levels st with ⟨_ | value, mid⟩ <;> rfl

theorem Rule.eval_bind_congr (first : Rule Sym α) {next other : α → Rule Sym β}
    (same : ∀ value st, (next value).eval rules levels st = (other value).eval rules levels st) :
    (first >>= next).eval rules levels st = (first >>= other).eval rules levels st := by
  change (first.bind next).eval rules levels st = (first.bind other).eval rules levels st
  simp only [Rule.eval]
  rcases first.eval rules levels st with ⟨_ | value, mid⟩
  · rfl
  · exact same value mid

theorem Rule.eval_bind_of_ok {first : Rule Sym α} {next : α → Rule Sym β} {value : α}
    (eval : first.eval rules levels st = (.ok value, after)) :
    (first >>= next).eval rules levels st = (next value).eval rules levels after := by
  change (first.bind next).eval rules levels st = _
  rw [Rule.eval, eval]

end

/-- What follows an operand is its operator and what stands behind the operator. -/
theorem infixed_eval (op : InfixOp) (left : Expr) (rules : LexicalRules) (levels : List (Level Symbol))
    (st : State) : (infixed op left).eval rules levels st =
      (operator op >>= fun _ => behindOperator op left).eval rules levels st := by
  have plain {α : Type} (word : SqlRule α) (rest : SqlRule ExprKind) (st : State) :
      (word >>= fun _ => rest).eval rules levels st =
        ((do let _ ← word) >>= fun _ => rest).eval rules levels st := by
    rw [eval_bind_assoc]
    exact eval_bind_congr word fun _ _ => rfl
  have announced {α : Type} (negated : Bool) (word : SqlRule α) (rest : SqlRule ExprKind) :
      (negation negated >>= fun _ => word >>= fun _ => rest).eval rules levels st =
        ((do negation negated; let _ ← word) >>= fun _ => rest).eval rules levels st := by
    rw [eval_bind_assoc]
    exact eval_bind_congr _ fun _ st => plain word rest st
  cases op with
  | binary o => exact plain bump _ st
  | isNull => exact plain (expectKeyword .IS) _ st
  | inList negated => exact announced negated (expectKeyword .IN) _
  | between negated => exact announced negated (expectKeyword .BETWEEN) _
  | like caseInsensitive negated => exact announced negated _ _
  | cast => exact plain (expect .doubleColon) _ st

section

variable {f : Features} {tokens rest : List Token} {limit : Nat} {s : Tape} {t : Token}

/-- A predicate that is announced, with NOT in front of it or without, begins with its word. -/
def Announces (negated : Bool) (s : Tape) (found : Option InfixOp) : Prop :=
  ∀ op, found = some op → op.negated = negated ∧
    ∃ k t rest, op.word? = some k ∧ s.tokens = t :: rest ∧ t.spells k = true

/-- A predicate that is asked for is announced where it is found. -/
theorem predicate?_announces (negated : Bool) (along : s.Along tokens) :
    (predicate? f negated).Yields (sqlLevels f limit) s fun found _ => Announces negated s found := by
  have stands {k : Keyword} {op : InfixOp} {t : Token} (peek : s.peek = .ok t)
      (spells : t.spells k = true) (word : op.word? = some k) (same : op.negated = negated) :
      Announces negated s (some op) := by
    obtain ⟨rest, eq⟩ := along.tokens_of_peek peek (Token.isEof_of_spells spells)
    rintro _ ⟨⟩
    exact ⟨same, k, t, rest, word, eq, spells⟩
  have others : (do
      if ← checkKeyword .IN then return some (.inList negated)
      else if ← checkKeyword .BETWEEN then return some (.between negated)
      else if ← checkKeyword .LIKE then return some (.like false negated)
      else if ← (if f.ilike then checkKeyword .ILIKE else return false) then
        return some (.like true negated)
      else return none : SqlRule (Option InfixOp)).Yields (sqlLevels f limit) s
        fun found _ => Announces negated s found := by
    simp only [yields_bind, yields_ite, yields_checkKeyword, yields_pure]
    intro t peek
    split
    · exact stands peek ‹_› rfl rfl
    intro t peek
    split
    · exact stands peek ‹_› rfl rfl
    intro t peek
    split
    · exact stands peek ‹_› rfl rfl
    split
    · intro t peek
      split
      · exact stands peek ‹_› rfl rfl
      · exact nofun
    · exact nofun
  unfold predicate?
  cases negated with
  | true =>
    simp only [if_true]
    rw [yields_bind, yields_pure, if_neg Bool.false_ne_true]
    exact others
  | false =>
    simp only [Bool.false_eq_true, if_false]
    rw [yields_bind, yields_checkKeyword]
    intro t peek
    split
    · exact (yields_pure _).mpr (stands peek ‹_› rfl rfl)
    · exact others

/-- The operator that is announced is written with the next tokens. -/
theorem infixOp?_written (along : s.Along tokens) :
    (infixOp? f).Yields (sqlLevels f limit) s fun found _ => ∀ op, found = some op →
      ∃ used rest, s.tokens = used ++ rest ∧ op.Written used := by
  simp only [infixOp?, yields_bind, yields_peek]
  intro t peek
  split
  · rename_i o binary
    refine (yields_pure _).mpr ?_
    rintro _ ⟨⟩
    obtain ⟨rest, eq⟩ := along.tokens_of_peek peek (Token.isEof_of_binaryOp? binary)
    exact ⟨[t], rest, eq, .binary binary⟩
  split
  · rename_i colons
    refine (yields_pure _).mpr ?_
    split
    · rintro _ ⟨⟩
      obtain ⟨rest, eq⟩ := along.tokens_of_peek peek (by simp [Token.isEof, colons])
      exact ⟨[t], rest, eq, .cast colons⟩
    · rintro _ ⟨⟩
  rw [yields_bind, yields_checkKeyword]
  intro n peek
  split
  · rename_i spells
    obtain ⟨rest, eq⟩ := along.tokens_of_peek peek (Token.isEof_of_spells spells)
    obtain ⟨shown, moves⟩ := along.bump peek (Token.isEof_of_spells spells)
    refine yields_lookahead (yields_bind.mpr (yields_bump.mpr fun _ _ => ?_))
    refine (predicate?_announces true (along.moves moves)).mono fun found _ announces op same => ?_
    obtain ⟨negated, k, u, rest, word, behind, spells'⟩ := announces op same
    exact ⟨[n, u], rest, by rw [moves.tokens, behind]; rfl, .negatedWord word negated spells spells'⟩
  · refine (predicate?_announces false along).mono fun found _ announces op same => ?_
    obtain ⟨plain, k, u, rest, word, eq, spells⟩ := announces op same
    exact ⟨[u], rest, eq, .word word plain spells⟩

/-- To consume a token moves over it. -/
theorem bump_moves (eq : s.tokens = t :: rest) :
    (Rule.bump : SqlRule Token).Succeeds (sqlLevels f limit) s fun _ after => s.Moves [t] after := by
  have read : s.bump = (.ok t, { s with tokens := rest, lastEnd := t.span.stop }) := by
    rw [Tape.bump, eq]
  exact ⟨t, _, read, rfl, rfl, eq, rfl⟩

/-- A word that stands next is consumed. -/
theorem expectKeyword_moves {k : Keyword} (eq : s.tokens = t :: rest) (spells : t.spells k = true) :
    (expectKeyword k : SqlRule Token).Succeeds (sqlLevels f limit) s fun _ after => s.Moves [t] after := by
  have shown : s.peek = .ok t := by rw [Tape.peek, eq]
  simp only [expectKeyword, succeeds_bind, succeeds_checkKeyword shown, succeeds_ite, spells, if_true]
  exact bump_moves eq

/-- The word of an operator is consumed, with NOT in front of it where NOT was announced. -/
theorem announced_moves {k : Keyword} {used : List Token} {negated : Bool}
    (eq : s.tokens = used ++ rest)
    (stands : (negated = false ∧ ∃ t, used = [t] ∧ t.spells k = true) ∨
      (negated = true ∧ ∃ n t, used = [n, t] ∧ n.spells .NOT = true ∧ t.spells k = true)) :
    (do negation negated; let _ ← expectKeyword k : SqlRule Unit).Succeeds (sqlLevels f limit) s
      fun _ after => s.Moves used after := by
  rcases stands with ⟨rfl, t, rfl, spells⟩ | ⟨rfl, n, t, rfl, spells, spells'⟩
  · simp only [negation, Bool.false_eq_true, if_false, succeeds_bind, succeeds_pure]
    exact expectKeyword_moves eq spells
  · simp only [negation, if_true, succeeds_bind, succeeds_pure]
    refine (expectKeyword_moves eq spells).mono fun _ mid moves => ?_
    have behind : mid.tokens = t :: rest := by
      have both := eq.symm.trans moves.tokens
      exact (List.cons.inj both).2.symm
    exact (expectKeyword_moves behind spells').mono fun _ after moves' => moves.trans moves'

/-- An operator that stands next is consumed, and nothing but its tokens. -/
theorem operator_moves {op : InfixOp} {used : List Token} (eq : s.tokens = used ++ rest)
    (written : op.Written used) :
    (operator op).Succeeds (sqlLevels f limit) s fun _ after => s.Moves used after := by
  have word {k : Keyword} (same : op.word? = some k) :
      (op.negated = false ∧ ∃ t, used = [t] ∧ t.spells k = true) ∨
        (op.negated = true ∧ ∃ n t, used = [n, t] ∧ n.spells .NOT = true ∧ t.spells k = true) := by
    cases written with
    | binary => cases same
    | cast => cases same
    | word own plain spells =>
      cases own.symm.trans same
      exact .inl ⟨plain, _, rfl, spells⟩
    | negatedWord own negated spells spells' =>
      cases own.symm.trans same
      exact .inr ⟨negated, _, _, rfl, spells, spells'⟩
  cases op with
  | binary o =>
    cases written with
    | binary =>
      simp only [operator, succeeds_bind, succeeds_pure]
      exact bump_moves eq
    | word none => cases none
    | negatedWord none => cases none
  | cast =>
    cases written with
    | @cast t colons =>
      have shown : s.peek = .ok t := by rw [Tape.peek, eq]; rfl
      simp only [operator, expect, succeeds_bind, succeeds_check shown, succeeds_ite, succeeds_pure,
        colons, TokenKind.sameKind, beq_self_eq_true, if_true]
      exact bump_moves eq
    | word none => cases none
    | negatedWord none => cases none
  | isNull =>
    rcases word rfl with ⟨-, t, rfl, spells⟩ | ⟨negated, -⟩
    · simp only [operator, succeeds_bind, succeeds_pure]
      exact expectKeyword_moves eq spells
    · cases negated
  | inList negated => exact announced_moves eq (word rfl)
  | between negated => exact announced_moves eq (word rfl)
  | like caseInsensitive negated => exact announced_moves eq (word rfl)

end

/-- Any expression ends where no operator is announced. -/
theorem expression_closed {f : Features} {tokens : List Token} {limit : Nat} {s : Tape}
    (along : s.Along tokens) (levels : List (TapeLevel Symbol)) :
    expression.Yields (sqlLevels f limit) s fun _ after =>
      (infixOp? f).read levels after = (.ok none, after) := by
  cases limit with
  | zero => exact yields_tooDeep
  | succ limit =>
    change (expressionBody f 0).Yields (sqlLevels f limit) s _
    simp only [expressionBody_eq, yields_bind, yields_start]
    intro first _
    have calls := calls f tokens (Nat.le_succ limit)
    refine (prefixed_reached calls (Nat.lt_succ_self limit) along 0).mono fun e mid reached => ?_
    obtain ⟨used, moves, -⟩ := reached.covers
    refine yields_loop_until (fun _ s => s.Along tokens) _ (sqlLevels_forward f limit)
      (along.moves moves) fun left s along next after read => ?_
    obtain ⟨onward, stays⟩ := further_passes along limit 0 first.span.start left next after read
    cases next with
    | some e =>
      have passes := onward (Option.some_ne_none e)
      exact ⟨passes.along along, passes.lastEnd_lt along⟩
    | none =>
      obtain ⟨rfl, found, ahead, weak⟩ := stays rfl
      obtain rfl : found = none := by
        cases found with
        | none => rfl
        | some op => exact absurd (weak op rfl) (Nat.not_lt_zero _)
      rw [infixOp?_stays] at ahead
      exact (infixOp?_stays f levels after).trans ahead

/-- Looking for an operator and reading it agree wherever an operator is looked for. -/
structure Announced (rules : LexicalRules) (f : Features) (limit : Nat) (st : State) : Prop where
  /-- Looking leaves the state as it was. -/
  looks : ∀ {found mid}, (infixOp? f).evalWithin limit rules f st = (found, mid) → st.Restored mid
  /-- The operator that is announced is consumed, one token or two of them, and what follows the operand
  goes on behind it. -/
  stands : ∀ {op mid}, (infixOp? f).evalWithin limit rules f st = (.ok (some op), mid) →
    ∃ used rest stop behind, (operator op).evalWithin limit rules f mid = (.ok (), behind) ∧
      op.Written used ∧ used.length = (if op.negated then 2 else 1) ∧
      Lexes rules mid.reader.cursor (used ++ rest) stop ∧ Lexes rules behind.reader.cursor rest stop ∧
      ∀ left, (infixed op left).evalWithin limit rules f mid =
        (behindOperator op left).evalWithin limit rules f behind
  /-- Behind an expression none is announced. -/
  closed : ∀ {e after}, expression.evalWithin limit rules f st = (.ok e, after) →
    ∃ last, (infixOp? f).evalWithin limit rules f after = (.ok none, last)

section

variable {rules : LexicalRules} {f : Features} {limit : Nat} {st : State} {s : Tape} {tokens : List Token}

/-- Wherever a state stands on its way through a text, looking for an operator and reading it agree. -/
theorem Tracks.announced (tracks : Tracks rules st s) (along : s.Along tokens) :
    Announced rules f limit st := by
  constructor
  · intro found mid eval
    refine tracks.restored eval fun t read => ?_
    have stays := infixOp?_stays f (sqlLevels f limit) s
    rw [read] at stays
    obtain rfl : t = s := congrArg Prod.snd stays
    exact .refl t
  · intro op mid eval
    obtain ⟨t, read, tracks'⟩ := tracks.reads eval
    obtain rfl := (Tape.operator?_eq read).2
    obtain ⟨used, rest, split, written⟩ := infixOp?_written along _ _ read op rfl
    obtain ⟨⟨⟩, after, read', moves⟩ : (operator op).Succeeds (sqlLevels f limit) t _ :=
      operator_moves split written
    have agrees := tracks'.agrees (Symbol.body f) limit (operator op)
    rw [read'] at agrees
    rcases behind : (operator op).eval rules (Rule.levels rules (Symbol.body f) limit) mid with
      ⟨result, last⟩
    rw [behind] at agrees
    obtain rfl : result = _ := agrees.result
    refine ⟨used, rest, t.stop, last, behind, written, written.length, ?_, ?_, fun left => ?_⟩
    · rw [← split]
      exact tracks'.lexes
    · have left : after.tokens = rest :=
        (List.append_cancel_left (split.symm.trans moves.tokens)).symm
      rw [← left, ← moves.stop]
      exact agrees.tracks.lexes
    · exact (infixed_eval op left rules _ mid).trans (eval_bind_of_ok behind)
  · intro e after eval
    obtain ⟨t, read, tracks'⟩ := tracks.reads eval
    have closed := expression_closed along (sqlLevels f limit) e t read
    have agrees := tracks'.agrees (Symbol.body f) limit (infixOp? f)
    rw [closed] at agrees
    exact ⟨_, Prod.ext agrees.result rfl⟩

end

/-- Looking for an operator and reading it agree in every state that a text leads to. -/
theorem Reachable.operator_announced {rules : LexicalRules} {text : List Char} {saved : List StateMark}
    {st : State} (reach : Reachable rules text saved st) (f : Features) (limit : Nat) :
    Announced rules f limit st := by
  obtain ⟨s, tokens, tracks, along⟩ := reach.along
  exact tracks.announced along

/-- NOT with BETWEEN behind it is announced behind a name, and both are consumed. -/
theorem Reachable.operator_announced_not_between : ∃ mid behind,
    Reachable Dialect.sqlite.lexical "NOT BETWEEN 1 AND 2".toList []
      (.ofText "NOT BETWEEN 1 AND 2".toList) ∧
    (infixOp? Dialect.sqlite.features).evalWithin maxNesting Dialect.sqlite.lexical
      Dialect.sqlite.features (.ofText "NOT BETWEEN 1 AND 2".toList) =
        (.ok (some (.between true)), mid) ∧
    (operator (.between true)).evalWithin maxNesting Dialect.sqlite.lexical Dialect.sqlite.features mid =
      (.ok (), behind) ∧
    (State.ofText "NOT BETWEEN 1 AND 2".toList).Restored mid := by
  have shown : ((infixOp? Dialect.sqlite.features).evalWithin maxNesting Dialect.sqlite.lexical
      Dialect.sqlite.features (.ofText "NOT BETWEEN 1 AND 2".toList)).1 =
        .ok (some (.between true)) := rfl
  rcases eval : (infixOp? Dialect.sqlite.features).evalWithin maxNesting Dialect.sqlite.lexical
      Dialect.sqlite.features (.ofText "NOT BETWEEN 1 AND 2".toList) with ⟨found, mid⟩
  rw [eval] at shown
  obtain rfl : found = _ := shown
  have announced := (Reachable.start : Reachable Dialect.sqlite.lexical
    "NOT BETWEEN 1 AND 2".toList [] _).operator_announced Dialect.sqlite.features maxNesting
  obtain ⟨used, rest, stop, behind, consumed, -⟩ := announced.stands eval
  exact ⟨mid, behind, .start, rfl, consumed, announced.looks eval⟩

end SqlTree
