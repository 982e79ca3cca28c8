import SqlTree.Proofs.Progress.Advances
import SqlTree.Proofs.Reading.Standing

namespace SqlTree

open Rule SqlRule

theorem Tape.Moves.tokens_eq {s mid : Tape} (stays : s.Moves [] mid) : mid.tokens = s.tokens :=
  stays.tokens.symm

/-- Joined tables between parentheses, which are begun where a table is. -/
def Symbol.IsGroup {α : Type} : Symbol α → Prop
  | joinGroup => True
  | _ => False

namespace Rule

def isChoice {α : Type} : SqlRule α → Bool
  | orElse _ _ => true
  | _ => false

/-- Whether a rule begins with alternatives and goes on behind them, as a table does behind its start. -/
def opensChoice {α : Type} : SqlRule α → Bool
  | bind first _ => first.isChoice
  | _ => false

/-- A rule without alternatives and repetitions that begins no expression, no query and no table. -/
def Simple {α : Type} : SqlRule α → Prop
  | bind first next => first.Simple ∧ ∀ value, (next value).Simple
  | lookahead rule | reporting rule => rule.Simple
  | orElse _ _ | loop _ _ | nested _ | call _ => False
  | _ => True

/-- A rule that begins no expression, no query and no table before fewer than `n` tokens are left. Whether it
may begin joined tables between parentheses is `groups`. Expressions and queries have a name; a table has
none, and is told by the alternatives that it goes on with. -/
def Waits (f : Features) (limit n : Nat) (groups : Bool) {α : Type} : SqlRule α → Tape → Prop
  | bind first next, s => (∀ value, (next value).opensChoice = false) ∧ first.Waits f limit n groups s ∧
      first.Yields (sqlLevels f limit) s fun value after =>
        after.tokens.length < n ∨ (next value).Waits f limit n groups after
  | orElse rule other, s => ∀ mid, s.Moves [] mid →
      rule.Waits f limit n groups mid ∧ ∀ m, (other m).Waits f limit n groups mid
  | lookahead rule, s | reporting rule, s => rule.Waits f limit n groups s
  | loop _ _, _ | nested _, _ => False
  | call name, _ => groups = true ∧ name.IsGroup
  | _, _ => True

section

variable {α β : Type}

@[simp] theorem simple_pure (value : α) : (Pure.pure value : SqlRule α).Simple := trivial

@[simp] theorem simple_bind {first : SqlRule α} {next : α → SqlRule β} :
    (first >>= next).Simple ↔ first.Simple ∧ ∀ value, (next value).Simple := Iff.rfl

@[simp] theorem simple_bump : (bump : SqlRule Token).Simple := trivial

@[simp] theorem simple_nextParam : (nextParam : SqlRule Nat).Simple := trivial

@[simp] theorem simple_start : (start : SqlRule Position).Simple := ⟨trivial, fun _ => trivial⟩

@[simp] theorem simple_spanFrom (p : Position) : (spanFrom p : SqlRule Span).Simple :=
  ⟨trivial, fun _ => trivial⟩

@[simp] theorem simple_failAny (expected : List String) : (failAny expected : SqlRule α).Simple :=
  ⟨trivial, fun _ => trivial⟩

@[simp] theorem simple_check (kind : TokenKind) : (check kind : SqlRule Bool).Simple :=
  ⟨trivial, fun _ => trivial⟩

@[simp] theorem simple_checkKeyword (k : Keyword) : (checkKeyword k : SqlRule Bool).Simple :=
  ⟨trivial, fun _ => trivial⟩

@[simp] theorem simple_eat (kind : TokenKind) : (eat kind : SqlRule Bool).Simple := by simp [eat]

@[simp] theorem simple_eatKeyword (k : Keyword) : (eatKeyword k : SqlRule Bool).Simple := by
  simp [eatKeyword]

@[simp] theorem simple_expect (kind : TokenKind) : (expect kind : SqlRule Token).Simple := by
  simp [expect]

@[simp] theorem simple_expectKeyword (k : Keyword) : (expectKeyword k : SqlRule Token).Simple := by
  simp [expectKeyword]

@[simp] theorem simple_identifier : identifier.Simple := by
  refine ⟨trivial, fun t => ?_⟩
  dsimp only
  split <;> simp

@[simp] theorem simple_objectName : objectName.Simple := by simp [objectName]

@[simp] theorem simple_literalWord? : literalWord?.Simple := by simp [literalWord?]

@[simp] theorem simple_single (p : Position) (kind : ExprKind) : (single p kind).Simple := by simp [single]

end

section

variable {f : Features} {limit n : Nat} {groups : Bool} {α β : Type} {tokens : List Token} {s : Tape}

theorem Simple.opensChoice {rule : SqlRule α} (simple : rule.Simple) : rule.opensChoice = false := by
  cases rule with
  | bind first next =>
    cases first with
    | orElse => exact simple.1.elim
    | _ => rfl
  | _ => rfl

/-- A rule without alternatives and repetitions that begins nothing waits. -/
theorem Simple.waits {rule : SqlRule α} (simple : rule.Simple) (s : Tape) :
    rule.Waits f limit n groups s := by
  induction rule generalizing s with
  | bind first next ihFirst ihNext =>
    exact ⟨fun value => (simple.2 value).opensChoice, ihFirst simple.1 s,
      fun value after _ => .inr (ihNext value (simple.2 value) after)⟩
  | lookahead rule ih | reporting rule ih => exact ih simple s
  | orElse | loop | nested | call => exact simple.elim
  | _ => trivial

/-- What follows a rule that consumes a token may begin anything. -/
theorem Consumes.waits {first : SqlRule α} {next : α → SqlRule β} (consumes : first.Consumes f)
    (alone : ∀ value, (next value).opensChoice = false) (along : s.Along tokens) (le : s.tokens.length ≤ n)
    (waits : first.Waits f limit n groups s) : (first >>= next).Waits f limit n groups s :=
  ⟨alone, waits, (consumes tokens limit s along).mono fun _ _ passes =>
    .inl (Nat.lt_of_lt_of_le passes.length_lt le)⟩

theorem waits_start {next : Position → SqlRule α} (alone : ∀ p, (next p).opensChoice = false)
    (waits : ∀ p, (next p).Waits f limit n groups s) : (start >>= next).Waits f limit n groups s :=
  ⟨alone, simple_start.waits s, yields_start.mpr fun _ _ => .inr (waits _)⟩

theorem waits_peek {next : Token → SqlRule α} (alone : ∀ t, (next t).opensChoice = false)
    (waits : ∀ t, s.peek = .ok t → (next t).Waits f limit n groups s) :
    (peek >>= next).Waits f limit n groups s :=
  ⟨alone, trivial, yields_peek.mpr fun t shown => .inr (waits t shown)⟩

/-- A rule waits behind a look at a word if it does whether the word is there or not. -/
theorem waits_ifSpelled {k : Keyword} {rule other : SqlRule α} (alone : rule.opensChoice = false)
    (alone' : other.opensChoice = false) (waits : rule.Waits f limit n groups s)
    (waits' : other.Waits f limit n groups s) :
    (do if ← checkKeyword k then rule else other : SqlRule α).Waits f limit n groups s := by
  refine ⟨fun found => ?_, (simple_checkKeyword k).waits s, (yields_checkKeyword k).mpr fun t _ => .inr ?_⟩
  · cases found with
    | true => exact alone
    | false => exact alone'
  · cases t.spells k with
    | true => exact waits
    | false => exact waits'

/-- The token that is shown is consumed. -/
theorem waits_bump {t : Token} {next : Token → SqlRule α} (alone : ∀ t, (next t).opensChoice = false)
    (along : s.Along tokens) (le : s.tokens.length ≤ n) (shown : s.peek = .ok t)
    (notEof : t.isEof = false) : (bump >>= next).Waits f limit n groups s :=
  ⟨alone, trivial, along.yields_bump shown notEof fun _ moves =>
    .inl (Nat.lt_of_lt_of_le (Tape.Passes.length_lt ⟨[t], List.cons_ne_nil t [], moves⟩) le)⟩

theorem consumes_expectKeyword (k : Keyword) : (expectKeyword k : SqlRule Token).Consumes f :=
  consumes_of_reads fun _ => skips_expectKeyword k

theorem consumes_expect {kind : TokenKind} (notEof : kind.sameKind .eof = false) :
    (expect kind : SqlRule Token).Consumes f :=
  consumes_of_reads fun _ => skips_expect notEof

/-- A form behind a word of its own. -/
theorem waits_behindKeyword {k : Keyword} {next : Position → SqlRule α}
    (alone : ∀ p, (next p).opensChoice = false) (along : s.Along tokens) (le : s.tokens.length ≤ n) :
    (do let p ← start; let _ ← expectKeyword k; next p : SqlRule α).Waits f limit n groups s :=
  waits_start (fun _ => rfl) fun p => (consumes_expectKeyword k).waits (fun _ => alone p) along le
    ((simple_expectKeyword k).waits s)

end

end Rule

namespace SqlRule

variable {f : Features} {limit n : Nat} {groups : Bool} {tokens : List Token} {s : Tape}

/-- What begins with a name begins nothing before the name is consumed. -/
theorem nameExpression_waits (along : s.Along tokens) (le : s.tokens.length ≤ n) :
    nameExpression.Waits f limit n groups s :=
  waits_start (fun _ => rfl) fun _ => Solid.identifier.consumes.waits (fun _ => rfl) along le
    (simple_identifier.waits s)

/-- A form behind a word of its own may begin with the word or with a name. -/
theorem keywordForm_waits {form : SqlRule Expr} (reserved : Bool) (along : s.Along tokens)
    (le : s.tokens.length ≤ n)
    (waits : ∀ mid : Tape, mid.Along tokens → mid.tokens.length ≤ n → form.Waits f limit n groups mid) :
    (keywordForm reserved form).Waits f limit n groups s := by
  cases reserved with
  | true => exact waits s along le
  | false =>
    intro mid stays
    have along' := along.moves stays
    refine ⟨waits mid along' (stays.tokens_eq ▸ le), fun m after stays' => ⟨?_, fun _ => trivial⟩⟩
    exact nameExpression_waits (along'.moves stays') (stays'.tokens_eq ▸ stays.tokens_eq ▸ le)

theorem keywordForm_alone {form : SqlRule Expr} (reserved : Bool) (alone : form.opensChoice = false) :
    (keywordForm reserved form).opensChoice = false := by
  cases reserved with
  | true => exact alone
  | false => rfl

theorem wordExpression_waits (along : s.Along tokens) (le : s.tokens.length ≤ n) (p : Position) :
    (wordExpression p).Waits f limit n groups s := by
  have form {k : Keyword} {next : Position → SqlRule Expr} (alone : ∀ p, (next p).opensChoice = false)
      (reserved : Bool) :
      (keywordForm reserved (do let p ← start; let _ ← expectKeyword k; next p)).Waits f limit n groups s :=
    keywordForm_waits reserved along le fun mid along le => waits_behindKeyword alone along le
  refine waits_peek (fun _ => rfl) fun u _ => ?_
  refine waits_ifSpelled (keywordForm_alone _ rfl) rfl (form (fun _ => rfl) _) ?_
  refine waits_ifSpelled (keywordForm_alone _ rfl) rfl (form (fun _ => rfl) _) ?_
  refine waits_ifSpelled (keywordForm_alone _ rfl) rfl (form (fun _ => rfl) _) ?_
  refine ⟨fun word => by cases word <;> rfl, simple_literalWord?.waits s, ?_⟩
  refine literalWord?_yields (.refl limit along) (.inr ?_) fun value t after row =>
    .inr (Simple.waits (by simp) after)
  refine waits_peek (fun t => ?_) fun t shown => ?_
  · cases t.keyword? with
    | none => rfl
    | some k =>
      dsimp only
      split <;> rfl
  · cases word : t.keyword? with
    | none => exact nameExpression_waits along le
    | some k =>
      have notEof : t.isEof = false := by
        rw [Token.isEof, beq_eq_false_iff_ne]
        intro eof
        rw [Token.keyword?, eof] at word
        cases word
      dsimp only
      split
      · exact waits_bump (fun _ => rfl) along le shown notEof
      · exact (simple_failAny _).waits s

/-- An expression without operators begins nothing before its first token is consumed. -/
theorem primary_waits (along : s.Along tokens) (le : s.tokens.length ≤ n) :
    primary.Waits f limit n groups s := by
  refine waits_start (fun _ => rfl) fun p => waits_peek (fun t => ?_) fun t shown => ?_
  · split <;> rfl
  · split
    case h_8 left =>
      exact waits_bump (fun _ => rfl) along le shown (by rw [Token.isEof, left]; rfl)
    case h_9 | h_10 => exact wordExpression_waits along le p
    all_goals exact Simple.waits (by simp) s

theorem prefixed_waits (along : s.Along tokens) (le : s.tokens.length ≤ n) :
    prefixed.Waits f limit n groups s := by
  refine waits_start (fun _ => rfl) fun p => waits_peek (fun t => ?_) fun t shown => ?_
  · split <;> rfl
  · split
    · rename_i op sign
      have notEof : t.isEof = false := by
        rw [Token.isEof, beq_eq_false_iff_ne]
        intro eof
        rw [eof] at sign
        cases sign
      exact waits_bump (fun _ => rfl) along le shown notEof
    · refine ⟨fun found => by cases found <;> rfl, (simple_eatKeyword _).waits s, ?_⟩
      have found : (eatKeyword .NOT : SqlRule Bool).Yields (sqlLevels f limit) s fun found after =>
          if found = true then after.tokens.length < n else after = s :=
        (Lays.refl limit along).eatKeyword (fun t after row => ?_) rfl
      · refine found.mono fun found after holds => ?_
        cases found with
        | true => exact .inl holds
        | false =>
          obtain rfl : after = s := holds
          exact .inr (primary_waits along le)
      · exact Nat.lt_of_lt_of_le (Tape.Passes.length_lt ⟨_, by simp, row.moves⟩) le

end SqlRule

/-- What a name of a rule stands for begins nothing before it has consumed a token. -/
theorem Symbol.body_waits {f : Features} {limit n : Nat} {groups : Bool} {tokens : List Token} {s : Tape}
    (along : s.Along tokens) (le : s.tokens.length ≤ n) (α : Type) (name : Symbol α) :
    (Symbol.body f α name).Waits f limit n groups s := by
  cases name with
  | expression power =>
    have consumes : prefixed.Consumes f := consumes_of_fills fun calls => prefixed_fills calls (Nat.lt_succ_self _)
    exact waits_start (fun _ => rfl) fun _ => consumes.waits (fun _ => rfl) along le (prefixed_waits along le)
  | query => exact waits_behindKeyword (fun _ => rfl) along le
  | joinGroup =>
    exact (consumes_expect rfl).waits (fun _ => rfl) along le ((simple_expect _).waits s)

/-- A table may begin with joined tables between parentheses, and with nothing else that comes back. -/
theorem SqlRule.tableFactor_waits {f : Features} {limit n : Nat} {tokens : List Token} {s : Tape}
    (along : s.Along tokens) (le : s.tokens.length ≤ n) : (tableFactor f).Waits f limit n true s := by
  have named {s : Tape} (along : s.Along tokens) (le : s.tokens.length ≤ n) :
      (namedTable f).Waits f limit n true s :=
    waits_start (fun _ => rfl) fun _ => Solid.objectName.consumes.waits (fun _ => rfl) along le
      (simple_objectName.waits s)
  have derived {s : Tape} (along : s.Along tokens) (le : s.tokens.length ≤ n) :
      (derivedTable f).Waits f limit n true s :=
    waits_start (fun _ => rfl) fun _ => (consumes_expect rfl).waits (fun _ => rfl) along le
      ((simple_expect _).waits s)
  intro first stays
  refine ⟨named (along.moves stays) (stays.tokens_eq ▸ le), fun m second stays' => ?_⟩
  have along' := (along.moves stays).moves stays'
  refine ⟨derived along' (stays'.tokens_eq ▸ stays.tokens_eq ▸ le), fun m' third _ => ?_⟩
  exact ⟨⟨rfl, trivial⟩, fun _ => trivial⟩

section

variable {rules : LexicalRules} {f : Features} {v w : Visit Symbol} {s : Tape} {n : Nat} {groups : Bool}

/-- What a waiting rule evaluates directly waits too, or stands behind a token. -/
theorem Visit.Starts.waits {tokens : List Token} (starts : v.Starts rules (Symbol.body f) w)
    (tracks : Tracks rules v.st s) (along : s.Along tokens) (le : s.tokens.length ≤ n)
    (waits : v.rule.Waits f v.limit n groups s) :
    ∃ t, Tracks rules w.st t ∧ (t.tokens.length < n ∨ w.rule.Waits f w.limit n groups t) := by
  cases starts with
  | first => exact ⟨s, tracks, .inr waits.2.1⟩
  | next eval =>
    obtain ⟨t, read, tracks'⟩ := tracks.reads eval
    exact ⟨t, tracks', waits.2.2 _ t read⟩
  | tried checked =>
    have checks := checked ▸ tracks.checkCancelled
    exact ⟨_, checks.tracks.mark, .inr (waits _ s.moves_checkCancelled.1).1⟩
  | @other _ limit _ _ m _ rule _ checked eval =>
    have checks := checked ▸ tracks.checkCancelled
    have agrees := eval ▸ checks.tracks.mark.agrees (Symbol.body f) limit rule
    have leads := rule.read_leads (Rule.tapeLevels_forward (Symbol.body f) limit) s.checkCancelled.2
    have stays : s.Moves [] (Tape.backTo _ s.checkCancelled.2) :=
      s.moves_checkCancelled.1.trans (.of_place leads.text leads.stop rfl rfl)
    exact ⟨_, (checks.tracks.rewind agrees.tracks leads agrees.marks).1, .inr ((waits _ stays).2 m)⟩
  | lookahead => exact ⟨s, tracks.mark, .inr waits⟩
  | reporting => exact ⟨s, tracks, .inr waits⟩
  | nested | step => exact waits.elim
  | call => exact ⟨s, tracks.enter, .inr (Symbol.body_waits along le _ _)⟩

/-- What is evaluated on the way waits too, or stands behind a token that was consumed. -/
theorem Visit.Covers.waits {text : List Char} {saved : List StateMark}
    (covers : v.Covers rules (Symbol.body f) w) (reach : Reachable rules text saved v.st)
    (tracks : Tracks rules v.st s) (le : s.tokens.length ≤ n)
    (waits : v.rule.Waits f v.limit n groups s) :
    ∃ t, Tracks rules w.st t ∧ (t.tokens.length < n ∨ w.rule.Waits f w.limit n groups t) := by
  induction covers with
  | refl => exact ⟨s, tracks, .inr waits⟩
  | @tail u w covers starts ih =>
    obtain ⟨t, tracks', fewer | waits'⟩ := ih
    · obtain ⟨t', tracks'', leads⟩ := starts.tracks tracks'
      exact ⟨t', tracks'', .inl (Nat.lt_of_le_of_lt leads.length_le fewer)⟩
    · obtain ⟨saved', reach'⟩ := Visit.Covers.reachable covers reach
      obtain ⟨tokens, along⟩ := reach'.along_of_tracks tracks'
      obtain ⟨t', tracks'', leads⟩ := Visit.Covers.tracks covers tracks
      cases tracks'.same tracks''
      exact starts.waits tracks' along (Nat.le_trans leads.length_le le) waits'

end

/-- The rules that come back to themselves: expressions, operands among them, queries and tables. -/
inductive SqlRule.Reentered (f : Features) : ∀ {α : Type}, SqlRule α → Prop
  | expression (power : Nat) : Reentered f (call (.expression power))
  | query : Reentered f selectStatement
  | tableRef : Reentered f (tableRef f)

section

variable {rules : LexicalRules} {f : Features} {v w : Visit Symbol} {s : Tape}

/-- A rule that comes back to itself is begun where it is begun. -/
theorem SqlRule.Reentered.not_waits {α : Type} {rule : SqlRule α} {limit n : Nat} {groups : Bool}
    (reentered : Reentered f rule) : ¬ rule.Waits f limit n groups s := by
  intro waits
  cases reentered with
  | expression power | query => exact waits.2.elim
  | tableRef => exact absurd (waits.1 .start) nofun

/-- A sequence evaluates its first rule, and its rest behind a value of that one. -/
theorem Visit.Starts.of_bind {α β : Type} {limit : Nat} {first : SqlRule α} {next : α → SqlRule β}
    {st : State} (starts : Visit.Starts rules (Symbol.body f) ⟨limit, first.bind next, st⟩ w) :
    w = ⟨limit, first, st⟩ ∨ ∃ value mid, first.evalWithin limit rules f st = (.ok value, mid) ∧
      w = ⟨limit, next value, mid⟩ := by
  cases starts with
  | first => exact .inl rfl
  | next eval => exact .inr ⟨_, _, eval, rfl⟩

/-- A name evaluates its rule one level deeper. -/
theorem Visit.Starts.of_call {α : Type} {limit : Nat} {name : Symbol α} {st : State}
    (starts : Visit.Starts rules (Symbol.body f) ⟨limit, Rule.call name, st⟩ w) :
    ∃ below, limit = below + 1 ∧ w = ⟨below, Symbol.body f α name, st.enter⟩ := by
  cases starts with
  | call => exact ⟨_, rfl, rfl⟩

/-- A rule that comes back to itself waits for a token once it has begun. -/
theorem SqlRule.Reentered.waits {tokens : List Token} (reentered : Reentered f v.rule)
    (starts : v.Starts rules (Symbol.body f) w) (tracks : Tracks rules v.st s) (along : s.Along tokens) :
    ∃ t, Tracks rules w.st t ∧ t.tokens = s.tokens ∧
      w.rule.Waits f w.limit s.tokens.length true t := by
  have called {α : Type} {limit : Nat} {name : Symbol α} {st : State} (tracks : Tracks rules st s)
      (starts : Visit.Starts rules (Symbol.body f) ⟨limit, Rule.call name, st⟩ w) :
      ∃ t, Tracks rules w.st t ∧ t.tokens = s.tokens ∧
        w.rule.Waits f w.limit s.tokens.length true t := by
    obtain ⟨below, rfl, rfl⟩ := starts.of_call
    exact ⟨s, tracks.enter, rfl, Symbol.body_waits along (Nat.le_refl _) _ _⟩
  obtain ⟨limit, rule, st⟩ := v
  cases reentered with
  | expression power => exact called tracks starts
  | query => exact called tracks starts
  | tableRef =>
    obtain rfl | ⟨p, mid, eval, rfl⟩ := starts.of_bind
    · exact ⟨s, tracks, rfl, simple_start.waits s⟩
    · obtain ⟨t, read, tracks'⟩ := tracks.reads eval
      have still : Rule.start.Yields (sqlLevels f limit) s fun _ after => after = s :=
        yields_start.mpr fun _ _ => rfl
      obtain rfl := still p t read
      have consumes : (tableFactor f).Consumes f :=
        consumes_of_reads fun calls => tableFactor_reads calls
      exact ⟨t, tracks', rfl, consumes.waits (fun _ => rfl) along (Nat.le_refl _)
        (tableFactor_waits along (Nat.le_refl _))⟩

/-- A rule that comes back to itself is begun again only behind a token that it has consumed. -/
theorem SqlRule.Reentered.passes {text : List Char} {saved : List StateMark}
    (reentered : Reentered f v.rule) (again : Reentered f w.rule)
    (inside : v.Inside rules (Symbol.body f) w) (reach : Reachable rules text saved v.st) :
    v.st.Passes rules w.st := by
  obtain ⟨s, tokens, tracks, along⟩ := reach.along
  obtain ⟨u, starts, covers⟩ := Relation.TransGen.head'_iff.mp inside
  obtain ⟨t, tracks', same, waits⟩ := reentered.waits starts tracks along
  obtain ⟨saved', reach'⟩ := starts.reachable reach
  obtain ⟨t', behind, fewer | waits'⟩ :=
    Visit.Covers.waits covers reach' tracks' (Nat.le_of_eq (congrArg List.length same)) waits
  · obtain ⟨t'', behind', leads⟩ := Visit.Covers.tracks inside.to_reflTransGen tracks
    cases behind.same behind'
    exact tracks.passes_of_leads behind leads fewer
  · exact (again.not_waits waits').elim

/-- There are levels of nesting enough for the tokens that are left: one for each, and one more unless a
token comes before the next level. -/
def Visit.Ample (f : Features) (v : Visit Symbol) (s : Tape) : Prop :=
  s.tokens.length < v.limit ∨ s.tokens.length ≤ v.limit ∧ v.rule.Waits f v.limit v.limit false s

/-- A rule with levels of nesting enough leaves enough to what it evaluates. -/
theorem Visit.Starts.ample {tokens : List Token} (starts : v.Starts rules (Symbol.body f) w)
    (advances : v.rule.Advances f) (tracks : Tracks rules v.st s) (along : s.Along tokens)
    (ample : v.Ample f s) : ∃ t, Tracks rules w.st t ∧ w.Ample f t := by
  obtain fewer | ⟨le, waits⟩ := ample
  · obtain ⟨t, tracks', leads⟩ := starts.tracks tracks
    cases starts with
    | nested => exact advances.elim
    | call =>
      have le := Nat.le_of_lt_succ fewer
      exact ⟨s, tracks.enter, .inr ⟨le, Symbol.body_waits along le _ _⟩⟩
    | _ => exact ⟨t, tracks', .inl (Nat.lt_of_le_of_lt leads.length_le fewer)⟩
  · obtain ⟨t, tracks', leads⟩ := starts.tracks tracks
    obtain ⟨t', tracks'', ample'⟩ := starts.waits tracks along le waits
    cases tracks'.same tracks''
    have same : w.limit = v.limit := by
      cases starts with
      | nested => exact advances.elim
      | call => exact absurd waits.1 nofun
      | _ => rfl
    rw [← same] at ample' le
    exact ⟨t, tracks', ample'.imp_right fun waits' => ⟨Nat.le_trans leads.length_le le, waits'⟩⟩

/-- What a rule comes to on the way has levels of nesting enough if the rule has. -/
theorem Visit.Covers.ample {text : List Char} {saved : List StateMark}
    (covers : v.Covers rules (Symbol.body f) w) (advances : v.rule.Advances f)
    (reach : Reachable rules text saved v.st) (tracks : Tracks rules v.st s) (ample : v.Ample f s) :
    ∃ t, Tracks rules w.st t ∧ w.Ample f t := by
  induction covers with
  | refl => exact ⟨s, tracks, ample⟩
  | @tail u w covers starts ih =>
    obtain ⟨t, tracks', ample'⟩ := ih
    obtain ⟨saved', reach'⟩ := Visit.Covers.reachable covers reach
    obtain ⟨tokens, along⟩ := reach'.along_of_tracks tracks'
    exact starts.ample (Visit.Covers.advances covers advances) tracks' along ample'

end

/-- The rules that are evaluated for a text: those that consume tokens, and those for a text as a whole. -/
inductive SqlRule.Asked (f : Features) : ∀ {α : Type}, SqlRule α → Prop
  | solid {α : Type} {rule : SqlRule α} : Solid f rule → Asked f rule
  | run (kind : ModelKind) : Asked f (entry f kind).run

/-- How the grammar gets on from a state. -/
structure SqlRule.Progress (rules : LexicalRules) (f : Features) (st : State) : Prop where
  /-- What succeeds has passed a token. -/
  consumes : ∀ {α : Type} {rule : SqlRule α} {limit value after}, Solid f rule →
    rule.evalWithin limit rules f st = (.ok value, after) → st.Passes rules after
  /-- What is begun again from inside is begun behind a token. -/
  waits : ∀ {α : Type} {rule : SqlRule α} {limit} {w : Visit Symbol}, Reentered f rule →
    Reentered f w.rule → Visit.Inside rules (Symbol.body f) ⟨limit, rule, st⟩ w → st.Passes rules w.st
  /-- A loop goes on behind a token, further on in the text. -/
  loops : ∀ {α σ : Type} {rule : SqlRule α} {step : σ → SqlRule (Option σ)}
    {limit below x y z begun mid after}, Asked f rule →
    Visit.Covers rules (Symbol.body f) ⟨limit, rule, st⟩ ⟨below, .loop step x, begun⟩ →
    Rule.Repeating rules (Symbol.body f) below step x begun y mid →
    (step y).evalWithin below rules f mid = (.ok (some z), after) →
    mid.Passes rules after ∧ mid.position.offset < after.position.offset
  /-- Each item of a repetition passes a token, and the repetition ends on an attempt that fails. -/
  many : ∀ {α β : Type} {rule : SqlRule α} {item : SqlRule β} {limit below begun}, Asked f rule →
    Visit.Covers rules (Symbol.body f) ⟨limit, rule, st⟩ ⟨below, item.many, begun⟩ →
    (∀ {items mid value after},
      item.Repeats rules (Rule.levels rules (Symbol.body f) below) begun items mid →
      item.evalWithin below rules f mid = (.ok value, after) → mid.Passes rules after) ∧
    ∀ {result after}, SqlRule.evalWithin below rules f item.many begun = (result, after) →
      item.EndsFailing rules (Rule.levels rules (Symbol.body f) below) begun result after
  /-- With no bound on nesting and no guard in its loops a rule gives one thing, which is what it gives
  with more levels of nesting than there are tokens left. -/
  ends : ∀ {α : Type} {rule : SqlRule α} {tokens stop}, Asked f rule →
    Lexes rules st.reader.cursor tokens stop →
    ∃ outcome, (∀ other, Rule.Results rules (Symbol.body f) rule st other ↔ other = outcome) ∧
      ∀ {limit}, tokens.length < limit → rule.evalWithin limit rules f st = outcome

section

variable {rules : LexicalRules} {f : Features} {α β σ : Type} {s : Tape} {st after : State} {limit : Nat}
  {text : List Char} {saved : List StateMark}

/-- No rule that is evaluated for a text takes a step that stays where it is. -/
theorem SqlRule.Asked.advances {rule : SqlRule α} (asked : Asked f rule) : rule.Advances f := by
  cases asked with
  | solid solid => exact solid.advances
  | run kind => exact (entry_advances kind).run

/-- The items of a repetition that goes on consume tokens. -/
theorem Rule.Advances.of_many {item : SqlRule α} (advances : item.many.Advances f) :
    item.optional.StepsOn f := by
  intro tokens limit s along found after read goesOn
  obtain ⟨value, rfl⟩ := Option.ne_none_iff_exists'.mp goesOn
  refine (advances.1 []).2 tokens limit s along (some [value]) after ?_ (by simp)
  change (item.optional.bind fun found => Rule.pure (found.map (· :: []))).read _ s = _
  simp only [Rule.read, read, Option.map_some]

/-- A rule consumes tokens if it does where it may be left out. -/
theorem Rule.StepsOn.consumes {item : SqlRule α} (steps : item.optional.StepsOn f) : item.Consumes f := by
  intro tokens limit s along value after read
  -- one check for a request to cancel earlier
  let before : Tape := { s with cancelAfter := s.cancelAfter.map (· + 1) }
  have checked : before.checkCancelled = (.ok (), s) := by
    rcases s with ⟨_, _, _, _, _, _, _ | n⟩ <;> rfl
  have optional : item.optional.read (sqlLevels f limit) before = (.ok (some value), after) := by
    change (orElse (item.bind fun value => Rule.pure (some value)) fun m =>
      (Rule.note m).bind fun _ => Rule.pure none).read _ before = _
    simp only [Rule.read, checked, read]
  have stays : s.Moves [] before := .of_place rfl rfl rfl rfl
  obtain ⟨used, nonempty, moves⟩ :=
    steps tokens limit before (along.moves stays) (some value) after optional (by simp)
  exact ⟨used, nonempty, stays.trans moves⟩

theorem Visit.Covers.stepsOn {v : Visit Symbol} {step : σ → SqlRule (Option σ)} {x : σ}
    (covers : v.Covers rules (Symbol.body f) ⟨limit, .loop step x, st⟩) (advances : v.rule.Advances f)
    (y : σ) : (step y).StepsOn f :=
  ((advances_loop step x).mp (Visit.Covers.advances covers advances) y).2

/-- A step that goes on has passed a token. -/
theorem Rule.StepsOn.passes {step : SqlRule (Option σ)} {x : σ} (steps : step.StepsOn f)
    (reach : Reachable rules text saved st) (eval : step.evalWithin limit rules f st = (.ok (some x), after)) :
    st.Passes rules after ∧ st.position.offset < after.position.offset := by
  obtain ⟨s, tokens, tracks, along⟩ := reach.along
  obtain ⟨t, read, tracks'⟩ := tracks.reads eval
  have passes := steps tokens limit s along (some x) t read (by simp)
  refine ⟨tracks.passes tracks' passes, ?_⟩
  rw [tracks.position, tracks'.position]
  exact passes.lastEnd_lt along

/-- A rule that consumes a token has passed it. -/
theorem Rule.Consumes.passes {rule : SqlRule α} {value : α} (consumes : rule.Consumes f)
    (reach : Reachable rules text saved st) (eval : rule.evalWithin limit rules f st = (.ok value, after)) :
    st.Passes rules after := by
  obtain ⟨s, tokens, tracks, along⟩ := reach.along
  obtain ⟨t, tracks', passes⟩ := tracks.consumes along consumes eval
  exact tracks.passes tracks' passes

/-- What the items of a repetition lead to is reachable. -/
theorem Rule.Repeats.reachable {item : SqlRule α} {items : List α} {mid : State}
    (repeats : item.Repeats rules (Rule.levels rules (Symbol.body f) limit) st items mid)
    (reach : Reachable rules text saved st) : Reachable rules text saved mid := by
  induction repeats with
  | none => exact reach
  | next eval _ _ ih =>
    have later := reach.rule (Symbol.body f) limit item.optional
    rw [eval] at later
    exact ih later

theorem Rule.Waits.not_deepens {rule : SqlRule α} {n : Nat} (waits : rule.Waits f limit n false s) :
    ¬ rule.Deepens := by
  intro deepens
  cases rule with
  | nested => exact waits
  | call => exact absurd waits.1 nofun
  | _ => exact deepens

/-- With more levels of nesting than there are tokens left nothing bounds the evaluation of a rule. -/
theorem SqlRule.Asked.unbounded {rule : SqlRule α} (asked : Asked f rule)
    (reach : Reachable rules text saved st) (tracks : Tracks rules st s) (enough : s.tokens.length < limit) :
    Visit.Unbounded rules (Symbol.body f) ⟨limit, rule, st⟩ := by
  refine ⟨fun w covers deepens => ?_, fun covers repeating eval => ?_⟩
  · obtain ⟨t, -, fewer | ⟨-, waits⟩⟩ := Visit.Covers.ample covers asked.advances reach tracks (.inl enough)
    · exact Nat.zero_lt_of_lt fewer
    · exact absurd deepens waits.not_deepens
  · obtain ⟨saved', reach'⟩ := Visit.Covers.reachable (covers.tail (.step repeating)) reach
    exact ((Visit.Covers.stepsOn covers asked.advances _).passes reach' eval).2

end

/-- From every state that a text leads to the grammar gets on, in every dialect. -/
theorem Reachable.progress {rules : LexicalRules} {text : List Char} {saved : List StateMark} {st : State}
    (reach : Reachable rules text saved st) (f : Features) : SqlRule.Progress rules f st where
  consumes solid eval := solid.consumes.passes reach eval
  waits reentered again inside := reentered.passes again inside reach
  loops asked covers repeating eval := by
    obtain ⟨saved', reach'⟩ := Visit.Covers.reachable (covers.tail (.step repeating)) reach
    exact (Visit.Covers.stepsOn covers asked.advances _).passes reach' eval
  many asked covers := by
    have steps := Rule.Advances.of_many (Visit.Covers.advances covers asked.advances)
    obtain ⟨saved', reach'⟩ := Visit.Covers.reachable covers reach
    refine ⟨fun repeats eval => steps.consumes.passes (repeats.reachable reach') eval, fun eval => ?_⟩
    obtain ⟨s, tokens, tracks, along⟩ := reach'.along
    exact tracks.endsFailing steps along eval
  ends {α rule tokens stop} asked lexes := by
    obtain ⟨s, _, tracks, -⟩ := reach.along
    obtain ⟨rfl, -⟩ := lexes.same tracks.lexes
    have results {limit : Nat} (enough : s.tokens.length < limit) :
        Rule.Results rules (Symbol.body f) rule st (rule.evalWithin limit rules f st) :=
      (asked.unbounded reach tracks enough).results tracks
    have one := results (Nat.lt_succ_self s.tokens.length)
    exact ⟨_, fun other => ⟨one.unique, fun same => same ▸ one⟩, fun enough => one.unique (results enough)⟩

/-- A sum in parentheses passes tokens, and it is what the rule of expressions gives without bounds. -/
theorem Reachable.progress_sum : ∃ sum after,
    expression.evalWithin maxNesting Dialect.sqlite.lexical Dialect.sqlite.features
      (.ofText "a + (b)".toList) = (.ok sum, after) ∧
    (State.ofText "a + (b)".toList).Passes Dialect.sqlite.lexical after ∧
    ∀ other, Rule.Results Dialect.sqlite.lexical (Symbol.body Dialect.sqlite.features) expression
      (.ofText "a + (b)".toList) other ↔ other = (.ok sum, after) := by
  have reads : ((expression.evalWithin maxNesting Dialect.sqlite.lexical Dialect.sqlite.features
      (.ofText "a + (b)".toList)).1.toOption.isSome) = true := by decide +kernel
  have lexed : (tokenize Dialect.sqlite.lexical "a + (b)").toOption.map List.length = some 6 := rfl
  rcases read : tokenize Dialect.sqlite.lexical "a + (b)" with _ | tokens <;> rw [read] at lexed
  · cases lexed
  · obtain ⟨front, eof, rfl, lexes⟩ := lexes_of_tokenize read
    have few : front.length < maxNesting := by
      have six : (front ++ [eof]).length = 6 := Option.some.inj lexed
      rw [List.length_append, List.length_singleton] at six
      unfold maxNesting
      omega
    have progress := (Reachable.start : Reachable Dialect.sqlite.lexical "a + (b)".toList [] _).progress
      Dialect.sqlite.features
    obtain ⟨outcome, results, within⟩ := progress.ends (.solid .expression) lexes
    rcases eval : expression.evalWithin maxNesting Dialect.sqlite.lexical Dialect.sqlite.features
      (.ofText "a + (b)".toList) with ⟨_ | sum, after⟩ <;> rw [eval] at reads
    · cases reads
    · refine ⟨sum, after, rfl, progress.consumes .expression eval, ?_⟩
      rw [← eval, within few]
      exact results

end SqlTree
