import SqlTree.Proofs.Writing.Operations

namespace SqlTree

open Rule SqlRule

/-- The rule for a name one level deeper. -/
theorem Rule.succeeds_call {f : Features} {limit : Nat} {α : Type} {name : Symbol α} {s : Tape}
    {post : α → Tape → Prop} (body : (name.body f).Succeeds (sqlLevels f limit) s post) :
    (call name : SqlRule α).Succeeds (sqlLevels f (limit + 1)) s post := body

section

variable {rules : LexicalRules} {f : Features} {tokens : List Token} {limit power : Nat}
  {more : List Sign} {s : Tape} {p left : Phrase} {op : InfixOp} {after? : Option InfixOp} {e : Expr}
  {start : Position}

/-- What follows an operand makes no name a longer one. -/
theorem Follow.noLonger (follow : Follow rules f more after?) :
    (front more).kind.sameKind .leftParen = false ∧ (front more).kind.sameKind .dot = false := by
  have word (k : Keyword) :
      (Sign.word rules k).kind.sameKind .leftParen = false ∧
        (Sign.word rules k).kind.sameKind .dot = false :=
    ⟨Sign.word_sameKind rules k _ rfl rfl, Sign.word_sameKind rules k _ rfl rfl⟩
  cases follow with
  | ends closes => exact ⟨closes.paren, closes.dot⟩
  | @goesOn op signs legible =>
    cases op with
    | binary o =>
      cases o with
      | and | or => exact word _
      | _ => exact ⟨rfl, rfl⟩
    | isNull => exact word _
    | inList negated => cases negated <;> exact word _
    | between negated => cases negated <;> exact word _
    | like caseInsensitive negated =>
      cases negated with
      | true => exact word _
      | false => cases caseInsensitive <;> exact word _
    | cast => exact legible.elim

/-- Where the operator that follows binds too weakly, an expression ends. -/
theorem Offers.stops (offers : Offers tokens more s) (standard : rules.Standard)
    (follow : Follow rules f more after?) (weak : ∀ o ∈ after?, o.leftPower < power) :
    (further f power start e).read (sqlLevels f limit) s = (.ok none, s) := by
  have found : (infixOp? f).read (sqlLevels f limit) s = (.ok after?, s) :=
    follow.reads standard offers
  obtain ⟨answer, after, read, rfl, rfl⟩ :
      (further f power start e).Succeeds (sqlLevels f limit) s fun found after =>
        found = none ∧ after = s := by
    refine succeeds_bind.mpr ⟨_, _, found, ?_⟩
    cases after? with
    | none => exact (succeeds_pure _).mpr ⟨rfl, rfl⟩
    | some op =>
      dsimp only
      rw [if_pos (weak op rfl)]
      exact (succeeds_pure _).mpr ⟨rfl, rfl⟩
  exact read

/-- Where the operator that follows binds strongly enough, an expression goes on with it. -/
theorem Offers.goesOn {signs : List Sign} (offers : Offers tokens (op.signs rules ++ signs) s)
    (standard : rules.Standard) (legible : op.Legible f) (strong : power ≤ op.leftPower)
    {post : Expr → Tape → Prop}
    (next : (infixed op e).Succeeds (sqlLevels f limit) s fun kind after =>
      ∀ span, post ⟨kind, span⟩ after) :
    (further f power start e).Succeeds (sqlLevels f limit) s fun found after =>
      ∃ e, found = some e ∧ post e after := by
  have follow : Follow rules f (op.signs rules ++ signs) (some op) := .goesOn legible
  refine succeeds_bind.mpr ⟨_, _, follow.reads standard offers, ?_⟩
  dsimp only
  rw [if_neg (Nat.not_lt.mpr strong), succeeds_bind]
  refine next.mono fun kind after holds => succeeds_bind.mpr ?_
  exact (succeeds_spanFrom start).mpr ((succeeds_pure _).mpr ⟨_, rfl, holds _⟩)

/-- From a first operand, reading on as far as it goes comes past an expression. -/
def Reaches (f : Features) (tokens : List Token) (limit power : Nat) (start : Position) (p : Phrase)
    (more : List Sign) (first : Expr) (mid : Tape) : Prop :=
  ∃ e near, e.bare = p.expr ∧ Offers tokens more near ∧ ∀ whole after,
    Runs (fun left => (further f power start left).read (sqlLevels f limit)) e near whole after →
    Runs (fun left => (further f power start left).read (sqlLevels f limit)) first mid whole after

/-- Where an expression has been read, one need not read on. -/
theorem reaches_self (same : e.bare = p.expr) (offers : Offers tokens more s) :
    Reaches f tokens limit power start p more e s :=
  ⟨e, s, same, offers, fun _ _ runs => runs⟩

/-- An expression is read by its first operand, and by going on from there as far as it reaches. -/
def Begins (rules : LexicalRules) (f : Features) (tokens : List Token) (limit : Nat) (p : Phrase) :
    Prop :=
  ∀ ⦃power more after? s⦄ (start : Position), p.nesting ≤ limit → p.OpenFrom power →
    Follow rules f more after? → (∀ o ∈ after?, p.ClosedBefore o) →
    Offers tokens (p.signs rules ++ more) s →
    prefixed.Succeeds (sqlLevels f limit) s (Reaches f tokens limit power start p more)

/-- One level deeper, an expression that so begins is read as it was written. -/
theorem Begins.reads (begins : Begins rules f tokens limit p) (standard : rules.Standard)
    (shallow : p.nesting ≤ limit) (open' : p.OpenFrom power) (follow : Follow rules f more after?)
    (closed : ∀ o ∈ after?, p.ClosedBefore o ∧ o.leftPower < power)
    (offers : Offers tokens (p.signs rules ++ more) s) :
    (expressionBody f power).Succeeds (sqlLevels f limit) s fun e after =>
      e.bare = p.expr ∧ Offers tokens more after := by
  rw [expressionBody_eq, succeeds_bind]
  refine offers.start fun start => succeeds_bind.mpr ?_
  refine (begins start shallow open' follow (fun o behind => (closed o behind).1) offers).mono
    fun first mid ⟨e, near, same, offers, reaches⟩ => ?_
  refine succeeds_loop (sqlLevels_forward f limit) ⟨e, near, reaches e near (.stop ?_), same, offers⟩
  exact offers.stops standard follow fun o behind => (closed o behind).2

/-- An expression that is held together by no operator is its own first operand. -/
theorem ReadsBack.begins_standalone (reads : ReadsBack rules f tokens limit)
    (standard : rules.Standard) (alone : p.Standalone) (fits : p.Fits rules f) :
    Begins rules f tokens limit p := by
  intro power more after? s start shallow open' follow closed offers
  obtain ⟨-, legible, -⟩ := id fits
  obtain ⟨noParen, noDot⟩ := follow.noLonger
  refine offers.prefixed_of_leads (alone.leads legible standard more) ?_
  refine (reads.primary standard alone fits shallow noParen noDot offers).mono ?_
  exact fun e after ⟨same, offers⟩ => reaches_self same offers

/-- NOT in front of an expression that was written stands over it. -/
theorem negated_eq (same : e.bare = p.expr) : negated e = .unary .not e := by
  obtain ⟨kind, span⟩ := e
  cases kind with
  | existsQuery query negated =>
    have kind : ExprKind.existsQuery (query.mapped (fun _ => .nothing) id) negated = p.expr.kind :=
      congrArg Expr.kind same
    cases p <;> cases kind
  | _ => rfl

/-- An expression behind an operator begins with this operator. -/
theorem ReadsBack.begins_unary (reads : ReadsBack rules f tokens limit)
    {sign : UnaryOp} (fits : (Phrase.unary sign p).Fits rules f) :
    Begins rules f tokens limit (.unary sign p) := by
  intro power more after? s start shallow open' follow closed offers
  obtain ⟨binds, -, parts⟩ := fits
  rw [Phrase.nesting] at shallow
  have operand {s : Tape} (offers : Offers tokens (p.signs rules ++ more) s) :=
    reads (parts p List.mem_cons_self) shallow binds follow
      (fun o behind => (closed o behind).symm) offers
  have offers : Offers tokens (.unary rules sign :: (p.signs rules ++ more)) s := offers
  obtain ⟨t, shown, kind, -⟩ := offers.peek
  rw [prefixed, succeeds_bind, succeeds_start shown, succeeds_bind, succeeds_peek shown, kind]
  have finish {after : Tape} {kind : ExprKind} (offers : Offers tokens more after)
      (same : ∀ span, Expr.bare ⟨kind, span⟩ = (Phrase.unary sign p).expr) :
      (do return ⟨kind, ← spanFrom t.span.start⟩ : SqlRule Expr).Succeeds (sqlLevels f limit) after
        (Reaches f tokens limit power start (.unary sign p) more) :=
    succeeds_bind.mpr ((succeeds_spanFrom _).mpr ((succeeds_pure _).mpr
      (reaches_self (same _) offers)))
  have sameKind {e : Expr} (same : e.bare = p.expr) (span : Span) :
      Expr.bare ⟨.unary sign e, span⟩ = (Phrase.unary sign p).expr := by
    rw [Phrase.expr, ← same]
    rfl
  cases sign with
  | neg | bitNot =>
    refine succeeds_bind.mpr (offers.bump rfl fun _ s _ offers => succeeds_bind.mpr ?_)
    exact (operand offers).mono fun e s found => finish found.2 (sameKind found.1)
  | not =>
    have noSign : (front (.unary rules .not :: (p.signs rules ++ more))).kind.signOp? = none := by
      rcases Sign.word_kind rules .NOT with kind | kind <;>
        rw [front, Sign.unary, kind] <;> rfl
    rw [noSign]
    refine succeeds_bind.mpr (offers.eatWord ?_)
    intro s offers
    rw [if_pos rfl, succeeds_bind]
    refine (operand offers).mono fun e s found => ?_
    obtain ⟨same, offers⟩ := found
    rw [negated_eq same]
    exact finish offers (sameKind same)

/-- What stands to the left of an operator begins the whole. -/
theorem ReadsBack.begins_operates (reads : ReadsBack rules f tokens limit)
    (standard : rules.Standard) (operates : p.Operates left op) (fits : p.Fits rules f)
    (begins : Begins rules f tokens limit left) : Begins rules f tokens limit p := by
  intro power more after? s start shallow open' follow closed offers
  obtain ⟨binds, legible, -⟩ := id fits
  obtain ⟨strong, open'⟩ := operates.openFrom open'
  rw [operates.signs_eq, List.append_assoc, List.append_assoc] at offers
  have goesOn : Follow rules f (op.signs rules ++ (p.tail rules ++ more)) (some op) :=
    .goesOn (operates.legible legible)
  have closed' (o : InfixOp) (behind : o ∈ some op) : left.ClosedBefore o := by
    obtain rfl := Option.some.inj behind
    exact operates.closed binds
  refine (begins start (Nat.le_trans operates.nesting_le shallow) open' goesOn closed' offers).mono
    fun first mid ⟨e, near, same, offers, reaches⟩ => ?_
  have behind := reads.infixed standard operates fits shallow follow closed offers same
  obtain ⟨found, far, step, whole, rfl, same', offers'⟩ :
      (further f power start e).Succeeds (sqlLevels f limit) near fun found after =>
        ∃ e, found = some e ∧ e.bare = p.expr ∧ Offers tokens more after :=
    offers.goesOn standard (operates.legible legible) strong
      (behind.mono fun kind after ⟨same, offers⟩ span => ⟨same span, offers⟩)
  refine ⟨whole, far, same', offers', fun z after runs => reaches z after (.next step ?_ runs)⟩
  refine offers.lastEnd_lt offers' ?_
  have := op.signs_length_pos rules
  simp only [List.length_append]
  omega

/-- So every expression that fits is read by its first operand, and by going on from there. -/
theorem ReadsBack.begins (reads : ReadsBack rules f tokens limit) (standard : rules.Standard)
    (fits : p.Fits rules f) : Begins rules f tokens limit p := by
  induction fits with
  | @intro p binds legible parts ih =>
    have fits : p.Fits rules f := .intro binds legible parts
    rcases p.standalone_or with alone | ⟨sign, operand, rfl⟩ | ⟨left, op, operates⟩
    · exact reads.begins_standalone standard alone fits
    · exact reads.begins_unary fits
    · exact reads.begins_operates standard operates fits (ih left operates.mem_parts)

/-- Below every limit, expressions are read as they were written. -/
theorem readsBack (standard : rules.Standard) (limit : Nat) : ReadsBack rules f tokens limit := by
  induction limit with
  | zero =>
    intro p power more after? s fits shallow
    cases shallow
  | succ limit ih =>
    intro p power more after? s fits shallow open' follow closed offers
    exact succeeds_call ((ih.begins standard fits).reads standard (Nat.le_of_lt_succ shallow) open'
      follow closed offers)

end

end SqlTree
