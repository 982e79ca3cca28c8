import SqlTree.Proofs.Writing.Primaries

namespace SqlTree

open Rule SqlRule

theorem InfixOp.signs_length_pos (op : InfixOp) (rules : LexicalRules) :
    0 < (op.signs rules).length := by
  cases op <;> simp only [signs, List.length_append, List.length_cons] <;> omega

namespace Phrase

/-- A phrase that an operator behind its left operand holds together. -/
inductive Operates : Phrase → Phrase → InfixOp → Prop
  | binary {left op right} : Operates (.binary left op right) left (.binary op)
  | isNull {left negated} : Operates (.isNull left negated) left .isNull
  | inList {left first rest negated} :
    Operates (.inList left first rest negated) left (.inList negated)
  | between {left low high negated} :
    Operates (.between left low high negated) left (.between negated)
  | like {left pattern caseInsensitive negated} :
    Operates (.like left pattern caseInsensitive negated) left (.like caseInsensitive negated)

/-- The signs behind the operator that holds a phrase together. -/
def tail (rules : LexicalRules) : Phrase → List Sign
  | binary _ _ right => right.signs rules
  | isNull _ negated => (if negated then [.word rules .NOT] else []) ++ [.word rules .NULL]
  | inList _ first rest _ =>
    .leftParen :: (first.signs rules ++ (behindCommas rules rest ++ [.rightParen]))
  | between _ low high _ => low.signs rules ++ .word rules .AND :: high.signs rules
  | like _ pattern _ _ => pattern.signs rules
  | _ => []

section

variable {rules : LexicalRules} {f : Features} {left p : Phrase} {op : InfixOp} {power : Nat}

/-- The signs of such a phrase are those of the left operand, of the operator, and of its tail. -/
theorem Operates.signs_eq (operates : p.Operates left op) :
    p.signs rules = left.signs rules ++ (op.signs rules ++ p.tail rules) := by
  cases operates <;> simp [signs, tail, InfixOp.signs]

theorem Operates.mem_parts (operates : p.Operates left op) : left ∈ p.parts := by
  cases operates <;> simp [parts]

/-- If the operands bind as they should, the left one is closed before the operator. -/
theorem Operates.closed (operates : p.Operates left op) (binds : p.Binds) :
    left.ClosedBefore op := by
  cases operates with
  | isNull | inList => exact binds
  | binary | between | like => exact binds.1

theorem Operates.legible (operates : p.Operates left op) (legible : p.Legible rules f) :
    op.Legible f := by
  cases operates with
  | like => exact legible
  | binary | isNull | inList | between => trivial

/-- If the phrase is open from some power, the operator has that power and the left operand is open from it.
-/
theorem Operates.openFrom (operates : p.Operates left op) (open' : p.OpenFrom power) :
    power ≤ op.leftPower ∧ left.OpenFrom power := by
  cases operates <;> exact open'

theorem Operates.nesting_le (operates : p.Operates left op) : left.nesting ≤ p.nesting := by
  cases operates <;> simp only [nesting] <;> omega

/-- What is no operand of a sign and is held together by no operator stands alone. -/
theorem standalone_or (p : Phrase) : p.Standalone ∨ (∃ op operand, p = unary op operand) ∨
    ∃ left op, p.Operates left op := by
  cases p with
  | unary op operand => exact .inr (.inl ⟨op, operand, rfl⟩)
  | binary => exact .inr (.inr ⟨_, _, .binary⟩)
  | isNull => exact .inr (.inr ⟨_, _, .isNull⟩)
  | inList => exact .inr (.inr ⟨_, _, .inList⟩)
  | between => exact .inr (.inr ⟨_, _, .between⟩)
  | like => exact .inr (.inr ⟨_, _, .like⟩)
  | _ => exact .inl trivial

/-- A phrase that is open from some power is closed before weaker operators, if these are weaker
than NOT. -/
theorem Fits.closedBefore (fits : p.Fits rules f) (open' : p.OpenFrom power)
    (weaker : op.leftPower < power) (weak : op.leftPower < notPower) : p.ClosedBefore op := by
  induction fits generalizing power with
  | @intro p binds legible parts ih =>
    cases p with
    | unary sign operand =>
      have lt : op.leftPower < sign.power := by
        cases sign with
        | not => exact weak
        | neg | bitNot => exact Nat.lt_trans weak (by decide)
      exact ⟨lt, ih operand (by simp [Phrase.parts]) binds lt⟩
    | binary left inner right =>
      have lt : op.leftPower < (InfixOp.binary inner).rightPower :=
        Nat.lt_trans weaker (Nat.lt_succ_of_le open'.1)
      exact ⟨lt, ih right (by simp [Phrase.parts]) binds.2 lt⟩
    | between operand low high negated =>
      have lt : op.leftPower < (InfixOp.between negated).rightPower :=
        Nat.lt_trans weaker (Nat.lt_succ_of_le open'.1)
      exact ⟨lt, ih high (by simp [Phrase.parts]) binds.2.2 lt⟩
    | like operand pattern caseInsensitive negated =>
      have lt : op.leftPower < (InfixOp.like caseInsensitive negated).rightPower :=
        Nat.lt_trans weaker (Nat.lt_succ_of_le open'.1)
      exact ⟨lt, ih pattern (by simp [Phrase.parts]) binds.2 lt⟩
    | _ => trivial

end

end Phrase

section

variable {rules : LexicalRules} {f : Features} {tokens : List Token} {limit : Nat}
  {signs more : List Sign} {s : Tape} {p left : Phrase} {op : InfixOp} {after? : Option InfixOp}
  {levels : List (TapeLevel Symbol)}

/-- NOT in front of the word of an operator is read or not. -/
theorem Offers.negation (negated : Bool)
    (offers : Offers tokens ((if negated then [.word rules .NOT] else []) ++ signs) s)
    {post : Unit → Tape → Prop} (next : ∀ after, Offers tokens signs after → post () after) :
    (SqlRule.negation negated).Succeeds levels s post := by
  rw [SqlRule.negation, succeeds_ite]
  cases negated with
  | true =>
    have offers : Offers tokens (.word rules .NOT :: signs) s := offers
    rw [if_pos rfl, succeeds_bind]
    refine offers.expectWord fun _ s offers => ?_
    exact (succeeds_pure _).mpr (next s offers)
  | false =>
    have offers : Offers tokens signs s := offers
    rw [if_neg Bool.false_ne_true]
    exact (succeeds_pure _).mpr (next s offers)

/-- The list behind IN is read. -/
theorem ReadsBack.inList (reads : ReadsBack rules f tokens limit) (standard : rules.Standard)
    {first : Phrase} {rest : List Phrase} {negated : Bool}
    (fits : ∀ q ∈ first :: rest, q.Fits rules f) (shallow : ∀ q ∈ first :: rest, q.nesting < limit)
    (offers : Offers tokens ((InfixOp.inList negated).signs rules ++
      (Phrase.tail rules (.inList left first rest negated) ++ more)) s) {e : Expr}
    (same : e.bare = left.expr) :
    (SqlRule.infixed (.inList negated) e).Succeeds (sqlLevels f limit) s fun kind after =>
      (∀ span, Expr.bare ⟨kind, span⟩ = (Phrase.inList left first rest negated).expr) ∧
        Offers tokens more after := by
  have offers : Offers tokens ((if negated then [.word rules .NOT] else []) ++ .word rules .IN ::
      .leftParen :: (first.signs rules ++ (Phrase.behindCommas rules rest ++
        .rightParen :: more))) s := by
    simpa [InfixOp.signs, Phrase.tail] using offers
  have opens := ((fits first List.mem_cons_self).opens standard
    (Phrase.behindCommas rules rest ++ .rightParen :: more)).words .SELECT (by decide)
  rw [SqlRule.infixed, succeeds_bind]
  refine offers.negation negated fun s offers => succeeds_bind.mpr ?_
  refine offers.expectWord fun _ s offers => ?_
  refine succeeds_bind.mpr (offers.expect rfl rfl fun _ s offers => ?_)
  rw [succeeds_bind, succeeds_bind]
  refine offers.checkKeyword ?_
  rw [opens, if_neg Bool.false_ne_true, succeeds_bind]
  refine reads.row fits shallow offers fun es s sameRow offers => (succeeds_pure _).mpr ?_
  refine succeeds_bind.mpr (offers.expect rfl rfl fun _ s offers => (succeeds_pure _).mpr ?_)
  refine ⟨fun span => ?_, offers⟩
  rw [Phrase.exprs] at sameRow
  rw [Phrase.expr, ← sameRow, ← same]
  rfl

/-- Both bounds behind BETWEEN are read: the AND between them is not taken for an operator. -/
theorem ReadsBack.between (reads : ReadsBack rules f tokens limit) {low high : Phrase}
    {negated : Bool} (fits : low.Fits rules f) (fits' : high.Fits rules f)
    (shallow : low.nesting < limit) (shallow' : high.nesting < limit)
    (open' : low.OpenFrom (InfixOp.between negated).rightPower)
    (open'' : high.OpenFrom (InfixOp.between negated).rightPower)
    (follow : Follow rules f more after?)
    (closed : ∀ o ∈ after?, high.ClosedBefore o ∧ o.leftPower < (InfixOp.between negated).rightPower)
    (offers : Offers tokens ((InfixOp.between negated).signs rules ++
      (Phrase.tail rules (.between left low high negated) ++ more)) s) {e : Expr}
    (same : e.bare = left.expr) :
    (SqlRule.infixed (.between negated) e).Succeeds (sqlLevels f limit) s fun kind after =>
      (∀ span, Expr.bare ⟨kind, span⟩ = (Phrase.between left low high negated).expr) ∧
        Offers tokens more after := by
  have offers : Offers tokens ((if negated then [.word rules .NOT] else []) ++ .word rules .BETWEEN ::
      (low.signs rules ++ ((InfixOp.binary .and).signs rules ++ (high.signs rules ++ more)))) s := by
    simpa [InfixOp.signs, Phrase.tail, Sign.binary] using offers
  have weaker : (InfixOp.binary .and).leftPower < (InfixOp.between negated).rightPower := by
    cases negated <;> decide
  rw [SqlRule.infixed, succeeds_bind]
  refine offers.negation negated fun s offers => succeeds_bind.mpr ?_
  refine offers.expectWord fun _ s offers => ?_
  rw [succeeds_bind]
  have asAnd : Follow rules f ((InfixOp.binary .and).signs rules ++ (high.signs rules ++ more))
      (some (.binary .and)) := .goesOn trivial
  refine (reads fits shallow open' asAnd ?_ offers).mono fun l s found => ?_
  · intro o behind
    obtain rfl := Option.some.inj behind
    exact ⟨fits.closedBefore open' weaker (by decide), weaker⟩
  · obtain ⟨sameLow, offers⟩ := found
    have offers : Offers tokens (.word rules .AND :: (high.signs rules ++ more)) s := offers
    rw [succeeds_bind]
    refine offers.expectWord fun _ s offers => ?_
    rw [succeeds_bind]
    refine (reads fits' shallow' open'' follow closed offers).mono fun h s found => ?_
    obtain ⟨sameHigh, offers⟩ := found
    refine (succeeds_pure _).mpr ⟨fun span => ?_, offers⟩
    rw [Phrase.expr, ← same, ← sameLow, ← sameHigh]
    rfl

/-- The pattern behind LIKE is read. -/
theorem ReadsBack.like (reads : ReadsBack rules f tokens limit) {pattern : Phrase}
    {caseInsensitive negated : Bool} (fits : pattern.Fits rules f) (shallow : pattern.nesting < limit)
    (open' : pattern.OpenFrom (InfixOp.like caseInsensitive negated).rightPower)
    (follow : Follow rules f more after?) (closed : ∀ o ∈ after?, pattern.ClosedBefore o ∧
      o.leftPower < (InfixOp.like caseInsensitive negated).rightPower)
    (offers : Offers tokens ((InfixOp.like caseInsensitive negated).signs rules ++
      (pattern.signs rules ++ more)) s) {e : Expr} (same : e.bare = left.expr) :
    (SqlRule.infixed (.like caseInsensitive negated) e).Succeeds (sqlLevels f limit) s
      fun kind after => (∀ span, Expr.bare ⟨kind, span⟩ =
        (Phrase.like left pattern caseInsensitive negated).expr) ∧ Offers tokens more after := by
  have offers : Offers tokens ((if negated then [.word rules .NOT] else []) ++
      .word rules (if caseInsensitive then .ILIKE else .LIKE) :: (pattern.signs rules ++ more)) s := by
    simpa [InfixOp.signs] using offers
  rw [SqlRule.infixed, succeeds_bind]
  refine offers.negation negated fun s offers => succeeds_bind.mpr ?_
  refine offers.expectWord fun _ s offers => ?_
  rw [succeeds_bind]
  refine (reads fits shallow open' follow closed offers).mono fun p s found => ?_
  obtain ⟨samePattern, offers⟩ := found
  refine (succeeds_pure _).mpr ⟨fun span => ?_, offers⟩
  rw [Phrase.expr, ← same, ← samePattern]
  rfl

/-- NULL behind IS is read, perhaps with NOT in front of it. -/
theorem Offers.isNull {negated : Bool} (offers : Offers tokens
      (InfixOp.isNull.signs rules ++ (Phrase.tail rules (.isNull left negated) ++ more)) s) {e : Expr}
    (same : e.bare = left.expr) :
    (SqlRule.infixed .isNull e).Succeeds levels s fun kind after =>
      (∀ span, Expr.bare ⟨kind, span⟩ = (Phrase.isNull left negated).expr) ∧
        Offers tokens more after := by
  have offers : Offers tokens (.word rules .IS :: ((if negated then [.word rules .NOT] else []) ++
      .word rules .NULL :: more)) s := by
    simpa [InfixOp.signs, Phrase.tail] using offers
  have other : (Sign.word rules .NULL).spells .NOT = false := Sign.word_spells_ne rules (by decide)
  rw [SqlRule.infixed, succeeds_bind]
  refine offers.expectWord fun _ s offers => ?_
  rw [succeeds_bind]
  refine offers.optionalWord (fun _ => other) fun s offers => succeeds_bind.mpr ?_
  refine offers.expectWord fun _ s offers => ?_
  refine (succeeds_pure _).mpr ⟨fun span => ?_, offers⟩
  rw [Phrase.expr, ← same]
  rfl

/-- An operator and its other operands are read behind its left operand. -/
theorem ReadsBack.infixed (reads : ReadsBack rules f tokens limit) (standard : rules.Standard)
    (operates : p.Operates left op) (fits : p.Fits rules f) (shallow : p.nesting ≤ limit)
    (follow : Follow rules f more after?) (closed : ∀ o ∈ after?, p.ClosedBefore o)
    (offers : Offers tokens (op.signs rules ++ (p.tail rules ++ more)) s) {e : Expr}
    (same : e.bare = left.expr) :
    (SqlRule.infixed op e).Succeeds (sqlLevels f limit) s fun kind after =>
      (∀ span, Expr.bare ⟨kind, span⟩ = p.expr) ∧ Offers tokens more after := by
  obtain ⟨binds, -, parts⟩ := fits
  cases operates with
  | @binary _ op right =>
    have offers : Offers tokens (.binary rules op :: (right.signs rules ++ more)) s := offers
    have plain : (Sign.binary rules op).number = none := by cases op <;> rfl
    rw [Phrase.nesting] at shallow
    rw [SqlRule.infixed, succeeds_bind]
    refine offers.bump plain fun _ s _ offers => succeeds_bind.mpr ?_
    refine (reads (parts right (by simp [Phrase.parts])) (by omega) binds.2 follow
      (fun o behind => (closed o behind).symm) offers).mono fun r s found => ?_
    obtain ⟨sameRight, offers⟩ := found
    refine (succeeds_pure _).mpr ⟨fun span => ?_, offers⟩
    rw [Phrase.expr, ← same, ← sameRight]
    rfl
  | isNull => exact offers.isNull same
  | @inList _ first rest negated =>
    rw [Phrase.nesting] at shallow
    refine reads.inList standard (fun q mem => parts q (List.mem_cons_of_mem _ mem)) ?_ offers same
    intro q mem
    rcases List.mem_cons.mp mem with rfl | mem
    · omega
    · have := Phrase.nesting_lt_depths mem
      omega
  | @between _ low high negated =>
    rw [Phrase.nesting] at shallow
    exact reads.between (parts low (by simp [Phrase.parts])) (parts high (by simp [Phrase.parts]))
      (by omega) (by omega) binds.2.1 binds.2.2 follow (fun o behind => (closed o behind).symm) offers
      same
  | @like _ pattern caseInsensitive negated =>
    rw [Phrase.nesting] at shallow
    exact reads.like (parts pattern (by simp [Phrase.parts])) (by omega) binds.2 follow
      (fun o behind => (closed o behind).symm) offers same

end

end SqlTree
