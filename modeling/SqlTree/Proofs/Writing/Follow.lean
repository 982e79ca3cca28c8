import SqlTree.Proofs.Reading.Stays
import SqlTree.Proofs.Writing.Offers

namespace SqlTree

open Rule SqlRule

/-- A sign behind which no operand goes on: it is no operator, and makes no name a longer one. -/
structure Sign.Closes (sign : Sign) : Prop where
  binary : sign.kind.binaryOp? = none
  cast : sign.kind ≠ .doubleColon
  paren : sign.kind.sameKind .leftParen = false
  dot : sign.kind.sameKind .dot = false
  words : ∀ k ∈ [Keyword.NOT, .IS, .IN, .BETWEEN, .LIKE, .ILIKE], sign.spells k = false

/-- Whether a dialect has an operator, that of a cast by two colons apart. -/
def InfixOp.Legible (f : Features) : InfixOp → Prop
  | like caseInsensitive _ => caseInsensitive = true → f.ilike = true
  | cast => False
  | _ => True

/-- The operator that signs begin with behind an operand, or none where the operand ends. -/
inductive Follow (rules : LexicalRules) (f : Features) : List Sign → Option InfixOp → Prop
  | ends {signs} : (front signs).Closes → Follow rules f signs none
  | goesOn {op signs} : op.Legible f → Follow rules f (op.signs rules ++ signs) (some op)

theorem closes_end : (front []).Closes := ⟨rfl, by decide, rfl, rfl, by decide⟩

theorem closes_comma : Sign.comma.Closes := ⟨rfl, by decide, rfl, rfl, by decide⟩

theorem closes_rightParen : Sign.rightParen.Closes := ⟨rfl, by decide, rfl, rfl, by decide⟩

section

variable {rules : LexicalRules} {f : Features} {tokens : List Token} {signs : List Sign} {s : Tape}
  {k : Keyword} {op : Option InfixOp} {levels : List (TapeLevel Symbol)}

/-- A word is written as a name or as a keyword. -/
theorem Sign.word_kind (rules : LexicalRules) (k : Keyword) :
    (word rules k).kind = .identifier k.spelling ∨ (word rules k).kind = .keyword k := by
  refine (bare_kind rules k.spelling).imp_right ?_
  rintro ⟨j, known, kind⟩
  have same := (classify?_eq_some.mp known).1
  rw [Keyword.ofWord?_spelling] at same
  cases same
  exact kind

theorem Sign.word_binaryOp? (rules : LexicalRules) (notAnd : k ≠ .AND)
    (notOr : k ≠ .OR) : (word rules k).kind.binaryOp? = none := by
  rcases word_kind rules k with kind | kind <;> rw [kind]
  · rfl
  · unfold TokenKind.binaryOp?
    split <;> simp_all

theorem Sign.word_notCast (rules : LexicalRules) (k : Keyword) :
    (word rules k).kind ≠ .doubleColon := by
  rcases word_kind rules k with kind | kind <;> rw [kind] <;> simp

theorem Sign.word_sameKind (rules : LexicalRules) (k : Keyword) (kind : TokenKind)
    (name : (TokenKind.identifier "").sameKind kind = false)
    (keyword : (TokenKind.keyword .SELECT).sameKind kind = false) :
    (word rules k).kind.sameKind kind = false := by
  rcases word_kind rules k with same | same <;> rw [same]
  · exact name
  · exact keyword

/-- No operand goes on behind a word that is no operator. -/
theorem closes_word (other : k ∉ [Keyword.AND, .OR, .NOT, .IS, .IN, .BETWEEN, .LIKE, .ILIKE]) :
    (Sign.word rules k).Closes where
  binary := Sign.word_binaryOp? rules (by rintro rfl; simp at other)
    (by rintro rfl; simp at other)
  cast := Sign.word_notCast rules k
  paren := Sign.word_sameKind rules k _ rfl rfl
  dot := Sign.word_sameKind rules k _ rfl rfl
  words := by
    intro j mem
    refine Sign.word_spells_ne rules ?_
    rintro rfl
    exact other (List.mem_cons_of_mem _ (List.mem_cons_of_mem _ mem))

/-- The predicate that a sign behind an operand, or behind NOT there, begins. -/
def Sign.predicate? (f : Features) (negated : Bool) (sign : Sign) : Option InfixOp :=
  if !negated && sign.spells .IS then some .isNull
  else if sign.spells .IN then some (.inList negated)
  else if sign.spells .BETWEEN then some (.between negated)
  else if sign.spells .LIKE then some (.like false negated)
  else if f.ilike && sign.spells .ILIKE then some (.like true negated)
  else none

/-- The predicate that is asked for is the one that the next sign begins. -/
theorem Offers.predicate? (offers : Offers tokens signs s) (negated : Bool) :
    (SqlRule.predicate? f negated).Succeeds levels s fun found _ =>
      found = (front signs).predicate? f negated := by
  obtain ⟨t, shown, -, same⟩ := offers.peek
  simp only [SqlRule.predicate?, succeeds_bind, succeeds_ite, succeeds_checkKeyword shown,
    succeeds_pure, same, Sign.predicate?]
  grind

/-- Behind NOT the predicate counts that follows it. -/
theorem Offers.negatedPredicate? (offers : Offers tokens (.word rules .NOT :: signs) s) :
    (infixOp? f).Succeeds levels s fun found _ => found = (front signs).predicate? f true := by
  obtain ⟨t, shown, kind, same⟩ := offers.peek
  have binary : t.kind.binaryOp? = none := by
    rw [kind]
    exact Sign.word_binaryOp? rules (by decide) (by decide)
  have notCast : t.kind ≠ .doubleColon := by
    rw [kind]
    exact Sign.word_notCast rules .NOT
  have spells : t.spells .NOT = true := by
    rw [same]
    exact Sign.word_spells_self rules .NOT
  simp only [infixOp?, succeeds_bind, succeeds_peek shown, binary, notCast, if_false,
    succeeds_checkKeyword shown, spells, if_true]
  obtain ⟨found, after, read, holds⟩ : (do
      let _ ← Rule.bump
      SqlRule.predicate? f true : SqlRule (Option InfixOp)).Succeeds levels s fun found _ =>
        found = (front signs).predicate? f true :=
    succeeds_bind.mpr (offers.bump rfl fun _ _ _ offers => offers.predicate? true)
  exact ⟨found, after.backTo s, by simp only [Rule.read, read], holds⟩

/-- A sign that is no operator of two operands, no cast and not NOT begins a predicate or nothing. -/
theorem Offers.plainPredicate? (offers : Offers tokens signs s)
    (binary : (front signs).kind.binaryOp? = none) (notCast : (front signs).kind ≠ .doubleColon)
    (notNot : (front signs).spells .NOT = false) :
    (infixOp? f).Succeeds levels s fun found _ => found = (front signs).predicate? f false := by
  obtain ⟨t, shown, kind, same⟩ := offers.peek
  simp only [infixOp?, succeeds_bind, succeeds_peek shown, kind, binary, notCast, if_false,
    succeeds_checkKeyword shown, same, notNot, Bool.false_eq_true]
  exact offers.predicate? false

/-- Which predicates words begin. -/
theorem Sign.word_predicate? (rules : LexicalRules) (f : Features) (k : Keyword)
    (negated : Bool) : (word rules k).predicate? f negated =
      if !negated && decide (k = .IS) then some .isNull
      else if k = .IN then some (.inList negated)
      else if k = .BETWEEN then some (.between negated)
      else if k = .LIKE then some (.like false negated)
      else if f.ilike && decide (k = .ILIKE) then some (.like true negated)
      else none := by
  simp only [Sign.predicate?, word_spells, decide_eq_true_eq]

/-- A predicate is read off its word, or off NOT and its word. -/
theorem Offers.opening {negated : Bool} {op : InfixOp}
    (offers : Offers tokens ((if negated then [.word rules .NOT] else []) ++ .word rules k :: signs) s)
    (other : k ∉ [Keyword.AND, .OR, .NOT])
    (begins : (Sign.word rules k).predicate? f negated = some op) :
    (infixOp? f).Succeeds levels s fun found _ => found = some op := by
  rw [← begins]
  cases negated with
  | true =>
    have offers : Offers tokens (.word rules .NOT :: .word rules k :: signs) s := offers
    exact offers.negatedPredicate?
  | false =>
    have offers : Offers tokens (.word rules k :: signs) s := offers
    have ne {j : Keyword} (mem : j ∈ [Keyword.AND, .OR, .NOT]) : k ≠ j := by
      rintro rfl
      exact other mem
    refine offers.plainPredicate? (Sign.word_binaryOp? rules (ne (by decide)) (ne (by decide)))
      (Sign.word_notCast rules k) ?_
    exact Sign.word_spells_ne rules (ne (by decide))

theorem Sign.binary_binaryOp? (standard : rules.Standard) (o : BinaryOp) :
    (binary rules o).kind.binaryOp? = some o := by
  cases o with
  | and => rw [binary, word_kind_of_reserved (standard.reserved _ (by decide))]; rfl
  | or => rw [binary, word_kind_of_reserved (standard.reserved _ (by decide))]; rfl
  | _ => rfl

/-- The operator that follows in the signs is the one that is read. -/
theorem Follow.reads (follow : Follow rules f signs op) (standard : rules.Standard)
    (offers : Offers tokens signs s) : (infixOp? f).read levels s = (.ok op, s) := by
  suffices succeeds : (infixOp? f).Succeeds levels s fun found _ => found = op by
    obtain ⟨found, after, read, rfl⟩ := succeeds
    rw [read, (Tape.operator?_eq read).2]
  cases follow with
  | ends closes =>
    refine (offers.plainPredicate? closes.binary closes.cast
      (closes.words _ (by decide))).mono fun found _ same => ?_
    simp [same, Sign.predicate?, closes.words]
  | @goesOn op _ legible =>
    cases op with
    | binary o =>
      obtain ⟨t, shown, kind, -⟩ := offers.peek
      have known : t.kind.binaryOp? = some o := by
        rw [kind]
        exact Sign.binary_binaryOp? standard o
      simp only [infixOp?, succeeds_bind, succeeds_peek shown, known]
      exact (succeeds_pure _).mpr rfl
    | isNull =>
      have offers : Offers tokens ((if false then [.word rules .NOT] else []) ++ .word rules .IS :: _) s :=
        offers
      refine offers.opening (by decide) ?_
      rw [Sign.word_predicate?]
      rfl
    | inList negated | between negated =>
      simp only [InfixOp.signs, List.append_assoc] at offers
      refine offers.opening (by decide) ?_
      rw [Sign.word_predicate?]
      cases negated <;> rfl
    | like caseInsensitive negated =>
      simp only [InfixOp.signs, List.append_assoc] at offers
      cases caseInsensitive with
      | false =>
        refine offers.opening (by decide) ?_
        rw [Sign.word_predicate?]
        cases negated <;> rfl
      | true =>
        have ilike : f.ilike = true := legible rfl
        refine offers.opening (by decide) ?_
        rw [Sign.word_predicate?, ilike]
        cases negated <;> rfl
    | cast => exact legible.elim

end

end SqlTree
