import SqlTree.Proofs.Writing.Forms

namespace SqlTree

open Rule SqlRule

section

variable {rules : LexicalRules} {f : Features} {tokens : List Token} {limit : Nat} {k : Keyword}
  {signs more : List Sign} {s : Tape} {l : Label} {p : Phrase} {levels : List (TapeLevel Symbol)}
  {post : Expr → Tape → Prop}

/-- Where a sign leads, no operator stands in front. -/
theorem Offers.prefixed_of_leads (offers : Offers tokens signs s) (leads : (front signs).Leads)
    (next : primary.Succeeds levels s post) : prefixed.Succeeds levels s post := by
  obtain ⟨t, shown, kind, -⟩ := offers.peek
  rw [prefixed, succeeds_bind, succeeds_start shown, succeeds_bind, succeeds_peek shown, kind,
    leads.noSign]
  exact succeeds_bind.mpr (offers.eatKeywordNot (leads.opens.words _ List.mem_cons_self) next)

/-- A sign that is an expression by itself is read as one. -/
theorem Offers.single {sign : Sign} {kind : ExprKind} (offers : Offers tokens (sign :: more) s)
    (plain : sign.number = none) (start : Position)
    (next : ∀ span after, Offers tokens more after → post ⟨kind, span⟩ after) :
    (SqlRule.single start kind).Succeeds levels s post := by
  rw [SqlRule.single, succeeds_bind]
  refine offers.bump plain fun _ s _ offers => succeeds_bind.mpr ?_
  exact (succeeds_spanFrom start).mpr ((succeeds_pure _).mpr (next _ s offers))

/-- Where a name or a word stands, what words begin is read. -/
theorem Offers.primaryWord (offers : Offers tokens signs s)
    (word : (∃ n, (front signs).kind = .identifier n) ∨ ∃ k, (front signs).kind = .keyword k)
    (next : ∀ start, (wordExpression start).Succeeds levels s post) :
    primary.Succeeds levels s post := by
  obtain ⟨t, shown, kind, -⟩ := offers.peek
  rw [primary, succeeds_bind, succeeds_start shown, succeeds_bind, succeeds_peek shown, kind]
  rcases word with ⟨n, word⟩ | ⟨k, word⟩ <;> rw [word] <;> exact next _

theorem Offers.primaryOfWord (offers : Offers tokens (.word rules k :: more) s)
    (next : ∀ start, (wordExpression start).Succeeds levels s post) :
    primary.Succeeds levels s post :=
  offers.primaryWord ((Sign.word_kind rules k).imp (fun kind => ⟨_, kind⟩) fun kind => ⟨_, kind⟩) next

/-- Where none of their words stands, no form is read. -/
theorem Offers.noForm {rest forCase forCast forExists : SqlRule Expr}
    (offers : Offers tokens signs s)
    (other : ∀ k ∈ [Keyword.CASE, .CAST, .EXISTS], (front signs).spells k = false)
    (next : rest.Succeeds levels s post) :
    (do
      if ← Rule.checkKeyword .CASE then forCase
      else if ← Rule.checkKeyword .CAST then forCast
      else if ← Rule.checkKeyword .EXISTS then forExists
      else rest).Succeeds levels s post := by
  rw [succeeds_bind]
  refine offers.checkKeyword ?_
  rw [other _ (by decide), if_neg Bool.false_ne_true, succeeds_bind]
  refine offers.checkKeyword ?_
  rw [other _ (by decide), if_neg Bool.false_ne_true, succeeds_bind]
  refine offers.checkKeyword ?_
  rw [other _ (by decide), if_neg Bool.false_ne_true]
  exact next

theorem Offers.noLiteralWord (offers : Offers tokens signs s)
    (other : ∀ k ∈ [Keyword.NULL, .TRUE, .FALSE], (front signs).spells k = false)
    {post : Option Literal → Tape → Prop} (next : post none s) :
    literalWord?.Succeeds levels s post := by
  rw [literalWord?, succeeds_bind]
  refine offers.eatKeywordNot (other _ (by decide)) (succeeds_bind.mpr ?_)
  refine offers.eatKeywordNot (other _ (by decide)) (succeeds_bind.mpr ?_)
  exact offers.eatKeywordNot (other _ (by decide)) ((succeeds_pure _).mpr next)

/-- The literals that are words. -/
def literalWords : List (Keyword × Literal) :=
  [(.NULL, .null), (.TRUE, .boolean true), (.FALSE, .boolean false)]

/-- A literal that is a word is read as it was written. -/
theorem Offers.literalWord {value : Literal} (known : (k, value) ∈ literalWords)
    (offers : Offers tokens (.word rules k :: more) s) {post : Option Literal → Tape → Prop}
    (next : ∀ after, Offers tokens more after → post (some value) after) :
    literalWord?.Succeeds levels s post := by
  have other {j : Keyword} (differ : k ≠ j) : (front (.word rules k :: more)).spells j = false :=
    Sign.word_spells_ne rules differ
  rw [literalWord?, succeeds_bind]
  simp only [literalWords, List.mem_cons, Prod.mk.injEq, List.not_mem_nil, or_false] at known
  rcases known with ⟨rfl, rfl⟩ | ⟨rfl, rfl⟩ | ⟨rfl, rfl⟩
  · exact offers.eatWord fun s offers => (succeeds_pure _).mpr (next s offers)
  · refine offers.eatKeywordNot (other (by decide)) (succeeds_bind.mpr ?_)
    exact offers.eatWord fun s offers => (succeeds_pure _).mpr (next s offers)
  · refine offers.eatKeywordNot (other (by decide)) (succeeds_bind.mpr ?_)
    refine offers.eatKeywordNot (other (by decide)) (succeeds_bind.mpr ?_)
    exact offers.eatWord fun s offers => (succeeds_pure _).mpr (next s offers)

theorem Offers.wordLiteral {value : Literal} (known : (k, value) ∈ literalWords)
    (offers : Offers tokens (.word rules k :: more) s)
    (next : ∀ span after, Offers tokens more after → post ⟨.literal value, span⟩ after) :
    primary.Succeeds levels s post := by
  have noForm : ∀ w ∈ literalWords, w.1 ∉ [Keyword.CASE, .CAST, .EXISTS] := by decide
  refine offers.primaryOfWord fun start => ?_
  obtain ⟨t, shown, -⟩ := offers.peek
  rw [wordExpression, succeeds_bind, succeeds_peek shown]
  refine offers.noForm (fun j mem => ?_) (succeeds_bind.mpr ?_)
  · refine Sign.word_spells_ne rules ?_
    rintro rfl
    exact noForm _ known mem
  · refine offers.literalWord known fun s offers => succeeds_bind.mpr ?_
    exact (succeeds_spanFrom start).mpr ((succeeds_pure _).mpr (next _ s offers))

/-- What begins with a name is a column or a call. -/
theorem Offers.wordName (leads : l.Leads rules) (standard : rules.Standard)
    (offers : Offers tokens (.name rules l :: more) s) (next : nameExpression.Succeeds levels s post) :
    primary.Succeeds levels s post := by
  have kind := leads.1.kind
  have other (k : Keyword) (form : k ∈ formWords) : (Sign.name rules l).spells k = false :=
    leads.not_spells standard (.inl form)
  refine offers.primaryWord (.inl ⟨_, kind⟩) fun start => ?_
  obtain ⟨t, shown, same, -⟩ := offers.peek
  have named : t.keyword? = none := by
    rw [Token.keyword?, same, front, kind]
  rw [wordExpression, succeeds_bind, succeeds_peek shown]
  refine offers.noForm (fun k mem => other k ?_) (succeeds_bind.mpr ?_)
  · revert k
    decide
  · refine offers.noLiteralWord (fun k mem => other k ?_) ?_
    · revert k
      decide
    · rw [succeeds_bind, succeeds_peek shown, named]
      exact next

/-- What begins with a word that is reserved for a function is a call. -/
theorem Offers.wordFunction (bare : l.quoted = false) (function : k ∈ functionKeywords)
    (known : rules.keywords.classify? l.value = some k)
    (offers : Offers tokens (.name rules l :: more) s)
    (next : ∀ name start after, name.mapped (fun _ => .nothing) = l.ident →
      Offers tokens more after → (functionCall name start).Succeeds levels after post) :
    primary.Succeeds levels s post := by
  have same := Sign.name_kind_of_reserved bare known
  have differ : ∀ k ∈ functionKeywords, ∀ j ∈ formWords, (k == j) = false := by decide
  have other (j : Keyword) (form : j ∈ formWords) : (Sign.name rules l).spells j = false := by
    rw [same]
    exact differ k function j form
  have kind : (Sign.name rules l).kind = .keyword k := by rw [same]
  refine offers.primaryWord (.inr ⟨k, kind⟩) fun start => ?_
  obtain ⟨t, shown, -⟩ := offers.peek
  rw [wordExpression, succeeds_bind, succeeds_peek shown]
  refine offers.noForm (fun k mem => other k ?_) (succeeds_bind.mpr ?_)
  · revert k
    decide
  · refine offers.noLiteralWord (fun k mem => other k ?_) (succeeds_bind.mpr ?_)
    · revert k
      decide
    · refine offers.peekNext fun t fits => ?_
      have named : t.keyword? = some k := by rw [Token.keyword?, fits.kind, kind]
      have text : t.text = l.value := by rw [fits.text, same]
      rw [named]
      simp only [List.contains_iff_mem, function, if_true, succeeds_bind]
      refine offers.bump (Sign.name_number rules l) fun _ s _ offers => next _ start s ?_ offers
      rw [Label.ident, text, bare]
      rfl

/-- Calls are read as they were written. -/
theorem ReadsBack.call (reads : ReadsBack rules f tokens limit) (standard : rules.Standard)
    (calls : l.Calls rules) {distinct : Bool} {arguments : List Phrase}
    (fits : ∀ q ∈ arguments, q.Fits rules f) (shallow : ∀ q ∈ arguments, q.nesting < limit)
    (offers : Offers tokens ((Phrase.call l distinct arguments).signs rules ++ more) s) :
    SqlRule.primary.Succeeds (sqlLevels f limit) s fun e after =>
      e.bare = (Phrase.call l distinct arguments).expr ∧ Offers tokens more after := by
  have offers : Offers tokens (.name rules l :: .leftParen ::
      ((if distinct then [.word rules .DISTINCT] else []) ++
        (Phrase.row rules arguments ++ .rightParen :: more))) s := by
    simpa [Phrase.signs] using offers
  rcases calls with leads | ⟨bare, -, k, function, known⟩
  · refine offers.wordName leads standard ?_
    rw [nameExpression, succeeds_bind]
    refine offers.start fun start => succeeds_bind.mpr ?_
    refine offers.identifier leads.1 fun name s named offers => succeeds_bind.mpr ?_
    refine offers.check ?_
    rw [front, if_pos (by rfl)]
    exact reads.functionCall standard named start fits shallow offers
  · exact offers.wordFunction bare function known fun name start s named offers =>
      reads.functionCall standard named start fits shallow offers

theorem ReadsBack.paren (reads : ReadsBack rules f tokens limit) (standard : rules.Standard)
    (fits : p.Fits rules f) (shallow : p.nesting < limit)
    (offers : Offers tokens ((Phrase.paren p).signs rules ++ more) s) :
    SqlRule.primary.Succeeds (sqlLevels f limit) s fun e after =>
      e.bare = (Phrase.paren p).expr ∧ Offers tokens more after := by
  have offers : Offers tokens (.leftParen :: (p.signs rules ++ .rightParen :: more)) s := by
    simpa [Phrase.signs] using offers
  have opens := (fits.opens standard (.rightParen :: more)).words .SELECT (by decide)
  obtain ⟨t, shown, kind, -⟩ := offers.peek
  rw [SqlRule.primary, succeeds_bind, succeeds_start shown, succeeds_bind, succeeds_peek shown, kind]
  refine succeeds_bind.mpr (offers.bump rfl fun _ s _ offers => ?_)
  rw [succeeds_bind, succeeds_bind]
  refine offers.checkKeyword ?_
  rw [opens, if_neg Bool.false_ne_true, succeeds_bind]
  refine reads.whole fits shallow offers closes_rightParen fun e s same offers => ?_
  refine (succeeds_pure _).mpr (succeeds_bind.mpr (offers.expect rfl rfl fun _ s offers => ?_))
  refine succeeds_bind.mpr ((succeeds_spanFrom _).mpr ((succeeds_pure _).mpr ⟨?_, offers⟩))
  rw [Phrase.expr, ← same]
  rfl

/-- A form that begins with its keyword is taken for what it is. -/
theorem Offers.keywordForm {form : SqlRule Expr} (offers : Offers tokens signs s) (reserved : Bool)
    (succeeds : form.Succeeds levels s post) :
    (SqlRule.keywordForm reserved form).Succeeds levels s post := by
  rw [SqlRule.keywordForm, succeeds_ite]
  split
  · exact succeeds
  · exact succeeds.orElse offers.calm _

theorem Offers.caseForm {tail : List Sign} (offers : Offers tokens (.word rules .CASE :: tail) s)
    (reads : caseExpression.Succeeds levels s post) : SqlRule.primary.Succeeds levels s post := by
  refine offers.primaryOfWord fun start => ?_
  obtain ⟨t, shown, -⟩ := offers.peek
  rw [wordExpression, succeeds_bind, succeeds_peek shown, succeeds_bind]
  refine offers.checkKeyword ?_
  rw [front, Sign.word_spells_self, if_pos rfl]
  exact offers.keywordForm _ reads

theorem Offers.castForm {tail : List Sign} (offers : Offers tokens (.word rules .CAST :: tail) s)
    (reads : castExpression.Succeeds levels s post) : SqlRule.primary.Succeeds levels s post := by
  refine offers.primaryOfWord fun start => ?_
  obtain ⟨t, shown, -⟩ := offers.peek
  rw [wordExpression, succeeds_bind, succeeds_peek shown, succeeds_bind]
  refine offers.checkKeyword ?_
  rw [front, Sign.word_spells, if_neg (by decide), succeeds_bind]
  refine offers.checkKeyword ?_
  rw [front, Sign.word_spells_self, if_pos rfl]
  exact offers.keywordForm _ reads

theorem Offers.placeholder {number : Nat} (offers : Offers tokens (.hole number :: more) s) :
    SqlRule.primary.Succeeds levels s fun e after =>
      e.bare = (Phrase.hole number).expr ∧ Offers tokens more after := by
  obtain ⟨t, shown, kind, -⟩ := offers.peek
  rw [SqlRule.primary, succeeds_bind, succeeds_start shown, succeeds_bind, succeeds_peek shown, kind]
  refine offers.hole fun s offers => succeeds_bind.mpr ?_
  exact (succeeds_spanFrom _).mpr ((succeeds_pure _).mpr ⟨rfl, offers⟩)

theorem Offers.parameter (legible : l.Legible rules)
    (offers : Offers tokens (.colon :: .name rules l :: more) s) :
    SqlRule.primary.Succeeds levels s fun e after =>
      e.bare = (Phrase.parameter l).expr ∧ Offers tokens more after := by
  obtain ⟨t, shown, kind, -⟩ := offers.peek
  rw [SqlRule.primary, succeeds_bind, succeeds_start shown, succeeds_bind, succeeds_peek shown, kind]
  refine succeeds_bind.mpr (offers.bump rfl fun _ s _ offers => succeeds_bind.mpr ?_)
  refine offers.identifier legible fun i s named offers => succeeds_bind.mpr ?_
  refine (succeeds_spanFrom _).mpr ((succeeds_pure _).mpr ⟨?_, offers⟩)
  have value : i.value = l.value := congrArg Ident.value named
  rw [value]
  rfl

/-- An expression without operators is read as it was written if the expressions in it are. -/
theorem ReadsBack.primary (reads : ReadsBack rules f tokens limit) (standard : rules.Standard)
    (alone : p.Standalone) (fits : p.Fits rules f) (shallow : p.nesting ≤ limit)
    (noParen : (front more).kind.sameKind .leftParen = false)
    (noDot : (front more).kind.sameKind .dot = false)
    (offers : Offers tokens (p.signs rules ++ more) s) :
    SqlRule.primary.Succeeds (sqlLevels f limit) s fun e after =>
      e.bare = p.expr ∧ Offers tokens more after := by
  obtain ⟨-, legible, parts⟩ := fits
  have below (q : Phrase) (mem : q ∈ p.parts) : q.nesting < limit :=
    Nat.lt_of_lt_of_le (alone.nesting_lt mem) shallow
  cases p with
  | unary | binary | isNull | inList | between | like => exact alone.elim
  | integer value | string value | blob bytes =>
    obtain ⟨t, shown, kind, -⟩ := offers.peek
    rw [SqlRule.primary, succeeds_bind, succeeds_start shown, succeeds_bind, succeeds_peek shown,
      kind]
    exact offers.single rfl _ fun span s offers => ⟨rfl, offers⟩
  | boolean value =>
    cases value with
    | false =>
      have offers : Offers tokens (.word rules .FALSE :: more) s := offers
      exact offers.wordLiteral (by decide) fun span s offers => ⟨rfl, offers⟩
    | true =>
      have offers : Offers tokens (.word rules .TRUE :: more) s := offers
      exact offers.wordLiteral (by decide) fun span s offers => ⟨rfl, offers⟩
  | null =>
    have offers : Offers tokens (.word rules .NULL :: more) s := offers
    exact offers.wordLiteral (by decide) fun span s offers => ⟨rfl, offers⟩
  | hole number => exact Offers.placeholder offers
  | parameter name => exact Offers.parameter legible offers
  | column table name =>
    have read : nameExpression.Succeeds (sqlLevels f limit) s fun e after =>
        e.bare = (Phrase.column table name).expr ∧ Offers tokens more after :=
      offers.column legible noParen noDot
    cases table with
    | none =>
      have offers : Offers tokens (.name rules name :: more) s := offers
      exact offers.wordName legible standard read
    | some table =>
      have offers : Offers tokens (.name rules table :: .dot :: .name rules name :: more) s := offers
      exact offers.wordName legible.1 standard read
  | call name distinct arguments => exact reads.call standard legible parts below offers
  | paren inner =>
    exact reads.paren standard (parts inner List.mem_cons_self) (below inner List.mem_cons_self) offers
  | caseWhen operand first rest otherwise =>
    have read := reads.caseExpression standard parts below offers
    obtain ⟨tail, written⟩ : ∃ tail, (Phrase.caseWhen operand first rest otherwise).signs rules ++
        more = .word rules .CASE :: tail := ⟨_, rfl⟩
    rw [written] at offers
    exact offers.caseForm read
  | cast operand type =>
    have read := reads.castExpression (parts operand List.mem_cons_self)
      (below operand List.mem_cons_self) legible offers
    obtain ⟨tail, written⟩ : ∃ tail, (Phrase.cast operand type).signs rules ++ more =
        .word rules .CAST :: tail := ⟨_, rfl⟩
    rw [written] at offers
    exact offers.castForm read

end

end SqlTree
