import SqlTree.Proofs.Diverging.Statements

namespace SqlTree

open Rule SqlRule

/-- What ends a statement, or the parentheses around the value of a pragma. -/
def TokenKind.isClosing : TokenKind → Bool
  | .semicolon | .rightParen | .eof => true
  | _ => false

theorem TokenKind.isClosing_of_sameKind {kind other : TokenKind} (same : kind.sameKind other = true)
    (closing : other.isClosing = true) : kind.isClosing = true := by
  cases other <;> first | (cases closing; done) | (cases kind <;> first | rfl | cases same)

section

variable {t : Token} (closing : t.kind.isClosing = true)

include closing

/-- What ends a statement is no word. -/
theorem Token.not_spells_of_isClosing (k : Keyword) : t.spells k = false := by
  rcases t with ⟨kind, text, span⟩
  cases kind <;> first | rfl | cases closing

theorem TokenKind.sameKind_of_isClosing {kind : TokenKind} (other : kind.isClosing = false) :
    t.kind.sameKind kind = false := by
  rcases t with ⟨own, text, span⟩
  cases own <;> first | (cases closing; done) | (cases kind <;> first | rfl | cases other)

/-- What ends a statement is no operator. -/
theorem infixAt_of_isClosing (f : Features) (next : Token) : infixAt f t next = none := by
  have silent := Token.not_spells_of_isClosing closing
  have binary : t.kind.binaryOp? = none ∧ t.kind ≠ .doubleColon := by
    rcases t with ⟨kind, text, span⟩
    cases kind <;> first | (cases closing; done) | exact ⟨rfl, by simp⟩
  simp [infixAt, Token.predicate?, binary, silent]

end

theorem Token.isEof_of_isKeyword {t : Token} (keyword : t.isKeyword = true) : t.isEof = false := by
  rw [Token.isEof, beq_eq_false_iff_ne]
  intro isEof
  rw [Token.isKeyword, Token.keyword?, isEof] at keyword
  cases keyword

section

variable {f : Features} {limit power : Nat} {levels : List (TapeLevel Symbol)} {sheet : Sheet} {i j : Nat}
  {k : Keyword} {name : String} {e : Expr} {value : Literal}

/-- A rule that fits does not fail. -/
theorem Rule.Comes.not_misfits {α : Type} {rule : SqlRule α} {v : α} (comes : rule.Comes levels sheet i v j) :
    ¬ rule.Misfits levels sheet i := by
  rintro ⟨s, here, m, after, fails⟩
  obtain ⟨_, _, read, -⟩ := comes s here
  cases fails.symm.trans read

/-- An expression that nothing follows is its first operand. -/
theorem comes_expression (first : prefixed.Comes (sqlLevels f limit) sheet i e j)
    (isEof : sheet.closing.isEof = true) (within : j ≤ sheet.length)
    (closing : (sheet.tokenAt j).kind.isClosing = true) :
    (call (.expression power)).Comes (sqlLevels f (limit + 1)) sheet i e j := by
  have none (p : Position) : (further f power p e).Comes (sqlLevels f limit) sheet j none j := by
    refine (comes_infixOp? isEof within).bind ?_
    rw [infixAt_of_isClosing closing]
    exact comes_pure none
  have last (p : Position) : (loop (further f power p) e).Comes (sqlLevels f limit) sheet j e j := by
    intro s here
    obtain ⟨_, after, read, rfl, there, params⟩ := none p s here
    exact succeeds_loop (sqlLevels_forward f limit) ⟨e, after, .stop read, rfl, there, params⟩
  exact (comes_start.bind (first.bind (last _)) : (expressionBody f power).Comes _ _ _ _ _)

/-- An expression needs an operand. -/
theorem Rule.Stops.expression (stops : prefixed.Stops (sqlLevels f limit) sheet i) :
    (call (.expression power)).Stops (sqlLevels f (limit + 1)) sheet i :=
  (comes_start.stops (stops.bind _) : (expressionBody f power).Stops _ _ _)

/-- A reserved word that is no NOT is what a word is. -/
theorem prefixed_stops_word (kind : (sheet.tokenAt i).kind = .keyword k)
    (other : (sheet.tokenAt i).spells .NOT = false)
    (stops : ∀ p, (wordExpression p).Stops levels sheet i) : prefixed.Stops levels sheet i := by
  refine comes_start.stops (comes_peek.stops ?_)
  rw [kind]
  refine (comes_eatKeyword_not other).stops (comes_start.stops (comes_peek.stops ?_))
  rw [kind]
  exact stops _

theorem comes_prefixed_word (word : (sheet.tokenAt i).kind.isWord = true)
    (other : (sheet.tokenAt i).spells .NOT = false)
    (comes : ∀ p, p = sheet.startAt i → (wordExpression p).Comes levels sheet i e j) :
    prefixed.Comes levels sheet i e j := by
  have primary : primary.Comes levels sheet i e j := by
    refine comes_start.bind (comes_peek.bind ?_)
    cases kind : (sheet.tokenAt i).kind <;> first | exact comes _ rfl | (rw [kind] at word; cases word)
  refine comes_start.bind (comes_peek.bind ?_)
  have sign : (sheet.tokenAt i).kind.signOp? = none := by
    cases kind : (sheet.tokenAt i).kind <;> first | rfl | (rw [kind] at word; cases word)
  rw [sign]
  exact (comes_eatKeyword_not other).bind primary

/-- What ends a statement is no operand. -/
theorem prefixed_stops_of_isClosing (closing : (sheet.tokenAt i).kind.isClosing = true) :
    prefixed.Stops levels sheet i := by
  have silent := Token.not_spells_of_isClosing closing .NOT
  refine comes_start.stops (comes_peek.stops ?_)
  have sign : (sheet.tokenAt i).kind.signOp? = none := by
    cases kind : (sheet.tokenAt i).kind <;> first | rfl | (rw [kind] at closing; cases closing)
  rw [sign]
  refine (comes_eatKeyword_not silent).stops (comes_start.stops (comes_peek.stops ?_))
  cases kind : (sheet.tokenAt i).kind <;>
    first | (rw [kind] at closing; cases closing; done) | exact stops_of_refuses fun _ here => refuses_failAny here.peek _

/-- A reserved word with nothing behind it is an operand only as a literal. -/
theorem prefixed_stops_alone (lt : i < sheet.length) (kind : (sheet.tokenAt i).kind = .keyword k)
    (closing : (sheet.tokenAt (i + 1)).kind.isClosing = true)
    (none : literalOf (sheet.tokenAt i) = none) :
    prefixed.Stops (sqlLevels f (limit + 1)) sheet i := by
  have nothing {power : Nat} : (call (.expression power)).Stops (sqlLevels f (limit + 1)) sheet (i + 1) :=
    (prefixed_stops_of_isClosing closing).expression
  have noParen {α : Type} (next : Token → SqlRule α) :
      (expect .leftParen >>= next).Stops (sqlLevels f (limit + 1)) sheet (i + 1) :=
    stops_of_refuses fun _ here =>
      (expect_refuses here.peek (TokenKind.sameKind_of_isClosing closing rfl)).bind next
  have reserved : (sheet.tokenAt i).isKeyword = true := by rw [Token.isKeyword, Token.keyword?, kind]; rfl
  by_cases not : (sheet.tokenAt i).spells .NOT = true
  · refine comes_start.stops (comes_peek.stops ?_)
    rw [kind]
    exact (comes_eatKeyword lt not).stops (nothing.bind _)
  refine prefixed_stops_word kind (Bool.not_eq_true _ ▸ not) fun p => comes_peek.stops ?_
  rw [reserved]
  refine (comes_checkKeyword .CASE).stops ?_
  by_cases word : (sheet.tokenAt i).spells .CASE = true
  · rw [if_pos word]
    refine comes_start.stops ((comes_expectKeyword lt word).stops (Stops.bind ?_ _))
    refine (comes_checkKeyword .WHEN).stops ?_
    rw [Token.not_spells_of_isClosing closing]
    exact nothing.bind _
  rw [if_neg word]
  refine (comes_checkKeyword .CAST).stops ?_
  by_cases word : (sheet.tokenAt i).spells .CAST = true
  · rw [if_pos word]
    exact comes_start.stops ((comes_expectKeyword lt word).stops (noParen _))
  rw [if_neg word]
  refine (comes_checkKeyword .EXISTS).stops ?_
  by_cases word : (sheet.tokenAt i).spells .EXISTS = true
  · rw [if_pos word]
    exact comes_start.stops ((comes_expectKeyword lt word).stops (noParen _))
  rw [if_neg word]
  have literal : literalWord?.Comes (sqlLevels f (limit + 1)) sheet i Option.none i := by
    simpa [none] using comes_literalWord? lt
  refine literal.stops (comes_peek.stops ?_)
  rw [Token.keyword?, kind]
  dsimp only
  split
  · exact (comes_bump lt).stops (noParen _)
  · exact stops_of_refuses fun _ here => refuses_failAny here.peek _

/-- A literal that is a word, with nothing behind it. -/
theorem comes_literal (lt : i < sheet.length) (kind : (sheet.tokenAt i).kind = .keyword k)
    (found : literalOf (sheet.tokenAt i) = some value) :
    prefixed.Comes levels sheet i
      ⟨.literal value, sheet.startAt i, (sheet.stopAt (i + 1)).later (sheet.startAt i)⟩ (i + 1) := by
  have word : k = .NULL ∨ k = .TRUE ∨ k = .FALSE := by
    simp only [literalOf, Token.spells, kind, beq_iff_eq] at found
    grind
  have silent {j : Keyword} (other : j ≠ .NULL ∧ j ≠ .TRUE ∧ j ≠ .FALSE) : (sheet.tokenAt i).spells j = false := by
    rw [Token.spells, kind]
    exact beq_false_of_ne (by grind)
  have literal : literalWord?.Comes levels sheet i (some value) (i + 1) := by
    simpa [found] using comes_literalWord? lt
  refine comes_prefixed_word (by rw [kind]; rfl) (silent (by decide)) ?_
  rintro p rfl
  refine comes_peek.bind ((comes_checkKeyword .CASE).ite ?_)
  rw [silent (by decide)]
  refine (comes_checkKeyword .CAST).ite ?_
  rw [silent (by decide)]
  refine (comes_checkKeyword .EXISTS).ite ?_
  rw [silent (by decide)]
  exact literal.bind ((comes_spanFrom _).bind (comes_pure _))

/-- A name with nothing behind it. -/
theorem comes_nameExpression (lt : i < sheet.length) (kind : (sheet.tokenAt i).kind = .identifier name)
    (closing : (sheet.tokenAt (i + 1)).kind.isClosing = true) :
    nameExpression.Comes levels sheet i
      ⟨.column none ⟨name, (sheet.tokenAt i).isQuoted, (sheet.tokenAt i).span⟩,
        sheet.startAt i, (sheet.stopAt (i + 1)).later (sheet.startAt i)⟩ (i + 1) := by
  have other {kind : TokenKind} (mark : kind.isClosing = false) :
      (sheet.tokenAt (i + 1)).kind.sameKind kind = false := TokenKind.sameKind_of_isClosing closing mark
  refine comes_start.bind ((Diverging.comes_identifier lt kind).bind ((comes_check .leftParen).ite ?_))
  rw [other rfl]
  refine Comes.bind ((comes_eat_not (other rfl)).ite ?_) ((comes_spanFrom _).bind (comes_pure _))
  exact comes_pure _

/-- A reserved word as a value is the name of a column. -/
theorem comes_keywordValue (lt : i < sheet.length) (keyword : (sheet.tokenAt i).isKeyword = true) :
    keywordValue.Comes levels sheet i ⟨.column none ⟨(sheet.tokenAt i).text, false, (sheet.tokenAt i).span⟩,
      (sheet.tokenAt i).span⟩ (i + 1) := by
  refine comes_peek.bind ?_
  rw [if_pos keyword]
  exact (comes_bump lt).bind (comes_pure _)

end

namespace Diverging

variable {f : Features} {q : Diverging f} {limit i : Nat} {known : Prop}

/-- A statement or the value of a pragma ends, in both texts. -/
def Closed (q : Diverging f) (i : Nat) : Prop :=
  (q.left.tokenAt i).kind.isClosing = true ∧ (q.right.tokenAt i).kind.isClosing = true

/-- A rule that takes a reserved word for a name. -/
theorem keywordValue_never (name : (q.left.tokenAt i).isKeyword = false) :
    keywordValue.Never (sqlLevels f limit) q.left i := by
  refine never_of_refuses fun s here => refuses_then (Prod.ext here.peek rfl) ?_
  rw [name]
  exact refuses_failAny here.peek _

/-- A reserved word alone is not taken for an operand in the second text if it is not in the first one. -/
theorem operand_stops_alone {v : Expr} {j : Nat} (clean : q.Clean i)
    (misfits : operand.Misfits (sqlLevels f (limit + 2)) q.left i)
    (gets : keywordValue.Gets (sqlLevels f (limit + 2)) q.left i v j) (closed : q.Closed j) :
    operand.Stops (sqlLevels f (limit + 2)) q.right i := by
  obtain ⟨s, after, here, read, there⟩ := gets
  cases keyword : (q.left.tokenAt i).keyword? with
  | none =>
    exact (keywordValue_never (by rw [Token.isKeyword, keyword]; rfl) s here v after read).elim
  | some k =>
    have kind : (q.left.tokenAt i).kind = .keyword k := by
      unfold Token.keyword? at keyword
      split at keyword
      · rename_i same
        rw [same, Option.some.inj keyword]
      · cases keyword
    have lt := q.lt_of_notEof here.within (by rw [Token.isEof, kind]; rfl)
    obtain ⟨-, there', -⟩ := (comes_keywordValue lt (by rw [Token.isKeyword, keyword]; rfl) s here).yields v after read
    obtain rfl := there.same there'
    have like := q.like i clean
    cases found : literalOf (q.left.tokenAt i) with
    | some value =>
      exact absurd misfits (comes_expression (comes_literal lt kind found) q.isEof there.within closed.1).not_misfits
    | none =>
      have none : literalOf (q.right.tokenAt i) = none := by
        simpa only [literalOf, like.spells] using found
      exact (prefixed_stops_alone (clean.lt lt) (like.kind.trans kind) closed.2 none).expression

/-- Where a reserved word stands between quotes, it is a column. -/
theorem keywordValue_spot (rejoins : q.rejoins) :
    q.Follows (limit + 2) known q.spot keywordValue operand q.Inside fun _ => q.Closed := by
  cases keyword : (q.left.tokenAt q.spot).isKeyword with
  | false => exact follows_of_never (keywordValue_never keyword)
  | true =>
    have text : (q.left.tokenAt q.spot).text = q.value := by
      rcases q.named rejoins with kind | ⟨-, text⟩
      · rw [Token.isKeyword, Token.keyword?, kind] at keyword
        cases keyword
      · exact text
    have lt' : q.spot < q.right.length := q.length rejoins ▸ q.lt rejoins
    refine follows_comes
      ⟨.column none ⟨q.value, (q.right.tokenAt q.spot).isQuoted, (q.right.tokenAt q.spot).span⟩,
        q.right.startAt q.spot, (q.right.stopAt (q.spot + 1)).later (q.right.startAt q.spot)⟩
      (Nat.le_succ _) (comes_keywordValue (q.lt rejoins) keyword)
      (fun clean => absurd rfl (q.alike_succ.mp clean).ne) fun closed _ => ⟨?_, ?_, .inr rejoins⟩
    · have name : nameExpression.Comes (sqlLevels f (limit + 1)) q.right q.spot _ _ :=
        comes_nameExpression lt' (q.kind rejoins) closed.2
      exact comes_expression (comes_prefixed_word (by rw [q.kind rejoins]; rfl) (q.noWord rejoins _)
        fun p _ s there => wordExpression_succeeds rejoins there (name s there) p) q.isEof_right lt' closed.2
    · rw [text]
      simp only [Quoted, Visible.through_expr, Visible.through_column, Visible.through_none]
      exact congrArg₂ (fun name span => Expr.mk (.column none name) span) (q.quoted_spot rejoins false)
        (q.spans_of_rejoins rejoins _ _)

/-- Elsewhere than at the spot the reserved word is the same in both texts. -/
theorem keywordValue_follows (unnamed : ¬ (q.rejoins ∧ i = q.spot)) :
    q.Follows limit known i keywordValue keywordValue q.Inside fun _ _ => True := by
  refine .within fun within => ?_
  cases keyword : (q.left.tokenAt i).isKeyword with
  | false => exact follows_of_never (keywordValue_never keyword)
  | true =>
    have lt := q.lt_of_notEof within (Token.isEof_of_isKeyword keyword)
    have lacks : q.Lacks (⟨.column none ⟨(q.left.tokenAt i).text, false, (q.left.tokenAt i).span⟩,
        (q.left.tokenAt i).span⟩ : Expr) := by
      intro name shows
      have other := lacks_token within (fun rejoins here => unnamed ⟨rejoins, here⟩)
        (q.left.tokenAt i).text false name shows
      simp_all
    refine follows_comes ⟨.column none ⟨(q.right.tokenAt i).text, false, (q.right.tokenAt i).span⟩,
        (q.right.tokenAt i).span⟩ (Nat.le_succ _) (comes_keywordValue lt keyword) (fun _ => lacks)
        fun _ kept => ?_
    have clean : q.Clean i := q.alike_succ.mp (kept.2.resolve_right fun names => names.2 lacks)
    have like := q.like i clean
    refine ⟨comes_keywordValue (clean.lt lt) (like.isKeyword.trans keyword), ?_, clean.inside⟩
    have name := clean.quoted lt (q.left.tokenAt i).text false
    have span : q.shown.span (q.left.tokenAt i).span = q.seen.span (q.right.tokenAt i).span := clean.span lt
    simp_all [Quoted, like.text]

/-- A reserved word as the value of a pragma is the same in both texts, but where it is the name, which is a
column between quotes. -/
theorem pragmaValue_follows (calls : q.CallsKeep (limit + 2)) :
    q.Follows (limit + 2) known i pragmaValue pragmaValue q.Inside fun _ => q.Closed := by
  have value : q.Follows (limit + 2) known i operand operand q.Inside fun _ => q.Closed :=
    (calls.expression _).follows id
  have plain : ∀ rule ∈ [operand, keywordValue], rule.Plain := by
    simp only [List.forall_mem_cons, List.not_mem_nil, false_implies, implies_true, and_true]
    exact ⟨operand_blames.plain, Blames.plain (by simp [keywordValue])⟩
  by_cases named : q.rejoins ∧ i = q.spot
  · obtain ⟨rejoins, rfl⟩ := named
    have either : q.Follows (limit + 2) known q.spot pragmaValue operand q.Inside fun _ => q.Closed :=
      follows_either plain (by simpa using ⟨value, keywordValue_spot rejoins⟩)
    exact either.congr fun s there _ fits => fits.orElse there.cancelAfter _
  · refine follows_choice plain ?_ ?_
    · simpa using ⟨value, (keywordValue_follows named).mono id id fun _ _ _ => trivial⟩
    · simp only [List.pairwise_cons, List.mem_singleton, forall_eq, List.not_mem_nil, false_implies,
        implies_true, List.Pairwise.nil, and_true]
      exact fun v j misfits gets closed inside _ =>
        operand_stops_alone (inside.clean named) misfits gets closed

/-- A pragma is the same in both texts if it ends in both. -/
theorem pragmaStatement_follows (calls : q.CallsKeep (limit + 2)) :
    q.Follows (limit + 2) known i pragmaStatement pragmaStatement q.Clean fun _ => q.Closed := by
  have whole {name name' : ObjectName} {value value' : Option Expr} {p p' : Position} {known : Prop} {k : Nat}
      (opens : q.Opens p p') (lacks : known → q.Lacks name ∧ q.Lacks value) (alike : q.Quoted name name')
      (alike' : q.Quoted value value') : q.Follows (limit + 2) known k
        (do return (⟨name, value, ← spanFrom p⟩ : PragmaStatement)) (do return ⟨name', value', ← spanFrom p'⟩)
        q.Closed fun _ => q.Closed :=
    spanFrom_bind opens fun _ _ _ => follows_pure (by simp_all [Lacks]) (by simp_all [Quoted]) id
  refine start_bind Clean.inside fun p p' opens => ?_
  refine expectKeyword_bind (fun _ => id) fun _ _ _ => ?_
  refine (objectName_holds known _).freely.bind fun k name name' alike => ?_
  refine eat_ite rfl (fun _ _ => trivial) (fun _ => ?_) fun _ => ?_
  · refine (pragmaValue_follows calls).freely.bind fun k value value' alike' => ?_
    exact whole opens (by simp +contextual [Lacks]) alike (by simpa [Quoted] using alike')
  refine eat_ite rfl (fun _ _ => trivial) (fun _ => ?_) fun _ => ?_
  · refine (pragmaValue_follows calls).freely.bind fun k value value' alike' => ?_
    refine expect_bind rfl (fun closing clean => ?_) fun _ _ _ => ?_
    · have same := TokenKind.isClosing_of_sameKind closing rfl
      exact ⟨same, by rwa [(q.like k clean).kind]⟩
    · exact (whole opens (by simp +contextual [Lacks]) alike (by simpa [Quoted] using alike')).freely
  · exact (whole opens (by simp +contextual [Lacks]) alike (by simp [Quoted])).freely

end Diverging

end SqlTree
