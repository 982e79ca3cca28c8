import SqlTree.Proofs.Diverging.Operators

namespace SqlTree

open Rule SqlRule

/-- The literal that a word is. -/
def literalOf (t : Token) : Option Literal :=
  if t.spells .NULL = true then some .null
  else if t.spells .TRUE = true then some (.boolean true)
  else if t.spells .FALSE = true then some (.boolean false)
  else none

/-- Whether a word is a literal is seen without consuming it. -/
theorem Rule.comes_literalWord? {levels : List (TapeLevel Symbol)} {sheet : Sheet} {i : Nat} (lt : i < sheet.length) :
    literalWord?.Comes levels sheet i (literalOf (sheet.tokenAt i))
      (if (literalOf (sheet.tokenAt i)).isSome then i + 1 else i) := by
  have not {k : Keyword} (other : ¬ (sheet.tokenAt i).spells k = true) :
      (eatKeyword k : SqlRule Bool).Comes levels sheet i false i :=
    comes_eatKeyword_not (Bool.not_eq_true _ ▸ other)
  unfold literalWord? literalOf
  by_cases null : (sheet.tokenAt i).spells .NULL = true
  · rw [if_pos null]
    exact (comes_eatKeyword lt null).ite (comes_pure _)
  rw [if_neg null]
  refine (not null).ite ?_
  by_cases isTrue : (sheet.tokenAt i).spells .TRUE = true
  · rw [if_pos isTrue]
    exact (comes_eatKeyword lt isTrue).ite (comes_pure _)
  rw [if_neg isTrue]
  refine (not isTrue).ite ?_
  by_cases isFalse : (sheet.tokenAt i).spells .FALSE = true
  · rw [if_pos isFalse]
    exact (comes_eatKeyword lt isFalse).ite (comes_pure _)
  rw [if_neg isFalse]
  exact (not isFalse).ite (comes_pure _)

namespace Diverging

variable {f : Features} {q : Diverging f} {limit i : Nat} {known : Prop}

/-- Where the next tokens are not the name, they are alike or not read in the second text. -/
theorem Inside.clean (inside : q.Inside i) (unnamed : ¬ (q.rejoins ∧ i = q.spot)) : q.Clean i := by
  refine q.clean_of_ne inside.reads fun here => ?_
  rcases inside with lt | rejoins
  · omega
  · exact unnamed ⟨rejoins, here⟩

/-- A call behind a name that is the same in both texts, up to quotes. -/
theorem functionCall_follows (calls : q.CallsKeep limit) {name name' : Ident}
    (lacks : known → q.Lacks name) (quoted : q.Quoted name name') {p p' : Position}
    (opens : q.Opens p p') :
    q.Follows limit known i (functionCall name p) (functionCall name' p') q.Clean fun _ _ => True := by
  have arguments (known : Prop) (i : Nat) : q.Follows limit known i (do
      if ← check .rightParen then return []
      else if ← check .star then
        let star ← Rule.start
        let _ ← bump
        return [⟨.wildcard none, ← spanFrom star⟩]
      else commaSeparated SqlRule.expression) (do
      if ← check .rightParen then return []
      else if ← check .star then
        let star ← Rule.start
        let _ ← bump
        return [⟨.wildcard none, ← spanFrom star⟩]
      else commaSeparated SqlRule.expression) q.Inside
      fun _ k => (q.left.tokenAt k).kind.sameKind .rightParen = true ∧ q.Clean k := by
    refine check_ite rfl (fun _ => ?_) fun _ => ?_
    · exact follows_value (fun _ _ => rfl) fun closing => ⟨closing.2, closing.2.inside⟩
    refine check_ite rfl (fun star => ?_) fun _ => ?_
    · refine start_bind And.right fun _ _ opens => ?_
      refine bump_bind (TokenKind.sameKind_eof star rfl) (fun clean => ⟨clean, clean.inside⟩) ?_
      exact spanFrom_bind opens fun _ _ _ => follows_pure (by simp [Lacks]) (by simp_all [Quoted]) fun _ => trivial
    · exact (calls.expressions [] known i).mono id id fun _ _ closing =>
        clear_closing closing.1 closing.2
  refine expect_bind rfl (fun _ => id) fun _ _ _ => ?_
  have word : q.Follows limit known (i + 1) (eatKeyword .DISTINCT : SqlRule Bool) (eatKeyword .DISTINCT)
      (fun _ => True) fun _ => q.Inside :=
    (keeps_eatKeyword (by decide)).follows (fun _ => trivial) fun _ _ => Inside.calm
  refine word.bind fun k distinct _ same => ?_
  obtain rfl : distinct = _ := same
  refine (arguments _ k).bind fun k items items' alike => ?_
  refine expect_bind rfl (fun closing clean => ⟨closing, clean⟩) fun _ _ _ => ?_
  refine spanFrom_bind opens fun _ _ _ => follows_pure ?_ ?_ id
  · rintro ⟨⟨holds, _⟩, _⟩
    have := lacks holds
    simp_all [Lacks]
  · simp_all [Quoted]

/-- What a name is behind it: a call or a column or all columns of a table. -/
theorem nameExpression_holds (calls : q.CallsKeep limit) : q.Holds limit nameExpression := by
  refine fun known i => start_bind id fun p p' opens => ?_
  refine (identifier_holds known i).bind fun k name name' alike => ?_
  refine check_ite rfl (fun _ => ?_) fun _ => ?_
  · exact (functionCall_follows calls (·.2) alike opens).mono id (fun clean => ⟨clean, trivial⟩)
      fun _ _ => id
  have kind : q.Follows limit (known ∧ q.Lacks name) k (do
      if ← eat .dot then
        if ← eat .star then return ExprKind.wildcard (some name)
        else return .column (some name) (← identifier)
      else return .column none name) (do
      if ← eat .dot then
        if ← eat .star then return ExprKind.wildcard (some name')
        else return .column (some name') (← identifier)
      else return .column none name') (fun _ => True) fun _ _ => True := by
    refine eat_ite rfl (fun _ _ => trivial) (fun _ => ?_) fun _ => ?_
    · refine eat_ite rfl (fun _ _ => trivial) (fun _ => ?_) fun _ => ?_
      · exact follows_pure (by simp +contextual [Lacks]) (by simp_all [Quoted]) id
      · refine (identifier_holds _ _).freely.bind fun k column column' alike' => ?_
        exact follows_pure (by simp +contextual [Lacks]) (by simp_all [Quoted]) id
    · exact follows_pure (by simp +contextual [Lacks]) (by simp_all [Quoted]) id
  refine kind.bind fun k kind kind' alike => spanFrom_bind opens fun _ _ _ => ?_
  exact follows_pure (by simp +contextual [Lacks]) (by simp_all [Quoted]) id

theorem castExpression_follows (calls : q.CallsKeep limit) :
    q.Follows limit known i castExpression castExpression q.Clean fun _ _ => True := by
  refine start_bind Clean.inside fun p p' opens => ?_
  refine expectKeyword_bind (fun _ => id) fun _ _ _ => ?_
  refine expect_bind rfl (fun _ _ => trivial) fun _ _ _ => ?_
  refine (calls.any known _).freely.bind fun k e e' alike => ?_
  refine expectKeyword_bind (fun _ _ => trivial) fun _ _ _ => ?_
  refine dataType_follows.freely.bind fun k type _ same => ?_
  obtain rfl : type = _ := same
  refine expect_bind rfl (fun _ => Clean.settled) fun _ _ _ => spanFrom_bind opens fun _ _ _ => ?_
  exact follows_pure (by simp +contextual [Lacks]) (by simp_all [Quoted]) id

theorem existsExpression_follows (calls : q.CallsKeep limit) :
    q.Follows limit known i existsExpression existsExpression q.Clean fun _ _ => True := by
  refine start_bind Clean.inside fun p p' opens => ?_
  refine expectKeyword_bind (fun _ => id) fun _ _ _ => ?_
  refine expect_bind rfl (fun _ _ => trivial) fun _ _ _ => ?_
  refine (calls.query known _).freely.bind fun k query query' alike => ?_
  refine expect_bind rfl clear_closing fun _ _ _ => ?_
  refine spanFrom_bind opens fun _ _ _ => ?_
  exact follows_pure (by simp +contextual [Lacks]) (by simp_all [Quoted]) id

theorem whenClause_follows (calls : q.CallsKeep limit) :
    q.Follows limit known i whenClause whenClause q.Clean fun _ _ => True := by
  refine start_bind Clean.inside fun p p' opens => ?_
  refine expectKeyword_bind (fun _ => id) fun _ _ _ => ?_
  refine (calls.any known _).freely.bind fun k condition condition' alike => ?_
  refine expectKeyword_bind (fun _ _ => trivial) fun _ _ _ => ?_
  refine (calls.any _ _).freely.bind fun k result result' alike => spanFrom_bind opens fun _ _ _ => ?_
  exact follows_pure (by simp +contextual [Lacks]) (by simp_all [Quoted]) fun _ => trivial

/-- An expression that may be left out, as one. -/
theorem someExpression_holds (calls : q.CallsKeep limit) :
    q.Holds limit (do return some (← SqlRule.expression)) :=
  calls.any.map fun _ _ => rfl

theorem caseExpression_follows (calls : q.CallsKeep limit) :
    q.Follows limit known i caseExpression caseExpression q.Clean fun _ _ => True := by
  have operand (known : Prop) (i : Nat) : q.Follows limit known i
      (do if ← checkKeyword .WHEN then return none else return some (← SqlRule.expression))
      (do if ← checkKeyword .WHEN then return none else return some (← SqlRule.expression))
      q.Inside fun _ => q.Clean := by
    refine checkKeyword_ite (by decide) Inside.calm (fun _ => ?_) fun _ => ?_
    · exact follows_value (fun _ _ => rfl) fun clean => ⟨clean, clean.inside⟩
    · exact (someExpression_holds calls).follows id
  have clauses (known : Prop) (i : Nat) : q.Follows limit known i (many whenClause) (many whenClause)
      q.Clean fun _ k => q.Clean k ∧ (q.left.tokenAt k).spells .WHEN = false := by
    have plain : whenClause.Plain := Blames.plain (by simp [whenClause])
    refine follows_many plain (fun _ _ => (whenClause_follows calls).mono id id fun _ _ _ => trivial)
      (fun _ => And.left) fun k ends _ => ?_
    refine (Awaits.start fun _ => (awaits_expectKeyword .WHEN).bind _).stops fun word mem => ?_
    rw [List.mem_singleton.mp mem, ends.1.spells, ends.2]
  have otherwise (known : Prop) (i : Nat) : q.Follows limit known i
      (do if ← eatKeyword .ELSE then return some (← SqlRule.expression) else return none)
      (do if ← eatKeyword .ELSE then return some (← SqlRule.expression) else return none)
      (fun k => q.Clean k ∧ (q.left.tokenAt k).spells .WHEN = false)
      fun _ k => q.Clean k ∧ (q.left.tokenAt k).spells .WHEN = false := by
    refine eatKeyword_ite (by decide) (fun ends => ends.1.calm) (fun spells clean => ?_) (fun _ => ?_)
      fun _ => follows_value (fun _ _ => rfl) id
    · exact ⟨clean, Apart.not_spells (show Apart [.ELSE] [.WHEN] by decide)
        (List.mem_singleton_self _) spells _ (List.mem_singleton_self _)⟩
    · exact (someExpression_holds calls).follows fun _ => trivial
  refine start_bind Clean.inside fun p p' opens => ?_
  refine expectKeyword_bind (fun _ => id) fun _ _ _ => ?_
  refine (operand known _).freely.bind fun k operand operand' alike => ?_
  refine (clauses _ k).bind fun k clauses clauses' alike' => ?_
  have same : clauses'.isEmpty = clauses.isEmpty := by
    cases clauses <;> cases clauses' <;> first | rfl | cases alike'
  rw [same]
  split
  · exact follows_failAny _
  refine (otherwise _ k).bind fun k other other' alike'' => ?_
  refine expectKeyword_bind (fun spells clean => ?_) fun _ _ _ => ?_
  · exact ⟨clean, Apart.not_spells (show Apart [.END] [.WHEN] by decide)
      (List.mem_singleton_self _) spells _ (List.mem_singleton_self _)⟩
  refine spanFrom_bind opens fun _ _ _ => ?_
  exact follows_pure (by simp +contextual [Lacks]) (by simp_all [Quoted]) id


/-- A word that is a literal is one in both texts, and where it is none, it is the next token still. -/
theorem literalWord?_follows : q.Follows limit known i literalWord? literalWord? q.Inside
    fun value k => value = none → q.Inside k := by
  have value {value : Literal} {known : Prop} {k : Nat} : q.Follows limit known k
      (Pure.pure (some value) : SqlRule (Option Literal)) (Pure.pure (some value)) (fun _ => True)
      fun value k => value = none → q.Inside k := follows_value (fun _ _ => by simp) fun _ => trivial
  refine eatKeyword_ite (by decide) Inside.calm (fun _ => Clean.inside) (fun _ => value) fun _ => ?_
  refine eatKeyword_ite (by decide) Inside.calm (fun _ => Clean.inside) (fun _ => value) fun _ => ?_
  refine eatKeyword_ite (by decide) Inside.calm (fun _ => Clean.inside) (fun _ => value) fun _ => ?_
  exact follows_value (fun _ _ => rfl) fun ends => ends rfl

theorem not_misfits_tooDeep {α β : Type} {name : Symbol β} {next : β → SqlRule α} :
    ¬ (call name >>= next).Misfits (sqlLevels f 0) q.left i := by
  rintro ⟨s, here, m, after, fails⟩
  change (Rule.bind _ _).read _ s = _ at fails
  simp only [Rule.read, sqlLevels, tapeLevels, Tape.tooDeep, here.peek] at fails
  cases fails

/-- EXISTS that begins a name in the first text does not begin a query in the second one. -/
theorem existsExpression_stops {v : Expr} {j : Nat} (inside : q.Inside i)
    (misfits : existsExpression.Misfits (sqlLevels f limit) q.left i)
    (gets : nameExpression.Gets (sqlLevels f limit) q.left i v j) :
    existsExpression.Stops (sqlLevels f limit) q.right i := by
  obtain ⟨s, after, here, read, -⟩ := gets
  obtain ⟨-, call⟩ := nameExpression_leads s v after read
  refine comes_start.stops ?_
  by_cases word : (q.right.tokenAt i).spells .EXISTS = true
  case neg =>
    exact stops_of_refuses fun s there => (expectKeyword_refuses there.peek (Bool.not_eq_true _ ▸ word)).bind _
  have word' : (q.left.tokenAt i).spells .EXISTS = true := by
    by_contra other
    rw [inside.quiet (Bool.not_eq_true _ ▸ other)] at word
    cases word
  have clean : q.Clean i := by
    refine inside.clean fun ⟨rejoins, here⟩ => ?_
    rw [here, q.noWord rejoins] at word
    cases word
  have lt := q.lt_of_notEof here.within (Token.isEof_of_spells word')
  refine (comes_expectKeyword (clean.lt lt) word).stops ?_
  by_cases paren : (q.right.tokenAt (i + 1)).kind.sameKind .leftParen = true
  case neg =>
    exact stops_of_refuses fun s there => (expect_refuses there.peek (Bool.not_eq_true _ ▸ paren)).bind _
  have ne : i + 1 ≠ q.spot := by
    intro here
    rw [here, TokenKind.sameKind_of_isMark rfl q.ends.isMark] at paren
    cases paren
  have reads : q.Reads (i + 1) := clean.imp id And.left
  have clean' := q.clean_of_ne reads ne
  have paren' : (q.left.tokenAt (i + 1)).kind.sameKind .leftParen = true := by
    rwa [← (q.like _ clean').kind]
  have lt' := q.lt_of_notEof lt (TokenKind.sameKind_eof paren' rfl)
  obtain ⟨-, there, -⟩ := here.bump lt
  obtain ⟨-, within, -⟩ := there.bump lt'
  have noQuery := (call _ there.peek paren').2 _ within.peek
  refine (comes_expect (clean'.lt lt') paren).stops ?_
  cases limit with
  | zero =>
    have left := (comes_expect lt' paren').misfits ((comes_expectKeyword lt word').misfits
      (comes_start.misfits misfits))
    exact absurd left not_misfits_tooDeep
  | succ limit =>
    refine (selectStatement_awaits.bind _).stops fun k mem => ?_
    rw [List.mem_singleton.mp mem]
    have other : (q.left.tokenAt (i + 2)).spells .SELECT = false := by
      rw [Bool.eq_false_iff]
      exact fun spells => noQuery (Token.kind_of_spells (q.telling _) (by decide) spells)
    by_cases here : i + 2 = q.spot
    · rw [show i + 1 + 1 = q.spot from here]
      exact q.ends.select
    · have reads' : q.Reads (i + 2) := clean'.imp id And.left
      exact ((q.clean_of_ne reads' here).spells _).trans other

/-- Where the name stands between quotes, an expression that begins with a word is what a name is. -/
theorem wordExpression_succeeds (rejoins : q.rejoins) {s : Tape} (here : s.At q.right q.spot)
    {post : Expr → Tape → Prop} (name : nameExpression.Succeeds (sqlLevels f limit) s post)
    (p : Position) : (wordExpression p).Succeeds (sqlLevels f limit) s post := by
  have shown := here.peek
  have keyword : (q.right.tokenAt q.spot).keyword? = none := by rw [Token.keyword?, q.kind rejoins]
  simp only [wordExpression, literalWord?, eatKeyword, succeeds_bind, succeeds_peek shown,
    succeeds_checkKeyword shown, q.noWord rejoins, keyword, Bool.false_eq_true, if_false, succeeds_pure]
  exact name

/-- A reserved word as the name of a function, where the second text has the name between quotes. -/
theorem reservedName_follows (rejoins : q.rejoins) (calls : q.CallsKeep limit) {p : Position}
    (start : ∃ i ≤ q.left.length, p = q.left.startAt i) (keyword : (q.left.tokenAt q.spot).isKeyword = true) :
    q.Follows limit known q.spot (do
        let _ ← bump
        functionCall ⟨(q.left.tokenAt q.spot).text, false, (q.left.tokenAt q.spot).span⟩ p)
      nameExpression q.Inside fun _ _ => True := by
  have text : (q.left.tokenAt q.spot).text = q.value := by
    rcases q.named rejoins with kind | ⟨-, text⟩
    · rw [Token.isKeyword, Token.keyword?, kind] at keyword
      cases keyword
    · exact text
  have lt := q.lt rejoins
  have lt' : q.spot < q.right.length := q.length rejoins ▸ lt
  have name : q.Follows limit known q.spot
      (do
        let _ ← bump
        return (⟨(q.left.tokenAt q.spot).text, false, (q.left.tokenAt q.spot).span⟩ : Ident))
      identifier q.Inside fun _ _ => True := by
    refine follows_comes _ (Nat.le_succ _) ((comes_bump lt).bind (comes_pure _))
      (fun clean => absurd rfl (q.alike_succ.mp clean).ne) fun _ _ =>
        ⟨comes_identifier lt' (q.kind rejoins), ?_, .inr rejoins⟩
    rw [text]
    exact q.quoted_spot rejoins _
  have call : q.Follows limit known q.spot
      ((do
        let _ ← bump
        return (⟨(q.left.tokenAt q.spot).text, false, (q.left.tokenAt q.spot).span⟩ : Ident)) >>=
        fun name => functionCall name p) nameExpression q.Inside fun _ _ => True := by
    refine follows_right (fun _ => comes_start) (name.bind fun k n n' alike => ?_)
    cases paren : (q.left.tokenAt k).kind.sameKind .leftParen with
    | false =>
      exact follows_of_never (never_of_refuses fun s here => (expect_refuses here.peek paren).bind _)
    | true =>
      have call (p' : Position) : q.Follows limit (known ∧ q.Lacks n) k (functionCall n p)
          (functionCall n' p') q.Clean fun _ _ => True :=
        functionCall_follows calls (·.2) alike (q.opens_of_rejoins rejoins start p')
      by_cases clean : q.Clean k
      · refine follows_right (fun _ => comes_check _) ?_
        rw [(q.like k clean).kind, paren, if_pos rfl]
        exact (call _).freely
      · exact (call p).lost clean
  exact call.swap fun s _ post => by simp only [succeeds_bind, succeeds_pure, imp_self]

/-- What a word is that is neither a form nor a literal. -/
def namedExpression (token : Token) (p : Position) : SqlRule Expr :=
  match token.keyword? with
  | some k =>
    if functionKeywords.contains k then do
      let _ ← bump
      functionCall ⟨token.text, false, token.span⟩ p
    else failAny ["expression"]
  | none => nameExpression

/-- At the spot a name in quotes stands for the same as without them. -/
theorem namedExpression_spot (rejoins : q.rejoins) (calls : q.CallsKeep limit) {p : Position}
    (start : ∃ i ≤ q.left.length, p = q.left.startAt i) :
    q.Follows limit known q.spot (namedExpression (q.left.tokenAt q.spot) p) nameExpression q.Inside
      fun _ _ => True := by
  unfold namedExpression
  cases keyword : (q.left.tokenAt q.spot).keyword? with
  | none => exact nameExpression_holds calls known _
  | some k =>
    dsimp only
    split
    · exact reservedName_follows rejoins calls start (by rw [Token.isKeyword, keyword]; rfl)
    · exact follows_failAny _

/-- Away from the spot both texts have the same name. -/
theorem namedExpression_follows (unnamed : ¬ (q.rejoins ∧ i = q.spot)) (calls : q.CallsKeep limit)
    {p p' : Position} (opens : q.Opens p p') : q.Follows limit known i (namedExpression (q.left.tokenAt i) p)
      (namedExpression (q.right.tokenAt i) p') q.Inside fun _ _ => True := by
  refine .within fun within => ?_
  unfold namedExpression
  cases keyword : (q.left.tokenAt i).keyword? with
  | none =>
    by_cases clean : q.Clean i
    · rw [(q.like i clean).keyword?, keyword]
      exact nameExpression_holds calls known _
    · exact (nameExpression_holds calls known i).lost fun inside => clean (inside.clean unnamed)
  | some k =>
    dsimp only
    split
    · rename_i allowed
      have notEof : (q.left.tokenAt i).isEof = false := by
        rw [Token.isEof, beq_eq_false_iff_ne]
        intro isEof
        rw [Token.keyword?, isEof] at keyword
        cases keyword
      have lacks : q.Lacks (⟨(q.left.tokenAt i).text, false, (q.left.tokenAt i).span⟩ : Ident) :=
        lacks_token within (fun rejoins here => unnamed ⟨rejoins, here⟩) _ _
      have call {name' : Ident} (quoted : q.Quoted
          (⟨(q.left.tokenAt i).text, false, (q.left.tokenAt i).span⟩ : Ident) name') :
          q.Follows limit known i (do
            let _ ← bump
            functionCall ⟨(q.left.tokenAt i).text, false, (q.left.tokenAt i).span⟩ p) (do
            let _ ← bump
            functionCall name' p') q.Clean fun _ _ => True :=
        bump_bind notEof id (functionCall_follows calls (fun _ => lacks) quoted opens).freely
      by_cases clean : q.Clean i
      · rw [(q.like i clean).keyword?, keyword]
        dsimp only
        rw [if_pos allowed]
        refine (call ?_).mono id Clean.inside fun _ _ => id
        rw [(q.like i clean).text]
        exact clean.quoted (q.lt_of_notEof within notEof) _ _
      · obtain ⟨name', quoted⟩ := q.exists_quoted
          (⟨(q.left.tokenAt i).text, false, (q.left.tokenAt i).span⟩ : Ident)
        exact ((call quoted).mono id Clean.inside fun _ _ => id).lost
          fun inside => clean (inside.clean unnamed)
    · exact follows_failAny _

/-- A form that begins where the name stands is no form of the second text. -/
theorem keywordForm_spot (calls : q.CallsKeep limit) {form : SqlRule Expr}
    (reserved : Bool) (plain : form.Plain)
    (follows : q.Follows limit known q.spot form form q.Clean fun _ _ => True) :
    q.Follows limit known q.spot (keywordForm reserved form) nameExpression q.Inside fun _ _ => True := by
  have lost : q.Follows limit known q.spot form nameExpression q.Inside fun _ _ => True :=
    follows.lost fun clean => clean.ne rfl
  unfold keywordForm
  split
  · exact lost
  · refine follows_either ?_ ?_
    · simp only [List.forall_mem_cons, List.not_mem_nil, false_implies, implies_true, and_true]
      exact ⟨plain, nameExpression_blames.plain⟩
    · simp only [List.forall_mem_cons, List.not_mem_nil, false_implies, implies_true, and_true]
      exact ⟨lost, nameExpression_holds calls known _⟩

/-- A form of a reserved word is a form of it in both texts. -/
theorem keywordForm_telling {form : SqlRule Expr} {k : Keyword}
    (follows : q.Follows limit known i form form q.Clean fun _ _ => True)
    (mem : k ∈ tellingWords) (spells : (q.left.tokenAt i).spells k = true) :
    q.Follows limit known i (keywordForm (q.left.tokenAt i).isKeyword form)
      (keywordForm (q.left.tokenAt i).isKeyword form) q.Clean fun _ _ => True := by
  have reserved : (q.left.tokenAt i).isKeyword = true := by
    rw [Token.isKeyword, Token.keyword?, Token.kind_of_spells (q.telling i) mem spells]
    rfl
  rw [reserved, keywordForm, if_pos rfl]
  exact follows

/-- A literal is the same in both texts. -/
theorem literal_follows (value : Literal) {p p' : Position} (opens : q.Opens p p') : q.Follows limit known i
    (do return ⟨.literal value, ← spanFrom p⟩ : SqlRule Expr) (do return ⟨.literal value, ← spanFrom p'⟩)
    (fun _ => True) fun _ _ => True :=
  spanFrom_bind opens fun _ _ _ => follows_pure (by simp [Lacks]) (by simp_all [Quoted]) id

theorem existsExpression_plain : existsExpression.Plain := Blames.plain (by simp [existsExpression])

/-- An expression that the name begins is the same with the name in quotes. -/
theorem wordExpression_spot (rejoins : q.rejoins) (calls : q.CallsKeep limit) {p : Position}
    (start : ∃ i ≤ q.left.length, p = q.left.startAt i) :
    q.Follows limit known q.spot (wordExpression p) nameExpression q.Inside fun _ _ => True := by
  refine follows_left comes_peek (follows_left (comes_checkKeyword .CASE) ?_)
  split
  · exact keywordForm_spot calls _ caseExpression_blames.plain (caseExpression_follows calls)
  refine follows_left (comes_checkKeyword .CAST) ?_
  split
  · exact keywordForm_spot calls _ (Blames.plain (by simp [castExpression]))
      (castExpression_follows calls)
  refine follows_left (comes_checkKeyword .EXISTS) ?_
  split
  · exact keywordForm_spot calls _ existsExpression_plain (existsExpression_follows calls)
  have literal : literalWord?.Comes (sqlLevels f limit) q.left q.spot _ _ :=
    comes_literalWord? (q.lt rejoins)
  cases found : literalOf (q.left.tokenAt q.spot) with
  | some value =>
    rw [found] at literal
    refine follows_past rfl (fun _ => literal) ?_ (literal_follows value (q.opens_of_rejoins rejoins start p))
    have word := q.isWord_spot rejoins
    rw [Token.isEof, beq_eq_false_iff_ne]
    intro isEof
    rw [isEof] at word
    cases word
  | none =>
    rw [found] at literal
    exact follows_left literal (follows_left comes_peek (namedExpression_spot rejoins calls start))

theorem wordExpression_follows (calls : q.CallsKeep limit) {p p' : Position} (opens : q.Opens p p') :
    q.Follows limit known i (wordExpression p) (wordExpression p') q.Inside fun _ _ => True := by
  by_cases named : q.rejoins ∧ i = q.spot
  · obtain ⟨rejoins, rfl⟩ := named
    exact (wordExpression_spot rejoins calls opens.start).congr fun s there _ name =>
      wordExpression_succeeds rejoins there name p'
  have both (clean : q.Clean i) : q.Clean i ∧ q.Inside i := ⟨clean, clean.inside⟩
  refine peek_same (fun inside _ => by rw [(q.like i (inside.clean named)).isKeyword]) ?_
  refine checkKeyword_ite (by decide) Inside.calm (fun spells => ?_) fun _ => ?_
  · exact (keywordForm_telling (caseExpression_follows calls) (by decide) spells).mono id both fun _ _ => id
  refine checkKeyword_ite (by decide) Inside.calm (fun spells => ?_) fun _ => ?_
  · exact (keywordForm_telling (castExpression_follows calls) (by decide) spells).mono id both fun _ _ => id
  refine checkKeyword_ite (by decide) Inside.calm (fun spells => ?_) fun _ => ?_
  · unfold keywordForm
    split
    · exact (existsExpression_follows calls).mono id both fun _ _ => id
    · refine follows_choice ?_ ?_ ?_
      · simp [existsExpression_plain, nameExpression_blames.plain]
      · simp only [List.forall_mem_cons, List.not_mem_nil, false_implies, implies_true, and_true]
        exact ⟨(existsExpression_follows calls).mono id both fun _ _ => id,
          (nameExpression_holds calls).follows fun inside => both (inside.clean named)⟩
      · simp only [List.pairwise_cons, List.mem_singleton, List.not_mem_nil, forall_eq, false_implies,
          implies_true, List.Pairwise.nil, and_true]
        exact fun v j misfits gets _ needs _ => existsExpression_stops needs.2 misfits gets
  · refine literalWord?_follows.bind fun k value _ same => ?_
    obtain rfl : value = _ := by simpa [Quoted] using same
    cases value with
    | some value =>
      exact (literal_follows value opens).mono id (fun _ lacks => absurd lacks (Option.some_ne_none _))
        fun _ _ => id
    | none =>
      refine Follows.mono (?_ : q.Follows limit _ k _ _ q.Inside fun _ _ => True) id (fun inside _ => inside)
        fun _ _ => id
      by_cases here : q.rejoins ∧ k = q.spot
      · obtain ⟨rejoins, rfl⟩ := here
        have keyword : (q.right.tokenAt q.spot).keyword? = none := by rw [Token.keyword?, q.kind rejoins]
        refine peek_bind ?_
        rw [keyword]
        exact namedExpression_spot rejoins calls opens.start
      · exact peek_bind (namedExpression_follows here calls opens)

/-- A token that stands for something by itself, without names. -/
theorem single_follows {kind : ExprKind}
    (same : ∀ lens lens' : Lens, Visible.through lens kind = Visible.through lens' kind)
    (notEof : (q.left.tokenAt i).isEof = false) {p p' : Position} (opens : q.Opens p p') :
    q.Follows limit known i (single p kind) (single p' kind) q.Inside fun _ _ => True := by
  refine bump_bind notEof Clean.inside (spanFrom_bind opens fun _ _ _ => follows_pure ?_ ?_ id)
  · intro _ name _
    simp [same ⟨name, q.plain.number, q.plain.span⟩ q.plain]
  · simp_all [Quoted, same q.shown q.seen]

/-- Quoting a name keeps its letters. -/
theorem value_of_quoted {name name' : Ident} (alike : q.Quoted name name') : name.value = name'.value := by
  have same : q.shown.name name = Ident.placed q.place' name' := alike
  unfold shown Ident.quotedAt at same
  dsimp only at same
  split at same
  · split at same
    all_goals exact (Ident.mk.inj same).1
  · exact (Ident.mk.inj same).1

/-- Operands are the same in both texts. -/
theorem primary_holds (calls : q.CallsKeep limit) : q.Holds limit primary := by
  refine fun known i => start_bind id fun p p' opens => ?_
  by_cases named : q.rejoins ∧ i = q.spot
  · obtain ⟨rejoins, rfl⟩ := named
    refine peek_bind ?_
    rcases q.kind_spot rejoins with kind | ⟨k, kind⟩ <;> simp only [kind, q.kind rejoins]
    all_goals exact wordExpression_follows calls opens
  refine peek_same (fun inside _ => by rw [(q.like i (inside.clean named)).kind]) ?_
  have notEof {kind : TokenKind} (same : (q.left.tokenAt i).kind = kind) (other : kind ≠ .eof) :
      (q.left.tokenAt i).isEof = false := by
    rw [Token.isEof, same]
    exact beq_false_of_ne other
  split
  all_goals rename_i kind
  · exact single_follows (fun _ _ => by simp) (notEof kind (by simp)) opens
  · exact single_follows (fun _ _ => by simp) (notEof kind (by simp)) opens
  · exact single_follows (fun _ _ => by simp) (notEof kind (by simp)) opens
  · exact single_follows (fun _ _ => by simp) (notEof kind (by simp)) opens
  · exact single_follows (fun _ _ => by simp) (notEof kind (by simp)) opens
  · refine bump_bind (notEof kind (by simp)) Clean.inside (nextParam_bind fun n => ?_)
    refine spanFrom_bind opens fun _ _ spans => follows_pure ?_ ?_ id
    · simp [Lacks]
    · have number : q.shown.number n = q.seen.number (q.number n) := rfl
      simp_all [Quoted]
  · refine bump_bind (notEof kind (by simp)) Clean.inside ?_
    refine (identifier_holds known _).freely.bind fun k name name' alike => spanFrom_bind opens fun _ _ _ => ?_
    rw [q.value_of_quoted alike]
    exact follows_pure (by simp [Lacks]) (by simp_all [Quoted]) id
  · refine bump_bind (notEof kind (by simp)) Clean.inside ?_
    have inside (known : Prop) (i : Nat) : q.Follows limit known i
        (do return ExprKind.paren (← SqlRule.expression)) (do return .paren (← SqlRule.expression))
        q.Inside fun _ => q.Clear [.comma] queryWords :=
      (calls.any.map fun _ _ => rfl).follows id
    refine (select_ite calls (fun _ _ => rfl)
      (inside _ _)).freely.bind fun k kind kind' alike => ?_
    refine expect_bind rfl clear_closing fun _ _ _ => ?_
    exact spanFrom_bind opens fun _ _ _ => follows_pure (by simp +contextual [Lacks]) (by simp_all [Quoted]) id
  · exact wordExpression_follows calls opens
  · exact wordExpression_follows calls opens
  · exact follows_failAny _

theorem through_negated (lens : Lens) (e : Expr) :
    Visible.through lens (negated e) = negated (Visible.through lens e) := by
  rcases e with ⟨kind, _⟩
  cases kind with
  | parameter name => cases name <;> rfl
  | _ => rfl

theorem prefixed_holds (calls : q.CallsKeep limit) : q.Holds limit prefixed := by
  refine fun known i => start_bind id fun p p' opens => ?_
  have same (inside : q.Inside i) : (q.right.tokenAt i).kind.signOp? = (q.left.tokenAt i).kind.signOp? := by
    by_cases named : q.rejoins ∧ i = q.spot
    · obtain ⟨rejoins, rfl⟩ := named
      rcases q.kind_spot rejoins with kind | ⟨k, kind⟩ <;>
        simp only [q.kind rejoins, kind, TokenKind.signOp?]
    · rw [(q.like i (inside.clean named)).kind]
  refine peek_same (fun inside _ => by rw [same inside]) ?_
  split
  · rename_i op sign
    have notEof : (q.left.tokenAt i).isEof = false := by
      rw [Token.isEof, beq_eq_false_iff_ne]
      intro isEof
      rw [isEof] at sign
      cases sign
    refine bump_bind notEof Clean.inside ?_
    refine (calls.expression _ known _).freely.bind fun k e e' alike => spanFrom_bind opens fun _ _ _ => ?_
    exact follows_pure (by simp +contextual [Lacks]) (by simp_all [Quoted]) id
  · refine eatKeyword_ite (by decide) Inside.calm (fun _ => Clean.inside) (fun _ => ?_)
      fun _ => primary_holds calls known i
    refine (calls.expression _ known _).freely.bind fun k e e' alike => spanFrom_bind opens fun _ _ _ => ?_
    refine follows_pure ?_ ?_ id
    · simp +contextual [Lacks, through_negated]
    · simp_all [Quoted, through_negated]

/-- An operator that the first text goes on with stands in the second text, or the texts part over it. -/
theorem further_follows (calls : q.CallsKeep limit) (power : Nat) {left left' : Expr} {p p' : Position}
    (opens : q.Opens p p') (lacks : known → q.Lacks left) (quoted : q.Quoted left left') :
    q.Follows limit known i (further f power p left) (further f power p' left') (fun _ => True)
      fun _ _ => True := by
  have stop : q.Follows limit known i (Pure.pure (none : Option Expr)) (Pure.pure none) (fun _ => True)
      fun _ _ => True := follows_value (fun _ _ => rfl) id
  have goes (op : InfixOp) (found : infixAt f (q.left.tokenAt i) (q.left.tokenAt (i + 1)) = some op) :
      q.Follows limit known i (do
        let kind ← infixed op left
        return some (⟨kind, ← spanFrom p⟩ : Expr)) (do
        let kind ← infixed op left'
        return some ⟨kind, ← spanFrom p'⟩) q.Clean fun _ _ => True := by
    have notEof : (∃ o, op = .binary o) → (q.left.tokenAt i).isEof = false := by
      rintro ⟨o, rfl⟩
      exact Token.isEof_of_binaryOp? (Token.binaryOp?_of_infixAt found)
    refine (infixed_follows calls op lacks quoted notEof).bind fun k kind kind' alike => ?_
    exact spanFrom_bind opens fun _ _ _ => follows_pure (by simp +contextual [Lacks]) (by simp_all [Quoted]) id
  refine .within fun within => ?_
  by_cases reads : q.Reads i
  · refine .asking (comes_infixOp? q.isEof within)
      (fun _ => comes_infixOp? q.isEof_right (reads.within within)) ?_
    rcases q.infixAt_right limit within reads with same | ⟨right, odd⟩
    · rw [same]
      split
      · rename_i op found
        split
        · exact stop
        · exact (goes op found).freely
      · exact stop
    · rw [right]
      split
      · rename_i op found
        split
        · exact stop
        · rcases odd op found with here | never
          · exact (goes op found).lost fun clean => clean.ne here
          · exact (goes op found).barred fun _ => (never _).bind _
      · exact stop
  · refine follows_left (comes_infixOp? q.isEof within) ?_
    split
    · rename_i op found
      split
      · exact stop.unread reads
      · exact (goes op found).unread reads
    · exact stop.unread reads

/-- Whatever operators an expression goes on with in the first text, it does in the second one. -/
theorem expressionBody_holds (calls : q.CallsKeep limit) (power : Nat) :
    q.Holds limit (expressionBody f power) := by
  rw [expressionBody_eq]
  refine fun known i => start_bind id fun p p' opens => ?_
  refine (prefixed_holds calls known i).bind fun k first first' alike => ?_
  refine follows_loop (·.2) alike (fun known k left left' lacks quoted => ?_) fun _ _ => id
  refine (further_follows calls power opens lacks quoted).mono id id fun _ _ _ => trivial

end Diverging

end SqlTree
