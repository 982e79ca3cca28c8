import SqlTree.Proofs.Diverging.Boundaries

namespace SqlTree

open Rule SqlRule

/-- Some tokens end with a cast to a type, written in words and without arguments, that goes on with one
more word. -/
def CastGoesOn (tokens : List Token) (t : Token) : Prop :=
  ∃ front colons type, tokens = front ++ colons :: type ∧ colons.kind = .doubleColon ∧ TypeGoesOn type t

/-- A query for one column under a name. -/
def SelectStatement.ofColumn (e : Expr) (name : Ident) : SelectStatement :=
  ⟨false, [⟨e, some name, .nothing⟩], [], none, [], none, [], none, .nothing⟩

/-- Whether a type goes on depends on how its tokens are written. -/
theorem TypeGoesOn.like {tokens : List Token} {t t' : Token} (goesOn : TypeGoesOn tokens t') (like : t.Like t') :
    TypeGoesOn tokens t := by
  cases goesOn with
  | precision first double spells => exact .precision first double (like.spells _ ▸ spells)
  | varying first character plain => exact .varying first character (like.isPlainWord _ ▸ plain)
  | verbatim first verbatim words type => exact .verbatim first verbatim words (like.typeWord? _ ▸ type)

section

variable {α β : Type} {levels : List (TapeLevel Symbol)} {sheet : Sheet} {f : Features} {i j k limit : Nat}

namespace Rule

theorem Comes.leads {first : SqlRule β} {next : β → SqlRule α} {b : β} (comes : first.Comes levels sheet i b k)
    {s : Tape} (here : s.At sheet i) {post : α → Tape → Prop}
    (rest : ∀ between : Tape, between.At sheet k → between.params = s.params →
      (next b).Succeeds levels between post) : (first >>= next).Succeeds levels s post := by
  obtain ⟨_, between, read, rfl, there, params⟩ := comes s here
  exact succeeds_bind.mpr ⟨_, between, read, rest between there params⟩

/-- A rule that does not fit may be left out. -/
theorem comes_optional_not {rule : SqlRule α} (refuses : ∀ s : Tape, s.At sheet i → rule.Refuses levels s) :
    (optional rule).Comes levels sheet i none i := fun s here =>
  (refuses s here).optional here.cancelAfter fun _ => ⟨rfl, { here with }, rfl⟩

theorem comes_many_not {rule : SqlRule α} (refuses : ∀ s : Tape, s.At sheet i → rule.Refuses (sqlLevels f limit) s) :
    (many rule).Comes (sqlLevels f limit) sheet i [] i := by
  intro s here
  have stops : (do return (← optional rule).map (· :: []) : SqlRule (Option (List α))).Comes
      (sqlLevels f limit) sheet i none i := (comes_optional_not refuses).bind (comes_pure _)
  obtain ⟨_, after, read, rfl, there, params⟩ := stops s here
  exact succeeds_bind.mpr (succeeds_loop (sqlLevels_forward f limit)
    ⟨[], after, .stop read, (succeeds_pure _).mpr ⟨rfl, there, params⟩⟩)

/-- A list of one item. -/
theorem succeeds_commaSeparated_one {rule : SqlRule α} {good : α → Prop} {s : Tape}
    (one : rule.Succeeds (sqlLevels f limit) s fun v after => good v ∧ after.At sheet j)
    (other : (sheet.tokenAt j).kind.sameKind .comma = false) :
    (commaSeparated rule).Succeeds (sqlLevels f limit) s fun vs after =>
      (∃ v, vs = [v] ∧ good v) ∧ after.At sheet j := by
  refine succeeds_bind.mpr (one.mono ?_)
  rintro v between ⟨holds, there⟩
  have none : (many (expect .comma >>= fun _ => rule)).Comes (sqlLevels f limit) sheet j [] j :=
    comes_many_not fun s here => (expect_refuses here.peek other).bind _
  exact none.leads there fun after place _ => (succeeds_pure _).mpr ⟨⟨v, rfl, holds⟩, place⟩

end Rule

/-- SELECT and a column under a name, with which the text ends. -/
theorem Sheet.succeeds_ofColumn {e : Expr} {name : Ident} (isEof : sheet.closing.isEof = true)
    (lt : 0 < sheet.length) (select : (sheet.tokenAt 0).spells .SELECT = true)
    (reserved : ∀ k ∈ [Keyword.DISTINCT, .ALL],
      (sheet.tokenAt 1).spells k = true → (sheet.tokenAt 1).kind = .keyword k)
    (column : ∀ s : Tape, s.At sheet 1 → s.params = 0 → expression.Succeeds (sqlLevels f limit) s
      fun e' after => e'.through .bare = e.through .bare ∧ after.At sheet j)
    (named : (alias? f).Comes (sqlLevels f limit) sheet j (some name) sheet.length)
    {s : Tape} (here : s.At sheet 0) (first : s.params = 0) :
    selectStatement.Succeeds (sqlLevels f (limit + 1)) s fun m after =>
      m.sketch .bare = (SelectStatement.ofColumn e name).sketch .bare ∧ after.At sheet sheet.length := by
  change (queryBody f).Succeeds (sqlLevels f limit) s _
  refine comes_start.leads here fun s here params => ?_
  refine (comes_expectKeyword lt select).leads here fun s here params' => ?_
  have zero : s.params = 0 := params'.trans (params.trans first)
  have silent {k : Keyword} (mem : k ∈ [Keyword.DISTINCT, .ALL]) : (sheet.tokenAt 1).spells k = false := by
    obtain ⟨e', after, read, -⟩ := column s here zero
    obtain ⟨t, shown, operand⟩ := expression_opens s e' after read
    obtain rfl : sheet.tokenAt 1 = t := Except.ok.inj (here.peek.symm.trans shown)
    have none : ∀ k ∈ [Keyword.DISTINCT, .ALL], k ∉ operandWords := by decide
    exact Bool.eq_false_iff.mpr fun spells => none k mem (operand k (reserved k mem spells))
  have every : SqlRule.distinct.Comes (sqlLevels f limit) sheet 1 false 1 :=
    (comes_eatKeyword_not (silent (by decide))).bind ((comes_eatKeyword_not (silent (by decide))).bind (comes_pure false))
  refine every.leads here fun s here params => ?_
  have one : (selectColumn f).Succeeds (sqlLevels f limit) s fun c after =>
      (∃ e' p, c = ⟨e', some name, p⟩ ∧ e'.through .bare = e.through .bare) ∧ after.At sheet sheet.length := by
    refine comes_start.leads here fun s here params' => ?_
    refine succeeds_bind.mpr ((column s here (params'.trans (params.trans zero))).mono ?_)
    rintro e' between ⟨same, there⟩
    refine named.leads there fun s there _ => (comes_spanFrom _).leads there fun after place _ => ?_
    exact (succeeds_pure _).mpr ⟨⟨e', _, rfl, same⟩, place⟩
  -- The text has ended, and no other clause follows.
  have eof : (sheet.tokenAt sheet.length).kind = .eof := by
    rw [sheet.tokenAt_length]
    exact beq_iff_eq.mp isEof
  have missing (k : Keyword) : (eatKeyword k : SqlRule Bool).Comes (sqlLevels f limit) sheet sheet.length false sheet.length :=
    comes_eatKeyword_not (by rw [Token.spells, eof])
  have clause (k : Keyword) : (clause? k).Comes (sqlLevels f limit) sheet sheet.length none sheet.length :=
    (missing k).ite (comes_pure none)
  have list {α : Type} (k : Keyword) (item : SqlRule α) :
      (byClause k item).Comes (sqlLevels f limit) sheet sheet.length [] sheet.length :=
    (missing k).ite (comes_pure [])
  have limited : (limit? f).Comes (sqlLevels f limit) sheet sheet.length none sheet.length := by
    unfold limit?
    cases f.limit with
    | none => exact comes_pure none
    | some form =>
      refine comes_optional_not fun s here => limitClause_refuses form here.peek ?_ ?_ <;> rw [Token.spells, eof]
  refine succeeds_bind.mpr ((succeeds_commaSeparated_one one (by rw [eof]; rfl)).mono ?_)
  rintro _ s ⟨⟨_, rfl, e', p, rfl, same⟩, here⟩
  refine ((missing .FROM).ite (comes_pure [])).leads here fun s here _ => ?_
  refine (clause .WHERE).leads here fun s here _ => (list .GROUP _).leads here fun s here _ => ?_
  refine (clause .HAVING).leads here fun s here _ => (list .ORDER _).leads here fun s here _ => ?_
  refine limited.leads here fun s here _ => (comes_spanFrom _).leads here fun after place _ => ?_
  refine (succeeds_pure _).mpr ⟨?_, place⟩
  simp [SelectStatement.ofColumn, SelectStatement.sketch, SelectStatement.through, SelectColumn.through, same]

end

section

variable {rules : LexicalRules} {f : Features} {sheet : Sheet} {x : String} {t eof : Token} {j m : Nat}

/-- A word by itself is one token wherever it stands. -/
theorem Sheet.Holds.single (holds : sheet.Holds rules j [.text x] m) (word : tokenize rules x = .ok [t, eof]) :
    m = j + 1 ∧ j < sheet.length ∧ t.Like (sheet.tokenAt j) := by
  cases holds with
  | text alone stands rest =>
    obtain ⟨tokens, last, split, lexes⟩ := lexes_of_tokenize word
    obtain ⟨rfl, rfl⟩ : tokens = [t] ∧ last = eof := by
      have := List.append_inj' (show [t] ++ [eof] = tokens ++ [last] from split) rfl
      simp_all
    obtain ⟨rfl, rfl⟩ := lexes.unique alone
    cases rest with
    | nil => exact ⟨rfl, Nat.lt_of_lt_of_le (Nat.lt_succ_self j) stands.within, stands.like 0 (Nat.zero_lt_succ 0)⟩

/-- An unreserved word that stands for nothing where an expression ends. -/
structure Token.Names (f : Features) (t : Token) (x : String) : Prop where
  kind : t.kind = .identifier x
  text : t.text = x
  free : ∀ k, Keyword.ofWord? x = some k → isClauseWord f k = false ∧ k ∉ .AS :: operatorWords f

theorem Token.Names.like (names : t.Names f x) {t' : Token} (like : t.Like t') : t'.Names f x :=
  ⟨like.kind.trans names.kind, like.text.trans names.text, names.free⟩

/-- Such a word is not AS and begins no operator. -/
theorem Token.Names.silent (names : t.Names f x) {k : Keyword} (mem : k ∈ .AS :: operatorWords f) :
    t.spells k = false := by
  refine Bool.eq_false_iff.mpr fun spells => ?_
  rw [Token.spells, names.kind, names.text] at spells
  have found := Keyword.ofWord?_eq_of_sameWord spells
  rw [Keyword.ofWord?_spelling] at found
  exact (names.free k found).2 mem

/-- Such a word names what stands in front of it without AS. -/
theorem Token.Names.isBareAlias (names : t.Names f x) : isBareAlias f t = true := by
  have none : (Keyword.ofWord? x).any (isClauseWord f) = false := by
    cases found : Keyword.ofWord? x with
    | none => rfl
    | some k => exact (names.free k found).1
  simp [SqlRule.isBareAlias, names.kind, none]

/-- Such a word ends the expression in front of it. -/
theorem Token.Names.endsExpr (names : t.Names f x) (select : t.spells .SELECT = false) : t.EndsExpr f where
  kind := by simp [names.kind, TokenKind.isWord]
  binary := by rw [names.kind]; rfl
  words k mem := names.silent (List.mem_cons_of_mem _ mem)
  select := select

variable {levels : List (TapeLevel Symbol)}

theorem Token.Names.identifier (names : (sheet.tokenAt j).Names f x) (lt : j < sheet.length) :
    identifier.Comes levels sheet j ⟨x, false, (sheet.tokenAt j).span⟩ (j + 1) := by
  have unquoted : (sheet.tokenAt j).isQuoted = false := by simp [Token.isQuoted, names.kind, names.text]
  exact unquoted ▸ Diverging.comes_identifier lt names.kind

/-- A column may be given a name without AS. -/
theorem comes_alias? (names : (sheet.tokenAt j).Names f x) (lt : j < sheet.length) :
    (alias? f).Comes levels sheet j (some ⟨x, false, (sheet.tokenAt j).span⟩) (j + 1) := by
  refine (comes_eatKeyword_not (names.silent List.mem_cons_self)).ite ?_
  rw [if_neg Bool.false_ne_true]
  refine comes_peek.bind ?_
  rw [if_pos names.isBareAlias]
  exact (names.identifier lt).bind (comes_pure _)

/-- A column may be given a name with AS. -/
theorem comes_alias?_as (as : (sheet.tokenAt j).spells .AS = true) (names : (sheet.tokenAt (j + 1)).Names f x)
    (lt : j + 1 < sheet.length) :
    (alias? f).Comes levels sheet j (some ⟨x, false, (sheet.tokenAt (j + 1)).span⟩) (j + 1 + 1) := by
  refine (comes_eatKeyword (Nat.lt_of_succ_lt lt) as).ite ?_
  rw [if_pos rfl]
  exact (names.identifier lt).bind (comes_pure _)

end

/-- A text is a query for one column under a name. -/
def Dialect.AsksFor (d : Dialect) (text : String) (e : Expr) (x : String) : Prop :=
  ∃ m, d.parse .select text = .ok (.select m) ∧
    m.sketch .bare = (SelectStatement.ofColumn e ⟨x, false, .nothing⟩).sketch .bare

namespace Dialect

variable {d : Dialect} {e x text : String} {expr : Expr} {tokens : List Token} {eof : Token} {rest : List Part}

/-- SELECT, an expression, and what is read as a name and goes on with no expression. -/
theorem Takes.asksFor (takes : d.Takes 127 expression e expr) (builtin : d ∈ Dialect.builtin)
    (lexed : tokenize d.lexical e = .ok (tokens ++ [eof]))
    (composed : Composed d.lexical text (.word .SELECT :: .text e :: rest))
    (behind : ∀ {all : List Token} {last : Token} (lexes : Lexes d.lexical (.ofText text.toList) all (.ok last))
      (j : Nat), lexes.sheet.Holds d.lexical j rest lexes.sheet.length →
      (lexes.sheet.tokenAt j).EndsExpr d.features ∧ ¬ CastGoesOn tokens (lexes.sheet.tokenAt j) ∧
      ∃ p, (alias? d.features).Comes (sqlLevels d.features 127) lexes.sheet j (some ⟨x, false, p⟩)
        lexes.sheet.length) : d.AsksFor text expr x := by
  have supported : d.supports .select := Dialect.builtin_supports_select builtin
  have reserves : ∀ k ∈ [Keyword.DISTINCT, .ALL], d.reserves k = true := by
    have all : ∀ d ∈ Dialect.builtin, ∀ k ∈ [Keyword.DISTINCT, .ALL], d.reserves k = true := by decide
    exact all d builtin
  obtain ⟨all, last, lexes, holds⟩ := composed.holds
  have isEof : lexes.sheet.closing.isEof = true := lexes.eof_of_ok
  cases holds with
  | word lt select holds =>
    cases holds with
    | @text _ _ _ tokens' eof' _ alone stands holds =>
      obtain ⟨rfl, rfl⟩ : tokens' = tokens ∧ eof' = eof := by
        have same := alone.tokenize.symm.trans lexed
        simpa [Except.map] using same
      obtain ⟨ends, stays, p, named⟩ := behind lexes _ holds
      have casts : ∀ i < alone.sheet.length, (alone.sheet.tokenAt i).kind = .doubleColon →
          ¬ TypeGoesOn (tokens'.drop (i + 1)) (lexes.sheet.tokenAt (0 + 1 + alone.sheet.length)) := by
        intro i lt colons goesOn
        rw [alone.sheet.tokenAt_of_lt lt] at colons
        refine stays ⟨tokens'.take i, _, _, ?_, colons, goesOn⟩
        exact (List.take_append_drop i tokens').symm.trans (congrArg _ (List.drop_eq_getElem_cons lt))
      have column (s : Tape) (here : s.At lexes.sheet 1) (first : s.params = 0) :
          expression.Succeeds (sqlLevels d.features 127) s fun e' after =>
            e'.through .bare = expr.through .bare ∧ after.At lexes.sheet (0 + 1 + alone.sheet.length) := by
        have found := takes.found builtin alone stands isEof ends casts here
        rwa [first] at found
      obtain ⟨m, after, read, same, there⟩ := lexes.sheet.succeeds_ofColumn isEof lt select
        (fun k mem => lexes.kind_of_spells builtin (reserves k mem) 1) column named lexes.at_start rfl
      refine ⟨m, (Dialect.parse_iff supported lexes).mpr ⟨after, read_map_iff.mpr ⟨m, read, rfl⟩, ?_⟩, same⟩
      refine ⟨⟨_, there.stop⟩, .inl ?_⟩
      rw [there.tokens, List.drop_length]
      rfl

/-- AS is optional in front of the name of a column, be the expression in front of it what it may, unless
it ends with a cast to a type of several words that goes on with the name. -/
theorem alias_optional (builtin : d ∈ Dialect.builtin) (takes : d.Takes 127 expression e expr)
    (lexed : tokenize d.lexical e = .ok (tokens ++ [eof])) {t eof' : Token}
    (word : tokenize d.lexical x = .ok [t, eof']) (names : t.Names d.features x) :
    d.AsksFor ("SELECT " ++ e ++ "\nAS " ++ x) expr x ∧
      (¬ CastGoesOn tokens t → d.AsksFor ("SELECT " ++ e ++ "\n" ++ x) expr x) := by
  have standard := Dialect.standard_of_builtin builtin
  have safe := Dialect.lineSafe_of_builtin builtin
  obtain ⟨_, _, -, alone⟩ := lexes_of_tokenize lexed
  obtain ⟨_, _, -, alone'⟩ := lexes_of_tokenize word
  constructor
  · have composed : Composed d.lexical ("SELECT " ++ e ++ "\nAS " ++ x)
        [.word .SELECT, .text e, .word .AS, .text x] := by
      refine ComposedBehind.composed (.word standard (.line standard safe alone (.word standard
        (.last standard alone' ?_))))
      simp only [String.toList_append, List.append_assoc, List.nil_append]
      rfl
    refine takes.asksFor builtin lexed composed fun lexes j holds => ?_
    cases holds with
    | word lt as holds =>
      obtain ⟨last, lt, like⟩ := holds.single word
      have closes : (lexes.sheet.tokenAt j).Closes d.features := Token.closes_of_spells (by decide) as
      refine ⟨closes.ends, ?_, _, last ▸ comes_alias?_as as (names.like like) lt⟩
      rintro ⟨_, _, type, -, -, goesOn⟩
      exact closes.type type goesOn
  · intro stays
    have composed : Composed d.lexical ("SELECT " ++ e ++ "\n" ++ x) [.word .SELECT, .text e, .text x] := by
      refine ComposedBehind.composed (.word standard (.line standard safe alone (.last standard alone' ?_)))
      simp only [String.toList_append, List.append_assoc, List.nil_append]
      rfl
    refine takes.asksFor builtin lexed composed fun lexes j holds => ?_
    obtain ⟨last, lt, like⟩ := holds.single word
    have reserved : ∀ d ∈ Dialect.builtin, d.reserves .SELECT = true := by decide
    have name : (lexes.sheet.tokenAt j).isKeyword = false := by
      rw [Token.isKeyword, Token.keyword?, (names.like like).kind]
      rfl
    have select := lexes.name_not_spells builtin (reserved d builtin) j name
    refine ⟨(names.like like).endsExpr select, ?_, _, last ▸ comes_alias? (names.like like) lt⟩
    rintro ⟨front, colons, type, split, kind, goesOn⟩
    exact stays ⟨front, colons, type, split, kind, goesOn.like like⟩

/-- A type that no other word follows, and a name behind it. -/
theorem postgresql_alias_optional : ∃ e tokens eof t eof',
    Dialect.postgresql ∈ Dialect.builtin ∧ Dialect.postgresql.Takes 127 expression "a::text" e ∧
    tokenize Dialect.postgresql.lexical "a::text" = .ok (tokens ++ [eof]) ∧
    tokenize Dialect.postgresql.lexical "x" = .ok [t, eof'] ∧ t.Names Dialect.postgresql.features "x" ∧
    ¬ CastGoesOn tokens t ∧
    Dialect.postgresql.AsksFor "SELECT a::text\nAS x" e "x" ∧ Dialect.postgresql.AsksFor "SELECT a::text\nx" e "x" := by
  let text : Token := ⟨.identifier "text", "text", ⟨⟨3, 1, 4⟩, ⟨7, 1, 8⟩⟩⟩
  let tokens : List Token :=
    [⟨.identifier "a", "a", ⟨⟨0, 1, 1⟩, ⟨1, 1, 2⟩⟩⟩, ⟨.doubleColon, "::", ⟨⟨1, 1, 2⟩, ⟨3, 1, 4⟩⟩⟩, text]
  let x : Token := ⟨.identifier "x", "x", ⟨⟨0, 1, 1⟩, ⟨1, 1, 2⟩⟩⟩
  have builtin : Dialect.postgresql ∈ Dialect.builtin := by decide
  obtain ⟨e, takes, -⟩ : ∃ e, Dialect.postgresql.Takes 127 expression "a::text" e ∧ true = true :=
    exists_takes (by decide +kernel)
  have lexed : tokenize Dialect.postgresql.lexical "a::text" =
      .ok (tokens ++ [⟨.eof, "", ⟨⟨7, 1, 8⟩, ⟨7, 1, 8⟩⟩⟩]) := rfl
  have word : tokenize Dialect.postgresql.lexical "x" = .ok [x, ⟨.eof, "", ⟨⟨1, 1, 2⟩, ⟨1, 1, 2⟩⟩⟩] := rfl
  have free : Keyword.ofWord? "x" = none := by decide +kernel
  have names : x.Names Dialect.postgresql.features "x" := ⟨rfl, rfl, by simp [free]⟩
  have stays : ¬ CastGoesOn tokens x := by
    rintro ⟨front, colons, type, split, kind, goesOn⟩
    have first : text.typeWord? true = some "text" := by decide +kernel
    obtain rfl : type = [text] := by
      rcases front with _ | ⟨_, _ | ⟨_, _ | ⟨_, _⟩⟩⟩ <;> simp [tokens] at split
      · simp [← split.1] at kind
      · exact split.2.2.symm
      · simp [← split.2.2.1, text] at kind
    cases goesOn with
    | precision word double => 
      obtain rfl := Option.some.inj (first.symm.trans word)
      cases double
    | varying word character =>
      obtain rfl := Option.some.inj (first.symm.trans word)
      cases character
    | verbatim word verbatim =>
      obtain rfl := Option.some.inj (first.symm.trans word)
      exact absurd verbatim (by decide +kernel)
  obtain ⟨as, bare⟩ := alias_optional builtin takes lexed word names
  have asked : "SELECT " ++ "a::text" ++ "\nAS " ++ "x" = "SELECT a::text\nAS x" := by decide
  have asked' : "SELECT " ++ "a::text" ++ "\n" ++ "x" = "SELECT a::text\nx" := by decide
  exact ⟨e, tokens, _, x, _, builtin, takes, lexed, word, names, stays, asked ▸ as, asked' ▸ bare stays⟩

/-- Whether no result column of a query has an alias. -/
def hasNoAlias : Model → Bool
  | .select m => m.columns.all (·.alias?.isNone)
  | _ => true

/-- A type of several words takes the name behind it for one of them. -/
theorem postgresql_cast_takes_name : ∃ e t eof,
    Dialect.postgresql ∈ Dialect.builtin ∧ Dialect.postgresql.Takes 127 expression "a::money" e ∧
    tokenize Dialect.postgresql.lexical "x" = .ok [t, eof] ∧ t.Names Dialect.postgresql.features "x" ∧
    ¬ Dialect.postgresql.AsksFor "SELECT a::money\nx" e "x" := by
  obtain ⟨e, takes, -⟩ : ∃ e, Dialect.postgresql.Takes 127 expression "a::money" e ∧ true = true :=
    exists_takes (by decide +kernel)
  have free : Keyword.ofWord? "x" = none := by decide +kernel
  have nameless : (Dialect.postgresql.parse .select "SELECT a::money\nx").toOption.all hasNoAlias = true := by
    decide +kernel
  refine ⟨e, ⟨.identifier "x", "x", ⟨⟨0, 1, 1⟩, ⟨1, 1, 2⟩⟩⟩, ⟨.eof, "", ⟨⟨1, 1, 2⟩, ⟨1, 1, 2⟩⟩⟩, by decide,
    takes, rfl, ⟨rfl, rfl, by simp [free]⟩, ?_⟩
  rintro ⟨⟨distinct, columns, tables, condition, groupBy, having, orderBy, limit, span⟩, parsed, same⟩
  simp only [parsed, Except.toOption, Option.all_some, hasNoAlias] at nameless
  simp only [SelectStatement.sketch, SelectStatement.through, SelectStatement.ofColumn, SelectColumn.throughList_eq,
    SelectStatement.mk.injEq] at same
  obtain ⟨⟨expr, name, span⟩, others, rfl, alike, -⟩ := List.map_eq_cons_iff.mp same.2.1
  cases name with
  | none => simp [SelectColumn.through] at alike
  | some => cases nameless

end Dialect

end SqlTree
