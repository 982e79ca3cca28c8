import SqlTree.Proofs.Diverging.Parts
import SqlTree.Proofs.Diverging.Queries
import SqlTree.Proofs.Errors.Furthest
import SqlTree.Proofs.Lexing.Reserved
import SqlTree.Proofs.Reading.Backtracking

namespace SqlTree

open Rule SqlRule

/-- A rule gives a value for a whole text, of which it leaves nothing, with so many levels of nesting. -/
def Dialect.Takes {α : Type} (d : Dialect) (limit : Nat) (rule : SqlRule α) (text : String)
    (value : α) : Prop :=
  ∃ st eof, evalWithin limit d.lexical d.features rule (.ofText text.toList) = (.ok value, st) ∧
    (st.peek d.lexical).1 = .ok eof ∧ eof.isEof = true

/-- Whether a rule gives for a whole text what it should. -/
def Dialect.takes {α : Type} (d : Dialect) (limit : Nat) (rule : SqlRule α) (text : String)
    (good : α → Bool) : Bool :=
  match evalWithin limit d.lexical d.features rule (.ofText text.toList) with
  | (.ok value, st) => good value && (st.peek d.lexical).1.toOption.any (·.isEof)
  | _ => false

/-- What is taken for a text can be evaluated. -/
theorem Dialect.exists_takes {α : Type} {d : Dialect} {limit : Nat} {rule : SqlRule α} {text : String}
    {good : α → Bool} (takes : d.takes limit rule text good = true) :
    ∃ value, d.Takes limit rule text value ∧ good value = true := by
  unfold Dialect.takes at takes
  split at takes
  · rename_i value st gives
    obtain ⟨holds, ended⟩ := Bool.and_eq_true_iff.mp takes
    cases shown : (st.peek d.lexical).1 with
    | error => simp [shown, Except.toOption] at ended
    | ok eof => exact ⟨value, ⟨st, eof, gives, shown, by simpa [shown, Except.toOption] using ended⟩, holds⟩
  · cases takes

/-- All names without their places, and no numbers of placeholders. -/
def Lens.unnumbered : Lens := ⟨Ident.bare, fun _ => 0, fun _ => .nothing⟩

@[simp] theorem Lens.span_unnumbered (s : Span) : Lens.unnumbered.span s = .nothing := rfl

@[inherit_doc Lens.unnumbered]
def View.unnumbered : View := ⟨Ident.bare, fun _ => 0⟩

@[simp] theorem View.lens_unnumbered : View.unnumbered.lens = .unnumbered := rfl

/-- Behind the first `i` tokens of a sheet a rule gives what it should, and comes to behind the first
`j` ones. -/
def Rule.Lands {α : Type} (rule : SqlRule α) (levels : List (TapeLevel Symbol)) (sheet : Sheet) (i : Nat)
    (good : α → Prop) (j : Nat) : Prop :=
  ∀ s : Tape, s.At sheet i → rule.Succeeds levels s fun v after => good v ∧ after.At sheet j

namespace Rule

section

variable {α β : Type} {levels : List (TapeLevel Symbol)} {sheet : Sheet} {i j k : Nat}

theorem Lands.bind {first : SqlRule β} {next : β → SqlRule α} {mid : β → Prop} {good : α → Prop}
    (head : first.Lands levels sheet i mid k)
    (rest : ∀ b, mid b → (next b).Lands levels sheet k good j) :
    (first >>= next).Lands levels sheet i good j := fun s here =>
  succeeds_bind.mpr ((head s here).mono fun b between ⟨holds, there⟩ => rest b holds between there)

/-- A rule of which it is known what it comes to, and what follows it. -/
theorem Comes.lands {first : SqlRule β} {next : β → SqlRule α} {b : β} {good : α → Prop}
    (comes : first.Comes levels sheet i b k) (rest : (next b).Lands levels sheet k good j) :
    (first >>= next).Lands levels sheet i good j := fun s here =>
  succeeds_bind.mpr ((comes s here).mono fun _ between ⟨same, there, _⟩ => same ▸ rest between there)

/-- A rule gives anything that follows from what it gives. -/
theorem Lands.mono {rule : SqlRule α} {good weaker : α → Prop} (lands : rule.Lands levels sheet i good j)
    (weaken : ∀ v, good v → weaker v) : rule.Lands levels sheet i weaker j := fun s here =>
  (lands s here).mono fun v _ ⟨holds, there⟩ => ⟨weaken v holds, there⟩

theorem lands_pure {v : α} {good : α → Prop} (holds : good v) :
    (Pure.pure v : SqlRule α).Lands levels sheet i good i :=
  fun _ here => (succeeds_pure v).mpr ⟨holds, here⟩

end

end Rule

section

variable {f : Features} {t : Token}

/-- A word that no type has in its name goes on with none. -/
theorem not_typeGoesOn {tokens : List Token} (type : t.typeWord? false = none)
    (precision : t.spells .PRECISION = false) (varying : t.isPlainWord "VARYING" = false) :
    ¬ TypeGoesOn tokens t := by
  rintro (⟨-, -, spells⟩ | ⟨-, -, plain⟩ | ⟨-, -, -, word⟩)
  · rw [precision] at spells
    cases spells
  · rw [varying] at plain
    cases plain
  · rw [type] at word
    cases word

end

/-- Words with which no expression goes on. -/
def boundaryWords : List Keyword := [.LIMIT, .OFFSET, .ROW, .ROWS, .AS]

/-- A token with which neither an expression nor the name of a type goes on. -/
structure Token.Closes (f : Features) (t : Token) : Prop where
  ends : t.EndsExpr f
  type : ∀ tokens, ¬ TypeGoesOn tokens t

section

variable {f : Features} {t : Token} {k : Keyword}

/-- Words of the grammar are no words of a type unless they are listed among them. -/
theorem Token.typeWord?_of_spells (spells : t.spells k = true) (other : k ∉ typeKeywords) :
    t.typeWord? false = none := by
  rcases t with ⟨kind, text, span⟩
  cases kind with
  | keyword j =>
    obtain rfl : j = k := beq_iff_eq.mp spells
    simp [Token.typeWord?, other]
  | identifier name =>
    by_cases quoted : text = name
    · subst quoted
      have known := Keyword.ofWord?_eq_of_sameWord spells
      rw [Keyword.ofWord?_spelling] at known
      simp [Token.typeWord?, isTypeWord, known, other]
    · simp [Token.typeWord?, Token.isQuoted, quoted]
  | _ => cases spells

theorem Token.isPlainWord_of_spells (spells : t.spells k = true) {word : String}
    (other : sameWord k.spelling word = false) : t.isPlainWord word = false := by
  rcases t with ⟨kind, text, span⟩
  cases kind with
  | identifier name =>
    refine Bool.eq_false_iff.mpr fun same => ?_
    have both := (sameWord_iff.mp spells).symm.trans (sameWord_iff.mp same)
    rw [sameWord_iff.mpr both] at other
    cases other
  | _ => rfl

/-- A clause begins with a word that closes what is in front of it. -/
theorem Token.closes_of_spells (mem : k ∈ boundaryWords) (spells : t.spells k = true) :
    t.Closes f := by
  have silent (others : List Keyword) (apart : Apart boundaryWords others) :
      ∀ other ∈ others, t.spells other = false := apart.not_spells mem spells
  have words : ∀ other ∈ operatorWords f, t.spells other = false := by
    refine fun other mem => silent [.IS, .NOT, .IN, .BETWEEN, .LIKE, .ILIKE] (by decide) other ?_
    unfold operatorWords at mem
    split at mem <;> simp only [List.mem_append, List.mem_cons, List.not_mem_nil] at mem ⊢ <;> tauto
  have binary : t.kind.binaryOp? = none := by
    rcases t with ⟨kind, text, span⟩
    cases kind with
    | keyword j =>
      obtain rfl : j = k := beq_iff_eq.mp spells
      have none : ∀ k ∈ boundaryWords, (TokenKind.keyword k).binaryOp? = none := by decide
      exact none j mem
    | identifier => rfl
    | _ => cases spells
  have types : ∀ k ∈ boundaryWords, k ∉ typeKeywords := by decide
  have varying : ∀ k ∈ boundaryWords, sameWord k.spelling "VARYING" = false := by decide
  exact ⟨⟨.inl (Token.isWord_of_spells spells), binary, words, silent [.SELECT] (by decide) _ (by simp)⟩,
    fun _ => not_typeGoesOn (Token.typeWord?_of_spells spells (types k mem))
      (silent [.PRECISION] (by decide) _ (by simp))
      (Token.isPlainWord_of_spells spells (varying k mem))⟩

/-- A comma and the end of a text close what is in front of them. -/
theorem Token.closes_of_kind (kind : t.kind = .comma ∨ t.kind = .eof) : t.Closes f := by
  have silent (k : Keyword) : t.spells k = false := by
    rcases kind with kind | kind <;> rw [Token.spells, kind]
  refine ⟨⟨.inr kind, ?_, fun k _ => silent k, silent _⟩, fun _ => not_typeGoesOn ?_ (silent _) ?_⟩
  · rcases kind with kind | kind <;> rw [kind] <;> rfl
  · rcases kind with kind | kind <;> rw [Token.typeWord?, kind]
  · rcases kind with kind | kind <;> rw [Token.isPlainWord, kind]

end

/-- A text, and another one in which it stands and is followed by what goes on with no expression. -/
def Diverging.ofStands {f : Features} {part whole : Sheet} {n : Nat} (stands : part.Stands whole n)
    (isEof : part.closing.isEof = true) (isEof' : whole.closing.isEof = true)
    (ends : (whole.tokenAt (n + part.length)).EndsExpr f)
    (casts : ∀ i < part.length, (part.tokenAt i).kind = .doubleColon →
      ¬ TypeGoesOn (part.tokens.drop (i + 1)) (whole.tokenAt (n + part.length)))
    (telling : ∀ i, (part.tokenAt i).Telling) (ahead : Nat) : Diverging f where
  left := part
  right := whole.drop n
  spot := part.length
  rejoins := False
  value := ""
  ahead := ahead
  behind := 0
  spot_le := Nat.le_refl _
  spot_le_right := by
    have := stands.within
    rw [Sheet.drop_length]
    omega
  isEof := isEof
  isEof_right := isEof'
  like i clean := by
    rw [Sheet.drop_tokenAt]
    exact stands.like i (clean.resolve_right fun h => h.1)
  length := False.elim
  lt := False.elim
  named := False.elim
  kind := False.elim
  isQuoted := False.elim
  unlike := False.elim
  ends := by rwa [Sheet.drop_tokenAt]
  casts i lt colons := by
    rw [Sheet.drop_tokenAt, List.take_length]
    exact casts i lt colons
  written i j lt _ alike := by
    rw [Sheet.drop_written]
    exact stands.written i j lt (alike.resolve_right fun h => h.1)
  telling := telling
  place _ := .start
  place' _ := .start
  placeless := False.elim
  shown_placed _ := rfl
  start_placed _ _ _ := rfl
  stop_placed _ _ _ _ _ _ _ := rfl

namespace Dialect

section

variable {α : Type} {d : Dialect} {limit : Nat} {rule : SqlRule α} {text : String} {value : α}

/-- What a rule takes, it reads from the tokens of the text, of which none is left. -/
theorem Takes.read (takes : d.Takes limit rule text value) :
    ∃ tokens eof after, Lexes d.lexical (.ofText text.toList) tokens (.ok eof) ∧ after.tokens = [] ∧
      rule.read (sqlLevels d.features limit) (.ofText text.toList tokens (.ok eof)) =
        (.ok value, after) := by
  obtain ⟨st, eof, gives, shown, isEof⟩ := takes
  obtain ⟨tokens, stop, lexes⟩ := lexes_exists d.lexical (.ofText text.toList)
  have agrees := rule.eval_tracks (levels_agree d.lexical (Symbol.body d.features) limit)
    (tapeLevels_forward _ limit) (tracks_ofText lexes)
  rw [show rule.eval d.lexical _ _ = _ from gives] at agrees
  obtain ⟨after, read, tracks, -⟩ := agrees.reading_eq
  have next : after.peek = .ok eof := tracks.peek.result.symm.trans shown
  have leads := rule.read_leads (tapeLevels_forward (Symbol.body d.features) limit)
    (.ofText text.toList tokens stop)
  rw [read] at leads
  obtain ⟨empty, rfl⟩ : after.tokens = [] ∧ stop = .ok eof := by
    unfold Tape.peek at next
    split at next
    · rename_i t rest same
      cases next
      have notEof := tracks.lexes.notEof eof (by simp [same])
      rw [isEof] at notEof
      cases notEof
    · rename_i empty
      have same : after.stop = stop := leads.stop
      rw [same] at next
      cases stop with
      | ok last => exact ⟨empty, by cases next; rfl⟩
      | error => cases next
  exact ⟨tokens, eof, after, lexes, empty, read⟩

/-- What is read from all tokens of a text is taken. -/
theorem takes_of_read {tokens : List Token} {eof : Token} {after : Tape}
    (lexes : Lexes d.lexical (.ofText text.toList) tokens (.ok eof))
    (read : rule.read (sqlLevels d.features limit) (.ofText text.toList tokens (.ok eof)) = (.ok value, after))
    (empty : after.tokens = []) : d.Takes limit rule text value := by
  have agrees := rule.eval_tracks (levels_agree d.lexical (Symbol.body d.features) limit)
    (tapeLevels_forward _ limit) (tracks_ofText lexes)
  have leads := rule.read_leads (tapeLevels_forward (Symbol.body d.features) limit)
    (.ofText text.toList tokens (.ok eof))
  rw [read] at agrees leads
  have stop : after.stop = .ok eof := leads.stop
  have shown : after.peek = .ok eof := by
    rw [Tape.peek, empty, stop]
    rfl
  exact ⟨_, eof, Prod.ext agrees.result rfl, agrees.tracks.peek.result.trans shown, lexes.eof_of_ok⟩

end

end Dialect

/-- A reserved word that spells a word of the grammar is this word. -/
theorem Token.kind_of_isKeyword {t : Token} {k : Keyword} (keyword : t.isKeyword = true)
    (spells : t.spells k = true) : t.kind = .keyword k := by
  rcases t with ⟨kind, text, span⟩
  cases kind with
  | keyword j => exact congrArg _ (beq_iff_eq.mp spells)
  | _ => cases keyword

/-- The word that numbers rows in a built-in dialect is no name of a type. -/
theorem Dialect.autoIncrement_not_type {d : Dialect} (builtin : d ∈ Dialect.builtin) :
    ∀ k ∈ d.features.autoIncrement, k ∉ typeKeywords := by
  have all : ∀ d ∈ Dialect.builtin, ∀ k ∈ d.features.autoIncrement, k ∉ typeKeywords := by decide
  exact all d builtin

section

variable {d : Dialect} {text : String} {tokens : List Token} {eof : Token}
  (lexes : Lexes d.lexical (.ofText text.toList) tokens (.ok eof))

theorem Lexes.tokenAt_mem (i : Nat) : lexes.sheet.tokenAt i ∈ tokens ++ [eof] := by
  rcases Nat.lt_or_ge i tokens.length with lt | ge
  · rw [lexes.sheet.tokenAt_of_lt lt]
    exact List.mem_append_left _ (List.getElem_mem lt)
  · rw [lexes.sheet.tokenAt_of_ge ge]
    exact List.mem_append_right _ (List.mem_singleton_self eof)

/-- No name in a text of a built-in dialect spells a reserved word. -/
theorem Lexes.name_not_spells (builtin : d ∈ Dialect.builtin) {k : Keyword} (reserved : d.reserves k = true)
    (i : Nat) (name : (lexes.sheet.tokenAt i).isKeyword = false) : (lexes.sheet.tokenAt i).spells k = false :=
  lexes.not_reserved (Dialect.standard_of_builtin builtin) reserved _ (lexes.tokenAt_mem i) name

/-- In a text of a built-in dialect reserved words and names are told apart. -/
theorem Lexes.telling (builtin : d ∈ Dialect.builtin) (i : Nat) : (lexes.sheet.tokenAt i).Telling :=
  fun name k word => lexes.name_not_spells builtin ((Dialect.telling_of_builtin builtin).1 k word) i name

/-- A reserved word in a text of a built-in dialect is a keyword. -/
theorem Lexes.kind_of_spells (builtin : d ∈ Dialect.builtin) {k : Keyword} (reserved : d.reserves k = true)
    (i : Nat) (spells : (lexes.sheet.tokenAt i).spells k = true) :
    (lexes.sheet.tokenAt i).kind = .keyword k := by
  cases keyword : (lexes.sheet.tokenAt i).isKeyword with
  | false =>
    rw [lexes.name_not_spells builtin reserved i keyword] at spells
    cases spells
  | true => exact Token.kind_of_isKeyword keyword spells

end

section

variable {α : Type} [Visible α] {f : Features} {q : Diverging f} {limit : Nat}
  {rule rule' : SqlRule α} {need : Nat → Prop} {free : α → Nat → Prop} {v : α}

/-- What a rule gives over the first text up to where the texts part, another rule gives over the second
one. -/
theorem Diverging.Follows.upTo (follows : q.Follows limit True 0 rule rule' need free) {s after : Tape}
    (here : s.At q.left 0) (read : rule.read (sqlLevels f limit) s = (.ok v, after))
    (there : after.At q.left q.spot) (ends : free v q.spot) {s' : Tape} (here' : s'.At q.right 0)
    (counts : q.Counts s s') :
    rule'.Succeeds (sqlLevels f limit) s' fun v' after' =>
      after'.At q.right q.spot ∧ q.Counts after after' ∧ q.Quoted v v' := by
  obtain ⟨j, step⟩ := follows s here v after read
  obtain rfl := step.place.same there
  exact step.right ends ⟨fun _ => trivial, .inl (.inl (Nat.le_refl _))⟩ s' here' counts

/-- What a rule gives over all of the first text, where the second one parts from it, another rule gives
there. -/
theorem Diverging.Follows.whole (follows : q.Follows limit True 0 rule rule' need free)
    (parts : ¬ q.rejoins) (spot : q.spot = q.left.length) {s after : Tape} (here : s.At q.left 0)
    (read : rule.read (sqlLevels f limit) s = (.ok v, after)) (empty : after.tokens = q.left.rest)
    (ends : free v q.left.length) {s' : Tape} (here' : s'.At q.right 0) (counts : q.Counts s s') :
    rule'.Succeeds (sqlLevels f limit) s' fun v' after' =>
      after'.At q.right q.left.length ∧ q.Counts after after' ∧
        Visible.through q.plain v = Visible.through q.seen v' := by
  obtain ⟨j, step⟩ := follows s here v after read
  have there : j = q.spot := by
    have left : q.left.tokens.drop j = [] := by
      have := step.place.tokens
      rw [empty] at this
      simpa using this.symm
    rw [spot]
    exact Nat.le_antisymm step.place.within (List.drop_eq_nil_iff.mp left)
  rw [← spot] at ends ⊢
  have right := follows.upTo here read (there ▸ step.place) ends here' counts
  simp only [Diverging.Quoted, q.shown_of_not parts] at right
  exact right

end

section

variable {rules : LexicalRules} {d : Dialect} {part : String} {whole : Sheet} {n : Nat}

/-- Where a text stands that is taken for an expression, the expression is found, with its placeholders
numbered from the ones in front of it on. -/
theorem Dialect.Takes.found {limit : Nat} {e : Expr} (takes : d.Takes limit expression part e)
    (builtin : d ∈ Dialect.builtin) {tokens : List Token} {eof : Token}
    (alone : Lexes d.lexical (.ofText part.toList) tokens (.ok eof))
    (stands : alone.sheet.Stands whole n) (isEof : whole.closing.isEof = true)
    (ends : (whole.tokenAt (n + alone.sheet.length)).EndsExpr d.features)
    (casts : ∀ i < alone.sheet.length, (alone.sheet.tokenAt i).kind = .doubleColon →
      ¬ TypeGoesOn (tokens.drop (i + 1)) (whole.tokenAt (n + alone.sheet.length)))
    {s : Tape} (here : s.At whole n) :
    expression.Succeeds (sqlLevels d.features limit) s fun e' after =>
      e'.through .bare = e.through ⟨Ident.bare, (· + s.params), fun _ => .nothing⟩ ∧
        after.At whole (n + alone.sheet.length) := by
  obtain ⟨tokens', eof', after, alone', empty, read⟩ := takes.read
  obtain ⟨rfl, rfl⟩ := alone.unique alone'
  have within : n ≤ whole.length := Nat.le_trans (Nat.le_add_right ..) stands.within
  let q := Diverging.ofStands stands alone.eof_of_ok isEof ends casts (alone.telling builtin) s.params
  have follows := (q.callsKeep limit).any True 0
  obtain ⟨e', after', read', there, -, same⟩ := follows.whole id rfl alone.at_start read empty trivial
    ((whole.at_drop within).mpr here) (Nat.add_comm ..)
  exact ⟨e', after', read', same.symm, (whole.at_drop within).mp there⟩

/-- What is taken for an expression is found wherever it stands in front of a token that closes it. -/
theorem Dialect.Takes.lands {limit : Nat} {e : Expr} (takes : d.Takes limit expression part e)
    (builtin : d ∈ Dialect.builtin) {tokens : List Token} {eof : Token}
    (alone : Lexes d.lexical (.ofText part.toList) tokens (.ok eof))
    (stands : alone.sheet.Stands whole n) (isEof : whole.closing.isEof = true)
    (closes : (whole.tokenAt (n + alone.sheet.length)).Closes d.features) :
    expression.Lands (sqlLevels d.features limit) whole n
      (fun e' => e'.through .unnumbered = e.through .unnumbered) (n + alone.sheet.length) := by
  refine fun s here => (takes.found builtin alone stands isEof closes.ends (fun _ _ _ => closes.type _) here).mono ?_
  rintro e' after ⟨same, there⟩
  have shown := congrArg (Expr.through Lens.unnumbered) same
  simp only [Expr.through_through] at shown
  exact ⟨shown, there⟩

end

/-- The words with which an expression may begin where they are reserved. -/
def operandWords : List Keyword :=
  [.NOT, .CASE, .CAST, .EXISTS, .NULL, .TRUE, .FALSE] ++ functionKeywords

/-- Any other reserved word is no operand. -/
theorem prefixed_refuses (levels : List (TapeLevel Symbol)) {s : Tape} {t : Token} {k : Keyword}
    (shown : s.peek = .ok t) (kind : t.kind = .keyword k) (none : k ∉ operandWords) :
    prefixed.Refuses levels s := by
  have silent {other : Keyword} (mem : other ∈ operandWords) : t.spells other = false := by
    rw [Token.spells, kind]
    exact beq_false_of_ne fun same => none (same ▸ mem)
  have peeks : (peek : SqlRule Token).read levels s = (.ok t, s) := Prod.ext shown rfl
  have eats {k : Keyword} (mem : k ∈ operandWords) : (eatKeyword k : SqlRule Bool).read levels s = (.ok false, s) :=
    eatKeyword_read shown (silent mem)
  have missing {α : Type} {k : Keyword} {next : Bool → SqlRule α} (mem : k ∈ operandWords)
      (refuses : (next false).Refuses levels s) : (checkKeyword k >>= next).Refuses levels s := by
    obtain ⟨_, _, read, rfl, rfl⟩ : (checkKeyword k : SqlRule Bool).Succeeds levels s
        fun found after => found = false ∧ after = s :=
      (succeeds_checkKeyword shown k).mpr ⟨silent mem, rfl⟩
    exact refuses_then read refuses
  have word (p : Position) : (wordExpression p).Refuses levels s := by
    obtain ⟨_, _, literal, rfl, rfl⟩ : literalWord?.Succeeds levels s
        fun value after => value = Option.none ∧ after = s :=
      succeeds_bind.mpr ⟨_, _, eats (by decide), succeeds_bind.mpr ⟨_, _, eats (by decide),
        succeeds_bind.mpr ⟨_, _, eats (by decide), (succeeds_pure Option.none).mpr ⟨rfl, rfl⟩⟩⟩⟩
    refine refuses_then peeks (missing (by decide) (missing (by decide) (missing (by decide)
      (refuses_then literal ?_))))
    refine refuses_then peeks ?_
    have noFunction : ¬ functionKeywords.contains k := fun mem =>
      none (List.mem_append_right _ (List.contains_iff_mem.mp mem))
    rw [Token.keyword?, kind]
    simp only [noFunction]
    exact refuses_failAny shown _
  refine refuses_start shown (refuses_then peeks ?_)
  rw [kind]
  refine refuses_then (eats (by decide)) (refuses_start shown (refuses_then peeks ?_))
  rw [kind]
  exact word _

/-- An expression begins with a reserved word only if that is one for operands. -/
theorem expression_opens {f : Features} {limit : Nat} :
    expression.Opens (sqlLevels f limit) fun t => ∀ k, t.kind = .keyword k → k ∈ operandWords := by
  have operand {f : Features} {limit : Nat} :
      prefixed.Opens (sqlLevels f limit) fun t => ∀ k, t.kind = .keyword k → k ∈ operandWords := by
    intro s e after read
    have starts : prefixed.Opens (sqlLevels f limit) fun _ => True := fun s =>
      yields_bind.mpr (yields_start.mpr fun t shown => yields_of_forall fun _ _ => ⟨t, shown, trivial⟩)
    obtain ⟨t, shown, -⟩ := starts s e after read
    refine ⟨t, shown, fun k kind => of_not_not fun none => ?_⟩
    obtain ⟨m, fails, -⟩ := prefixed_refuses (sqlLevels f limit) shown kind none
    cases fails.symm.trans read
  exact fun s => yields_call fun _ => (Opens.start fun _ => operand.bind _) s

end SqlTree
