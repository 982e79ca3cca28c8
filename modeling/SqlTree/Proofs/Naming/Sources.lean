import SqlTree.Proofs.Lexing.Lossless
import SqlTree.Proofs.Lexing.Pieces
import SqlTree.Proofs.Lexing.Reserved
import SqlTree.Proofs.Lexing.Sequence
import SqlTree.Proofs.Lexing.Words
import SqlTree.Proofs.Naming.Statements

namespace SqlTree

/-- A text that is a name between two quotes that belong together, and is read as that name. -/
structure LexicalRules.Quoting (rules : LexicalRules) (written name : String) : Prop where
  quotes : ∃ opening closing, rules.closingQuote? opening = some closing ∧
    written.toList = opening :: quotedBody closing name
  alone : tokenize rules written = .ok
    [⟨.identifier name, written, ⟨.start, endOfText written.toList⟩⟩,
      ⟨.eof, "", ⟨endOfText written.toList, endOfText written.toList⟩⟩]

section

variable {rules : LexicalRules} {cs : List Char} {c after : Cursor} {t : Token} {value : String}

/-- A token alone is all that it is in a text. -/
theorem nextToken_alone (next : nextToken rules c = (.ok t, after)) (notEof : t.isEof = false) :
    tokenize rules t.text = .ok [⟨t.kind, t.text, ⟨.start, endOfText t.text.toList⟩⟩,
      ⟨.eof, "", ⟨endOfText t.text.toList, endOfText t.text.toList⟩⟩] := by
  obtain ⟨layout, text, cut⟩ := nextToken_cut next
  obtain rfl : text = t.text.toList := by rw [cut.written, String.toList_ofList]
  have alone := cut.again [] [] .start (.inr rfl) List.nil_prefix
  simp only [List.nil_append, List.append_nil, Position.afterAll_nil] at alone
  have ends : nextToken rules ⟨endOfText t.text.toList, []⟩ =
      (.ok ⟨.eof, "", ⟨endOfText t.text.toList, endOfText t.text.toList⟩⟩, ⟨_, []⟩) := rfl
  have lexes : Lexes rules (.ofText t.text.toList) [⟨t.kind, t.text, ⟨.start, _⟩⟩] _ :=
    .token alone notEof (.eof ends rfl)
  exact lexes.tokenize

/-- A name that was read between quotes stands between two that belong together. -/
theorem nextToken_quoting (next : nextToken rules c = (.ok t, after))
    (kind : t.kind = .identifier value) (quoted : t.isQuoted = true) : rules.Quoting t.text value := by
  have alone := nextToken_alone next (by rw [Token.isEof, kind]; rfl)
  rw [kind] at alone
  refine ⟨?_, alone⟩
  obtain ⟨_, _, text, rest, _, -, scan, rfl, -⟩ := nextToken_scans next
  obtain rfl : _ = TokenKind.identifier value := kind
  have found : (scanToken rules rest).value = .ok (.identifier value) := by rw [scan]
  have written := scanToken_identifier found
  rw [scan] at written
  rcases written with quotes | ⟨bare, -⟩
  · simpa using quotes
  · simp [Token.isQuoted, bare] at quoted

/-- A word is a name if it is not reserved, and the keyword that it is reserved as otherwise. -/
theorem Sign.Fits.classify? {w : String} (fits : (Sign.bare rules w).Fits t) :
    (∃ k, t.kind = .keyword k ∧ rules.keywords.classify? w = some k) ∨
      t.kind = .identifier w ∧ rules.keywords.classify? w = none := by
  have kind := fits.kind
  rw [Sign.bare] at kind
  cases classified : rules.keywords.classify? w with
  | none => exact .inr ⟨by rw [kind, classified], rfl⟩
  | some k => exact .inl ⟨k, by rw [kind, classified], rfl⟩

variable {tokens : List Token} {stop : Except LexError Token}

/-- The names of a text that stand between quotes. -/
theorem Lexes.quoting (lexes : Lexes rules c tokens stop) : ∀ t ∈ tokens, t.kind = .identifier value →
    t.isQuoted = true → rules.Quoting t.text value := by
  induction lexes with
  | eof | fault => nofun
  | token next _ _ ih => exact List.forall_mem_cons.mpr ⟨nextToken_quoting next, ih⟩

/-- The names of a text that stand there without quotes. -/
theorem Lexes.bare_identifier (lexes : Lexes rules c tokens stop) {t : Token} (mem : t ∈ tokens)
    (kind : t.kind = .identifier value) (unquoted : t.isQuoted = false) :
    t.text = value ∧ isBareWord t.text = true ∧ rules.keywords.classify? t.text = none := by
  obtain ⟨letters, fits⟩ := lexes.bare t mem (by rw [kind]; rfl) unquoted
  rcases fits.classify? with ⟨k, other, -⟩ | ⟨named, free⟩
  · rw [kind] at other
    cases other
  · exact ⟨TokenKind.identifier.inj (named.symm.trans kind), letters, free⟩

/-- A keyword among the tokens is a word that the rules reserve. -/
theorem Lexes.classify?_keyword {k : Keyword} (lexes : Lexes rules c tokens stop) {t : Token} (mem : t ∈ tokens)
    (kind : t.kind = .keyword k) : isBareWord t.text = true ∧ rules.keywords.classify? t.text = some k := by
  obtain ⟨letters, fits⟩ := lexes.bare t mem (by rw [kind]; rfl) (by rw [Token.isQuoted, kind])
  rcases fits.classify? with ⟨j, reserved, classified⟩ | ⟨named, -⟩
  · obtain rfl := TokenKind.keyword.inj (reserved.symm.trans kind)
    exact ⟨letters, classified⟩
  · rw [kind] at named
    cases named

/-- The keywords of a text. -/
theorem Lexes.bare_keyword {k : Keyword} (lexes : Lexes rules c tokens stop) {t : Token} (mem : t ∈ tokens)
    (kind : t.kind = .keyword k) :
    isBareWord t.text = true ∧ sameWord t.text k.spelling = true := by
  obtain ⟨letters, classified⟩ := lexes.classify?_keyword mem kind
  exact ⟨letters, Keyword.sameWord_of_ofWord? (classify?_eq_some.mp classified).1⟩

end

/-- A token gives the names that it is read as, and stands for itself only. -/
def Naming.ofTokens (tokens : List Token) : Naming where
  token t t' := t' = t ∧ t ∈ tokens
  name i i' := i' = i ∧ ∃ t ∈ tokens, t.kind = .identifier i.value ∧ i = ⟨i.value, t.isQuoted, t.span⟩
  function i i' := i' = i ∧
    ((∃ t ∈ tokens, t.kind = .identifier i.value ∧ i = ⟨i.value, t.isQuoted, t.span⟩) ∨
      ∃ t ∈ tokens, ∃ k ∈ SqlRule.functionKeywords, t.kind = .keyword k ∧ i = t.word)
  word i i' := i' = i ∧ ∃ t ∈ tokens, t.isKeyword = true ∧ i = t.word
  recased := by
    rintro t _ ⟨rfl, -⟩
    exact .same _
  name_of := by
    rintro t _ value value' ⟨rfl, mem⟩ kind kind'
    obtain rfl := TokenKind.identifier.inj (kind.symm.trans kind')
    exact ⟨rfl, _, mem, kind, rfl⟩
  sameWord_of_name := by
    rintro i _ ⟨rfl, -⟩
    exact sameWord_refl _
  function_of_name := fun ⟨same, read⟩ => ⟨same, .inl read⟩
  function_of_word := by
    rintro t _ k ⟨rfl, mem⟩ kind function
    exact ⟨rfl, .inr ⟨_, mem, _, function, kind, rfl⟩⟩
  word_of := by
    rintro t _ ⟨rfl, mem⟩ reserved
    exact ⟨rfl, _, mem, reserved, rfl⟩

section

variable {N : Naming} {root n p : Node}

/-- A node that may stand for itself. -/
def Node.Alike (N : Naming) : Node → Prop
  | ident i => N.name i i
  | objectName n => n.Alike N n
  | expr e => e.Alike N e
  | whenClause w => w.Alike N w
  | select s => s.Alike N s
  | column c => c.Alike N c
  | table t => t.Alike N t
  | join j => j.Alike N j
  | order o => o.Alike N o
  | limit l => l.Alike N l
  | insert s => s.Alike N s
  | update s => s.Alike N s
  | assignment a => a.Alike N a
  | delete s => s.Alike N s
  | createTable s => s.Alike N s
  | columnDef c => c.Alike N c
  | columnConstraint c => c.Alike N c
  | tableConstraint c => c.Alike N c
  | foreignKey k => k.Alike N k
  | pragma s => s.Alike N s
  | script s => s.Alike N s

/-- What a node that may stand for itself holds: nodes that may do so as well, the name of a function, or
the word of a pragma. -/
inductive Node.Holds (N : Naming) (n : Node) : Node → Prop
  | alike {p : Node} : p.Alike N → Holds N n p
  | function {f span} : n = .expr ⟨.call f, span⟩ → N.function f.name f.name → Holds N n (.ident f.name)
  | word {s i span} : n = .pragma s → s.value = some ⟨.column none i, span⟩ → N.word i i →
      Holds N n (.expr ⟨.column none i, span⟩)

/-- A part that may be missing holds what it holds if it is there. -/
theorem holds_optional {α : Type} {R : α → α → Prop} {g : α → Node} {o : Option α}
    (alike : Option.Rel R o o) (each : ∀ x, R x x → (g x).Alike N) :
    ∀ p ∈ o.toList.map g, n.Holds N p := by
  cases alike with
  | none => exact List.forall_mem_nil _
  | some related => exact List.forall_mem_singleton.mpr (.alike (each _ related))

/-- A list of parts holds what each of them holds. -/
theorem holds_all {α : Type} {R : α → α → Prop} {g : α → Node} {l : List α}
    (alike : List.Forall₂ R l l) (each : ∀ x, R x x → (g x).Alike N) : ∀ p ∈ l.map g, n.Holds N p :=
  List.forall_mem_map.mpr fun x mem => .alike (each x (List.forall₂_same.mp alike x mem))

theorem ofStatement_alike {s : Statement} (alike : s.Alike N s) : (Node.ofStatement s).Alike N := by
  cases alike <;> assumption

/-- What an expression holds may stand for itself. -/
theorem fieldsOfExpr_hold {k : ExprKind} {span : Span} (alike : k.Alike N k) :
    ∀ field ∈ Node.fieldsOfExpr k, ∀ p ∈ field, (Node.expr ⟨k, span⟩).Holds N p := by
  cases alike <;> simp only [Node.fieldsOfExpr, List.forall_mem_cons, List.not_mem_nil, false_implies,
    implies_true, and_true]
  case column owner name => exact ⟨holds_optional owner fun _ => id, .alike name⟩
  case binary left right => exact ⟨.alike left, .alike right⟩
  case unary e | isNull e | cast e _ | paren e => exact .alike e
  case call name arguments => exact ⟨.function rfl name, holds_all arguments fun _ => id⟩
  case subquery query | existsQuery query => exact .alike query
  case inList e list =>
    cases list <;> simp only [List.forall_mem_cons, List.not_mem_nil, false_implies, implies_true, and_true]
    case values values => exact ⟨.alike e, holds_all values fun _ => id⟩
    case subquery query => exact ⟨.alike e, .alike query⟩
  case between e low high => exact ⟨.alike e, .alike low, .alike high⟩
  case like e pattern => exact ⟨.alike e, .alike pattern⟩
  case caseWhen operand whenClauses elseClause =>
    exact ⟨holds_optional operand fun _ => id, holds_all whenClauses fun _ => id,
      holds_optional elseClause fun _ => id⟩
  case wildcard owner => exact holds_optional owner fun _ => id

theorem fieldsOfTable_hold {t : TableRef} (alike : t.Alike N t) :
    ∀ field ∈ Node.fieldsOfTable t, ∀ p ∈ field, (Node.table t).Holds N p := by
  cases alike <;> simp only [Node.fieldsOfTable, List.forall_mem_cons, List.not_mem_nil, false_implies,
    implies_true, and_true]
  case table name alias? => exact ⟨.alike name, holds_optional alias? fun _ => id⟩
  case subquery query alias? => exact ⟨.alike query, holds_optional alias? fun _ => id⟩
  case join left join => exact ⟨.alike left, .alike join⟩

theorem fieldsOfSource_hold {source : InsertSource} (alike : source.Alike N source) :
    ∀ field ∈ Node.fieldsOfSource source, ∀ p ∈ field, n.Holds N p := by
  cases alike <;> simp only [Node.fieldsOfSource, List.forall_mem_cons, List.not_mem_nil, false_implies,
    implies_true, and_true]
  case values rows =>
    refine List.forall_mem_map.mpr fun e mem => ?_
    obtain ⟨row, memRow, mem⟩ := List.mem_flatten.mp mem
    have values := List.forall₂_same.mp rows row memRow
    exact .alike (List.forall₂_same.mp values e mem)
  case query query => exact .alike query

theorem fieldsOfColumnConstraint_hold {k : ColumnConstraintKind} (alike : k.Alike N k) :
    ∀ field ∈ Node.fieldsOfColumnConstraint k, ∀ p ∈ field, n.Holds N p := by
  cases alike <;> simp only [Node.fieldsOfColumnConstraint, List.forall_mem_cons, List.not_mem_nil,
    false_implies, implies_true, and_true]
  case default e | check e => exact .alike e
  case references key => exact .alike key

theorem fieldsOfTableConstraint_hold {k : TableConstraintKind} (alike : k.Alike N k) :
    ∀ field ∈ Node.fieldsOfTableConstraint k, ∀ p ∈ field, n.Holds N p := by
  cases alike <;> simp only [Node.fieldsOfTableConstraint, List.forall_mem_cons, List.not_mem_nil,
    false_implies, implies_true, and_true]
  case primaryKey columns | unique columns => exact holds_all columns fun _ => id
  case foreignKey columns key => exact ⟨holds_all columns fun _ => id, .alike key⟩
  case check e => exact .alike e

/-- What any node holds may stand for itself. -/
theorem fields_hold (alike : n.Alike N) : ∀ field ∈ n.fields, ∀ p ∈ field, n.Holds N p := by
  cases n <;> simp only [Node.fields, List.forall_mem_cons, List.forall_mem_append, List.not_mem_nil,
    false_implies, implies_true, and_true]
  case objectName n => exact ⟨holds_optional alike.schema fun _ => id, .alike alike.name⟩
  case expr e =>
    cases alike with
    | mk kind => exact fieldsOfExpr_hold kind
  case whenClause w =>
    cases alike with
    | mk condition result => exact ⟨.alike condition, .alike result⟩
  case select s =>
    cases alike with
    | mk _ columns tables condition groupBy having orderBy limit =>
      exact ⟨holds_all columns fun _ => id, holds_all tables fun _ => id,
        holds_optional condition fun _ => id, holds_all groupBy fun _ => id,
        holds_optional having fun _ => id, holds_all orderBy fun _ => id,
        holds_optional limit fun _ => id⟩
  case column c =>
    cases alike with
    | mk e alias? => exact ⟨.alike e, holds_optional alias? fun _ => id⟩
  case table t => exact fieldsOfTable_hold alike
  case join j =>
    cases alike with
    | mk _ _ table condition columns =>
      exact ⟨.alike table, holds_optional condition fun _ => id, holds_all columns fun _ => id⟩
  case order o =>
    cases alike with
    | mk _ _ e => exact .alike e
  case limit l =>
    cases alike with
    | mk count offset => exact ⟨holds_optional count fun _ => id, holds_optional offset fun _ => id⟩
  case insert s =>
    exact ⟨⟨⟨.alike alike.table, holds_all alike.columns fun _ => id⟩, fieldsOfSource_hold alike.source⟩,
      holds_all alike.returning fun _ => id⟩
  case update s =>
    exact ⟨.alike alike.table, holds_optional alike.alias? fun _ => id,
      holds_all alike.assignments fun _ => id, holds_optional alike.condition fun _ => id,
      holds_all alike.returning fun _ => id⟩
  case assignment a => exact ⟨.alike alike.column, .alike alike.value⟩
  case delete s =>
    exact ⟨.alike alike.table, holds_optional alike.alias? fun _ => id,
      holds_optional alike.condition fun _ => id, holds_all alike.returning fun _ => id⟩
  case createTable s =>
    exact ⟨.alike alike.name, holds_all alike.columns fun _ => id, holds_all alike.constraints fun _ => id⟩
  case columnDef c => exact ⟨.alike alike.name, holds_all alike.constraints fun _ => id⟩
  case columnConstraint c =>
    exact ⟨holds_optional alike.name fun _ => id, fieldsOfColumnConstraint_hold alike.kind⟩
  case tableConstraint c =>
    exact ⟨holds_optional alike.name fun _ => id, fieldsOfTableConstraint_hold alike.kind⟩
  case foreignKey k => exact ⟨.alike alike.table, holds_all alike.columns fun _ => id⟩
  case pragma s =>
    refine ⟨.alike alike.name, ?_⟩
    have value := alike.value
    cases given : s.value with
    | none => exact List.forall_mem_nil _
    | some e =>
      rw [given] at value
      refine List.forall_mem_singleton.mpr ?_
      cases value with
      | some value =>
        cases value with
        | operand e => exact .alike e
        | word word => exact .word rfl given word
  case script s => exact holds_all alike.statements fun _ => ofStatement_alike

theorem Node.Alike.parts (alike : n.Alike N) : ∀ p ∈ n.parts, n.Holds N p := by
  intro p mem
  obtain ⟨field, memField, mem⟩ := List.mem_flatten.mp mem
  exact fields_hold alike field memField p mem

theorem Model.Alike.node {m : Model} (alike : m.Alike N m) : m.node.Alike N := by
  cases alike with
  | statement alike => exact ofStatement_alike alike
  | _ => assumption

/-- The name of a function in a node. -/
def Node.IsFunctionName (n : Node) (i : Ident) : Prop :=
  ∃ f span, n = .expr ⟨.call f, span⟩ ∧ f.name = i

/-- The name that is all of the value of a pragma, where the node is that value. -/
def Node.IsPragmaWord (root n : Node) (i : Ident) : Prop :=
  ∃ s span, root.Within (.pragma s) ∧ s.value = some ⟨.column none i, span⟩ ∧
    n = .expr ⟨.column none i, span⟩

/-- What stands in a node that may stand for itself does so as well, holds nothing, or is the word of a
pragma. -/
theorem Node.Within.holds (within : root.Within n) (alike : root.Alike N) :
    n.Alike N ∨ n.parts = [] ∨ ∃ i, root.IsPragmaWord n i ∧ N.word i i := by
  induction within with
  | root => exact .inl alike
  | part within mem ih =>
    rcases ih with whole | none | ⟨i, ⟨s, span, _, _, rfl⟩, _⟩
    · cases whole.parts _ mem with
      | alike alike => exact .inl alike
      | function => exact .inr (.inl rfl)
      | word isPragma given word =>
        subst isPragma
        exact .inr (.inr ⟨_, ⟨_, _, within, given, rfl⟩, word⟩)
    · rw [none] at mem
      cases mem
    · obtain rfl := List.mem_singleton.mp mem
      exact .inr (.inl rfl)

/-- A name inside a node may stand for itself, as a name, as that of a function, or as the word of a pragma.
-/
theorem Node.Within.name (within : root.Within n) (alike : root.Alike N) {i : Ident}
    (mem : .ident i ∈ n.parts) :
    N.name i i ∨ n.IsFunctionName i ∧ N.function i i ∨ root.IsPragmaWord n i ∧ N.word i i := by
  rcases within.holds alike with whole | none | ⟨j, isWord, word⟩
  · cases whole.parts _ mem with
    | alike alike => exact .inl alike
    | function isCall function => exact .inr (.inl ⟨⟨_, _, isCall, rfl⟩, function⟩)
  · rw [none] at mem
    cases mem
  · obtain rfl : i = j := by
      obtain ⟨s, span, -, -, rfl⟩ := isWord
      exact Node.ident.inj (List.mem_singleton.mp mem)
    exact .inr (.inr ⟨isWord, word⟩)

end

/-- How a name `i` that the node `n` of a model holds stands in the text of the model: it is one token of
those of the text, either a word without quotes, that is reserved at most as the name of some functions or
as the value of a pragma, or a name between quotes. -/
structure Ident.Faithful (rules : LexicalRules) (text : String) (tokens : List Token) (root n : Node)
    (i : Ident) : Prop where
  token : ∃ before t behind, tokens = before ++ t :: behind ∧ i.span = t.span ∧
    (∀ u ∈ before, u.Precedes t) ∧ ∀ u ∈ behind, t.Precedes u
  bare : i.quoted = false → i.span.snippet? text = some i.value ∧ isBareWord i.value = true ∧
    (rules.keywords.classify? i.value = none ∨
      (n.IsFunctionName i ∧ ∃ k ∈ SqlRule.functionKeywords, sameWord i.value k.spelling = true) ∨
      root.IsPragmaWord n i)
  quoted : i.quoted = true → ∃ written, i.span.snippet? text = some written ∧
    rules.Quoting written i.value

section

variable {rules : LexicalRules} {text : String} {front : List Token} {eof t : Token}

/-- A token that is not the end of the text is one of the tokens in front of the end. -/
theorem Lexes.mem_front {c : Cursor} (lexes : Lexes rules c front (.ok eof)) (mem : t ∈ front ++ [eof])
    (notEof : t.isEof = false) : t ∈ front := by
  refine (List.mem_append.mp mem).resolve_right fun last => ?_
  obtain rfl := List.mem_singleton.mp last
  rw [lexes.eof_of_ok] at notEof
  cases notEof

/-- A token of a text is the only one of its own piece. -/
theorem Lexes.token_alone (lexes : Lexes rules (.ofText text.toList) front (.ok eof))
    (mem : t ∈ front ++ [eof]) :
    (∃ before behind, front ++ [eof] = before ++ t :: behind ∧ (∀ u ∈ before, u.Precedes t) ∧
      ∀ u ∈ behind, t.Precedes u) ∧ t.span.snippet? text = some t.text := by
  obtain ⟨before, behind, split⟩ := List.append_of_mem mem
  have precede := lexes.precede
  rw [split] at precede
  obtain ⟨-, others, apart⟩ := List.pairwise_append.mp precede
  refine ⟨⟨before, behind, split, fun u memU => apart u memU t List.mem_cons_self,
    (List.pairwise_cons.mp others).1⟩, ?_⟩
  rw [Span.snippet?, lexes.texts (Cursor.on_ofText _) t mem, Option.map_some, String.ofList_toList]

variable {root n : Node} {i : Ident}

/-- A name that was read from a name is what the text has there. -/
theorem Lexes.faithful_name (lexes : Lexes rules (.ofText text.toList) front (.ok eof))
    (mem : t ∈ front ++ [eof]) (kind : t.kind = .identifier i.value)
    (read : i = ⟨i.value, t.isQuoted, t.span⟩) : i.Faithful rules text (front ++ [eof]) root n := by
  obtain ⟨⟨before, behind, split, first, last⟩, snippet⟩ := lexes.token_alone mem
  have mem := lexes.mem_front mem (by rw [Token.isEof, kind]; rfl)
  have span : i.span = t.span := congrArg Ident.span read
  have same : i.quoted = t.isQuoted := congrArg Ident.quoted read
  refine ⟨⟨before, t, behind, split, span, first, last⟩, fun unquoted => ?_, fun quoted => ?_⟩
  · obtain ⟨written, letters, free⟩ := lexes.bare_identifier mem kind (same ▸ unquoted)
    rw [span, snippet, ← written]
    exact ⟨rfl, letters, .inl free⟩
  · exact ⟨t.text, span ▸ snippet, lexes.quoting t mem kind (same ▸ quoted)⟩

/-- A reserved word that is kept as a name is what the text has there. -/
theorem Lexes.faithful_word (lexes : Lexes rules (.ofText text.toList) front (.ok eof))
    (mem : t ∈ front ++ [eof]) {k : Keyword} (kind : t.kind = .keyword k)
    (allowed : (n.IsFunctionName t.word ∧ k ∈ SqlRule.functionKeywords) ∨ root.IsPragmaWord n t.word) :
    t.word.Faithful rules text (front ++ [eof]) root n := by
  obtain ⟨⟨before, behind, split, first, last⟩, snippet⟩ := lexes.token_alone mem
  obtain ⟨letters, spelled⟩ := lexes.bare_keyword (lexes.mem_front mem (by rw [Token.isEof, kind]; rfl)) kind
  refine ⟨⟨before, t, behind, split, rfl, first, last⟩, fun _ => ⟨snippet, letters, .inr ?_⟩,
    fun quoted => absurd quoted Bool.false_ne_true⟩
  rcases allowed with ⟨isName, function⟩ | isPragma
  · exact .inl ⟨isName, k, function, spelled⟩
  · exact .inr isPragma

end

/-- Every name in a model is read from a token. -/
theorem Dialect.names_read {d : Dialect} {kind : ModelKind} {text : String} {m : Model}
    (parsed : d.parse kind text = .ok m) {front : List Token} {eof : Token}
    (lexes : Lexes d.lexical (.ofText text.toList) front (.ok eof)) {n : Node} {i : Ident}
    (within : m.node.Within n) (mem : .ident i ∈ n.parts) :
    let read := Naming.ofTokens (front ++ [eof])
    read.name i i ∨ n.IsFunctionName i ∧ read.function i i ∨ m.node.IsPragmaWord n i ∧ read.word i i := by
  -- The run of the text with itself, where every token stands for itself.
  have letters : List.Forall₂ SameLetter text.toList text.toList :=
    List.forall₂_same.mpr fun c _ => .refl c
  have tokens : List.Forall₂ (Naming.ofTokens (front ++ [eof])).token front front :=
    List.forall₂_same.mpr fun t mem => ⟨rfl, List.mem_append_left _ mem⟩
  have ends : ∀ last, (.ok eof : Except LexError Token) = .ok last →
      (Naming.ofTokens (front ++ [eof])).token last last := by
    rintro _ ⟨⟩
    exact ⟨rfl, List.mem_append_right _ List.mem_cons_self⟩
  have alike := d.parse_alike kind lexes lexes letters tokens ends
  rw [parsed] at alike
  cases alike with
  | model alike => exact within.name alike.node mem

/-- Every name in a model is faithful to the text of the model. -/
theorem Dialect.parse_names {d : Dialect} {kind : ModelKind} {text : String} {m : Model}
    (parsed : d.parse kind text = .ok m) :
    ∃ tokens, tokenize d.lexical text = .ok tokens ∧ ∀ n i, m.node.Within n → .ident i ∈ n.parts →
      i.Faithful d.lexical text tokens m.node n := by
  obtain ⟨_, _, tokenized, -, -⟩ := d.parsedOver parsed
  obtain ⟨front, eof, same, lexes⟩ := lexes_of_tokenize tokenized
  refine ⟨front ++ [eof], same ▸ tokenized, fun n i within mem => ?_⟩
  rcases Dialect.names_read parsed lexes within mem with ⟨-, t, memT, isName, read⟩ |
    ⟨isFunction, -, ⟨t, memT, isName, read⟩ | ⟨t, memT, k, function, isWord, rfl⟩⟩ |
    ⟨isPragma, -, t, memT, reserved, rfl⟩
  · exact lexes.faithful_name memT isName read
  · exact lexes.faithful_name memT isName read
  · exact lexes.faithful_word memT isWord (.inl ⟨isFunction, function⟩)
  · obtain ⟨k, word⟩ := Option.isSome_iff_exists.mp reserved
    exact lexes.faithful_word memT (Token.kind_of_keyword? word) (.inr isPragma)

/-- The model of a reserved word as the name of a function, called with a column whose name is a quote. -/
def leftOfQuote : Model :=
  .expression ⟨.call ⟨⟨"Left", false, ⟨⟨0, 1, 1⟩, ⟨4, 1, 5⟩⟩⟩,
    [⟨.column none ⟨"\"", true, ⟨⟨5, 1, 6⟩, ⟨9, 1, 10⟩⟩⟩, ⟨⟨5, 1, 6⟩, ⟨9, 1, 10⟩⟩⟩], false⟩,
    ⟨⟨0, 1, 1⟩, ⟨10, 1, 11⟩⟩⟩

theorem Dialect.sqlite_left_names : Dialect.sqlite.parse .expression "Left(\"\"\"\")" = .ok leftOfQuote ∧
    Dialect.sqlite.reserves .LEFT = true ∧
    ∃ tokens, tokenize Dialect.sqlite.lexical "Left(\"\"\"\")" = .ok tokens ∧
      ∀ n i, leftOfQuote.node.Within n → .ident i ∈ n.parts →
        i.Faithful Dialect.sqlite.lexical "Left(\"\"\"\")" tokens leftOfQuote.node n := by
  have parsed : Dialect.sqlite.parse .expression "Left(\"\"\"\")" = .ok leftOfQuote := rfl
  exact ⟨parsed, by decide, Dialect.parse_names parsed⟩

end SqlTree
