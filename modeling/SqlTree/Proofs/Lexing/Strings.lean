import SqlTree.Dialect.Builtin
import SqlTree.Proofs.Lexing.Cuts
import SqlTree.Proofs.Lexing.Sequence
import SqlTree.Proofs.Writing.Solid

namespace SqlTree

/-- What stands between the quotes of a string, and the string it is. -/
inductive StringBody (escapes : Bool) (quote : Char) : List Char → List Char → Prop
  | nothing : StringBody escapes quote [] []
  /-- A quote is written twice. -/
  | doubled {body value : List Char} : StringBody escapes quote body value →
      StringBody escapes quote (quote :: quote :: body) (quote :: value)
  | escape {c : Char} {meaning body value : List Char} : escapes = true → quote ≠ '\\' →
      unescape? c = some meaning → StringBody escapes quote body value →
      StringBody escapes quote ('\\' :: c :: body) (meaning ++ value)
  | plain {c : Char} {body value : List Char} : c ≠ quote → (escapes = true → c ≠ '\\') →
      StringBody escapes quote body value → StringBody escapes quote (c :: body) (c :: value)

/-- Writes a string between quotes, doubling those in it, and the backslashes as well where they start
escapes. -/
def LexicalRules.stringLiteral (rules : LexicalRules) (quote : Char) (value : String) : String :=
  let body := value.toList.flatMap fun c =>
    if c = quote ∨ rules.backslashEscapes = true ∧ c = '\\' then [c, c] else [c]
  String.ofList (quote :: body ++ [quote])

section

variable {rules : LexicalRules} {escapes : Bool} {quote : Char} {body value value' cs : List Char}
  {c after : Cursor} {t : Token}

/-- A body stands for one string only. -/
theorem StringBody.unique (stands : StringBody escapes quote body value)
    (stands' : StringBody escapes quote body value') : value' = value := by
  induction stands generalizing value' with
  | nothing =>
    cases stands'
    rfl
  | doubled _ ih =>
    cases stands' with
    | doubled rest => rw [ih rest]
    | escape _ other => exact absurd rfl other
    | plain other => exact absurd rfl other
  | escape escaped other known _ ih =>
    cases stands' with
    | doubled => exact absurd rfl other
    | escape _ _ known' rest =>
      obtain rfl := Option.some.inj (known.symm.trans known')
      rw [ih rest]
    | plain _ noEscape => exact absurd rfl (noEscape escaped)
  | plain other noEscape _ ih =>
    cases stands' with
    | doubled => exact absurd rfl other
    | escape escaped => exact absurd rfl (noEscape escaped)
    | plain _ _ rest => rw [ih rest]

/-- What is read of a string up to its closing quote stands for the string. -/
theorem scanStringBody_stands (found : (scanStringBody escapes quote cs).value = .ok value) :
    ∃ body, (scanStringBody escapes quote cs).text = body ++ [quote] ∧
      StringBody escapes quote body value := by
  fun_induction scanStringBody escapes quote cs generalizing value with
  | case1 => cases found
  | case2 =>
    cases found
    exact ⟨[], rfl, .nothing⟩
  | case3 => cases found
  | case4 cs ih =>
    obtain ⟨rest, closed, rfl⟩ := consString_ok found
    obtain ⟨body, text, stands⟩ := ih closed
    exact ⟨quote :: quote :: body, by simp [Scan.behind, text], .doubled stands⟩
  | case5 =>
    cases found
    exact ⟨[], rfl, .nothing⟩
  | case6 c d cs other escaped meaning known ih =>
    obtain ⟨rest, closed, rfl⟩ := consString_ok found
    obtain ⟨body, text, stands⟩ := ih closed
    obtain ⟨on, slash⟩ := Bool.and_eq_true_iff.mp escaped
    obtain rfl := beq_iff_eq.mp slash
    exact ⟨'\\' :: d :: body, by simp [Scan.behind, text], .escape on (Ne.symm other) known stands⟩
  | case7 => cases found
  | case8 c d cs other noEscape ih =>
    obtain ⟨rest, closed, rfl⟩ := consString_ok found
    obtain ⟨body, text, stands⟩ := ih closed
    refine ⟨c :: body, by simp [Scan.behind, text], .plain other ?_ stands⟩
    rintro on rfl
    exact noEscape (by rw [on]; rfl)

/-- Only what begins with a quote of strings is read as a string. -/
theorem scanToken_string {value : String} (found : (scanToken rules cs).value = .ok (.string value)) :
    ∃ quote behind, rules.isStringQuote quote = true ∧ cs = quote :: behind ∧
      scanToken rules cs = scanString rules.backslashEscapes quote behind := by
  revert found
  fun_cases scanToken rules cs with
  | case1 => rintro ⟨⟩
  | case2 =>
    simp only [scanQuotedIdentifier, Scan.behind]
    split <;> rintro ⟨⟩
  | case3 c cs noName quote => exact fun _ => ⟨c, cs, quote, rfl, rfl⟩
  | case4 c cs noName noString kind size symbol =>
    rintro ⟨⟩
    unfold symbol? at symbol
    split at symbol <;> cases symbol
  | case5 =>
    simp only [scanBlob, Scan.behind]
    split
    · rintro ⟨⟩
    · split <;> rintro ⟨⟩
  | case6 =>
    simp only [scanNumber, NumberText.value]
    split
    · rintro ⟨⟩
    · split
      · split <;> rintro ⟨⟩
      · rintro ⟨⟩
  | case7 =>
    simp only [scanWord]
    split <;> rintro ⟨⟩
  | case8 => rintro ⟨⟩

/-- A token that is a string is written between two quotes, with a body that stands for it. -/
theorem nextToken_string {value : String} (next : nextToken rules c = (.ok t, after))
    (kind : t.kind = .string value) : ∃ quote body, rules.isStringQuote quote = true ∧
      t.text.toList = quote :: body ++ [quote] ∧
      StringBody rules.backslashEscapes quote body value.toList := by
  obtain ⟨_, _, _, rest, _, -, scan, rfl, -⟩ := nextToken_scans next
  subst kind
  have found : (scanToken rules rest).value = .ok (.string value) := by rw [scan]
  obtain ⟨quote, behind, isQuote, -, same⟩ := scanToken_string found
  have whole := same.symm.trans scan
  simp only [scanString, Scan.behind, Scan.mk.injEq] at whole
  obtain ⟨result, rfl, -⟩ := whole
  cases read : (scanStringBody rules.backslashEscapes quote behind).value with
  | error fault => cases fault <;> simp [read] at result
  | ok characters =>
    obtain ⟨body, text, stands⟩ := scanStringBody_stands read
    simp only [read, Except.ok.injEq, TokenKind.string.injEq] at result
    refine ⟨quote, body, isQuote, by simp [text], ?_⟩
    rwa [← result, String.toList_ofList]

/-- The lexer reads a string that is written between quotes as one token, up to what follows it. -/
theorem nextToken_stringLiteral (isQuote : rules.isStringQuote quote = true)
    (noName : rules.closingQuote? quote = none) (noLayout : quote ∈ ['"', '\'', '\x60'])
    (value : String) {following : List Char} (ends : following.head? ≠ some quote) (p : Position) :
    nextToken rules ⟨p, (rules.stringLiteral quote value).toList ++ following⟩ =
      (.ok ⟨.string value, rules.stringLiteral quote value,
          ⟨p, p.afterAll (rules.stringLiteral quote value).toList⟩⟩,
        ⟨p.afterAll (rules.stringLiteral quote value).toList, following⟩) := by
  have body := scanStringBody_quoted rules.backslashEscapes value.toList ends
  dsimp only at body
  generalize written : (value.toList.flatMap fun c =>
    if c = quote ∨ rules.backslashEscapes = true ∧ c = '\\' then [c, c] else [c]) = inside at body
  have text : (rules.stringLiteral quote value).toList = quote :: (inside ++ [quote]) := by
    rw [LexicalRules.stringLiteral, String.toList_ofList, ← written]
    rfl
  have layout : scanLayout rules.hashComments .gap (quote :: (inside ++ quote :: following)) =
      ⟨0, [], _⟩ := scanLayout_quote noLayout _
  have token : scanToken rules (quote :: (inside ++ quote :: following)) =
      ⟨.ok (.string value), quote :: (inside ++ [quote]), following⟩ := by
    rw [scanToken, noName]
    simp only [isQuote, if_true, scanString, body, Scan.behind, String.ofList_toList,
      List.cons_append, List.nil_append]
  have whole : (rules.stringLiteral quote value).toList ++ following =
      quote :: (inside ++ quote :: following) := by
    rw [text]
    simp
  rw [whole]
  simp only [nextToken, layout, token, if_true, Position.afterAll_nil]
  rw [← text, String.ofList_toList]

end

/-- In the built-in dialects no quote of strings opens a name. -/
theorem Dialect.stringQuotes_of_builtin {d : Dialect} (builtin : d ∈ Dialect.builtin) :
    ∀ quote ∈ d.lexical.stringQuotes, d.lexical.isStringQuote quote = true ∧
      d.lexical.closingQuote? quote = none ∧ quote ∈ ['"', '\'', '\x60'] := by
  have each : ∀ d ∈ Dialect.builtin,
      d.lexical.identifierQuotes.all (fun q => !d.lexical.isStringQuote q.1) = true ∧
        d.lexical.stringQuotes ⊆ ['"', '\'', '\x60'] := by
    decide
  obtain ⟨names, strings⟩ := each d builtin
  intro quote known
  have isQuote : d.lexical.isStringQuote quote = true := List.contains_iff_mem.mpr known
  refine ⟨isQuote, lookup_eq_none fun q mem => ?_, strings known⟩
  rintro rfl
  have other := List.all_eq_true.mp names q mem
  rw [isQuote] at other
  cases other

/-- In the built-in dialects a string that is written between quotes is read as that string, whatever
follows but one more quote. Whatever any rules read as a string is written between two quotes, and the
string is the one that the characters between them stand for. -/
theorem stringLiteral_read :
    (∀ d ∈ Dialect.builtin, ∀ quote ∈ d.lexical.stringQuotes, ∀ (value : String)
      (following : List Char), following.head? ≠ some quote → ∀ p,
        nextToken d.lexical ⟨p, (d.lexical.stringLiteral quote value).toList ++ following⟩ =
          (.ok ⟨.string value, d.lexical.stringLiteral quote value,
              ⟨p, p.afterAll (d.lexical.stringLiteral quote value).toList⟩⟩,
            ⟨p.afterAll (d.lexical.stringLiteral quote value).toList, following⟩)) ∧
    ∀ (rules : LexicalRules) (c after : Cursor) (t : Token) (value : String),
      nextToken rules c = (.ok t, after) → t.kind = .string value →
      ∃ quote body, rules.isStringQuote quote = true ∧ t.text.toList = quote :: body ++ [quote] ∧
        ∀ value', StringBody rules.backslashEscapes quote body value' ↔ value' = value.toList := by
  constructor
  · intro d builtin quote known value following ends p
    obtain ⟨isQuote, noName, noLayout⟩ := Dialect.stringQuotes_of_builtin builtin quote known
    exact nextToken_stringLiteral isQuote noName noLayout value ends p
  · intro rules c after t value next kind
    obtain ⟨quote, body, isQuote, text, stands⟩ := nextToken_string next kind
    refine ⟨quote, body, isQuote, text, fun value' => ⟨stands.unique, ?_⟩⟩
    rintro rfl
    exact stands

/-- A string of quotes and backslashes at its end, in front of a name; and the escapes of a string that
another quote opens. -/
theorem stringLiteral_read_escapes :
    ('"' ∈ Dialect.mysql.lexical.stringQuotes ∧ ("x".toList).head? ≠ some '"' ∧
      (nextToken Dialect.mysql.lexical
        ⟨.start, (Dialect.mysql.lexical.stringLiteral '"' "a\"\\").toList ++ "x".toList⟩).2 =
          ⟨⟨7, 1, 8⟩, "x".toList⟩) ∧
    ∃ t after, nextToken Dialect.mysql.lexical (.ofText "'\\n\\%'''".toList) = (.ok t, after) ∧
      t.kind = .string "\n\\%'" ∧
      ∃ quote body, Dialect.mysql.lexical.isStringQuote quote = true ∧
        t.text.toList = quote :: body ++ [quote] ∧
        ∀ value', StringBody true quote body value' ↔ value' = "\n\\%'".toList := by
  have known : '"' ∈ Dialect.mysql.lexical.stringQuotes := by decide
  have ends : ("x".toList).head? ≠ some '"' := by decide
  have next : nextToken Dialect.mysql.lexical (.ofText "'\\n\\%'''".toList) =
      (.ok ⟨.string "\n\\%'", "'\\n\\%'''", ⟨⟨0, 1, 1⟩, ⟨8, 1, 9⟩⟩⟩, ⟨⟨8, 1, 9⟩, []⟩) := rfl
  refine ⟨⟨known, ends, ?_⟩, _, _, next, rfl, ?_⟩
  · rw [stringLiteral_read.1 _ (by simp [Dialect.builtin]) '"' known "a\"\\" _ ends]
    rfl
  · exact stringLiteral_read.2 _ _ _ _ _ next rfl

end SqlTree
