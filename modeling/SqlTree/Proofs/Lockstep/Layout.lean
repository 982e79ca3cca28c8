import SqlTree.Proofs.Lexing.Sequence
import SqlTree.Proofs.Lexing.Pieces
import SqlTree.Proofs.Lockstep.Statements
import SqlTree.Proofs.Tree.Models

namespace SqlTree

open Rule SqlRule

/-- Two texts whose tokens are written alike. -/
def SameTokens (rules : LexicalRules) (text text' : String) : Prop :=
  ∃ tokens tokens', tokenize rules text = .ok tokens ∧ tokenize rules text' = .ok tokens' ∧
    List.Forall₂ Token.Like tokens tokens'

/-- The starts of corresponding tokens. -/
def FacingStarts (tokens tokens' : List Token) (p p' : Position) : Prop :=
  ∃ t t', (t, t') ∈ tokens.zip tokens' ∧ p = t.span.start ∧ p' = t'.span.start

/-- The ends of corresponding tokens. -/
def FacingStops (tokens tokens' : List Token) (p p' : Position) : Prop :=
  ∃ t t', (t, t') ∈ tokens.zip tokens' ∧ p = t.span.stop ∧ p' = t'.span.stop

/-- Arguments that are kept as two texts with the same tokens have them behind the words of the name of a
type. They are cut out of both texts between corresponding parentheses, with the white space and the comments
that stand inside them there. -/
structure FacingArguments (rules : LexicalRules) (text text' : String) (tokens tokens' : List Token)
    (words : List String) (arguments arguments' : String) : Prop where
  cut : ∃ h i j, TypeTokens tokens words h i j ∧
    (spanOf ((tokens.take j).drop i)).snippet? text = some arguments ∧
    (spanOf ((tokens'.take j).drop i)).snippet? text' = some arguments'
  same : SameTokens rules arguments arguments'

/-- How models of texts with the same tokens may differ: they lie on corresponding tokens, and what
is kept as written is written with the same tokens. -/
def Likeness.layout (rules : LexicalRules) (text text' : String) (tokens tokens' : List Token) : Likeness where
  place p p' := FacingStarts tokens tokens' p p' ∨ FacingStops tokens tokens' p p'
  shift := 0
  written := FacingArguments rules text text' tokens tokens'

/-- What two texts with the same tokens come to: models that differ in nothing but layout, or errors
that differ in nothing but the place, which is the start of the same token. -/
inductive SameOutcome (rules : LexicalRules) (text text' : String) (tokens tokens' : List Token) :
    AnalysisOutcome → AnalysisOutcome → Prop
  | ok {m m'} : m.Like (.layout rules text text' tokens tokens') m' →
      SameOutcome rules text text' tokens tokens' (.ok m) (.ok m')
  | malformed {e e' p p'} : e.kind = .malformed → e'.kind = .malformed → e'.message = e.message →
      e'.expected = e.expected → e'.found? = e.found? → e.position? = some p →
      e'.position? = some p' → FacingStarts tokens tokens' p p' →
      SameOutcome rules text text' tokens tokens' (.error e) (.error e')
  /-- The dialect has no such models. -/
  | unsupported (message) :
      SameOutcome rules text text' tokens tokens' (.error (.unsupported message))
        (.error (.unsupported message))

/-- Tokens of a sheet lie on a span from the start of the first one to the end of the last one. -/
theorem Sheet.spanOf_between (sheet : Sheet) {i j : Nat} (lt : i < j) (within : j ≤ sheet.length) :
    spanOf (sheet.between i j) = ⟨sheet.startAt i, sheet.stopAt j⟩ := by
  rw [sheet.between_of_lt lt (Nat.lt_of_lt_of_le lt within), spanOf, sheet.endBehind_between lt within]
  rfl

section

variable {rules : LexicalRules} {text text' : String} {tokens tokens' : List Token} {eof eof' : Token}

/-- A text with its tokens. -/
def Lexes.sheet (lexes : Lexes rules (.ofText text.toList) tokens (.ok eof)) : Sheet where
  text := text.toList
  before := .start
  tokens := tokens
  rest := []
  eof := eof
  ordered := lexes.ordered
  notEof := lexes.notEof
  behind := by
    obtain ⟨layout, start⟩ := ((List.append_nil tokens).symm ▸ lexes).start_behind
    rw [start, Position.afterAll_offset]
    exact Nat.le_add_right _ _

section

variable (lexes : Lexes rules (.ofText text.toList) tokens (.ok eof))
  (lexes' : Lexes rules (.ofText text'.toList) tokens' (.ok eof')) {i j : Nat}

/-- A text is read from the first one of its tokens on. -/
theorem Lexes.at_start : (Tape.ofText text.toList tokens (.ok eof)).At lexes.sheet 0 :=
  ⟨⟨rfl, rfl, rfl⟩, Nat.zero_le _, (List.append_nil tokens).symm, rfl⟩

/-- A token starts behind some layout. -/
theorem Lexes.startAt_eq (i : Nat) :
    ∃ layout, lexes.sheet.startAt i = (lexes.sheet.stopAt i).afterAll layout := by
  have split := lexes
  rw [← List.take_append_drop i tokens] at split
  obtain ⟨layout, start⟩ := split.start_behind
  refine ⟨layout, Eq.trans ?_ start⟩
  simp [Sheet.startAt, Sheet.tokenAt, Sheet.closing, Lexes.sheet, List.getD_eq_getElem?_getD,
    List.headD_eq_head?_getD]

/-- The later one of the end of a token and the start of another one. -/
theorem Lexes.later_eq (hi : i ≤ lexes.sheet.length) (hj : j ≤ lexes.sheet.length) :
    (lexes.sheet.stopAt j).later (lexes.sheet.startAt i) =
      if i < j then lexes.sheet.stopAt j else lexes.sheet.startAt i := by
  split
  · rename_i lt
    exact Position.later_of_lt (lexes.sheet.startAt_lt_stopAt lt hj)
  · rename_i notLt
    rcases Nat.lt_or_eq_of_le (Nat.le_of_not_lt notLt) with lt | rfl
    · refine Position.later_eq_right (Nat.lt_of_le_of_lt (lexes.sheet.stopAt_le_startAt hj)
        (lexes.sheet.startAt_lt lt hi))
    · obtain ⟨layout, eq⟩ := lexes.startAt_eq j
      rcases layout with _ | ⟨c, layout⟩
      · rw [eq, Position.afterAll_nil, Position.later_self]
      · refine Position.later_eq_right ?_
        have := byteSize_pos (List.cons_ne_nil c layout)
        rw [eq, Position.afterAll_offset]
        omega

/-- Between the start of a token and the end of a later one a piece of the text can be cut out. -/
theorem Lexes.sliced (lt : i < j) (within : j ≤ lexes.sheet.length) :
    ∃ written, sliceBytes text.toList (lexes.sheet.startAt i).offset (lexes.sheet.stopAt j).offset =
      some written ∧ Piece rules (lexes.sheet.startAt i) written ((tokens.take j).drop i) := by
  have tail : (tokens.take j).drop i = lexes.sheet.tokenAt i :: (tokens.take j).drop (i + 1) :=
    lexes.sheet.between_of_lt lt (Nat.lt_of_lt_of_le lt within)
  have whole : tokens.take j = (tokens.take j).take i ++
      (lexes.sheet.tokenAt i :: (tokens.take j).drop (i + 1)) := by
    rw [← tail, List.take_append_drop]
  have split := lexes
  rw [← List.take_append_drop j tokens, whole, List.append_assoc] at split
  obtain ⟨written, slice, -, piece⟩ := split.slice
  have stop : endBehind (lexes.sheet.tokenAt i).span.stop ((tokens.take j).drop (i + 1)) =
      lexes.sheet.stopAt j := lexes.sheet.endBehind_between lt within
  exact ⟨written, stop ▸ slice, tail ▸ piece⟩

/-- What lies on tokens of a text is cut out of it. -/
theorem Lexes.snippet_between (lt : i < j) (within : j ≤ lexes.sheet.length) :
    (spanOf ((tokens.take j).drop i)).snippet? text = some (lexes.sheet.written i j) := by
  obtain ⟨written, slice, -⟩ := lexes.sliced lt within
  have span : spanOf ((tokens.take j).drop i) = ⟨lexes.sheet.startAt i, lexes.sheet.stopAt j⟩ :=
    lexes.sheet.spanOf_between lt within
  have text : lexes.sheet.text = text.toList := rfl
  rw [span, Span.snippet?, Sheet.written, text, slice]
  rfl

/-- A piece of a text that is cut out of it has the same tokens as there. -/
theorem Lexes.written (lt : i < j) (within : j ≤ lexes.sheet.length) :
    ∃ moved, SqlTree.tokenize rules (lexes.sheet.written i j) = .ok moved ∧
      List.Forall₂ Token.Like ((tokens.take j).drop i ++ [eof]) moved := by
  obtain ⟨written, slice, piece⟩ := lexes.sliced lt within
  obtain ⟨moved, last, again, like⟩ := piece .start
  have text : lexes.sheet.written i j = String.ofList written :=
    congrArg (fun piece => String.ofList (Option.getD piece [])) slice
  have lexed : Lexes rules (.ofText (lexes.sheet.written i j).toList) moved (.ok last) := by
    rw [text, String.toList_ofList]
    exact again
  refine ⟨moved ++ [last], lexed.tokenize, ?_⟩
  exact List.rel_append (like.imp fun _ _ moved => moved.toLike) (.cons (lexes.eof_like lexed) .nil)

end

section

variable (lexes : Lexes rules (.ofText text.toList) tokens (.ok eof))
  (lexes' : Lexes rules (.ofText text'.toList) tokens' (.ok eof')) {i j : Nat}

include lexes lexes'

/-- Tokens with the same number are paired. -/
theorem Lexes.zip_tokenAt (length : tokens'.length = tokens.length) (hi : i ≤ tokens.length) :
    (lexes.sheet.tokenAt i, lexes'.sheet.tokenAt i) ∈
      (tokens ++ [eof]).zip (tokens' ++ [eof']) := by
  rw [List.zip_append length.symm, List.mem_append]
  rcases Nat.lt_or_eq_of_le hi with lt | rfl
  · have lt' : i < tokens'.length := length ▸ lt
    rw [lexes.sheet.tokenAt_of_lt lt, lexes'.sheet.tokenAt_of_lt lt']
    refine .inl (List.mem_iff_getElem.mpr ⟨i, ?_, List.getElem_zip⟩)
    rw [List.length_zip]
    exact Nat.lt_min.mpr ⟨lt, lt'⟩
  · have ends : lexes.sheet.tokenAt tokens.length = eof := lexes.sheet.tokenAt_length
    have ends' : lexes'.sheet.tokenAt tokens.length = eof' := by
      rw [← length]
      exact lexes'.sheet.tokenAt_length
    rw [ends, ends']
    exact .inr List.mem_cons_self

/-- What is cut out between corresponding tokens has the same tokens. -/
theorem Lexes.written_same (like : List.Forall₂ Token.Like tokens tokens') (lt : i < j)
    (within : j ≤ tokens.length) :
    SameTokens rules (lexes.sheet.written i j) (lexes'.sheet.written i j) := by
  have within' : j ≤ tokens'.length := like.length_eq ▸ within
  obtain ⟨moved, lexed, alike⟩ := lexes.written lt within
  obtain ⟨moved', lexed', alike'⟩ := lexes'.written lt within'
  have between : List.Forall₂ Token.Like ((tokens.take j).drop i ++ [eof])
      ((tokens'.take j).drop i ++ [eof']) :=
    List.rel_append (List.forall₂_drop i (List.forall₂_take j like))
      (.cons (lexes.eof_like lexes') .nil)
  exact ⟨moved, moved', lexed, lexed', likes_trans (likes_symm alike) (likes_trans between alike')⟩

end

/-- Two texts with the same tokens face each other, token by token. -/
def Lexes.facing (lexes : Lexes rules (.ofText text.toList) tokens (.ok eof))
    (lexes' : Lexes rules (.ofText text'.toList) tokens' (.ok eof'))
    (like : List.Forall₂ Token.Like tokens tokens') :
    Facing (.layout rules text text' (tokens ++ [eof]) (tokens' ++ [eof'])) where
  left := lexes.sheet
  right := lexes'.sheet
  exact := True
  tokens := like
  isEof := lexes.eof_of_ok
  closing := .inl (lexes.eof_like lexes')
  start _ hi := .inl ⟨_, _, lexes.zip_tokenAt lexes' like.length_eq.symm hi, rfl, rfl⟩
  stop i hi j hj := by
    have length := like.length_eq
    have hi' : i ≤ tokens'.length := length ▸ hi
    have hj' : j ≤ tokens'.length := length ▸ hj
    rw [lexes.later_eq hi hj, lexes'.later_eq hi' hj']
    split
    · obtain ⟨j, rfl⟩ := Nat.exists_eq_succ_of_ne_zero (by omega : j ≠ 0)
      exact .inr ⟨_, _, lexes.zip_tokenAt lexes' length.symm (Nat.le_of_succ_le hj),
        lexes.sheet.stopAt_succ hj, lexes'.sheet.stopAt_succ hj'⟩
    · exact .inl ⟨_, _, lexes.zip_tokenAt lexes' length.symm hi, rfl, rfl⟩
  written words h i j written := by
    have within : j ≤ tokens.length := written.within
    have within' : j ≤ tokens'.length := like.length_eq ▸ within
    have lt := written.encloses.lt.1
    refine ⟨⟨h, i, j, written.append [eof], ?_, ?_⟩, lexes.written_same lexes' like lt within⟩
    · rw [List.take_append_of_le_length within]
      exact lexes.snippet_between lt within
    · rw [List.take_append_of_le_length within']
      exact lexes'.snippet_between lt within'

/-- Failures at the same token are errors at it. -/
theorem Failure.Like.outcome {L : Likeness} {texts : Facing L} {failure failure' : Failure}
    (like : failure.Like texts failure') (exact : texts.exact)
    (starts : ∀ i ≤ texts.left.length,
      FacingStarts tokens tokens' (texts.left.startAt i) (texts.right.startAt i)) :
    SameOutcome rules text text' tokens tokens' (.error (.ofFailure failure))
      (.error (.ofFailure failure')) := by
  cases like with
  | mismatch like =>
    obtain ⟨hi⟩ | inexact := like
    case any => exact absurd exact inexact
    exact .malformed rfl rfl rfl rfl rfl rfl rfl (starts _ hi)
  | tooDeep hi => exact .malformed rfl rfl rfl rfl rfl rfl rfl (starts _ hi)

/-- A dialect refuses the kinds of models that it has not. -/
theorem Dialect.parse_unsupported {d : Dialect} {kind : ModelKind} (missing : ¬ d.supports kind)
    (text : String) :
    d.parse kind text =
      .error (.unsupported s!"dialect {d.name} does not support {kind.name} models") := by
  have found : AnalysisCase.find d kind = .error _ := dif_neg missing
  rw [Dialect.parse, found]

theorem Dialect.supports_of_parse {d : Dialect} {kind : ModelKind} {text : String} {m : Model}
    (parsed : d.parse kind text = .ok m) : d.supports kind := by
  by_contra missing
  rw [Dialect.parse_unsupported missing] at parsed
  cases parsed

/-- Layout never changes what a text means. -/
theorem Dialect.parse_layout (d : Dialect) (kind : ModelKind)
    (lexed : tokenize d.lexical text = .ok tokens) (lexed' : tokenize d.lexical text' = .ok tokens')
    (alike : List.Forall₂ Token.Like tokens tokens') :
    SameOutcome d.lexical text text' tokens tokens' (d.parse kind text) (d.parse kind text') := by
  by_cases supported : d.supports kind
  · obtain ⟨front, eof, rfl, lexes⟩ := lexes_of_tokenize lexed
    obtain ⟨front', eof', rfl, lexes'⟩ := lexes_of_tokenize lexed'
    have like : List.Forall₂ Token.Like front front' := by
      have shorter := List.forall₂_take front.length alike
      have length := alike.length_eq
      simp only [List.length_append, List.length_singleton, Nat.add_right_cancel_iff] at length
      rwa [List.take_left' rfl, List.take_left' length.symm] at shorter
    let texts := lexes.facing lexes' like
    have abreast : (Tape.ofText text.toList front (.ok eof)).Abreast texts 0
        (.ofText text'.toList front' (.ok eof')) :=
      ⟨lexes.at_start, lexes'.at_start, rfl, fun _ => .none⟩
    have closed : texts.Closed := lexes.eof_like lexes'
    have run : Matches texts (sqlLevels d.features maxNesting) (entry d.features kind).run
        (Model.Like _) := (entry_matches closed kind).run closed
    have echoes := run 0 _ _ abreast
    rw [Dialect.parse_eq_read supported lexes, Dialect.parse_eq_read supported lexes']
    generalize (entry d.features kind).run.read _ _ = reading at echoes ⊢
    generalize (entry d.features kind).run.read _ _ = reading' at echoes ⊢
    cases echoes with
    | ok _ same => exact .ok same
    | error failures => exact failures.outcome trivial fun i hi =>
        ⟨_, _, lexes.zip_tokenAt lexes' like.length_eq.symm hi, rfl, rfl⟩
  · rw [Dialect.parse_unsupported supported, Dialect.parse_unsupported supported]
    exact .unsupported _

/-- White space and a comment between the tokens of a product. -/
theorem Dialect.sqlite_product_layout : ∃ tokens tokens',
    tokenize Dialect.sqlite.lexical "-a*2" = .ok tokens ∧
    tokenize Dialect.sqlite.lexical "- a/**/* 2" = .ok tokens' ∧
    List.Forall₂ Token.Like tokens tokens' ∧
    SameOutcome Dialect.sqlite.lexical "-a*2" "- a/**/* 2" tokens tokens'
      (Dialect.sqlite.parse .expression "-a*2") (Dialect.sqlite.parse .expression "- a/**/* 2") := by
  let tokens : List Token :=
    [⟨.minus, "-", ⟨⟨0, 1, 1⟩, ⟨1, 1, 2⟩⟩⟩, ⟨.identifier "a", "a", ⟨⟨1, 1, 2⟩, ⟨2, 1, 3⟩⟩⟩,
      ⟨.star, "*", ⟨⟨2, 1, 3⟩, ⟨3, 1, 4⟩⟩⟩, ⟨.integer 2, "2", ⟨⟨3, 1, 4⟩, ⟨4, 1, 5⟩⟩⟩,
      ⟨.eof, "", ⟨⟨4, 1, 5⟩, ⟨4, 1, 5⟩⟩⟩]
  let tokens' : List Token :=
    [⟨.minus, "-", ⟨⟨0, 1, 1⟩, ⟨1, 1, 2⟩⟩⟩, ⟨.identifier "a", "a", ⟨⟨2, 1, 3⟩, ⟨3, 1, 4⟩⟩⟩,
      ⟨.star, "*", ⟨⟨7, 1, 8⟩, ⟨8, 1, 9⟩⟩⟩, ⟨.integer 2, "2", ⟨⟨9, 1, 10⟩, ⟨10, 1, 11⟩⟩⟩,
      ⟨.eof, "", ⟨⟨10, 1, 11⟩, ⟨10, 1, 11⟩⟩⟩]
  have lexed : tokenize Dialect.sqlite.lexical "-a*2" = .ok tokens := rfl
  have lexed' : tokenize Dialect.sqlite.lexical "- a/**/* 2" = .ok tokens' := rfl
  have alike : List.Forall₂ Token.Like tokens tokens' :=
    .cons ⟨rfl, rfl⟩ (.cons ⟨rfl, rfl⟩ (.cons ⟨rfl, rfl⟩ (.cons ⟨rfl, rfl⟩ (.cons ⟨rfl, rfl⟩ .nil))))
  exact ⟨tokens, tokens', lexed, lexed', alike,
    Dialect.parse_layout Dialect.sqlite .expression lexed lexed' alike⟩

end

end SqlTree
