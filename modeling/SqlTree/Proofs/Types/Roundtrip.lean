import SqlTree.Proofs.Types.Reread
import SqlTree.Proofs.Types.Texts

namespace SqlTree

open Rule SqlRule

section

variable {rules : LexicalRules} {p q a b : Position} {written : List Char} {t : Token}
  {used moved tokens : List Token} {word : String} {isFirst : Bool}

/-- Where moved tokens end is moved with them. -/
theorem moved_endBehind (all : List.Forall₂ (Token.Moved p q written) used moved)
    (start : Position.Moved p q written a b) :
    Position.Moved p q written (endBehind a used) (endBehind b moved) := by
  induction all generalizing a b with
  | nil => exact start
  | cons first _ ih =>
    rw [endBehind_cons, endBehind_cons]
    exact ih first.stop

/-- A piece of a text alone, from the start of its first token to the end of its last one. -/
theorem Piece.alone {part : String} (piece : Piece rules t.span.start part.toList (t :: used))
    (stop : endBehind t.span.stop used = t.span.start.afterAll part.toList) :
    ∃ tokens eof, ∃ alone : Lexes rules (.ofText part.toList) tokens (.ok eof),
      List.Forall₂ Token.Like (t :: used) tokens ∧ (alone.sheet.startAt 0).offset = 0 ∧
        alone.sheet.written 0 tokens.length = part := by
  obtain ⟨moved, eof, alone, likes⟩ := piece .start
  obtain ⟨t', rest, first, others, rfl⟩ := List.forall₂_cons_left_iff.mp likes
  have offset {a b : Position} (moved : Position.Moved t.span.start .start part.toList a b) :
      a.offset = t.span.start.offset + b.offset := by
    obtain ⟨read, -, rfl, rfl⟩ := moved
    simp [Position.afterAll_offset, Position.start]
  have starts : (alone.sheet.startAt 0).offset = 0 := by
    have := offset first.start
    change t'.span.start.offset = 0
    omega
  have stops : (alone.sheet.stopAt (t' :: rest).length).offset = byteSize part.toList := by
    have := offset (moved_endBehind others first.stop)
    rw [stop, Position.afterAll_offset] at this
    change (endBehind .start ((t' :: rest).take (t' :: rest).length)).offset = _
    rw [List.take_length, endBehind_cons]
    omega
  have whole : sliceBytes part.toList 0 (byteSize part.toList) = some part.toList := by
    simpa using sliceBytes_append [] part.toList []
  refine ⟨t' :: rest, eof, alone, likes.imp fun _ _ moved => moved.toLike, starts, ?_⟩
  rw [Sheet.written, starts, stops]
  change String.ofList ((sliceBytes part.toList 0 _).getD []) = part
  rw [whole, Option.getD_some, String.ofList_toList]

/-- A parenthesis that is the first token of a text and has no layout in front of it is its first character.
-/
theorem Lexes.head_leftParen {text : String} {stop : Except LexError Token}
    (lexes : Lexes rules (.ofText text.toList) (t :: tokens) stop) (left : t.kind = .leftParen)
    (start : t.span.start.offset = 0) : text.toList.head? = some '(' := by
  cases lexes with
  | token next =>
    obtain ⟨layout, read, split, written, span, -⟩ := nextToken_ok next
    rw [nextToken_leftParen next left] at written
    obtain rfl : ['('] = read := by simpa using congrArg String.toList written
    have noLayout : layout = [] := by
      by_contra some
      have := byteSize_pos some
      rw [span, Position.afterAll_offset] at start
      omega
    subst noLayout
    have split : text.toList = '(' :: _ := split
    rw [split, List.head?_cons]

/-- Words of a type are words or quoted names. -/
theorem Token.isWord_of_typeWord? (found : t.typeWord? isFirst = some word) : t.kind.isWord = true := by
  rcases t with ⟨kind, text, span⟩
  cases kind with
  | identifier | keyword => rfl
  | _ => cases found

/-- Only the first word of a type may be quoted. -/
theorem Token.isQuoted_of_typeWord? (found : t.typeWord? false = some word) : t.isQuoted = false := by
  rcases t with ⟨kind, text, span⟩
  cases kind with
  | identifier name =>
    refine Bool.eq_false_iff.mpr fun quoted => ?_
    simp [Token.typeWord?, quoted] at found
  | _ => rfl

/-- Between quotes, the first word of a type is the name that the token is. -/
theorem Token.kind_of_quoted (quoted : t.isQuoted = true) (found : t.typeWord? true = some word) :
    t.kind = .identifier word := by
  rcases t with ⟨kind, text, span⟩
  cases kind with
  | identifier name =>
    rw [Token.typeWord?, quoted] at found
    exact congrArg _ (Option.some.inj found)
  | _ => cases quoted

/-- The word of a type that is not between quotes is the text of its token. -/
theorem Token.typeWord?_bare (fits : (Sign.bare rules t.text).Fits t) (bare : t.isQuoted = false)
    (found : t.typeWord? isFirst = some word) : word = t.text ∧ isTypeWord word = true := by
  have same := fits.kind
  rcases Sign.bare_kind rules t.text with kind | ⟨k, named, kind⟩
  · rw [kind] at same
    rw [Token.typeWord?, same, bare] at found
    obtain ⟨known, rfl⟩ := Option.ite_some_none_eq_some.mp found
    exact ⟨rfl, known⟩
  · rw [kind] at same
    rw [Token.typeWord?, same] at found
    obtain ⟨known, rfl⟩ := Option.ite_some_none_eq_some.mp found
    exact ⟨rfl, by rwa [isTypeWord, (classify?_eq_some.mp named).1]⟩

/-- A word that may stand in a type without quotes. -/
def isBareTypeWord (word : String) : Bool := isBareWord word && isTypeWord word

/-- A word that may stand in a type without quotes is scanned as this word. -/
theorem Sign.Fits.typeWord? (fits : (Sign.bare rules word).Fits t) (known : isTypeWord word = true)
    (isFirst : Bool) : t.typeWord? isFirst = some word := by
  have text : t.text = word := fits.text
  rcases Sign.bare_kind rules word with kind | ⟨k, named, kind⟩
  · have bare : t.isQuoted = false := by
      rw [Token.isQuoted, fits.kind, kind, text]
      exact bne_self_eq_false' word
    rw [Token.typeWord?, fits.kind, kind, bare]
    simp [known]
  · rw [isTypeWord, (classify?_eq_some.mp named).1] at known
    rw [Token.typeWord?, fits.kind, kind, text]
    simp only [known, if_true]

/-- The further words of a type can be written without quotes. -/
theorem Lexes.furtherWords {c : Cursor} {stop : Except LexError Token} (lexes : Lexes rules c tokens stop)
    (mem : ∀ t ∈ used, t ∈ tokens) {words : List String} (further : FurtherWords used words) :
    ∀ word ∈ words, isBareTypeWord word = true := by
  induction further with
  | nil => nofun
  | cons found _ ih =>
    obtain ⟨first, others⟩ := List.forall_mem_cons.mp mem
    have plain := Token.isQuoted_of_typeWord? found
    obtain ⟨letters, fits⟩ := lexes.bare _ first (Token.isWord_of_typeWord? found) plain
    obtain ⟨rfl, known⟩ := Token.typeWord?_bare fits plain found
    exact List.forall_mem_cons.mpr ⟨by rw [isBareTypeWord, letters, known]; rfl, ih others⟩

/-- Written without quotes, the further words of a type are words of a type again. -/
theorem furtherWords_of_fits {words : List String} (legible : ∀ word ∈ words, isBareTypeWord word = true)
    (fits : List.Forall₂ Sign.Fits (words.map (Sign.bare rules)) used) : FurtherWords used words := by
  induction words generalizing used with
  | nil =>
    cases fits
    exact .nil
  | cons word words ih =>
    obtain ⟨known, others⟩ := List.forall_mem_cons.mp legible
    cases fits with
    | cons first rest =>
      exact .cons (first.typeWord? (Bool.and_eq_true_iff.mp known).2 false) (ih others rest)

/-- The words of a type, of which the first one begins it. -/
theorem typeWords_of_fits {words : List String} (first : isBareTypeWord word = true)
    (others : ∀ word ∈ words, isBareTypeWord word = true)
    (fits : List.Forall₂ Sign.Fits ((word :: words).map (Sign.bare rules)) used) :
    ∃ t further, used = t :: further ∧ t.typeWord? true = some word ∧ FurtherWords further words := by
  cases fits with
  | cons head rest =>
    exact ⟨_, _, rfl, head.typeWord? (Bool.and_eq_true_iff.mp first).2 true, furtherWords_of_fits others rest⟩

end

section

variable {rules : LexicalRules} {rest : List Char} {word : String} {words : List String}

/-- Words with blanks between them are scanned as these words, if nothing else makes the last one longer. -/
theorem tight_joined (standard : rules.Standard) (breaks : Breaks rest) (first : isBareWord word = true)
    (legible : ∀ word ∈ words, isBareTypeWord word = true) :
    Tight rules rest ((word :: words).map (Sign.bare rules)) ((joined word words).toList ++ rest) := by
  have behind : Breaks (words.flatMap (' ' :: ·.toList) ++ rest) ∧ Tight rules rest
      (words.map (Sign.bare rules)) (words.flatMap (' ' :: ·.toList) ++ rest) := by
    induction words with
    | nil => exact ⟨breaks, .nil⟩
    | cons word words ih =>
      obtain ⟨known, others⟩ := List.forall_mem_cons.mp legible
      obtain ⟨ends, tight⟩ := ih others
      have blank : ∀ c ∈ [' '], isWhiteSpace c = true := by
        simp only [List.mem_singleton, forall_eq]
        rfl
      have scans := scans_bare standard (Bool.and_eq_true_iff.mp known).1 ends
      rw [List.flatMap_cons, List.cons_append, List.cons_append, List.append_assoc]
      exact ⟨breaks_blank _, .sign blank scans tight⟩
  have noGap : ∀ c ∈ ([] : List Char), isWhiteSpace c = true := nofun
  rw [joined_toList, List.append_assoc]
  exact .sign noGap (scans_bare standard first behind.1) behind.2

end

/-- Arguments of a type as they are written, from the parenthesis that opens them to the one that closes it. -/
def Bracketed (rules : LexicalRules) (written : String) : Prop :=
  written.toList.head? = some '(' ∧ ∃ t args eof,
    ∃ alone : Lexes rules (.ofText written.toList) (t :: args) (.ok eof), t.kind = .leftParen ∧
      Enclosed 0 (t :: args) ∧ alone.sheet.written 0 (t :: args).length = written

/-- A type by words that need no quotes, perhaps with arguments behind them. -/
inductive DataType.Worded (rules : LexicalRules) : DataType → Prop
  | words {first words} : argumentsOf first = .verbatim → isBareTypeWord first = true →
      (∀ word ∈ words, isBareTypeWord word = true) → Worded rules (.custom (joined first words))
  | arguments {first words written} : argumentsOf first = .verbatim → isBareTypeWord first = true →
      (∀ word ∈ words, isBareTypeWord word = true) → Bracketed rules written →
      Worded rules (.custom (joined first words ++ written))

/-- Where a text begins with a name between quotes, it is one that all dialects give a type, or one that
could begin a type without the quotes. -/
def BeginsPlain (rules : LexicalRules) (text : String) : Prop :=
  ∀ t after name, nextToken rules (.ofText text.toList) = (.ok t, after) → t.kind = .identifier name →
    t.isQuoted = true → DataType.argumentsOf name = .verbatim → isBareTypeWord name = true

namespace Dialect

section

variable {d : Dialect} {limit : Nat} {type : DataType}

/-- A rule that consumes all tokens of a text takes it. -/
theorem takes_of_comes {α : Type} {rule : SqlRule α} {value : α} {text : String} {tokens : List Token}
    {eof : Token} (lexes : Lexes d.lexical (.ofText text.toList) tokens (.ok eof))
    (comes : rule.Comes (sqlLevels d.features limit) lexes.sheet 0 value lexes.sheet.length) :
    d.Takes limit rule text value := by
  obtain ⟨_, after, read, rfl, there, -⟩ := comes _ lexes.at_start
  refine takes_of_read lexes read ?_
  have left := there.tokens
  rw [Sheet.length, List.drop_length] at left
  exact left

/-- A type that all dialects share is taken for what it is. -/
theorem takes_legible (builtin : d ∈ Dialect.builtin) (legible : type.Legible) :
    d.Takes limit dataType type.sql type := by
  obtain ⟨tokens, eof, lexes, fits⟩ := (tight_type (Dialect.standard_of_builtin builtin) legible).whole
  have offers : Offers tokens (type.signs d.lexical ++ []) (.ofText type.sql.toList tokens (.ok eof)) := by
    rw [List.append_nil]
    exact ⟨lexes.along, rfl, ⟨eof, rfl⟩, fits, numbered_type d.lexical type 1⟩
  obtain ⟨_, after, read, rfl, left⟩ : dataType.Succeeds (sqlLevels d.features limit)
      (.ofText type.sql.toList tokens (.ok eof)) fun v after => v = type ∧ after.tokens = [] :=
    offers.dataType legible rfl rfl fun after offers => ⟨rfl, List.forall₂_nil_left_iff.mp offers.fits⟩
  exact takes_of_read lexes read left

section

variable {word written : String} {words : List String}

/-- A type by words alone is taken for what it is. -/
theorem takes_words (builtin : d ∈ Dialect.builtin) (verbatim : DataType.argumentsOf word = .verbatim)
    (first : isBareTypeWord word = true) (others : ∀ word ∈ words, isBareTypeWord word = true) :
    d.Takes limit dataType (joined word words) (.custom (joined word words)) := by
  have tight : Tight d.lexical [] _ ((joined word words).toList ++ []) :=
    tight_joined (Dialect.standard_of_builtin builtin) nofun (Bool.and_eq_true_iff.mp first).1 others
  rw [List.append_nil] at tight
  obtain ⟨tokens, eof, lexes, fits⟩ := tight.whole
  obtain ⟨t, further, rfl, found, known⟩ := typeWords_of_fits first others fits
  have behind : (customType word).Comes (sqlLevels d.features limit) lexes.sheet 1
      (.custom (joined word words)) (1 + further.length) :=
    comes_words known word rfl (lexes.eof_of_ok : lexes.sheet.closing.isEof = true)
  rw [Nat.add_comm 1] at behind
  exact takes_of_comes lexes (comes_dataType (Nat.succ_pos _) found verbatim behind)

/-- A type with arguments behind its words is taken for what it is. -/
theorem takes_arguments (builtin : d ∈ Dialect.builtin) (verbatim : DataType.argumentsOf word = .verbatim)
    (first : isBareTypeWord word = true) (others : ∀ word ∈ words, isBareTypeWord word = true)
    (bracketed : Bracketed d.lexical written) :
    d.Takes limit dataType (joined word words ++ written) (.custom (joined word words ++ written)) := by
  obtain ⟨opens, t', args, eof, alone, left, enclosed, whole⟩ := bracketed
  have breaks : Breaks written.toList := by
    intro c begins
    obtain rfl := Option.some.inj (opens.symm.trans begins)
    exact .inr (by decide)
  have cut : (joined word words ++ written).toList = (joined word words).toList ++ (written.toList ++ []) := by
    rw [String.toList_append, List.append_nil]
  obtain ⟨read, split, behind⟩ :=
    (tight_joined (Dialect.standard_of_builtin builtin) breaks (Bool.and_eq_true_iff.mp first).1 others).lexes
  obtain rfl := List.append_cancel_right split
  obtain ⟨_, eof', behind', likes, -⟩ := alone.moved (Position.start.afterAll (joined word words).toList)
  obtain ⟨t'', args', like, -, rfl⟩ := List.forall₂_cons_left_iff.mp likes
  obtain ⟨used, lexes, fits⟩ := behind behind'
  obtain ⟨t, further, rfl, found, known⟩ := typeWords_of_fits first others fits
  have lexes : Lexes d.lexical (.ofText (joined word words ++ written).toList)
      ((t :: further) ++ (t'' :: args')) (.ok eof') := by
    rw [String.toList_append]
    exact lexes
  have stands := lexes.stands alone cut (congrArg _ (List.append_nil _).symm) likes
  have starts : 1 + further.length = (t :: further).length + 0 := Nat.add_comm ..
  have stops : 1 + (further ++ t'' :: args').length = (t :: further).length + (t' :: args).length := by
    rw [likes.length_eq, List.length_append, ← Nat.add_assoc, starts, Nat.add_zero]
  have ends : 1 + (further ++ t'' :: args').length = lexes.sheet.length := Nat.add_comm ..
  have same : lexes.sheet.written (1 + further.length) (1 + (further ++ t'' :: args').length) = written := by
    rw [starts, stops]
    exact (stands.written 0 _ (Nat.succ_pos args.length) (Nat.le_refl _)).trans whole
  have behind : (customType word).Comes (sqlLevels d.features limit) lexes.sheet 1
      (.custom (joined word words ++ lexes.sheet.written (1 + further.length)
        (1 + (further ++ t'' :: args').length))) (1 + (further ++ t'' :: args').length) :=
    comes_arguments known word rfl (like.kind.trans left)
      (enclosed.like (likes.imp fun _ _ moved => moved.toLike))
  rw [same, ends] at behind
  exact takes_of_comes lexes (comes_dataType (Nat.succ_pos _) found verbatim behind)

end

/-- A type by words is taken for what it is. -/
theorem takes_worded (builtin : d ∈ Dialect.builtin) (worded : type.Worded d.lexical) :
    d.Takes limit dataType type.sql type := by
  cases worded with
  | words verbatim first others => exact takes_words builtin verbatim first others
  | arguments verbatim first others bracketed =>
    exact takes_arguments builtin verbatim first others bracketed

/-- A type is one that all dialects share, or it is said by words that need no quotes. -/
theorem legible_or_worded {text : String} (gives : (dataType.evalWithin limit d.lexical d.features
      (.ofText text.toList)).1 = .ok type) (plain : BeginsPlain d.lexical text) :
    type.Legible ∨ type.Worded d.lexical := by
  obtain ⟨tokens, stop, lexes⟩ := lexes_exists d.lexical (.ofText text.toList)
  have agrees := dataType.eval_tracks (levels_agree d.lexical (Symbol.body d.features) limit)
    (tapeLevels_forward _ limit) (tracks_ofText lexes)
  have read : dataType.read (sqlLevels d.features limit) (.ofText text.toList tokens stop) =
      (.ok type, _) := Prod.ext (agrees.result.symm.trans gives) rfl
  rcases dataType_reads lexes.along type _ read with legible | ⟨t, first, mid, shown, found, verbatim, moves, written⟩
  · exact .inl legible
  refine .inr ?_
  have split : tokens = t :: mid.tokens := moves.tokens
  subst split
  have begins : isBareTypeWord first = true := by
    cases quoted : t.isQuoted with
    | true =>
      cases lexes with
      | token next => exact plain t _ first next (Token.kind_of_quoted quoted found) quoted verbatim
    | false =>
      obtain ⟨letters, fits⟩ := lexes.bare t List.mem_cons_self (Token.isWord_of_typeWord? found) quoted
      obtain ⟨rfl, known⟩ := Token.typeWord?_bare fits quoted found
      rw [isBareTypeWord, letters, known]
      rfl
  cases written with
  | @words used words after known moves' =>
    have split : mid.tokens = used ++ _ := moves'.tokens
    refine .words verbatim begins (lexes.furtherWords (fun u mem => ?_) known)
    rw [split]
    exact List.mem_cons_of_mem _ (List.mem_append_left _ mem)
  | @arguments used words t' args after known left enclosed moves' =>
    have split : mid.tokens = used ++ t' :: args ++ _ := moves'.tokens
    have others := lexes.furtherWords (fun u mem => by
      rw [split]
      exact List.mem_cons_of_mem _ (List.mem_append_left _ (List.mem_append_left _ mem))) known
    refine .arguments verbatim begins others ?_
    rw [split, List.append_assoc, List.cons_append, ← List.cons_append] at lexes
    obtain ⟨written, slice, stops, piece⟩ := lexes.slice
    have same : mid.text = text.toList := moves.text
    rw [same, slice, Option.getD_some]
    rw [← String.toList_ofList (l := written)] at piece stops
    obtain ⟨_, eof, alone, likes, starts, whole⟩ := piece.alone stops
    obtain ⟨t'', rest, like, -, rfl⟩ := List.forall₂_cons_left_iff.mp likes
    have left' := like.kind.trans left
    exact ⟨alone.head_leftParen left' starts, t'', rest, eof, alone, left', enclosed.like likes, whole⟩

/-- The text of a type is taken for the same type, all of it, wherever the type was read from a text that
begins with no name that needs its quotes. -/
theorem dataType_sql (builtin : d ∈ Dialect.builtin) {text : String}
    (gives : (d.eval dataType (.ofText text.toList)).1 = .ok type) (plain : BeginsPlain d.lexical text) :
    d.Takes maxNesting dataType type.sql type := by
  rcases legible_or_worded gives plain with legible | worded
  · exact takes_legible builtin legible
  · exact takes_worded builtin worded

/-- White space and a comment between the words of a type are left out of it. -/
theorem sqlite_dataType_sql :
    (Dialect.sqlite.eval dataType (.ofText "unsigned  Big/**/INT (3 , 'x') y".toList)).1 =
      .ok (.custom "unsigned Big INT(3 , 'x')") ∧
    Dialect.sqlite.Takes maxNesting dataType (DataType.custom "unsigned Big INT(3 , 'x')").sql
      (.custom "unsigned Big INT(3 , 'x')") := by
  have gives : (Dialect.sqlite.eval dataType (.ofText "unsigned  Big/**/INT (3 , 'x') y".toList)).1 =
      .ok (.custom "unsigned Big INT(3 , 'x')") := by decide +kernel
  have bare : (nextToken Dialect.sqlite.lexical (.ofText "unsigned  Big/**/INT (3 , 'x') y".toList)).1.toOption.all
      (!·.isQuoted) = true := by decide +kernel
  have plain : BeginsPlain Dialect.sqlite.lexical "unsigned  Big/**/INT (3 , 'x') y" := by
    intro t after name next _ quoted _
    rw [next] at bare
    simp [Except.toOption, quoted] at bare
  have builtin : Dialect.sqlite ∈ Dialect.builtin := by decide
  exact ⟨gives, Dialect.dataType_sql builtin gives plain⟩

/-- A type whose first word is between quotes loses them in its text, which the rule then refuses. -/
theorem sqlite_dataType_sql_refused :
    (Dialect.sqlite.eval dataType (.ofText "\"select\"".toList)).1 = .ok (.custom "select") ∧
      ¬ ∃ type, Dialect.sqlite.Takes maxNesting dataType (DataType.custom "select").sql type := by
  refine ⟨by decide +kernel, ?_⟩
  have refused : (dataType.evalWithin maxNesting Dialect.sqlite.lexical Dialect.sqlite.features
      (.ofText (DataType.custom "select").sql.toList)).1.toOption = none := by decide +kernel
  rintro ⟨type, st, eof, gives, -⟩
  rw [gives] at refused
  cases refused

end

end Dialect

end SqlTree
