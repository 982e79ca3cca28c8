import SqlTree.Dialect.Builtin
import SqlTree.Proofs.Lexing.Lossless

namespace SqlTree

/-- What a text begins with where an error of some kind is reported. -/
inductive LexErrorKind.Opens (rules : LexicalRules) : LexErrorKind → List Char → Prop
  | string {quote : Char} {more : List Char} : rules.isStringQuote quote = true →
      Opens rules .unterminatedString (quote :: more)
  | name {opening closing : Char} {more : List Char} : rules.closingQuote? opening = some closing →
      Opens rules .unterminatedQuotedIdentifier (opening :: more)
  | comment {more : List Char} : Opens rules .unterminatedComment ('/' :: '*' :: more)
  | blob {c : Char} {more : List Char} : c = 'X' ∨ c = 'x' →
      Opens rules .unterminatedBlob (c :: '\'' :: more)
  | wrongBlob {c : Char} {more : List Char} (fault : BlobFault) : c = 'X' ∨ c = 'x' →
      Opens rules (.invalidBlob fault) (c :: '\'' :: more)
  | number {c : Char} {more : List Char} {text : String} : c.isDigit = true →
      text.toList <+: c :: more → Opens rules (.invalidNumber text) (c :: more)
  | unexpected (c : Char) {more : List Char} : Opens rules (.unexpectedCharacter c) (c :: more)

/-- Characters of a string with escapes, behind its opening quote, that do not close it. -/
inductive InString (quote : Char) : List Char → Prop
  | nothing : InString quote []
  | doubled {more : List Char} : InString quote more → InString quote (quote :: quote :: more)
  | escape {c : Char} {value more : List Char} : unescape? c = some value →
      InString quote more → InString quote ('\\' :: c :: more)
  | plain {c : Char} {more : List Char} : c ≠ quote → c ≠ '\\' → InString quote more →
      InString quote (c :: more)

/-- Where an error is reported, if the token that cannot be read stands at `start`, with `behind` from
there on. -/
inductive LexError.Faces (rules : LexicalRules) (start : Position) : LexError → List Char → Prop
  | opening {kind : LexErrorKind} {behind : List Char} : kind.Opens rules behind →
      Faces rules start ⟨kind, start⟩ behind
  | escape {quote c : Char} {inside more : List Char} : rules.backslashEscapes = true →
      rules.isStringQuote quote = true → quote ≠ '\\' → InString quote inside → unescape? c = none →
      scanLayout rules.hashComments .gap (quote :: (inside ++ '\\' :: c :: more)) =
        ⟨0, [], quote :: (inside ++ '\\' :: c :: more)⟩ →
      Faces rules start ⟨.invalidEscape c, start.afterAll (quote :: inside)⟩
        (quote :: (inside ++ '\\' :: c :: more))

/-- A comment that the end of the text cuts off: either the one that is being read, or one that begins
behind complete layout. -/
theorem scanLayout_open {hash : Bool} {state : LayoutState} {cs : List Char}
    (unclosed : (scanLayout hash state cs).value ≠ 0) :
    (scanLayout hash state cs).rest = [] ∧
      ((∃ read, state = .block read ∧ (scanLayout hash state cs).value = read + cs.length) ∨
        ∃ gap body, cs = gap ++ '/' :: '*' :: body ∧ scanLayout hash state gap = ⟨0, gap, []⟩ ∧
          (scanLayout hash state cs).value = body.length + 2) := by
  fun_induction scanLayout hash state cs with
  | case1 => exact absurd rfl unclosed
  | case2 cs ih =>
    obtain ⟨rest, ⟨_, block, -⟩ | ⟨gap, body, rfl, layout, value⟩⟩ := ih unclosed
    · cases block
    · exact ⟨rest, .inr ⟨'-' :: '-' :: gap, body, rfl, by rw [scanLayout, layout]; rfl, value⟩⟩
  | case3 cs ih =>
    obtain ⟨rest, ⟨_, block, value⟩ | ⟨gap, body, rfl, layout, value⟩⟩ := ih unclosed
    · cases block
      exact ⟨rest, .inr ⟨[], cs, rfl, rfl, value.trans (Nat.add_comm 2 _)⟩⟩
    · exact ⟨rest, .inr ⟨'/' :: '*' :: gap, body, rfl, by rw [scanLayout, layout]; rfl, value⟩⟩
  | case4 c cs noLine noBlock white ih =>
    obtain ⟨rest, ⟨_, block, -⟩ | ⟨gap, body, rfl, layout, value⟩⟩ := ih unclosed
    · cases block
    · refine ⟨rest, .inr ⟨c :: gap, body, rfl, ?_, value⟩⟩
      rw [scanLayout, if_pos white, layout]
      · rfl
      · rintro _ rfl; exact absurd white (by decide)
      · rintro _ rfl; exact absurd white (by decide)
  | case5 c cs noLine noBlock noWhite comment ih =>
    obtain ⟨rest, ⟨_, block, -⟩ | ⟨gap, body, rfl, layout, value⟩⟩ := ih unclosed
    · cases block
    · obtain ⟨-, sharp⟩ := Bool.and_eq_true_iff.mp comment
      obtain rfl := beq_iff_eq.mp sharp
      refine ⟨rest, .inr ⟨'#' :: gap, body, rfl, ?_, value⟩⟩
      rw [scanLayout, if_neg noWhite, if_pos comment, layout]
      · rfl
      · rintro _ ⟨⟩
      · rintro _ ⟨⟩
  | case6 => exact absurd rfl unclosed
  | case7 => exact absurd rfl unclosed
  | case8 c cs ih =>
    obtain ⟨rest, ⟨_, block, -⟩ | ⟨gap, body, rfl, layout, value⟩⟩ := ih unclosed
    · split at block <;> cases block
    · exact ⟨rest, .inr ⟨c :: gap, body, rfl, by rw [scanLayout, layout]; rfl, value⟩⟩
  | case9 read => exact ⟨rfl, .inl ⟨read, rfl, rfl⟩⟩
  | case10 read cs ih =>
    obtain ⟨rest, ⟨_, block, -⟩ | ⟨gap, body, rfl, layout, value⟩⟩ := ih unclosed
    · cases block
    · exact ⟨rest, .inr ⟨'*' :: '/' :: gap, body, rfl, by rw [scanLayout, layout]; rfl, value⟩⟩
  | case11 read c cs noEnd ih =>
    obtain ⟨rest, ⟨_, block, value⟩ | ⟨gap, body, rfl, layout, value⟩⟩ := ih unclosed
    · cases block
      refine ⟨rest, .inl ⟨read, rfl, value.trans ?_⟩⟩
      rw [List.length_cons]
      omega
    · refine ⟨rest, .inr ⟨c :: gap, body, rfl, ?_, value⟩⟩
      rw [scanLayout, layout]
      · rfl
      · rintro tail rfl rfl
        exact noEnd _ rfl rfl

/-- An escape that stands for nothing behind some characters of a string is the one that is told. -/
theorem consString_escape {value : List Char} {c : Char} {count before : Nat}
    {result : Except StringFault (List Char)}
    (found : consString value count result = .error (.invalidEscape c before)) :
    ∃ left, result = .error (.invalidEscape c left) ∧ left + count = before := by
  rcases result with (_ | ⟨_, left⟩) | _
  · cases found
  · cases found
    exact ⟨left, rfl, rfl⟩
  · cases found

/-- An escape that stands for nothing is the end of what is read of its string. -/
theorem scanStringBody_escape {escapes : Bool} {quote c : Char} {cs : List Char} {before : Nat}
    (found : (scanStringBody escapes quote cs).value = .error (.invalidEscape c before)) :
    escapes = true ∧ quote ≠ '\\' ∧ unescape? c = none ∧ ∃ inside, inside.length = before ∧
      InString quote inside ∧ (scanStringBody escapes quote cs).text = inside ++ ['\\', c] := by
  fun_induction scanStringBody escapes quote cs generalizing before with
  | case1 => cases found
  | case2 => cases found
  | case3 => cases found
  | case4 cs ih =>
    obtain ⟨_, inner, rfl⟩ := consString_escape found
    obtain ⟨on, other, unknown, inside, rfl, part, text⟩ := ih inner
    exact ⟨on, other, unknown, quote :: quote :: inside, rfl, .doubled part,
      by simp only [Scan.behind, text, List.cons_append, List.nil_append]⟩
  | case5 => cases found
  | case6 b d cs other escaped value known ih =>
    obtain ⟨_, inner, rfl⟩ := consString_escape found
    obtain ⟨on, _, unknown, inside, rfl, part, text⟩ := ih inner
    obtain ⟨-, backslash⟩ := Bool.and_eq_true_iff.mp escaped
    obtain rfl := beq_iff_eq.mp backslash
    exact ⟨on, Ne.symm other, unknown, '\\' :: d :: inside, rfl, .escape known part,
      by simp only [Scan.behind, text, List.cons_append, List.nil_append]⟩
  | case7 b d cs other escaped unknown =>
    cases found
    obtain ⟨on, backslash⟩ := Bool.and_eq_true_iff.mp escaped
    obtain rfl := beq_iff_eq.mp backslash
    exact ⟨on, Ne.symm other, unknown, [], rfl, .nothing, rfl⟩
  | case8 b d cs other plain ih =>
    obtain ⟨_, inner, rfl⟩ := consString_escape found
    obtain ⟨on, noQuote, unknown, inside, rfl, part, text⟩ := ih inner
    have noBackslash : b ≠ '\\' := by
      rintro rfl
      exact plain (by simp [on])
    exact ⟨on, noQuote, unknown, b :: inside, rfl, .plain other noBackslash part,
      by simp only [Scan.behind, text, List.cons_append, List.nil_append]⟩

/-- Why the body of a blob cannot be read. -/
theorem scanHexDigits_fault {cs : List Char} {kind : LexErrorKind}
    (found : (scanHexDigits cs).value = .error kind) :
    kind = .unterminatedBlob ∨ kind = .invalidBlob .notHex := by
  fun_induction scanHexDigits cs with
  | case1 => exact .inl (Except.error.inj found).symm
  | case2 => cases found
  | case3 c cs other digit known ih =>
    cases inner : (scanHexDigits cs).value with
    | ok digits => simp [Scan.behind, inner, Except.map] at found
    | error fault =>
      simp only [Scan.behind, inner, Except.map, Except.error.injEq] at found
      exact ih (found ▸ inner)
  | case4 c cs other unknown white ih => exact ih found
  | case5 => exact .inr (Except.error.inj found).symm

/-- A fault of a token stands where the token begins, or it is an escape in a string. -/
theorem scanToken_fault {rules : LexicalRules} {cs : List Char} {fault : LexFault}
    (found : (scanToken rules cs).value = .error fault) :
    fault.before = 0 ∧ fault.kind.Opens rules cs ∨
      ∃ quote inside c, fault = ⟨.invalidEscape c, inside.length + 1⟩ ∧
        rules.backslashEscapes = true ∧ rules.isStringQuote quote = true ∧ quote ≠ '\\' ∧
        InString quote inside ∧ unescape? c = none ∧
        (scanToken rules cs).text = quote :: (inside ++ ['\\', c]) := by
  revert found
  fun_cases scanToken rules cs with
  | case1 => rintro ⟨⟩
  | case2 opening cs closing quoted =>
    intro found
    simp only [scanQuotedIdentifier, Scan.behind] at found
    split at found
    · cases found
    · cases found
      exact .inl ⟨rfl, .name quoted⟩
  | case3 quote cs unquoted string =>
    intro found
    simp only [scanString, Scan.behind] at found
    split at found
    · cases found
    · cases found
      exact .inl ⟨rfl, .string string⟩
    · next c before body =>
      cases found
      obtain ⟨on, other, unknown, inside, rfl, part, text⟩ := scanStringBody_escape body
      exact .inr ⟨quote, inside, c, rfl, on, string, other, part, unknown,
        by simp only [scanString, Scan.behind, text, List.cons_append, List.nil_append]⟩
  | case4 => rintro ⟨⟩
  | case5 c cs unquoted noString noSymbol letter =>
    intro found
    obtain ⟨more, rfl⟩ := List.head?_eq_some_iff.mp letter.2
    simp only [scanBlob, Scan.behind, List.drop_one, List.tail_cons] at found
    split at found
    · next kind digits =>
      cases found
      rcases scanHexDigits_fault digits with rfl | rfl
      · exact .inl ⟨rfl, .blob letter.1⟩
      · exact .inl ⟨rfl, .wrongBlob .notHex letter.1⟩
    · split at found
      · cases found
      · cases found
        exact .inl ⟨rfl, .wrongBlob .oddDigits letter.1⟩
  | case6 c cs unquoted noString noSymbol noBlob digit =>
    intro found
    have written : (String.ofList (NumberText.scan (c :: cs)).text).toList <+: c :: cs := by
      rw [String.toList_ofList]
      exact ⟨_, NumberText.scan_append (c :: cs)⟩
    have invalid : fault = ⟨.invalidNumber (String.ofList (NumberText.scan (c :: cs)).text), 0⟩ := by
      simp only [scanNumber, NumberText.value] at found
      split at found
      · exact (Except.error.inj found).symm
      · split at found
        · split at found
          · cases found
          · exact (Except.error.inj found).symm
        · cases found
    rw [invalid]
    exact .inl ⟨rfl, .number digit written⟩
  | case7 => rintro ⟨⟩
  | case8 c cs =>
    rintro ⟨⟩
    exact .inl ⟨rfl, .unexpected c⟩

section

variable {rules : LexicalRules} {c after : Cursor} {e : LexError} {tokens : List Token}
  {stop : Except LexError Token}

/-- Behind layout there stands what an error is about. -/
theorem nextToken_fault (next : nextToken rules c = (.error e, after)) :
    ∃ gap behind, c.rest = gap ++ behind ∧
      scanLayout rules.hashComments .gap gap = ⟨0, gap, []⟩ ∧
      e.Faces rules (c.position.afterAll gap) behind := by
  have outer : (scanLayout rules.hashComments .gap c.rest).text ++ _ = c.rest :=
    scanLayout_splits rules.hashComments .gap c.rest
  simp only [nextToken] at next
  split at next
  · next closed =>
    have layout := scanLayout_cut recasing_eq closed .nil
    rw [List.append_nil, Scan.followedBy, closed] at layout
    have inner := scanToken_splits rules (scanLayout rules.hashComments .gap c.rest).rest
    refine ⟨_, _, outer.symm, layout, ?_⟩
    split at next
    · cases next
    · next fault found =>
      cases next
      rcases scanToken_fault found with ⟨none, opens⟩ |
        ⟨quote, inside, b, rfl, on, string, other, part, unknown, text⟩
      · rw [none, List.take_zero, Position.afterAll_nil]
        exact .opening opens
      · rw [Scan.Splits, text] at inner
        have bare := scanLayout_rest closed
        rw [text, List.take_succ_cons, List.take_left]
        rw [← inner] at bare ⊢
        simp only [List.cons_append, List.append_assoc, List.nil_append] at bare ⊢
        exact .escape on string other part unknown bare
  · next unclosed =>
    cases next
    obtain ⟨rest, ⟨_, block, -⟩ | ⟨gap, body, whole, layout, value⟩⟩ := scanLayout_open unclosed
    · cases block
    · refine ⟨gap, _, whole, layout, ?_⟩
      rw [rest, List.append_nil] at outer
      have size : (gap ++ '/' :: '*' :: body).length - (body.length + 2) = gap.length := by
        simp only [List.length_append, List.length_cons]
        omega
      rw [outer, value, whole, size, List.take_left]
      exact .opening .comment

/-- The characters that tokens take, with the layout before them, have the same tokens in front of any
part of what follows. -/
theorem Lexes.upTo (lexes : Lexes rules c tokens stop) :
    ∃ written behind, c.rest = written ++ behind ∧
      endBehind c.position tokens = c.position.afterAll written ∧
      Lexes rules ⟨c.position.afterAll written, behind⟩ [] stop ∧
      ∀ kept later stop', kept <+: behind →
        Lexes rules ⟨c.position.afterAll written, kept⟩ later stop' →
        Lexes rules ⟨c.position, written ++ kept⟩ (tokens ++ later) stop' := by
  induction lexes with
  | eof next isEof => exact ⟨[], _, rfl, rfl, .eof next isEof, fun _ _ _ _ rest => rest⟩
  | fault next => exact ⟨[], _, rfl, rfl, .fault next, fun _ _ _ _ rest => rest⟩
  | @token c after t tokens stop next notEof _ ih =>
    obtain ⟨layout, text, cut⟩ := nextToken_cut next
    obtain ⟨written, behind, split, place, ended, upTo⟩ := ih
    have whole : c.position.afterAll (layout ++ (text ++ written)) =
        after.position.afterAll written := by
      rw [cut.place, ← Position.afterAll_append, List.append_assoc]
    refine ⟨layout ++ (text ++ written), behind, ?_, ?_, whole ▸ ended, ?_⟩
    · rw [cut.rest, split]
      simp only [List.append_assoc]
    · rw [whole, ← place, endBehind_cons, cut.span, cut.place]
    · intro kept later stop' less rest
      have first := cut.again layout (written ++ kept) c.position (.inl rfl)
        (split ▸ (List.prefix_append_right_inj written).mpr less)
      have same : t = ⟨t.kind, t.text, ⟨c.position.afterAll layout,
          c.position.afterAll (layout ++ text)⟩⟩ := by rw [← cut.span]
      rw [← same, ← cut.place] at first
      simp only [List.append_assoc]
      exact .token first notEof (upTo kept later stop' less (whole ▸ rest))

end

/-- Where a text has no tokens, the part of it in front of the first token that cannot be read has
exactly the tokens that were read before the error. Of what follows them, that token comes first but
for layout, and it begins as one of its kind does; the error is reported there, or if it is an escape
at the place within the string that begins there. -/
theorem tokenize_fault {rules : LexicalRules} {text : String} {e : LexError}
    (failed : tokenize rules text = .error e) :
    ∃ tokens read gap behind, text.toList = read ++ (gap ++ behind) ∧
      Lexes rules (.ofText text.toList) tokens (.error e) ∧
      endBehind .start tokens = endOfText read ∧ Layout rules.hashComments gap ∧
      tokenize rules (String.ofList (read ++ gap)) =
        .ok (tokens ++ [⟨.eof, "", ⟨endOfText (read ++ gap), endOfText (read ++ gap)⟩⟩]) ∧
      e.Faces rules (endOfText (read ++ gap)) behind := by
  obtain ⟨tokens, stop, lexes⟩ := lexes_exists rules (.ofText text.toList)
  rw [lexes.tokenize] at failed
  obtain rfl : stop = .error e := by
    cases stop with
    | error fault => exact congrArg Except.error (Except.error.inj failed)
    | ok eof => cases failed
  obtain ⟨read, rest, split, place, last, upTo⟩ := lexes.upTo
  cases last with
  | fault next =>
    obtain ⟨gap, behind, whole, layout, faces⟩ := nextToken_fault next
    simp only at whole
    subst whole
    have complete := scanLayout_completes (by rw [layout] :
      (scanLayout rules.hashComments .gap gap).value = 0)
    rw [layout] at complete
    have place' : (Cursor.ofText text.toList).position.afterAll (read ++ gap) =
      endOfText (read ++ gap) := rfl
    rw [← Position.afterAll_append, place'] at faces
    refine ⟨tokens, read, gap, behind, split, lexes, place, complete, ?_, faces⟩
    have ended : Lexes rules ⟨(Cursor.ofText text.toList).position.afterAll read, gap⟩ []
        (.ok ⟨.eof, "", ⟨endOfText (read ++ gap), endOfText (read ++ gap)⟩⟩) := by
      have next : nextToken rules ⟨(Cursor.ofText text.toList).position.afterAll read, gap⟩ =
          (.ok ⟨.eof, "", ⟨endOfText (read ++ gap), endOfText (read ++ gap)⟩⟩,
            ⟨endOfText (read ++ gap), []⟩) := by
        simp only [nextToken, layout, ← Position.afterAll_append, place']
        rfl
      exact .eof next rfl
    have cut := upTo gap [] _ (List.prefix_append ..) ended
    rw [List.append_nil] at cut
    have whole : Lexes rules (.ofText (String.ofList (read ++ gap)).toList) tokens
        (.ok ⟨.eof, "", ⟨endOfText (read ++ gap), endOfText (read ++ gap)⟩⟩) := by
      rw [String.toList_ofList]
      exact cut
    exact whole.tokenize

/-- In MySQL a letter that needs no escape must not be escaped; the name in front of the string is read. -/
theorem tokenize_fault_escape :
    tokenize Dialect.mysql.lexical "x 'a\\q'" = .error ⟨.invalidEscape 'q', ⟨4, 1, 5⟩⟩ ∧
    ∃ tokens read gap behind, "x 'a\\q'".toList = read ++ (gap ++ behind) ∧
      Lexes Dialect.mysql.lexical (.ofText "x 'a\\q'".toList) tokens
        (.error ⟨.invalidEscape 'q', ⟨4, 1, 5⟩⟩) ∧
      endBehind .start tokens = endOfText read ∧ Layout Dialect.mysql.lexical.hashComments gap ∧
      tokenize Dialect.mysql.lexical (String.ofList (read ++ gap)) =
        .ok (tokens ++ [⟨.eof, "", ⟨endOfText (read ++ gap), endOfText (read ++ gap)⟩⟩]) ∧
      (⟨.invalidEscape 'q', ⟨4, 1, 5⟩⟩ : LexError).Faces Dialect.mysql.lexical
        (endOfText (read ++ gap)) behind := by
  have failed : tokenize Dialect.mysql.lexical "x 'a\\q'" =
    .error ⟨.invalidEscape 'q', ⟨4, 1, 5⟩⟩ := rfl
  exact ⟨failed, tokenize_fault failed⟩

end SqlTree
