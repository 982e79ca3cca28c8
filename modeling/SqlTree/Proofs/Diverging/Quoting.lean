import SqlTree.Proofs.Diverging.Models
import SqlTree.Proofs.Lexing.Replaced
import SqlTree.Proofs.Naming.Sources
import SqlTree.Proofs.Tree.Entries

namespace SqlTree

open Rule SqlRule

/-- The text with other characters in the place of those under a span, where the span cuts the text. -/
def Span.replaceIn? (s : Span) (text new : String) : Option String :=
  if s.start.offset ≤ s.stop.offset then
    match takeBytes text.toList s.start.offset, dropBytes text.toList s.stop.offset with
    | some lead, some trail => some (String.ofList (lead ++ (new.toList ++ trail)))
    | _, _ => none
  else none

/-- What stands between the ends of a span is replaced. -/
theorem Span.replaceIn?_eq {s : Span} {text : String} {lead old trail : List Char}
    (cut : text.toList = lead ++ (old ++ trail)) (start : s.start.offset = byteSize lead)
    (stop : s.stop.offset = byteSize lead + byteSize old) (new : String) :
    s.replaceIn? text new = some (String.ofList (lead ++ (new.toList ++ trail))) := by
  have behind : dropBytes text.toList s.stop.offset = some trail := by
    rw [cut, stop, ← List.append_assoc, ← byteSize_append, dropBytes_append]
  have front : takeBytes text.toList s.start.offset = some lead := by
    rw [cut, start, takeBytes_append]
  rw [replaceIn?, if_pos (by omega), front, behind]

/-- A piece of a text is the same in front of anything else. -/
theorem sliceBytes_of_append {lead trail trail' written : List Char} {start stop : Nat}
    (cut : sliceBytes (lead ++ trail) start stop = some written) (within : stop ≤ byteSize lead) :
    sliceBytes (lead ++ trail') start stop = some written := by
  obtain ⟨front, back, split, rfl, rfl⟩ := sliceBytes_eq_some cut
  rw [← List.append_assoc] at split
  obtain ⟨rest, rfl⟩ : front ++ written <+: lead := by
    rcases List.append_eq_append_iff.mp split with ⟨rest, whole, -⟩ | ⟨rest, whole, -⟩
    · -- What reaches over the end of the first part has no characters behind it.
      have sizes := congrArg byteSize whole
      rw [byteSize_append, byteSize_append] at sizes
      obtain rfl : rest = [] := by
        by_contra nonempty
        have := byteSize_pos nonempty
        omega
      exact ⟨[], by rw [List.append_nil, whole, List.append_nil]⟩
    · exact ⟨rest, whole.symm⟩
  rw [List.append_assoc, List.append_assoc, sliceBytes_append]

/-- A token that was moved may be moved back. -/
theorem Token.Moved.symm {p q : Position} {written : List Char} {t t' : Token}
    (moved : Token.Moved p q written t t') : Token.Moved q p written t' t where
  toLike := moved.toLike.symm
  start := by
    obtain ⟨read, within, place, place'⟩ := moved.start
    exact ⟨read, within, place', place⟩
  stop := by
    obtain ⟨read, within, place, place'⟩ := moved.stop
    exact ⟨read, within, place', place⟩

/-- Two texts with the same tokens but for one, in the place of which the second text has a name between
quotes, with blanks around it. -/
structure Requoted (rules : LexicalRules) (name text text' : String) (before : List Token) (t : Token)
    (later : List Token) (eof : Token) where
  quoted : Token
  later' : List Token
  eof' : Token
  left : Lexes rules (.ofText text.toList) (before ++ t :: later) (.ok eof)
  right : Lexes rules (.ofText text'.toList) (before ++ quoted :: later') (.ok eof')
  kind : quoted.kind = .identifier name
  text_eq : quoted.text = rules.quoteIdentifier name
  /-- What both texts begin with. -/
  lead : List Char
  start : t.span.start.offset = byteSize lead
  lead_left : lead <+: text.toList
  lead_right : lead <+: text'.toList
  /-- What both texts end with, and its tokens. -/
  trail : String
  used : List Token
  last : Token
  alone : Lexes rules (.ofText trail.toList) used (.ok last)
  stands_left : alone.sheet.Stands left.sheet (before.length + 1)
  stands_right : alone.sheet.Stands right.sheet (before.length + 1)
  length : used.length = later.length
  length' : used.length = later'.length

section

variable {rules : LexicalRules} {text : String} {before later : List Token} {t eof : Token}

/-- What a text ends with stands in it. -/
theorem Lexes.stands_last (lexes : Lexes rules (.ofText text.toList) (before ++ t :: later) (.ok eof))
    {trail : String} {used : List Token} {last : Token} {lead : List Char}
    (alone : Lexes rules (.ofText trail.toList) used (.ok last)) (cut : text.toList = lead ++ trail.toList)
    (likes : List.Forall₂ (Token.Moved .start (Position.start.afterAll lead) trail.toList) used later) :
    alone.sheet.Stands lexes.sheet (before.length + 1) := by
  have whole : before ++ t :: later = (before ++ [t]) ++ (later ++ []) := by simp
  have stands := lexes.stands alone (by rw [cut, List.append_nil]) whole likes
  rwa [List.length_append] at stands

/-- A token of a text may be replaced by a name between quotes. -/
theorem Lexes.requoted {opening closing : Char} (quotes : rules.Quotes opening closing)
    (safe : rules.SafeAt ' ') (lexes : Lexes rules (.ofText text.toList) (before ++ t :: later) (.ok eof))
    (name : String) :
    ∃ text', t.span.replaceIn? text (" " ++ rules.quoteIdentifier name ++ " ") = some text' ∧
      Nonempty (Requoted rules name text text' before t later eof) := by
  obtain ⟨lead, trail, around⟩ := lexes.around safe
  have cut : text.toList = lead ++ (t.text.toList ++ trail) := around.rest
  have start : t.span.start = Position.start.afterAll lead := around.start
  have stop : t.span.stop = Position.start.afterAll (lead ++ t.text.toList) := by
    rw [around.stop_eq, start, Position.afterAll_append]
  obtain ⟨trail, rfl⟩ : ∃ back : String, back.toList = trail := ⟨.ofList trail, String.toList_ofList ..⟩
  let place := t.span.start.after ' '
  let quote := (rules.quoteIdentifier name).toList
  let quoted : Token := ⟨.identifier name, rules.quoteIdentifier name, ⟨place, place.afterAll quote⟩⟩
  let text' := String.ofList (lead ++ ((" " ++ rules.quoteIdentifier name ++ " ").toList ++ trail.toList))
  have cut' : text'.toList = lead ++ ' ' :: (quote ++ ' ' :: trail.toList) := by
    simp [text', quote]
  have ends : (' ' :: trail.toList).head? ≠ some closing := fun first =>
    safe.name opening closing (closingQuote?_of_head quotes.first) (Option.some.inj first).symm
  have next : nextToken rules ⟨place, quote ++ ' ' :: trail.toList⟩ = (.ok quoted, _) :=
    nextToken_quoteIdentifier quotes name ends place
  obtain ⟨used, last, alone, likes, -⟩ := around.behind.moved .start
  obtain ⟨later', eof', lexes', likes', -⟩ := alone.moved ((place.afterAll quote).after ' ')
  have right : Lexes rules (.ofText text'.toList) (before ++ quoted :: later') (.ok eof') := by
    rw [cut']
    exact around.replaced (.token next rfl lexes'.blank)
  have alone : Lexes rules (.ofText trail.toList) used (.ok last) := alone
  refine ⟨text', Span.replaceIn?_eq cut ?_ ?_ _, ⟨{
    quoted, later', eof', lead, trail, used, last, alone, right
    left := lexes
    kind := rfl
    text_eq := rfl
    start := ?_
    lead_left := ⟨_, cut.symm⟩
    lead_right := ⟨_, cut'.symm⟩
    stands_left := ?_
    stands_right := ?_
    length := likes.length_eq.symm
    length' := likes'.length_eq }⟩⟩
  · simp [start, Position.start]
  · simp [stop, Position.start]
  · simp [start, Position.start]
  · refine lexes.stands_last alone (by rw [cut, List.append_assoc]) ?_
    rw [← stop]
    exact likes.flip.imp fun _ _ => Token.Moved.symm
  · have behind : Position.start.afterAll (lead ++ ' ' :: (quote ++ [' '])) =
        (place.afterAll quote).after ' ' := by
      simp [place, start, Position.afterAll_append]
    refine right.stands_last alone (by rw [cut']; simp) (behind ▸ likes')

namespace Requoted

variable {name text' : String} (r : Requoted rules name text text' before t later eof) {i j : Nat}

theorem left_length : r.left.sheet.length = before.length + 1 + later.length := by
  simp [Sheet.length, Lexes.sheet]
  omega

/-- Both texts have as many tokens. -/
theorem right_length : r.right.sheet.length = r.left.sheet.length := by
  rw [r.left_length, ← r.length, r.length']
  simp [Sheet.length, Lexes.sheet]
  omega

/-- At the spot the first text has the name as it was. -/
theorem left_spot : r.left.sheet.tokenAt before.length = t := by
  simp [Sheet.tokenAt, Lexes.sheet, List.getD_eq_getElem?_getD]

/-- At the spot the second text has the name between quotes. -/
theorem right_spot : r.right.sheet.tokenAt before.length = r.quoted := by
  simp [Sheet.tokenAt, Lexes.sheet, List.getD_eq_getElem?_getD]

/-- In front of the spot both texts have the same tokens. -/
theorem tokenAt_before (lt : i < before.length) : r.right.sheet.tokenAt i = r.left.sheet.tokenAt i := by
  have length := r.left_length
  have left : i < r.left.sheet.length := by omega
  rw [Sheet.tokenAt_of_lt _ left, Sheet.tokenAt_of_lt _ (r.right_length.symm ▸ left)]
  simp [Lexes.sheet, List.getElem_append_left lt]

/-- Behind the spot the tokens of both texts are written alike. -/
theorem like_behind (lt : before.length < i) : (r.left.sheet.tokenAt i).Like (r.right.sheet.tokenAt i) := by
  obtain ⟨k, rfl⟩ := Nat.exists_eq_add_of_lt lt
  rcases Nat.lt_or_ge k r.used.length with within | beyond
  · rw [Nat.add_right_comm]
    exact (r.stands_left.like k within).symm.trans (r.stands_right.like k within)
  · have all : r.left.sheet.length ≤ before.length + k + 1 := by
      rw [r.left_length, ← r.length]
      omega
    rw [Sheet.tokenAt_of_ge _ all, Sheet.tokenAt_of_ge _ (r.right_length ▸ all)]
    exact r.left.eof_like r.right

/-- In front of the spot the same lies between the tokens. -/
theorem written_before (lt : i < j) (le : j ≤ before.length) :
    r.right.sheet.written i j = r.left.sheet.written i j := by
  have length := r.left_length
  have stopAt : r.right.sheet.stopAt j = r.left.sheet.stopAt j := by
    simp [Sheet.stopAt, Lexes.sheet, List.take_append_of_le_length le]
  obtain ⟨written, cut, -⟩ := r.left.sliced lt (by omega)
  -- All of it lies in front of the token that is replaced.
  have within : (r.left.sheet.stopAt j).offset ≤ byteSize r.lead := by
    rw [← r.start]
    have ends := r.left.sheet.stopAt_le le (by omega)
    have starts := r.left.sheet.stopAt_le_startAt (i := before.length) (by omega)
    rw [Sheet.startAt, r.left_spot] at starts
    exact Nat.le_trans ends starts
  obtain ⟨trail, split⟩ := r.lead_left
  obtain ⟨trail', split'⟩ := r.lead_right
  rw [← split] at cut
  have cut' : sliceBytes (r.lead ++ trail') _ _ = _ := sliceBytes_of_append cut within
  rw [split] at cut
  rw [split'] at cut'
  have same : sliceBytes r.right.sheet.text (r.left.sheet.startAt i).offset (r.left.sheet.stopAt j).offset =
    sliceBytes r.left.sheet.text (r.left.sheet.startAt i).offset (r.left.sheet.stopAt j).offset := cut'.trans cut.symm
  rw [Sheet.written, Sheet.written, stopAt, Sheet.startAt, r.tokenAt_before (by omega), ← Sheet.startAt, same]

/-- Behind the spot the same lies between the tokens. -/
theorem written_behind (lt : before.length < i) (lt' : i < j) (within : j ≤ r.left.sheet.length) :
    r.right.sheet.written i j = r.left.sheet.written i j := by
  obtain ⟨k, rfl⟩ := Nat.exists_eq_add_of_lt lt
  obtain ⟨m, rfl⟩ := Nat.exists_eq_add_of_lt lt'
  have le : k + m + 1 ≤ r.alone.sheet.length := by
    rw [r.left_length, ← r.length] at within
    change _ ≤ r.used.length
    omega
  have left := r.stands_left.written k (k + m + 1) (by omega) le
  have right := r.stands_right.written k (k + m + 1) (by omega) le
  have place : before.length + 1 + k = before.length + k + 1 := by omega
  have place' : before.length + 1 + (k + m + 1) = before.length + k + 1 + m + 1 := by omega
  rw [place, place'] at left right
  exact right.trans left.symm

end Requoted

end

section

variable {d : Dialect} {name text text' : String} {before later : List Token} {t eof : Token}

/-- A name between quotes is no word. -/
theorem Requoted.not_sameWord (r : Requoted d.lexical name text text' before t later eof)
    (builtin : d ∈ Dialect.builtin) {word : String}
    (letter : ∃ c cs, word.toList = c :: cs ∧ c.toLower.isAlpha = true) :
    sameWord r.quoted.text word = false := by
  obtain ⟨quote, quotes, noLetter⟩ := Dialect.quotes_of_builtin builtin
  rw [r.text_eq]
  exact not_sameWord_quoted quotes.first noLetter name letter

theorem Requoted.not_spells (r : Requoted d.lexical name text text' before t later eof)
    (builtin : d ∈ Dialect.builtin) (k : Keyword) : r.quoted.spells k = false := by
  rw [Token.spells, r.kind]
  exact r.not_sameWord builtin k.spelling_letter

/-- A name between quotes is known as quoted. -/
theorem Requoted.isQuoted (r : Requoted d.lexical name text text' before t later eof)
    (builtin : d ∈ Dialect.builtin) : r.quoted.isQuoted = true := by
  obtain ⟨quote, quotes, -⟩ := Dialect.quotes_of_builtin builtin
  rw [Token.isQuoted, r.kind, r.text_eq]
  exact bne_iff_ne.mpr (quoteIdentifier_ne quotes.first name)

/-- Two texts that are alike but for a name, which the second one has between quotes. -/
def Requoted.diverging (r : Requoted d.lexical name text text' before t later eof)
    (builtin : d ∈ Dialect.builtin)
    (named : t.kind = .identifier name ∨ t.isKeyword = true ∧ t.text = name) : Diverging d.features where
  left := r.left.sheet
  right := r.right.sheet
  spot := before.length
  rejoins := True
  value := name
  ahead := 0
  behind := 0
  spot_le := by
    have := r.left_length
    omega
  spot_le_right := by
    have := r.left_length
    have := r.right_length
    omega
  isEof := r.left.eof_of_ok
  isEof_right := r.right.eof_of_ok
  like i := by
    rintro (lt | ⟨-, lt⟩)
    · rw [r.tokenAt_before lt]
      exact ⟨rfl, rfl⟩
    · exact r.like_behind lt
  length _ := r.right_length
  lt _ := by
    have := r.left_length
    omega
  named _ := by
    rw [r.left_spot]
    exact named
  kind _ := by
    rw [r.right_spot]
    exact r.kind
  isQuoted _ := by
    rw [r.right_spot]
    exact r.isQuoted builtin
  unlike _ word letter := by
    rw [r.right_spot]
    exact r.not_sameWord builtin letter
  ends := by
    rw [r.right_spot]
    exact ⟨.inl (by rw [r.kind]; rfl), by rw [r.kind]; rfl, fun k _ => r.not_spells builtin k,
      r.not_spells builtin _⟩
  casts i _ _ := by
    rw [r.right_spot]
    refine not_typeGoesOn ?_ (r.not_spells builtin _) ?_
    · simp [Token.typeWord?, r.kind, r.isQuoted builtin]
    · rw [Token.isPlainWord, r.kind]
      exact r.not_sameWord builtin ⟨'V', _, rfl, rfl⟩
  written i j lt le := by
    rintro (before | ⟨-, behind⟩)
    · exact r.written_before lt before
    · exact r.written_behind behind lt le
  telling := r.left.telling builtin
  place _ := .start
  place' _ := .start
  placeless _ := ⟨rfl, rfl⟩
  shown_placed _ := rfl
  start_placed _ _ _ := rfl
  stop_placed _ _ _ _ _ _ _ := rfl

end

/-- A name inside a model is one of its names. -/
theorem Diverging.not_lacks {f : Features} {q : Diverging f} (rejoins : q.rejoins) {m : Model} {n : Node}
    {i : Ident} (within : m.node.Within n) (mem : .ident i ∈ n.parts) (here : i.span = q.here) :
    ¬ q.Lacks m := by
  intro lacks
  -- A lens in which the name at the spot is another one than in the plain lens.
  let turned (i : Ident) : Ident := if i.span = q.here then ⟨i.value, !i.quoted, .nothing⟩ else i.bare
  have shows : q.Shows turned := by
    refine ⟨rejoins, fun i => ?_, fun i other => if_neg other⟩
    by_cases at_ : i.span = q.here <;> simp [turned, at_, Ident.bare]
  have same := congrArg Ident.quoted (Model.name_eq (lacks turned shows) within mem)
  simp [turned, here, Diverging.plain, Lens.placing, Ident.placed] at same

/-- Where nothing but a semicolon is left of the tokens of a text. -/
theorem Tape.At.nearEnd_iff {sheet : Sheet} {s : Tape} {j : Nat} (here : s.At sheet j)
    (whole : sheet.rest = []) :
    s.NearEnd ↔ j = sheet.length ∨ j + 1 = sheet.length ∧ (sheet.tokenAt j).kind = .semicolon := by
  have tokens : s.tokens = sheet.tokens.drop j := by rw [here.tokens, whole, List.append_nil]
  have stop : ∃ eof, s.stop = .ok eof := ⟨_, here.stop⟩
  rw [NearEnd, and_iff_right stop, tokens]
  rcases Nat.lt_or_eq_of_le here.within with lt | rfl
  · have last : sheet.tokens.drop (j + 1) = [] ↔ j + 1 = sheet.length := by
      rw [List.drop_eq_nil_iff, ← Nat.le_antisymm_iff.trans (and_iff_right lt)]
    rw [sheet.drop_of_lt lt]
    simp only [reduceCtorEq, false_or, List.cons.injEq, last, Nat.ne_of_lt lt]
    constructor
    · rintro ⟨t, semicolon, rfl, ends⟩
      exact ⟨ends, semicolon⟩
    · rintro ⟨ends, semicolon⟩
      exact ⟨_, semicolon, rfl, ends⟩
  · simp [Sheet.length]

namespace Diverging

variable {f : Features} (q : Diverging f) {s s' : Tape} {j : Nat}

/-- Where a tape is near the end of the first text, a statement ends. -/
theorem endsStatement_of_nearEnd (rejoins : q.rejoins) (whole : q.left.rest = []) (here : s.At q.left j)
    (near : s.NearEnd) : q.EndsStatement j := by
  rcases (here.nearEnd_iff whole).mp near with rfl | ⟨-, semicolon⟩
  · have last : (q.left.tokenAt q.left.length).kind = .eof := by
      rw [q.left.tokenAt_length]
      exact beq_iff_eq.mp q.isEof
    exact endsStatement_of_kind rejoins (by rw [last]; rfl) (.inr rfl)
  · exact endsStatement_of_kind rejoins (by rw [semicolon]; rfl) (.inl rfl)

/-- The same is left of both texts near their ends. -/
theorem nearEnd_right (rejoins : q.rejoins) (whole : q.left.rest = []) (whole' : q.right.rest = [])
    (here : s.At q.left j) (near : s.NearEnd) (there : s'.At q.right j) : s'.NearEnd := by
  rw [there.nearEnd_iff whole', q.length rejoins]
  refine ((here.nearEnd_iff whole).mp near).imp id fun ⟨last, semicolon⟩ => ⟨last, ?_⟩
  have other : j ≠ q.spot := by
    rintro rfl
    rcases q.kind_spot rejoins with kind | ⟨k, kind⟩ <;> rw [kind] at semicolon <;> cases semicolon
  rw [(q.like j (q.clean_of_ne (.inr rejoins) other)).kind, semicolon]

end Diverging

section

variable {d : Dialect} {text : String}

/-- No quoted name in a text of a built-in dialect is a word. -/
theorem Lexes.quoted_not_spells {tokens : List Token} {eof : Token} (builtin : d ∈ Dialect.builtin)
    (lexes : Lexes d.lexical (.ofText text.toList) tokens (.ok eof)) (i : Nat) (k : Keyword)
    (quoted : (lexes.sheet.tokenAt i).isQuoted = true) : (lexes.sheet.tokenAt i).spells k = false := by
  have opens : ∀ d ∈ Dialect.builtin, ∀ q ∈ d.lexical.identifierQuotes, q.1.isAlpha = false := by decide
  rcases List.mem_append.mp (lexes.tokenAt_mem i) with mem | last
  · generalize lexes.sheet.tokenAt i = t at quoted mem
    obtain ⟨value, kind⟩ : ∃ value, t.kind = .identifier value := by
      unfold Token.isQuoted at quoted
      split at quoted
      · exact ⟨_, ‹_›⟩
      · cases quoted
    obtain ⟨opening, closing, found, written⟩ := (lexes.quoting t mem kind quoted).quotes
    obtain ⟨before, behind, split, -⟩ := List.lookup_eq_some_iff.mp found
    have noLetter := opens d builtin (opening, closing) (by rw [split]; simp)
    rw [Token.spells, kind]
    exact not_sameWord_of_cons written noLetter k.spelling_letter
  · rw [List.mem_singleton.mp last, Token.isQuoted, beq_iff_eq.mp lexes.eof_of_ok] at quoted
    cases quoted

/-- A name in a model is read from a token of the text, as a name or as a word that is let through. -/
theorem Dialect.name_token {kind : ModelKind} {m : Model} (parsed : d.parse kind text = .ok m)
    {tokens : List Token} {eof : Token} (lexes : Lexes d.lexical (.ofText text.toList) tokens (.ok eof))
    {n : Node} {i : Ident} (within : m.node.Within n) (mem : .ident i ∈ n.parts) :
    ∃ t ∈ tokens, i.span = t.span ∧
      (t.kind = .identifier i.value ∨ t.isKeyword = true ∧ t.text = i.value) := by
  have name {t : Token} (mem : t ∈ tokens ++ [eof]) (kind : t.kind = .identifier i.value)
      (read : i = ⟨i.value, t.isQuoted, t.span⟩) : ∃ t ∈ tokens, i.span = t.span ∧
        (t.kind = .identifier i.value ∨ t.isKeyword = true ∧ t.text = i.value) :=
    ⟨t, lexes.mem_front mem (by rw [Token.isEof, kind]; rfl), congrArg Ident.span read, .inl kind⟩
  have word {t : Token} (memT : t ∈ tokens ++ [eof]) (keyword : t.isKeyword = true) (read : i = t.word) :
      ∃ t ∈ tokens, i.span = t.span ∧
        (t.kind = .identifier i.value ∨ t.isKeyword = true ∧ t.text = i.value) := by
    subst read
    obtain ⟨k, reserved⟩ := Option.isSome_iff_exists.mp keyword
    have kind := Token.kind_of_keyword? reserved
    exact ⟨t, lexes.mem_front memT (by rw [Token.isEof, kind]; rfl), rfl, .inr ⟨keyword, rfl⟩⟩
  rcases Dialect.names_read parsed lexes within mem with ⟨-, t, mem, kind, read⟩ |
    ⟨-, -, ⟨t, mem, kind, read⟩ | ⟨t, mem, k, -, kind, read⟩⟩ | ⟨-, -, t, mem, keyword, read⟩
  · exact name mem kind read
  · exact name mem kind read
  · exact word mem (by rw [Token.isKeyword, Token.keyword?, kind]; rfl) read
  · exact word mem keyword read

/-- The text of a name in a model is put between quotes, with blanks around it. -/
theorem Dialect.parse_requoted (builtin : d ∈ Dialect.builtin) {kind : ModelKind} {m : Model}
    (parsed : d.parse kind text = .ok m) {n : Node} {i : Ident} (within : m.node.Within n)
    (mem : .ident i ∈ n.parts) :
    ∃ text', i.span.replaceIn? text (" " ++ d.lexical.quoteIdentifier i.value ++ " ") = some text' ∧
      ∃ m', d.parse kind text' = .ok m' ∧ m'.sketch .bare = m.sketch ⟨Ident.quotedAt i.span, id⟩ := by
  have supported : d.supports kind := Dialect.supports_of_parse parsed
  obtain ⟨_, _, tokenized, -, -⟩ := d.parsedOver parsed
  obtain ⟨tokens, eof, -, lexes⟩ := lexes_of_tokenize tokenized
  obtain ⟨t, memT, span, named⟩ := Dialect.name_token parsed lexes within mem
  obtain ⟨before, later, rfl⟩ := List.append_of_mem memT
  obtain ⟨quote, quotes, -⟩ := Dialect.quotes_of_builtin builtin
  obtain ⟨text', replaced, ⟨r⟩⟩ := lexes.requoted quotes (Dialect.safeAt_of_builtin builtin rfl) i.value
  refine ⟨text', span ▸ replaced, ?_⟩
  let q := r.diverging builtin named
  have here : i.span = q.here := by rw [span, Diverging.here]; exact (congrArg Token.span r.left_spot).symm
  obtain ⟨mid, read, near⟩ := (Dialect.parse_iff supported lexes).mp parsed
  have follows : q.Follows (126 + 2) True 0 (entry d.features kind) (entry d.features kind) _ _ :=
    Diverging.entry_follows (Dialect.telling_of_builtin builtin).2 (Dialect.autoIncrement_not_type builtin)
      (lexes.quoted_not_spells builtin) trivial kind
  obtain ⟨j, step⟩ := follows _ lexes.at_start m mid read
  have ends := q.endsStatement_of_nearEnd trivial rfl step.place near
  have kept : q.Kept True 0 j m := ⟨fun _ => trivial, .inr ⟨trivial, q.not_lacks trivial within mem here⟩⟩
  obtain ⟨m', after, read', there, -, quoted⟩ := step.right ends kept _ r.right.at_start rfl
  have near' := q.nearEnd_right trivial rfl rfl step.place near there
  refine ⟨m', (Dialect.parse_iff supported r.right).mpr ⟨after, read', near'⟩, ?_⟩
  have shown : q.shown = View.lens ⟨Ident.quotedAt i.span, id⟩ := by
    rw [here]
    unfold Diverging.shown
    simp only [show q.rejoins from trivial, if_true]
    rfl
  rw [Model.sketch, Model.sketch, ← shown]
  exact quoted.symm

end

/-- The call of a function whose name is a reserved word. -/
def leftCall : Model :=
  .expression ⟨.call ⟨⟨"Left", false, ⟨⟨0, 1, 1⟩, ⟨4, 1, 5⟩⟩⟩,
    [⟨.column none ⟨"x", false, ⟨⟨5, 1, 6⟩, ⟨6, 1, 7⟩⟩⟩, ⟨⟨5, 1, 6⟩, ⟨6, 1, 7⟩⟩⟩], false⟩,
    ⟨⟨0, 1, 1⟩, ⟨7, 1, 8⟩⟩⟩

/-- A reserved word that is the name of a function may be quoted as well. -/
theorem Dialect.sqlite_left_requoted : Dialect.sqlite ∈ Dialect.builtin ∧
    Dialect.sqlite.parse .expression "Left(x)" = .ok leftCall ∧
    ∃ m', Dialect.sqlite.parse .expression " \"Left\" (x)" = .ok m' ∧
      m'.sketch .bare = leftCall.sketch ⟨Ident.quotedAt ⟨⟨0, 1, 1⟩, ⟨4, 1, 5⟩⟩, id⟩ := by
  have builtin : Dialect.sqlite ∈ Dialect.builtin := by simp [Dialect.builtin]
  have parsed : Dialect.sqlite.parse .expression "Left(x)" = .ok leftCall := rfl
  have mem : Node.ident ⟨"Left", false, ⟨⟨0, 1, 1⟩, ⟨4, 1, 5⟩⟩⟩ ∈ leftCall.node.parts := List.mem_cons_self
  obtain ⟨text', replaced, found⟩ := Dialect.parse_requoted builtin parsed .root mem
  have text_eq : some text' = some " \"Left\" (x)" := replaced.symm.trans rfl
  rw [Option.some.inj text_eq] at found
  exact ⟨builtin, parsed, found⟩

end SqlTree
