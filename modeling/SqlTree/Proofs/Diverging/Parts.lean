import SqlTree.Proofs.Lexing.Joined
import SqlTree.Proofs.Lockstep.Layout
import SqlTree.Proofs.Text.Shifted
import SqlTree.Proofs.Writing.Texts

namespace SqlTree

/-- What a text is put together from: words, commas, other texts, and whatever follows them. -/
inductive Part where
  | word (k : Keyword)
  | comma
  | text (part : String)
  | anything
  deriving DecidableEq

/-- The tokens that a part has in a text. Another text stands in it as it is written, and has there the
tokens that it has alone. -/
inductive Part.Tokens (rules : LexicalRules) (text : String) : Part → List Token → Prop
  | word {k t} : t.spells k = true → Part.Tokens rules text (.word k) [t]
  | comma {t} : t.kind = .comma → Part.Tokens rules text .comma [t]
  | text {part lead trail tokens eof moved} : text.toList = lead ++ (part.toList ++ trail) →
      tokenize rules part = .ok (tokens ++ [eof]) →
      List.Forall₂ (Token.Moved .start (Position.start.afterAll lead) part.toList) tokens moved →
      Part.Tokens rules text (.text part) moved
  | anything (tokens) : Part.Tokens rules text .anything tokens

/-- A text has the tokens of some parts, one behind the other. -/
def Composed (rules : LexicalRules) (text : String) (parts : List Part) : Prop :=
  ∃ pieces eof, tokenize rules text = .ok (pieces.flatten ++ [eof]) ∧
    List.Forall₂ (Part.Tokens rules text) parts pieces

namespace Sheet

section

variable (sheet : Sheet) {i j n : Nat}

/-- The tokens of a sheet behind the first `n` ones. -/
def drop (n : Nat) : Sheet where
  text := sheet.text
  before := sheet.stopAt n
  tokens := sheet.tokens.drop n
  rest := sheet.rest
  eof := sheet.eof
  ordered := sheet.ordered_drop
  notEof t mem := sheet.notEof t (List.mem_of_mem_drop mem)
  behind := by
    rw [stopAt, ← endBehind_append, List.take_append_drop]
    exact sheet.behind

theorem drop_length : (sheet.drop n).length = sheet.length - n := List.length_drop

/-- Tokens behind the first ones are counted from there. -/
theorem drop_tokenAt : (sheet.drop n).tokenAt i = sheet.tokenAt (n + i) := by
  simp [tokenAt, drop, closing, List.getD_eq_getElem?_getD]

theorem drop_startAt : (sheet.drop n).startAt i = sheet.startAt (n + i) := by
  rw [startAt, drop_tokenAt, startAt]

theorem drop_stopAt : (sheet.drop n).stopAt i = sheet.stopAt (n + i) := by
  have first : sheet.tokens.take (n + i) = sheet.tokens.take n ++ (sheet.tokens.drop n).take i :=
    List.take_add
  rw [stopAt, stopAt, first, endBehind_append]
  rfl

theorem drop_written : (sheet.drop n).written i j = sheet.written (n + i) (n + j) := by
  rw [written, written, drop_startAt, drop_stopAt]
  rfl

/-- A tape over all tokens stands as well among those that are left. -/
theorem at_drop {s : Tape} (within : n ≤ sheet.length) :
    s.At (sheet.drop n) i ↔ s.At sheet (n + i) := by
  have tokens : (sheet.drop n).tokens.drop i = sheet.tokens.drop (n + i) := List.drop_drop
  constructor
  · intro here
    have := here.within
    rw [drop_length] at this
    refine ⟨⟨here.text, here.stop, here.cancelAfter⟩, by omega, ?_, ?_⟩
    · rw [here.tokens, tokens]
      rfl
    · rw [here.lastEnd, drop_stopAt]
  · intro there
    have := there.within
    refine ⟨⟨there.text, there.stop, there.cancelAfter⟩, ?_, ?_, ?_⟩
    · rw [drop_length]
      omega
    · rw [there.tokens, tokens]
      rfl
    · rw [there.lastEnd, drop_stopAt]

end

/-- The tokens of one text are those of another one behind the first `n` ones, and what lies between them
is written alike. -/
structure Stands (part whole : Sheet) (n : Nat) : Prop where
  within : n + part.length ≤ whole.length
  like : ∀ i < part.length, (part.tokenAt i).Like (whole.tokenAt (n + i))
  written : ∀ i j, i < j → j ≤ part.length → whole.written (n + i) (n + j) = part.written i j

/-- From one place to another a sheet has the tokens of some parts. -/
inductive Holds (rules : LexicalRules) (sheet : Sheet) : Nat → List Part → Nat → Prop
  | nil {n} : Holds rules sheet n [] n
  | word {k n m parts} : n < sheet.length → (sheet.tokenAt n).spells k = true →
      Holds rules sheet (n + 1) parts m → Holds rules sheet n (.word k :: parts) m
  | comma {n m parts} : n < sheet.length → (sheet.tokenAt n).kind = .comma →
      Holds rules sheet (n + 1) parts m → Holds rules sheet n (.comma :: parts) m
  | text {part n m tokens eof parts} (alone : Lexes rules (.ofText part.toList) tokens (.ok eof)) :
      alone.sheet.Stands sheet n → Holds rules sheet (n + alone.sheet.length) parts m →
      Holds rules sheet n (.text part :: parts) m
  | anything {n k m parts} : Holds rules sheet k parts m → Holds rules sheet n (.anything :: parts) m

end Sheet

section

variable {rules : LexicalRules} {text part : String} {tokens : List Token} {eof : Token}

/-- A text has its tokens once. -/
theorem Lexes.unique (lexes : Lexes rules (.ofText text.toList) tokens (.ok eof)) {tokens' : List Token}
    {eof' : Token} (again : Lexes rules (.ofText text.toList) tokens' (.ok eof')) :
    tokens' = tokens ∧ eof' = eof := by
  have same := again.tokenize.symm.trans lexes.tokenize
  simpa [Except.map] using same

/-- A text that stands in another one as it is written. -/
theorem Lexes.stands (lexes : Lexes rules (.ofText text.toList) tokens (.ok eof))
    {used : List Token} {partEof : Token} (alone : Lexes rules (.ofText part.toList) used (.ok partEof))
    {lead trail : List Char} {before moved behind : List Token}
    (cut : text.toList = lead ++ (part.toList ++ trail)) (whole : tokens = before ++ (moved ++ behind))
    (likes : List.Forall₂ (Token.Moved .start (Position.start.afterAll lead) part.toList) used moved) :
    alone.sheet.Stands lexes.sheet before.length := by
  have length : moved.length = used.length := likes.length_eq.symm
  have within : before.length + used.length ≤ tokens.length := by
    rw [whole, List.length_append, List.length_append, length]
    omega
  have token {i : Nat} (lt : i < used.length) : Token.Moved .start (Position.start.afterAll lead)
      part.toList (alone.sheet.tokenAt i) (lexes.sheet.tokenAt (before.length + i)) := by
    have lt' : before.length + i < tokens.length := by omega
    have here : tokens[before.length + i] = moved.get ⟨i, length ▸ lt⟩ := by
      simp [whole, List.getElem_append_right, List.getElem_append_left, length, lt]
    rw [alone.sheet.tokenAt_of_lt lt, lexes.sheet.tokenAt_of_lt lt']
    exact here ▸ likes.get lt (length ▸ lt)
  have offset {p q : Position}
      (moved : Position.Moved .start (Position.start.afterAll lead) part.toList p q) :
      q.offset = byteSize lead + p.offset := by
    obtain ⟨read, -, rfl, rfl⟩ := moved
    simp only [Position.afterAll_offset, Position.start]
    omega
  refine ⟨within, fun i lt => (token lt).toLike, fun i j lt le => ?_⟩
  obtain ⟨j, rfl⟩ := Nat.exists_eq_succ_of_ne_zero (by omega : j ≠ 0)
  obtain ⟨written, slice, -⟩ := alone.sliced lt le
  have inside := sliceBytes_inside lead trail slice
  have start := offset (token (Nat.lt_of_lt_of_le lt le)).start
  have stop := offset (token le).stop
  have same : sliceBytes lexes.sheet.text (lexes.sheet.startAt (before.length + i)).offset
      (lexes.sheet.stopAt (before.length + (j + 1))).offset = some written := by
    have below : before.length + j < tokens.length := Nat.lt_of_lt_of_le (Nat.add_lt_add_left le _) within
    rw [← Nat.add_assoc, lexes.sheet.stopAt_succ below]
    rw [alone.sheet.stopAt_succ le] at inside
    rw [Sheet.startAt, start, stop]
    rw [← cut] at inside
    exact inside
  rw [Sheet.written, Sheet.written, same]
  exact congrArg (fun piece => String.ofList (Option.getD piece [])) slice.symm

/-- The parts of a text lie in its tokens one behind the other. -/
theorem Composed.holds {parts : List Part} (composed : Composed rules text parts) :
    ∃ tokens eof, ∃ lexes : Lexes rules (.ofText text.toList) tokens (.ok eof),
      lexes.sheet.Holds rules 0 parts lexes.sheet.length := by
  obtain ⟨pieces, eof, lexed, forall₂⟩ := composed
  obtain ⟨tokens, eof', same, lexes⟩ := lexes_of_tokenize lexed
  obtain ⟨rfl, rest⟩ := List.append_inj' same rfl
  cases rest
  refine ⟨_, _, lexes, ?_⟩
  have rest {before : List Token} {parts : List Part} {pieces : List (List Token)}
      (forall₂ : List.Forall₂ (Part.Tokens rules text) parts pieces)
      {tokens : List Token} (whole : tokens = before ++ pieces.flatten)
      (lexes : Lexes rules (.ofText text.toList) tokens (.ok eof)) :
      lexes.sheet.Holds rules before.length parts lexes.sheet.length := by
    induction forall₂ generalizing before with
    | nil =>
      obtain rfl : tokens = before := by simpa using whole
      exact .nil
    | @cons part piece parts pieces first others ih =>
      rw [List.flatten_cons] at whole
      have next := @ih (before ++ piece) (by rw [whole, List.append_assoc])
      rw [List.length_append] at next
      have lt : piece ≠ [] → before.length < lexes.sheet.length := by
        intro nonempty
        have := List.length_pos_iff.mpr nonempty
        change before.length < tokens.length
        rw [whole, List.length_append, List.length_append]
        omega
      have here {t : Token} (one : piece = [t]) : lexes.sheet.tokenAt before.length = t := by
        rw [lexes.sheet.tokenAt_of_lt (lt (by simp [one]))]
        simp [Lexes.sheet, whole, one]
      cases first with
      | word spells => exact .word (lt (by simp)) ((here rfl).symm ▸ spells) next
      | comma kind => exact .comma (lt (by simp)) ((here rfl).symm ▸ kind) next
      | text cut lexed likes =>
        obtain ⟨used, partEof, split, alone⟩ := lexes_of_tokenize lexed
        obtain ⟨rfl, -⟩ := List.append_inj' split rfl
        refine .text alone (lexes.stands alone cut whole likes) ?_
        rwa [← likes.length_eq] at next
      | anything => exact .anything next
  exact rest forall₂ (List.nil_append _).symm lexes

end

/-- The line that a part is written on. Whatever may follow is left out. -/
def Part.line : Part → String
  | .word k => k.spelling
  | .comma => ","
  | .text part => part
  | .anything => ""

/-- A part alone has the tokens that it has behind any text. -/
theorem Part.tokens_of_line {rules : LexicalRules} {part : Part} {text : String} {lead trail : List Char}
    {tokens moved : List Token} {eof : Token} (standard : rules.Standard)
    (alone : Lexes rules (.ofText part.line.toList) tokens (.ok eof))
    (likes : List.Forall₂ (Token.Moved .start (Position.start.afterAll lead) part.line.toList) tokens moved)
    (cut : text.toList = lead ++ (part.line.toList ++ trail)) : Part.Tokens rules text part moved := by
  -- A sign that ends its text is the only token of it.
  have single {sign : Sign} (solid : sign.Solid rules) (written : part.line = sign.text) :
      ∃ t, moved = [t] ∧ sign.Fits t := by
    have white : ∀ c ∈ ([] : List Char), isWhiteSpace c = true := by simp
    have spaced : Spaced [sign] part.line.toList := by
      rw [written, ← List.append_nil sign.text.toList]
      exact .sign white nofun (.blank white)
    obtain ⟨tokens', eof', again, fits⟩ := spaced.lexes (.one solid) (c := .ofText part.line.toList) rfl
    obtain ⟨rfl, rfl⟩ := alone.unique again
    cases fits with
    | cons fits none =>
      cases none
      cases likes with
      | cons like none =>
        cases none
        exact ⟨_, rfl, ⟨like.kind.trans fits.kind, like.text.trans fits.text⟩⟩
  cases part with
  | word k =>
    obtain ⟨t, rfl, fits⟩ := single (solid_word standard k) rfl
    exact .word ((fits.spells k).trans (Sign.word_spells_self rules k))
  | comma =>
    obtain ⟨t, rfl, fits⟩ := single (solid_comma standard) rfl
    exact .comma fits.kind
  | text part => exact .text cut alone.tokenize likes
  | anything => exact .anything moved

/-- What a text goes on with behind some of it has the tokens of some parts. -/
def ComposedBehind (rules : LexicalRules) (text : String) (lead : List Char) (parts : List Part) : Prop :=
  ∃ rest pieces eof, text.toList = lead ++ rest ∧
    Lexes rules ⟨Position.start.afterAll lead, rest⟩ pieces.flatten (.ok eof) ∧
    List.Forall₂ (Part.Tokens rules text) parts pieces

namespace ComposedBehind

section

variable {rules : LexicalRules} {text : String} {lead : List Char} {part : Part} {parts : List Part}
  {tokens : List Token} {eof : Token}

/-- What a text goes on with behind nothing is the text. -/
theorem composed (behind : ComposedBehind rules text [] parts) : Composed rules text parts := by
  obtain ⟨rest, pieces, eof, cut, lexes, holds⟩ := behind
  rw [List.nil_append] at cut
  subst cut
  exact ⟨pieces, eof, lexes.tokenize, holds⟩

/-- Nothing is left behind a text. -/
theorem nil : ComposedBehind rules text text.toList [] :=
  ⟨[], [], _, by simp, .eof rfl rfl, .nil⟩

/-- The last part ends a text. -/
theorem last (standard : rules.Standard) (alone : Lexes rules (.ofText part.line.toList) tokens (.ok eof))
    (cut : text.toList = lead ++ part.line.toList) : ComposedBehind rules text lead [part] := by
  obtain ⟨moved, end_, lexes, likes, -⟩ := alone.moved (Position.start.afterAll lead)
  rw [← List.append_nil part.line.toList] at cut
  refine ⟨part.line.toList, [moved], end_, by simpa using cut, ?_,
    .cons (Part.tokens_of_line standard alone likes cut) .nil⟩
  rw [List.flatten_singleton]
  exact lexes

/-- A line with a part on it. -/
theorem line (standard : rules.Standard) (safe : rules.LineSafe)
    (alone : Lexes rules (.ofText part.line.toList) tokens (.ok eof))
    (behind : ComposedBehind rules text (lead ++ (part.line.toList ++ ['\n'])) parts) :
    ComposedBehind rules text lead (part :: parts) := by
  obtain ⟨rest, pieces, last, cut, later, holds⟩ := behind
  obtain ⟨moved, end_, lexes, likes, -⟩ := alone.moved (Position.start.afterAll lead)
  have cut : text.toList = lead ++ (part.line.toList ++ '\n' :: rest) := by simpa using cut
  exact ⟨_, moved :: pieces, last, cut, lexes.lines safe (Position.afterAll_append ..) later,
    .cons (Part.tokens_of_line standard alone likes cut) holds⟩

/-- A word with a blank behind it. -/
theorem word (standard : rules.Standard) {k : Keyword}
    (behind : ComposedBehind rules text (lead ++ (k.spelling.toList ++ [' '])) parts) :
    ComposedBehind rules text lead (.word k :: parts) := by
  obtain ⟨rest, pieces, last, cut, later, holds⟩ := behind
  have ends : EndsToken (' ' :: rest) := by
    rintro c ⟨⟩
    rfl
  have none : ∀ c ∈ ([] : List Char), isWhiteSpace c = true := by simp
  let start : Cursor := ⟨Position.start.afterAll lead, k.spelling.toList ++ ' ' :: rest⟩
  obtain ⟨t, after, next, fits, left⟩ := nextToken_of_solid (solid_word standard k) none ends (c := start) rfl
  have notEof : t.isEof = false := by
    rw [Token.isEof, fits.kind]
    exact beq_eq_false_iff_ne.mpr (solid_word standard k).notEof
  have place : after.position = start.position.afterAll k.spelling.toList := by
    obtain ⟨gap, read, cut⟩ := nextToken_cut next
    have same : k.spelling.toList ++ ' ' :: rest = (gap ++ read) ++ ' ' :: rest := by
      rw [List.append_assoc, ← left]
      exact left ▸ cut.rest
    rw [cut.place, List.append_cancel_right same]
  have after_eq : after = ⟨start.position.afterAll k.spelling.toList, ' ' :: rest⟩ := by
    rw [← place, ← left]
  rw [← List.append_assoc, Position.afterAll_append, Position.afterAll_append] at later
  refine ⟨_, [t] :: pieces, last, ?_, .token next notEof (after_eq ▸ later.blank), .cons (.word ?_) holds⟩
  · simpa using cut
  · exact (fits.spells k).trans (Sign.word_spells_self rules k)

end

end ComposedBehind

/-- A text in which parts stand on lines of their own. -/
theorem composed_lines {rules : LexicalRules} (standard : rules.Standard) (safe : rules.LineSafe)
    {text : String} {parts : List Part}
    (written : text.toList = parts.flatMap fun part => part.line.toList ++ ['\n'])
    (lexed : ∀ part ∈ parts, ∃ tokens eof, Lexes rules (.ofText part.line.toList) tokens (.ok eof)) :
    Composed rules text parts := by
  have rest (lead : List Char)
      (cut : text.toList = lead ++ parts.flatMap fun part => part.line.toList ++ ['\n']) :
      ComposedBehind rules text lead parts := by
    clear written
    induction parts generalizing lead with
    | nil =>
      rw [List.flatMap_nil, List.append_nil] at cut
      exact cut ▸ .nil
    | cons part parts ih =>
      obtain ⟨tokens, last, alone⟩ := lexed part List.mem_cons_self
      refine .line standard safe alone (ih (fun part mem => lexed part (List.mem_cons_of_mem _ mem)) _ ?_)
      simp [cut]
  exact (rest [] written).composed

/-- The last parts may be anything. -/
theorem Composed.forget {rules : LexicalRules} {text : String} {parts more : List Part}
    (composed : Composed rules text (parts ++ more)) : Composed rules text (parts ++ [.anything]) := by
  obtain ⟨pieces, eof, lexed, holds⟩ := composed
  have front := List.forall₂_take parts.length holds
  rw [List.take_left' rfl] at front
  refine ⟨pieces.take parts.length ++ [(pieces.drop parts.length).flatten], eof, ?_,
    List.rel_append front (.cons (.anything _) .nil)⟩
  rw [List.flatten_append, List.flatten_singleton, ← List.flatten_append, List.take_append_drop]
  exact lexed

end SqlTree
