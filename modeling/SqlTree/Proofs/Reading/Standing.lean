import SqlTree.Dialect.Builtin
import SqlTree.Proofs.Reading.Reachable

namespace SqlTree

/-- In front of the answer with a number: at the start of the text, behind the token of the answer
before, or at the end of the text if that is the answer. -/
structure StandsAt (rules : LexicalRules) (text : List Char) (i : Nat) (st : State) : Prop where
  behind : ∀ k < i, ∃ t, answer rules text k = .ok t ∧ t.isEof = false
  place : (i = 0 ∧ st.position = .start) ∨
    (∃ k t, i = k + 1 ∧ answer rules text k = .ok t ∧ st.position = t.span.stop) ∨
    ∃ eof, answer rules text i = .ok eof ∧ eof.isEof = true ∧ st.position = endOfText text

/-- A state shows the answer with a number, the one that the lexer gives by itself, and moves
behind it when it is consumed. -/
structure Shows (rules : LexicalRules) (text : List Char) (i : Nat) (st : State) : Prop where
  stands : StandsAt rules text i st
  peek : (st.peek rules).1 = (answer rules text i).mapError .lexical
  peekStays : (st.peek rules).2.position = st.position ∧ (st.peek rules).2.lastEnd = st.lastEnd ∧
    (st.peek rules).2.depth = st.depth
  bump : (st.bump rules).1 = (answer rules text i).mapError .lexical
  bumpDepth : (st.bump rules).2.depth = st.depth
  token : ∀ t, answer rules text i = .ok t → t.isEof = false →
    StandsAt rules text (i + 1) (st.bump rules).2 ∧ (st.bump rules).2.position = t.span.stop ∧
      (st.bump rules).2.lastEnd = t.span.stop ∧
      st.position.offset < (st.bump rules).2.position.offset
  eof : ∀ t, answer rules text i = .ok t → t.isEof = true →
    StandsAt rules text i (st.bump rules).2 ∧ (st.bump rules).2.position = endOfText text ∧
      (st.bump rules).2.lastEnd = endOfText text ∧
      st.position.offset ≤ (st.bump rules).2.position.offset
  error : ∀ e, answer rules text i = .error e →
    (st.bump rules).2.position = st.position ∧ (st.bump rules).2.lastEnd = st.lastEnd

section

variable {rules : LexicalRules} {text : List Char} {tokens : List Token}
  {stop : Except LexError Token}

/-- The tokens that were consumed tell which answer comes next. -/
theorem Lexes.place_of_used (lexes : Lexes rules (.ofText text) tokens stop) {used rest : List Token}
    (split : tokens = used ++ rest) {p : Position} (place : p = endBehind .start used) :
    (used.length = 0 ∧ p = .start) ∨
      ∃ k t, used.length = k + 1 ∧ answer rules text k = .ok t ∧ p = t.span.stop := by
  rcases List.eq_nil_or_concat used with rfl | ⟨before, last, rfl⟩
  · exact .inl ⟨rfl, place⟩
  · refine .inr ⟨before.length, last, by simp, ?_, ?_⟩
    · rw [lexes.answer_of_lt (by rw [split]; simp)]
      simp [split]
    · rw [place, List.concat_eq_append, endBehind_append]
      rfl

/-- A place further on in the text is in front of the answer that counts the tokens behind. -/
theorem Lexes.standsAt {st : State} {s : Tape} (lexes : Lexes rules (.ofText text) tokens stop)
    (tracks : Tracks rules st s) (leads : (Tape.ofText text tokens stop).Leads s) :
    StandsAt rules text (tokens.length - s.tokens.length) st := by
  refine ⟨fun k lt => ?_, ?_⟩
  · have within : k < tokens.length := by omega
    exact ⟨_, lexes.answer_of_lt within, lexes.notEof _ (List.getElem_mem within)⟩
  rcases leads.moved with ⟨used, split, lastEnd⟩ | ⟨empty, eof, atStop, lastEnd⟩
  · have split' : tokens = used ++ s.tokens := split
    have index : tokens.length - s.tokens.length = used.length := by
      have := congrArg List.length split'
      rw [List.length_append] at this
      omega
    rw [index]
    rcases lexes.place_of_used split' (tracks.position.trans lastEnd) with first | behind
    · exact .inl first
    · exact .inr (.inl behind)
  · have stop' : stop = .ok eof := leads.stop.symm.trans atStop
    subst stop'
    refine .inr (.inr ⟨eof, ?_, lexes.eof_of_ok, ?_⟩)
    · rw [empty]
      exact lexes.answer_length
    · rw [tracks.position, lastEnd, lexes.eof_stop (Cursor.on_ofText text)]

/-- A tape shows the answer that counts the tokens consumed before it. -/
theorem Lexes.peek_eq_answer {s : Tape} (lexes : Lexes rules (.ofText text) tokens stop)
    (leads : (Tape.ofText text tokens stop).Leads s) :
    s.peek = (answer rules text (tokens.length - s.tokens.length)).mapError .lexical := by
  have atEnd (empty : s.tokens = []) : s.peek =
      (answer rules text (tokens.length - s.tokens.length)).mapError .lexical := by
    rw [empty, List.length_nil, Nat.sub_zero, lexes.answer_length, Tape.peek, empty, leads.stop]
    rfl
  rcases leads.moved with ⟨used, split, -⟩ | ⟨empty, -⟩
  · cases left : s.tokens with
    | nil => rw [← left]; exact atEnd left
    | cons t rest =>
      have split' : tokens = used ++ t :: rest := split.trans (by rw [left])
      have index : tokens.length - (t :: rest).length = used.length := by
        rw [split', List.length_append]
        omega
      rw [index, lexes.answer_of_lt (by rw [split']; simp), Tape.peek, left]
      simp [split', Except.mapError]
  · exact atEnd empty

end

theorem Tape.bump_fst (s : Tape) : s.bump.1 = s.peek := by
  unfold bump peek
  split
  · rfl
  · split
    · rename_i eq
      rw [eq]
      rfl
    · rename_i eq
      rw [eq]
      rfl

theorem Tape.bump_of_error {s : Tape} {failure : Failure} (eq : s.peek = .error failure) :
    s.bump.2 = s := by
  unfold peek at eq
  unfold bump
  split at eq
  · cases eq
  · cases stop : s.stop with
    | ok => rw [stop] at eq; cases eq
    | error => rfl

/-- To consume a token moves behind it. -/
theorem Tape.bump_of_ok {s : Tape} {t : Token} (eq : s.peek = .ok t) :
    s.bump.2.tokens = s.tokens.tail ∧ s.bump.2.lastEnd = t.span.stop := by
  unfold peek at eq
  unfold bump
  split at eq
  · rename_i eq'
    cases eq
    rw [eq']
    exact ⟨rfl, rfl⟩
  · rename_i empty
    cases stop : s.stop with
    | ok => rw [stop] at eq; cases eq; rw [empty]; exact ⟨rfl, rfl⟩
    | error => rw [stop] at eq; cases eq

/-- The token that a tape shows heads those that are left, unless it is the end of the text. -/
theorem Lexes.peek_ok {rules : LexicalRules} {c : Cursor} {s : Tape} {t : Token}
    (lexes : Lexes rules c s.tokens s.stop) (eq : s.peek = .ok t) :
    (t.isEof = false ∧ ∃ rest, s.tokens = t :: rest) ∨
      (t.isEof = true ∧ s.tokens = [] ∧ s.stop = .ok t) := by
  cases left : s.tokens with
  | cons first rest =>
    have same : first = t := by simpa [Tape.peek, left] using eq
    subst same
    exact .inl ⟨lexes.notEof first (by rw [left]; exact List.mem_cons_self), rest, rfl⟩
  | nil =>
    have stop : s.stop = .ok t := by
      cases stop : s.stop with
      | ok eof => simpa [Tape.peek, left, stop, Except.mapError] using eq
      | error e => simp [Tape.peek, left, stop, Except.mapError] at eq
    rw [stop] at lexes
    exact .inr ⟨lexes.eof_of_ok, rfl, stop⟩

theorem Tape.Leads.length_le {s after : Tape} (leads : s.Leads after) :
    after.tokens.length ≤ s.tokens.length := by
  rcases leads.moved with ⟨used, split, -⟩ | ⟨empty, -⟩
  · rw [split, List.length_append]
    omega
  · rw [empty]
    exact Nat.zero_le _

/-- No cursor stands behind the end of its text. -/
theorem Cursor.On.offset_le {text : List Char} {c : Cursor} (on : c.On text) :
    c.position.offset ≤ (endOfText text).offset := by
  obtain ⟨read, rfl, position⟩ := on
  rw [position, endOfText]
  simp [byteSize_append]

/-- A token that is consumed is the first of those that are left, and ends further on. -/
theorem Tracks.bump_token {rules : LexicalRules} {st : State} {s : Tape} {t : Token}
    (tracks : Tracks rules st s) (eq : s.peek = .ok t) (notEof : t.isEof = false) :
    s.tokens.length = s.bump.2.tokens.length + 1 ∧ s.bump.2.lastEnd = t.span.stop ∧
      st.position.offset < t.span.stop.offset := by
  obtain ⟨left, lastEnd⟩ := Tape.bump_of_ok eq
  rcases tracks.lexes.peek_ok eq with ⟨-, rest, split⟩ | ⟨isEof, -⟩
  · have ordered := split ▸ tracks.lexes.ordered
    have length : s.tokens.length = s.bump.2.tokens.length + 1 := by
      rw [left, split]
      rfl
    exact ⟨length, lastEnd, Nat.lt_of_le_of_lt ordered.1 ordered.2.1⟩
  · rw [notEof] at isEof
    cases isEof

/-- The end of the text is consumed without a token that is used up for it. -/
theorem Tracks.bump_eof {rules : LexicalRules} {st : State} {s : Tape} {t : Token}
    (tracks : Tracks rules st s) (eq : s.peek = .ok t) (isEof : t.isEof = true) :
    s.bump.2.tokens = s.tokens ∧ s.bump.2.lastEnd = endOfText s.text ∧
      st.position.offset ≤ (endOfText s.text).offset := by
  obtain ⟨left, lastEnd⟩ := Tape.bump_of_ok eq
  rcases tracks.lexes.peek_ok eq with ⟨notEof, -⟩ | ⟨-, empty, atStop⟩
  · rw [isEof] at notEof
    cases notEof
  · have lexes := tracks.lexes
    rw [atStop] at lexes
    have place : t.span.stop = endOfText s.text := lexes.eof_stop tracks.on
    refine ⟨?_, lastEnd.trans place, tracks.on.offset_le⟩
    rw [left, empty]
    rfl

/-- In every reachable state the reader stands in front of some answer of the lexer that reads the
text from its start by itself, shows that answer and no other, and moves behind it. -/
theorem Reachable.shows_answer {rules : LexicalRules} {text : List Char} {saved : List StateMark}
    {st : State} (reach : Reachable rules text saved st) : ∃ i, Shows rules text i st := by
  obtain ⟨tokens, stop, lexes⟩ := lexes_exists rules (.ofText text)
  obtain ⟨s, tracks, leads, -⟩ := reach.tracks lexes
  have peek := tracks.peek
  have bump := tracks.bump
  have forward := leads.trans s.leads_bump
  have shown := lexes.peek_eq_answer leads
  have stands := lexes.standsAt tracks leads
  have after := lexes.standsAt bump.tracks forward
  refine ⟨tokens.length - s.tokens.length, ?_⟩
  generalize index : tokens.length - s.tokens.length = i at *
  refine
    { stands := stands
      peek := peek.result.trans shown
      peekStays := ⟨peek.tracks.position.trans tracks.position.symm,
        peek.tracks.lastEnd.trans tracks.lastEnd.symm, congrArg List.length peek.marks⟩
      bump := bump.result.trans (s.bump_fst.trans shown)
      bumpDepth := congrArg List.length bump.marks
      token := fun t eq notEof => ?_
      eof := fun t eq isEof => ?_
      error := fun e eq => ?_ }
  · rw [eq] at shown
    obtain ⟨length, lastEnd, further⟩ := tracks.bump_token shown notEof
    have shorter : s.tokens.length ≤ tokens.length := leads.length_le
    have next : tokens.length - s.bump.2.tokens.length = i + 1 := by omega
    rw [next] at after
    refine ⟨after, bump.tracks.position.trans lastEnd, bump.tracks.lastEnd.trans lastEnd, ?_⟩
    rw [bump.tracks.position, lastEnd]
    exact further
  · rw [eq] at shown
    have whole : s.text = text := leads.text
    obtain ⟨same, lastEnd, further⟩ := tracks.bump_eof shown isEof
    rw [whole] at lastEnd further
    rw [same, index] at after
    refine ⟨after, bump.tracks.position.trans lastEnd, bump.tracks.lastEnd.trans lastEnd, ?_⟩
    rw [bump.tracks.position, lastEnd]
    exact further
  · rw [eq] at shown
    have stays := Tape.bump_of_error shown
    rw [bump.tracks.position, bump.tracks.lastEnd, stays]
    exact ⟨tracks.position.symm, tracks.lastEnd.symm⟩

theorem Reachable.shows_answer_rewound :
    let st := State.ofText "a b".toList
    ∃ i, Shows Dialect.sqlite.lexical "a b".toList i
      ((st.mark.2.bump Dialect.sqlite.lexical).2.rewind st.mark.1) :=
  (@Reachable.rewind _ _ [] _ _ _ (.bump (.mark .start))).shows_answer

end SqlTree
