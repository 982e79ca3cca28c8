import SqlTree.Proofs.Lexing.Sequence
import SqlTree.Proofs.Reading.Advance

namespace SqlTree

theorem Position.later_of_lt {p q : Position} (lt : q.offset < p.offset) : p.later q = p := by
  have greater : Ord.compare p.offset q.offset = .gt := Nat.compare_eq_gt.mpr lt
  simp [later, compare, greater]

theorem Position.later_eq_right {p q : Position} (lt : p.offset < q.offset) : p.later q = q := by
  have less : Ord.compare p.offset q.offset = .lt := Nat.compare_eq_lt.mpr lt
  simp [later, compare, less]

theorem Position.later_self (p : Position) : p.later p = p := by
  unfold later
  split <;> rfl

theorem Position.later_offset (p q : Position) : (p.later q).offset = max p.offset q.offset := by
  unfold later
  rcases Nat.lt_trichotomy p.offset q.offset with lt | same | gt
  · have less : Ord.compare p.offset q.offset = .lt := Nat.compare_eq_lt.mpr lt
    simp [compare, less]
    omega
  · split <;> omega
  · have greater : Ord.compare p.offset q.offset = .gt := Nat.compare_eq_gt.mpr gt
    simp [compare, greater]
    omega

/-- Tokens of a text end behind their start. -/
theorem Ordered.start_lt_endBehind {offset : Nat} {t : Token} {tokens : List Token}
    (ordered : Ordered offset (t :: tokens)) :
    t.span.start.offset < (endBehind t.span.stop tokens).offset := by
  obtain ⟨-, size, rest⟩ := ordered
  induction tokens generalizing t with
  | nil => exact size
  | cons u tokens ih =>
    obtain ⟨gap, size', rest'⟩ := rest
    have := ih size' rest'
    rw [endBehind_cons]
    omega

/-- Of tokens in the order of the text, the first ones stand in this order, and the others behind them. -/
theorem Ordered.split {p : Position} {a b : List Token} (ordered : Ordered p.offset (a ++ b)) :
    Ordered p.offset a ∧ Ordered (endBehind p a).offset b := by
  induction a generalizing p with
  | nil => exact ⟨trivial, ordered⟩
  | cons t a ih =>
    obtain ⟨gap, size, rest⟩ := ordered
    obtain ⟨front, back⟩ := ih rest
    exact ⟨⟨gap, size, front⟩, back⟩

/-- Tokens end no earlier than they begin. -/
theorem Ordered.le_endBehind {p : Position} {used : List Token} (ordered : Ordered p.offset used) :
    p.offset ≤ (endBehind p used).offset := by
  cases used with
  | nil => exact Nat.le_refl _
  | cons t used =>
    have := ordered.start_lt_endBehind
    have := ordered.1
    rw [endBehind_cons]
    omega

/-- Consuming tokens moves on in the text. -/
theorem Ordered.lt_endBehind {p : Position} {used : List Token} (ordered : Ordered p.offset used)
    (some : used ≠ []) : p.offset < (endBehind p used).offset := by
  obtain ⟨t, rest, rfl⟩ := List.exists_cons_of_ne_nil some
  have := ordered.start_lt_endBehind
  have := ordered.1
  rw [endBehind_cons]
  omega

/-- A token among others lies between their start and their end. -/
theorem Ordered.bounds {p : Position} {used : List Token} {t : Token} (ordered : Ordered p.offset used)
    (mem : t ∈ used) : p.offset ≤ t.span.start.offset ∧ t.span.start.offset < t.span.stop.offset ∧
      t.span.stop.offset ≤ (endBehind p used).offset := by
  obtain ⟨front, back, rfl⟩ := List.append_of_mem mem
  obtain ⟨before, own, size, behind⟩ := ordered.split
  have low := before.le_endBehind
  have high := behind.le_endBehind
  rw [endBehind_append, endBehind_cons]
  omega

/-- The place where a token starts tells the tokens of a text apart. -/
theorem Ordered.eq_of_start {offset : Nat} {tokens : List Token} {t u : Token}
    (ordered : Ordered offset tokens) (memT : t ∈ tokens) (memU : u ∈ tokens)
    (same : t.span.start = u.span.start) : t = u := by
  induction tokens generalizing offset with
  | nil => cases memT
  | cons first tokens ih =>
    obtain ⟨gap, size, rest⟩ := ordered
    rcases List.mem_cons.mp memT with rfl | inT <;> rcases List.mem_cons.mp memU with rfl | inU
    · rfl
    · have := (rest.bounds inU).1
      rw [same] at size
      omega
    · have := (rest.bounds inT).1
      rw [same] at this
      omega
    · exact ih rest inT inU

/-- No token spells two words. -/
theorem Token.not_spells_of_spells {t : Token} {j k : Keyword} (spells : t.spells j = true)
    (other : sameWord j.spelling k.spelling = false) : t.spells k = false := by
  rcases t with ⟨kind, text, span⟩
  rw [Bool.eq_false_iff]
  intro spells'
  cases kind with
  | keyword word =>
    simp only [Token.spells, beq_iff_eq] at spells spells'
    rw [← spells, ← spells'] at other
    simp [sameWord] at other
  | identifier name =>
    simp only [Token.spells, sameWord_iff] at spells spells'
    rw [Bool.eq_false_iff] at other
    exact other (sameWord_iff.mpr (spells.symm.trans spells'))
  | _ => cases spells

namespace Tape

/-- A tape on its way through the tokens of a text, none of which is the end of the text. -/
structure Along (tokens : List Token) (s : Tape) : Prop where
  ordered : Ordered 0 tokens
  notEof : ∀ t ∈ tokens, t.isEof = false
  place : ∃ before, tokens = before ++ s.tokens ∧ s.lastEnd = endBehind .start before
  eof : ∀ eof, s.stop = .ok eof → eof.isEof = true

/-- From one place to another over some tokens. -/
structure Moves (s : Tape) (used : List Token) (after : Tape) : Prop where
  text : after.text = s.text
  stop : after.stop = s.stop
  tokens : s.tokens = used ++ after.tokens
  lastEnd : after.lastEnd = endBehind s.lastEnd used

section

variable {tokens used more : List Token} {s mid after : Tape} {t : Token}

theorem Moves.refl (s : Tape) : s.Moves [] s := ⟨rfl, rfl, rfl, rfl⟩

theorem Moves.of_place (text : after.text = s.text) (stop : after.stop = s.stop)
    (tokens : after.tokens = s.tokens) (lastEnd : after.lastEnd = s.lastEnd) : s.Moves [] after :=
  ⟨text, stop, tokens.symm, lastEnd⟩

/-- Two ways behind each other make up one over the tokens of both. -/
theorem Moves.trans (first : s.Moves used mid) (second : mid.Moves more after) :
    s.Moves (used ++ more) after := by
  refine ⟨second.text.trans first.text, second.stop.trans first.stop, ?_, ?_⟩
  · rw [first.tokens, second.tokens, List.append_assoc]
  · rw [second.lastEnd, first.lastEnd, endBehind_append]

/-- The rest of a way of which the front is known. -/
theorem Moves.rest (first : s.Moves used mid) (whole : s.Moves (used ++ more) after) :
    mid.Moves more after := by
  refine ⟨whole.text.trans first.text.symm, whole.stop.trans first.stop.symm, ?_, ?_⟩
  · have both := first.tokens.symm.trans whole.tokens
    rwa [List.append_assoc, List.append_cancel_left_eq] at both
  · rw [whole.lastEnd, endBehind_append, first.lastEnd]

/-- Further on on its way, a tape is on its way. -/
theorem Along.moves (along : s.Along tokens) (moves : s.Moves used after) :
    after.Along tokens := by
  obtain ⟨before, split, lastEnd⟩ := along.place
  refine ⟨along.ordered, along.notEof, ⟨before ++ used, ?_, ?_⟩, ?_⟩
  · rw [split, moves.tokens, List.append_assoc]
  · rw [moves.lastEnd, lastEnd, endBehind_append]
  · rw [moves.stop]
    exact along.eof

theorem Along.mem (along : s.Along tokens) (mem : t ∈ s.tokens) : t ∈ tokens := by
  obtain ⟨before, split, -⟩ := along.place
  rw [split]
  exact List.mem_append_right before mem

/-- A token that is shown and is not the end of the text is the next one. -/
theorem Along.tokens_of_peek (along : s.Along tokens) (peek : s.peek = .ok t)
    (notEof : t.isEof = false) : ∃ rest, s.tokens = t :: rest := by
  unfold Tape.peek at peek
  split at peek
  · rename_i first rest eq
    cases peek
    exact ⟨rest, eq⟩
  · cases stop : s.stop with
    | error e => rw [stop] at peek; cases peek
    | ok eof =>
      rw [stop] at peek
      cases peek
      rw [along.eof _ stop] at notEof
      cases notEof

/-- A way that leads over tokens begins with the one that is shown. -/
theorem Moves.peek (moves : s.Moves used after) (some : used ≠ []) :
    ∃ first rest, used = first :: rest ∧ s.peek = .ok first := by
  cases used with
  | nil => exact absurd rfl some
  | cons first rest =>
    refine ⟨first, rest, rfl, ?_⟩
    unfold Tape.peek
    rw [moves.tokens]
    rfl

/-- To consume a token that is shown leads over it. -/
theorem Along.bump (along : s.Along tokens) (peek : s.peek = .ok t) (notEof : t.isEof = false) :
    s.bump.1 = .ok t ∧ s.Moves [t] s.bump.2 := by
  obtain ⟨rest, eq⟩ := along.tokens_of_peek peek notEof
  unfold Tape.bump
  rw [eq]
  exact ⟨rfl, rfl, rfl, eq, rfl⟩

/-- Consuming a token counts no placeholder. -/
theorem bump_params (s : Tape) : s.bump.2.params = s.params := by
  unfold bump
  split
  · rfl
  · split <;> rfl

theorem moves_checkCancelled (s : Tape) :
    s.Moves [] s.checkCancelled.2 ∧ s.checkCancelled.2.params = s.params := by
  unfold checkCancelled
  split <;> exact ⟨.of_place rfl rfl rfl rfl, rfl⟩

theorem checkCancelled_error {failure : Failure} (fails : s.checkCancelled = (.error failure, after)) :
    failure = .cancelled := by
  unfold checkCancelled at fails
  split at fails <;> cases fails
  rfl

/-- The tokens in front of a tape lie behind the last one that was consumed. -/
theorem Along.ordered_tokens (along : s.Along tokens) : Ordered s.lastEnd.offset s.tokens := by
  obtain ⟨before, split, lastEnd⟩ := along.place
  have ordered : Ordered Position.start.offset (before ++ s.tokens) := split ▸ along.ordered
  rw [lastEnd]
  exact ordered.split.2

/-- The tokens on a way stand in the order of the text. -/
theorem Along.ordered_used (along : s.Along tokens) (moves : s.Moves used after) :
    Ordered s.lastEnd.offset used :=
  (moves.tokens ▸ along.ordered_tokens : Ordered s.lastEnd.offset (used ++ after.tokens)).split.1

/-- A way over at least one token leads further on in the text. -/
theorem Along.lastEnd_lt (along : s.Along tokens) (moves : s.Moves used after)
    (some : used ≠ []) : s.lastEnd.offset < after.lastEnd.offset := by
  rw [moves.lastEnd]
  exact (along.ordered_used moves).lt_endBehind some

/-- The tape with fewer tokens in front of it is further on. -/
theorem Along.lastEnd_lt_of_length (along : s.Along tokens) (along' : after.Along tokens)
    (fewer : after.tokens.length < s.tokens.length) : s.lastEnd.offset < after.lastEnd.offset := by
  obtain ⟨before, split, lastEnd⟩ := along.place
  obtain ⟨before', split', lastEnd'⟩ := along'.place
  have ordered := along.ordered_tokens
  rcases List.append_eq_append_iff.mp (split.symm.trans split') with
    ⟨used, rfl, rest⟩ | ⟨used, -, rest⟩
  · rw [lastEnd', endBehind_append, ← lastEnd]
    rw [rest] at ordered
    refine ordered.split.1.lt_endBehind ?_
    rintro rfl
    rw [rest] at fewer
    exact Nat.lt_irrefl _ fewer
  · have := congrArg List.length rest
    rw [List.length_append] at this
    omega

end

end Tape

end SqlTree
