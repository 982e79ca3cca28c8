import SqlTree.Proofs.Reading.Backtracking
import SqlTree.Proofs.Tree.Models

namespace SqlTree

/-- A text has its tokens once from each place on. -/
theorem Lexes.same {rules : LexicalRules} {c : Cursor} {tokens tokens' : List Token}
    {stop stop' : Except LexError Token} (lexes : Lexes rules c tokens stop)
    (again : Lexes rules c tokens' stop') : tokens' = tokens ∧ stop' = stop := by
  induction lexes generalizing tokens' with
  | eof next isEof =>
    cases again with
    | eof next' => cases next.symm.trans next'; exact ⟨rfl, rfl⟩
    | fault next' => cases next.symm.trans next'
    | token next' notEof =>
      cases next.symm.trans next'
      exact absurd (isEof.symm.trans notEof) nofun
  | fault next =>
    cases again with
    | eof next' => cases next.symm.trans next'
    | fault next' => cases next.symm.trans next'; exact ⟨rfl, rfl⟩
    | token next' => cases next.symm.trans next'
  | token next notEof _ ih =>
    cases again with
    | eof next' isEof =>
      cases next.symm.trans next'
      exact absurd (isEof.symm.trans notEof) nofun
    | fault next' => cases next.symm.trans next'
    | token next' _ rest =>
      cases next.symm.trans next'
      obtain ⟨rfl, rfl⟩ := ih rest
      exact ⟨rfl, rfl⟩

/-- A token as long as everything in front of a place. It stands for the text that was consumed to its
end, the layout at the end included. -/
def coverTo (p : Position) : List Token :=
  if p.offset = 0 then [] else [⟨.comma, "", ⟨.start, p⟩⟩]

/-- A state that stands behind the whole text stands behind one token as long as the text. -/
theorem Tracks.along_of_atEnd {rules : LexicalRules} {st : State} {s : Tape} (tracks : Tracks rules st s)
    (ended : s.atEnd) (isEof : ∀ eof, s.stop = .ok eof → eof.isEof = true) :
    s.Along (coverTo s.lastEnd) := by
  have bounds : Ordered 0 (coverTo s.lastEnd) ∧ (∀ t ∈ coverTo s.lastEnd, t.isEof = false) ∧
      s.lastEnd = endBehind .start (coverTo s.lastEnd) := by
    unfold coverTo
    split
    · rename_i first
      have here : st.reader.cursor = .ofText s.text := by
        refine tracks.on.eq_of_offset_eq (Cursor.on_ofText s.text) ?_
        exact (congrArg Position.offset tracks.position).trans first
      have place : st.position = .start := congrArg Cursor.position here
      exact ⟨trivial, by simp, tracks.position.symm.trans place⟩
    · rename_i further
      exact ⟨⟨Nat.zero_le _, Nat.pos_of_ne_zero further, trivial⟩, by simp [Token.isEof], rfl⟩
  obtain ⟨ordered, notEof, lastEnd⟩ := bounds
  exact ⟨ordered, notEof, ⟨_, by rw [ended.1, List.append_nil], lastEnd⟩, isEof⟩

/-- Whatever state a text leads to, it stands somewhere on its way through ordered tokens. -/
theorem Reachable.along {rules : LexicalRules} {text : List Char} {saved : List StateMark} {st : State}
    (reach : Reachable rules text saved st) :
    ∃ s tokens, Tracks rules st s ∧ s.Along tokens := by
  obtain ⟨tokens, stop, lexes⟩ := lexes_exists rules (.ofText text)
  obtain ⟨s, tracks, leads, -⟩ := reach.tracks lexes
  have start := lexes.along
  rcases leads.moved with ⟨used, split, lastEnd⟩ | ended
  · exact ⟨s, tokens, tracks, start.moves ⟨leads.text, leads.stop, split, lastEnd⟩⟩
  · exact ⟨s, _, tracks, tracks.along_of_atEnd ended fun eof same =>
      start.eof eof (leads.stop.symm.trans same)⟩

/-- A state stands where one tape stands. -/
theorem Tracks.same {rules : LexicalRules} {st : State} {s t : Tape} (tracks : Tracks rules st s)
    (again : Tracks rules st t) : t = s := by
  obtain ⟨tokens, stop⟩ := tracks.lexes.same again.lexes
  cases s
  cases t
  simp only [Tape.mk.injEq]
  exact ⟨again.text.symm.trans tracks.text, tokens, stop, again.position.symm.trans tracks.position,
    again.params.symm.trans tracks.params, again.furthest.symm.trans tracks.furthest,
    again.cancelAfter.symm.trans tracks.cancelAfter⟩

/-- Wherever such a state stands on a tape, the tape is on its way through the text. -/
theorem Reachable.along_of_tracks {rules : LexicalRules} {text : List Char} {saved : List StateMark}
    {st : State} {s : Tape} (reach : Reachable rules text saved st) (tracks : Tracks rules st s) :
    ∃ tokens, s.Along tokens := by
  obtain ⟨t, tokens, tracks', along⟩ := reach.along
  cases tracks.same tracks'
  exact ⟨tokens, along⟩

/-- The states that a text leads to are over that text. -/
theorem Reachable.text {rules : LexicalRules} {text : List Char} {saved : List StateMark} {st : State}
    (reach : Reachable rules text saved st) : st.reader.text = text := by
  obtain ⟨tokens, stop, lexes⟩ := lexes_exists rules (.ofText text)
  obtain ⟨s, tracks, leads, -⟩ := reach.tracks lexes
  exact tracks.text.trans leads.text

end SqlTree
