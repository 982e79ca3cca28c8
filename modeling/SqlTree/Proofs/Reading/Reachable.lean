import SqlTree.Proofs.Lexing.Sequence
import SqlTree.Proofs.Reading.Tracking

namespace SqlTree

/-- The states over a text that operations and rules lead to in any order, with the receipts of the
saved states that are not settled yet, the newest first. A receipt may be settled before newer
ones, which are then forgotten. -/
inductive Reachable (rules : LexicalRules) (text : List Char) : List StateMark → State → Prop
  | start : Reachable rules text [] (.ofText text)
  | peek {saved st} : Reachable rules text saved st → Reachable rules text saved (st.peek rules).2
  | bump {saved st} : Reachable rules text saved st → Reachable rules text saved (st.bump rules).2
  | mark {saved st} : Reachable rules text saved st →
      Reachable rules text (st.mark.1 :: saved) st.mark.2
  | rewind {newer m older st} : Reachable rules text (newer ++ m :: older) st →
      Reachable rules text older (st.rewind m)
  | release {newer m older st} : Reachable rules text (newer ++ m :: older) st →
      Reachable rules text older (st.release m)
  | nextParam {saved st} : Reachable rules text saved st →
      Reachable rules text saved { st with params := st.params + 1 }
  | note {saved st} (m : Mismatch) : Reachable rules text saved st →
      Reachable rules text saved (st.note m)
  | report {saved st} (m : Mismatch) : Reachable rules text saved st →
      Reachable rules text saved (st.report m).2
  | checkCancelled {saved st} : Reachable rules text saved st →
      Reachable rules text saved st.checkCancelled.2
  | setCancelAfter {saved st} (checks : Option Nat) : Reachable rules text saved st →
      Reachable rules text saved { st with cancelAfter := checks }
  | enter {saved st} : Reachable rules text saved st → Reachable rules text saved st.enter
  | leave {saved st} : Reachable rules text saved st →
      Reachable rules text saved { st with nesting := st.nesting - 1 }
  | rule {saved st} {Sym : Type → Type} {α : Type} (body : ∀ β : Type, Sym β → Rule Sym β)
      (limit : Nat) (rule : Rule Sym α) : Reachable rules text saved st →
      Reachable rules text saved (rule.eval rules (Rule.levels rules body limit) st).2

/-- A saved place and its receipt agree with a place on the tape. -/
def Restorable (rules : LexicalRules) (start : Tape) (c : Cursor) (m : StateMark) : Prop :=
  ∃ s : Tape, start.Leads s ∧ c.On s.text ∧ Lexes rules c s.tokens s.stop ∧
    c.position = s.lastEnd ∧ m.lastEnd = s.lastEnd

/-- The saved places are those of the receipts, each at the depth that its receipt tells. -/
structure Saved (rules : LexicalRules) (start : Tape) (st : State) (saved : List StateMark) :
    Prop where
  depth : st.depth = saved.length
  restorable : ∀ k m, saved.reverse[k]? = some m →
    m.reader.depth = k ∧ ∃ c, st.reader.marks[k]? = some c ∧ Restorable rules start c m

namespace Saved

variable {rules : LexicalRules} {start : Tape} {st st' : State} {saved newer older : List StateMark}
  {m : StateMark}

theorem of_marks (kept : Saved rules start st saved) (same : st'.reader.marks = st.reader.marks) :
    Saved rules start st' saved := by
  refine ⟨?_, ?_⟩
  · rw [← kept.depth]
    simp only [State.depth, Reader.depth, same]
  · rw [same]
    exact kept.restorable

/-- To save a place adds its receipt to the others. -/
theorem mark {s : Tape} (kept : Saved rules start st saved) (tracks : Tracks rules st s)
    (leads : start.Leads s) : Saved rules start st.mark.2 (st.mark.1 :: saved) := by
  have depth : st.reader.marks.length = saved.length := kept.depth
  refine ⟨?_, ?_⟩
  · simp [State.depth, State.mark, Reader.depth, Reader.mark, depth]
  · intro k m found
    rw [List.reverse_cons] at found
    simp only [State.mark, Reader.mark]
    by_cases older : k < saved.length
    · rw [List.getElem?_append_left (by simpa using older)] at found
      obtain ⟨atDepth, c, place, restorable⟩ := kept.restorable k m found
      exact ⟨atDepth, c, by rw [List.getElem?_append_left (by omega), place], restorable⟩
    · rw [List.getElem?_append_right (by simpa using older), List.length_reverse,
        List.getElem?_singleton] at found
      split at found
      · cases found
        refine ⟨by simp only [State.mark, Reader.mark, Reader.depth]; omega, st.reader.cursor, ?_, ?_⟩
        · rw [List.getElem?_append_right (by omega), List.getElem?_singleton, if_pos (by omega)]
        · exact ⟨s, leads, tracks.on, tracks.lexes, tracks.position, tracks.lastEnd⟩
      · cases found

/-- The receipt that is settled, and those that stay open behind it. -/
theorem settle (kept : Saved rules start st (newer ++ m :: older)) (st' : State) :
    m.reader.depth = older.length ∧
      (∃ c, st.reader.marks[older.length]? = some c ∧ Restorable rules start c m) ∧
      (st'.reader.marks = st.reader.marks.take older.length → Saved rules start st' older) := by
  have whole : (newer ++ m :: older).reverse = older.reverse ++ m :: newer.reverse := by simp
  have depth : st.reader.marks.length = newer.length + (older.length + 1) := by
    simpa [State.depth, Reader.depth] using kept.depth
  obtain ⟨atDepth, place⟩ := kept.restorable older.length m (by
    rw [whole, List.getElem?_append_right (by simp), List.length_reverse, Nat.sub_self]
    rfl)
  refine ⟨atDepth, place, fun marks => ⟨?_, ?_⟩⟩
  · simp only [State.depth, Reader.depth, marks, List.length_take]
    omega
  · intro k m' found
    have within : k < older.reverse.length := (List.getElem?_eq_some_iff.mp found).1
    obtain ⟨atDepth', c, place', restorable⟩ := kept.restorable k m' (by
      rw [whole, List.getElem?_append_left within, found])
    rw [List.length_reverse] at within
    exact ⟨atDepth', c, by rw [marks, List.getElem?_take_of_lt within, place'], restorable⟩

end Saved

/-- Going back to a place that can be restored, from any other place of the text. -/
theorem Restorable.tracks {rules : LexicalRules} {start s : Tape} {st : State} {c : Cursor}
    {m : StateMark} (restorable : Restorable rules start c m) (tracks : Tracks rules st s)
    (leads : start.Leads s) (text : (st.rewind m).reader.text = st.reader.text)
    (cursor : (st.rewind m).reader.cursor = c) :
    ∃ s', Tracks rules (st.rewind m) s' ∧ start.Leads s' := by
  obtain ⟨s', leads', on, lexes, position, lastEnd⟩ := restorable
  have same : s.text = s'.text := leads.text.trans leads'.text.symm
  refine ⟨{ s' with params := m.params, furthest := s.furthest, cancelAfter := s.cancelAfter },
    ?_, leads'.trans (.of_place rfl rfl rfl rfl)⟩
  exact
    { text := text.trans (tracks.text.trans same)
      on := by rw [cursor]; exact on
      lexes := by rw [cursor]; exact lexes
      position := by rw [State.position, Reader.position, cursor]; exact position
      lastEnd := lastEnd
      params := rfl
      furthest := tracks.furthest
      cancelAfter := tracks.cancelAfter
      remembers := by rw [← same]; exact tracks.remembers }

/-- Every reachable state stands where a place on the tape of its text stands, and so do its saved
places. -/
theorem Reachable.tracks {rules : LexicalRules} {text : List Char} {tokens : List Token}
    {stop : Except LexError Token} (lexes : Lexes rules (.ofText text) tokens stop)
    {saved : List StateMark} {st : State} (reach : Reachable rules text saved st) :
    ∃ s, Tracks rules st s ∧ (Tape.ofText text tokens stop).Leads s ∧
      Saved rules (.ofText text tokens stop) st saved := by
  induction reach with
  | start => exact ⟨_, tracks_ofText lexes, .refl _, rfl, by simp⟩
  | peek _ ih =>
    obtain ⟨s, tracks, leads, kept⟩ := ih
    exact ⟨s, tracks.peek.tracks, leads, kept.of_marks tracks.peek.marks⟩
  | bump _ ih =>
    obtain ⟨s, tracks, leads, kept⟩ := ih
    exact ⟨_, tracks.bump.tracks, leads.trans s.leads_bump, kept.of_marks tracks.bump.marks⟩
  | mark _ ih =>
    obtain ⟨s, tracks, leads, kept⟩ := ih
    exact ⟨s, tracks.mark, leads, kept.mark tracks leads⟩
  | @rewind newer m older st _ ih =>
    obtain ⟨s, tracks, leads, kept⟩ := ih
    obtain ⟨atDepth, ⟨c, place, restorable⟩, rest⟩ := kept.settle (st.rewind m)
    have moved : (st.rewind m).reader =
        { st.reader with cursor := c, marks := st.reader.marks.take older.length } := by
      simp only [State.rewind, Reader.rewind, atDepth, place]
    obtain ⟨s', tracks', leads'⟩ := restorable.tracks tracks leads (by rw [moved]) (by rw [moved])
    exact ⟨s', tracks', leads', rest (by rw [moved])⟩
  | @release newer m older st _ ih =>
    obtain ⟨s, tracks, leads, kept⟩ := ih
    obtain ⟨atDepth, -, rest⟩ := kept.settle (st.release m)
    refine ⟨s, { tracks with }, leads, rest ?_⟩
    simp only [State.release, Reader.release, atDepth]
  | @nextParam _ st _ ih =>
    obtain ⟨s, tracks, leads, kept⟩ := ih
    exact ⟨{ s with params := st.params + 1 }, { tracks with params := rfl },
      leads.trans (.of_place rfl rfl rfl rfl), kept.of_marks rfl⟩
  | note m _ ih =>
    obtain ⟨s, tracks, leads, kept⟩ := ih
    exact ⟨s.note m, tracks.note m, leads.trans (s.leads_note m), kept.of_marks rfl⟩
  | report m _ ih =>
    obtain ⟨s, tracks, leads, kept⟩ := ih
    have report := tracks.report (α := Unit) m
    exact ⟨_, report.tracks, leads.trans (s.leads_report m), kept.of_marks report.marks⟩
  | checkCancelled _ ih =>
    obtain ⟨s, tracks, leads, kept⟩ := ih
    exact ⟨_, tracks.checkCancelled.tracks, leads.trans s.leads_checkCancelled,
      kept.of_marks tracks.checkCancelled.marks⟩
  | setCancelAfter checks _ ih =>
    obtain ⟨s, tracks, leads, kept⟩ := ih
    exact ⟨{ s with cancelAfter := checks }, { tracks with cancelAfter := rfl },
      leads.trans (.of_place rfl rfl rfl rfl), kept.of_marks rfl⟩
  | enter _ ih =>
    obtain ⟨s, tracks, leads, kept⟩ := ih
    exact ⟨s, tracks.enter, leads, kept.of_marks rfl⟩
  | leave _ ih =>
    obtain ⟨s, tracks, leads, kept⟩ := ih
    exact ⟨s, { tracks with }, leads, kept.of_marks rfl⟩
  | rule body limit rule _ ih =>
    obtain ⟨s, tracks, leads, kept⟩ := ih
    have forward := Rule.tapeLevels_forward body limit
    have agrees := rule.eval_tracks (Rule.levels_agree rules body limit) forward tracks
    exact ⟨_, agrees.tracks, leads.trans (rule.read_leads forward s), kept.of_marks agrees.marks⟩

end SqlTree
