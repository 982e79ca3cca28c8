import SqlTree.Dialect.Builtin
import SqlTree.Proofs.Reading.Tells

namespace SqlTree

/-- The readers over a text that reading, saving, going back and lexing lead to, with the places that
the lexer told. A receipt may be settled at any time, also when it is stale. -/
inductive Reader.Reached (text : List Char) : List Position → Reader → Prop
  | start : Reached text [] (.ofText text)
  | advance {told r} : Reached text told r → Reached text told r.advance.2
  | mark {told r} : Reached text told r → Reached text told r.mark.2
  | rewind {told r} (m : Mark) : Reached text told r → Reached text told (r.rewind m)
  | release {told r} (m : Mark) : Reached text told r → Reached text told (r.release m)
  | nextToken {told r} (rules : LexicalRules) : Reached text told r →
      Reached text (told ++ shownPlaces ((nextToken rules r.cursor).1.mapError .lexical))
        (r.moveTo (SqlTree.nextToken rules r.cursor).2)

/-- A grammar that begins where a reader stands. -/
def State.ofReader (r : Reader) : State := ⟨r, [], r.position, 0, none, 0, none⟩

/-- The places that a failing rule names. -/
def failurePlaces {α : Type} : Except Failure α → List Position
  | .ok _ => []
  | .error failure => failure.places

/-- The states of a grammar that operations and rules lead to in any order, from wherever a reader
stands, with the receipts that were given out and the places that were told. Only a mismatch at a
place that was told is put aside or reported, and a rule makes up no place. -/
inductive State.Reached (rules : LexicalRules) (text : List Char) :
    List StateMark → List Position → State → Prop
  | start {told r} : Reader.Reached text told r → Reached rules text [] told (.ofReader r)
  | peek {taken told st} : Reached rules text taken told st →
      Reached rules text taken (told ++ shownPlaces (st.peek rules).1) (st.peek rules).2
  | bump {taken told st} : Reached rules text taken told st →
      Reached rules text taken (told ++ shownPlaces (st.bump rules).1) (st.bump rules).2
  | mark {taken told st} : Reached rules text taken told st →
      Reached rules text (st.mark.1 :: taken) told st.mark.2
  | rewind {taken told st m} : m ∈ taken → Reached rules text taken told st →
      Reached rules text taken told (st.rewind m)
  | release {taken told st m} : m ∈ taken → Reached rules text taken told st →
      Reached rules text taken told (st.release m)
  | nextParam {taken told st} : Reached rules text taken told st →
      Reached rules text taken told { st with params := st.params + 1 }
  | note {taken told st} {m : Mismatch} : m.position ∈ told → Reached rules text taken told st →
      Reached rules text taken told (st.note m)
  | report {taken told st} {m : Mismatch} : m.position ∈ told → Reached rules text taken told st →
      Reached rules text taken (told ++ [(st.report m).1.position]) (st.report m).2
  | checkCancelled {taken told st} : Reached rules text taken told st →
      Reached rules text taken told st.checkCancelled.2
  | setCancelAfter {taken told st} (checks : Option Nat) : Reached rules text taken told st →
      Reached rules text taken told { st with cancelAfter := checks }
  | enter {taken told st} : Reached rules text taken told st →
      Reached rules text taken told st.enter
  | leave {taken told st} : Reached rules text taken told st →
      Reached rules text taken told { st with nesting := st.nesting - 1 }
  | rule {taken told st} {Sym : Type → Type} {α : Type} {body : ∀ β : Type, Sym β → Rule Sym β}
      (named : ∀ C β name, (body β name).Tells C fun _ => True) (limit : Nat) {rule : Rule Sym α}
      (tells : ∀ C, rule.Tells C fun _ => True) : Reached rules text taken told st →
      Reached rules text taken
        (told ++ failurePlaces (rule.eval rules (Rule.levels rules body limit) st).1)
        (rule.eval rules (Rule.levels rules body limit) st).2

/-- All places that a state of a grammar holds, those of its receipts and those that were told. -/
structure State.Placed (text : List Char) (taken : List StateMark) (told : List Position)
    (st : State) : Prop where
  position : st.position.Canonical text
  marks : ∀ c ∈ st.reader.marks, c.position.Canonical text
  receipts : ∀ m ∈ taken, m.lastEnd.Canonical text
  memo : ∀ entry ∈ st.scanned, (∃ p : Position, p.Canonical text ∧ p.offset = entry.1) ∧
    entry.2.after.position.Canonical text ∧
    ∀ p ∈ shownPlaces (entry.2.token.mapError .lexical), p.Canonical text
  lastEnd : st.lastEnd.Canonical text
  furthest : ∀ m ∈ st.furthest, m.position.Canonical text
  told : ∀ p ∈ told, p.Canonical text

section

variable {text : List Char} {told : List Position}

theorem Cursor.On.next {c : Cursor} (on : c.On text) : c.next.On text := by
  unfold Cursor.next
  split
  · exact on
  · rename_i d rest split
    exact on.afterAll (a := [d]) split

/-- A reader and its saved cursors stand in the text. -/
theorem Reader.Reached.on {r : Reader} (reached : r.Reached text told) :
    r.cursor.On text ∧ (∀ c ∈ r.marks, c.On text) ∧ ∀ p ∈ told, p.Canonical text := by
  induction reached with
  | start => exact ⟨Cursor.on_ofText text, by simp [Reader.ofText], by simp⟩
  | advance _ ih => exact ⟨ih.1.next, ih.2⟩
  | mark _ ih =>
    obtain ⟨on, marks, told⟩ := ih
    refine ⟨on, fun c member => ?_, told⟩
    rcases List.mem_append.mp member with old | new
    · exact marks c old
    · rw [List.mem_singleton.mp new]
      exact on
  | rewind m _ ih =>
    obtain ⟨on, marks, told⟩ := ih
    unfold Reader.rewind
    split
    · rename_i saved found
      exact ⟨marks saved (List.mem_of_getElem? found),
        fun c member => marks c (List.mem_of_mem_take member), told⟩
    · exact ⟨on, marks, told⟩
  | release m _ ih =>
    obtain ⟨on, marks, told⟩ := ih
    exact ⟨on, fun c member => marks c (List.mem_of_mem_take member), told⟩
  | nextToken rules _ ih =>
    obtain ⟨on, marks, told⟩ := ih
    exact ⟨nextToken_on rules on, marks,
      List.forall_mem_append.mpr ⟨told, nextToken_places rules on⟩⟩

/-- What a grammar holds and told when it has come to a state. -/
theorem State.Reached.canonical {rules : LexicalRules} {taken : List StateMark} {st : State}
    (reached : st.Reached rules text taken told) :
    st.Canonical text ∧ (∀ m ∈ taken, m.lastEnd.Canonical text) ∧ ∀ p ∈ told, p.Canonical text := by
  induction reached with
  | start reader =>
    obtain ⟨on, marks, told⟩ := reader.on
    refine ⟨⟨on, marks, ?_, on.canonical, ?_⟩, by simp, told⟩
    · simp [State.ofReader]
    · simp [State.ofReader]
  | peek _ ih =>
    obtain ⟨canonical, receipts, told⟩ := ih
    obtain ⟨after, shown⟩ := canonical.peek rules
    exact ⟨after, receipts, List.forall_mem_append.mpr ⟨told, shown⟩⟩
  | bump _ ih =>
    obtain ⟨canonical, receipts, told⟩ := ih
    obtain ⟨after, shown⟩ := canonical.bump rules
    exact ⟨after, receipts, List.forall_mem_append.mpr ⟨told, shown⟩⟩
  | mark _ ih =>
    obtain ⟨canonical, receipts, told⟩ := ih
    obtain ⟨after, receipt⟩ := canonical.mark
    exact ⟨after, List.forall_mem_cons.mpr ⟨receipt, receipts⟩, told⟩
  | rewind known _ ih =>
    obtain ⟨canonical, receipts, told⟩ := ih
    exact ⟨canonical.rewind (receipts _ known), receipts, told⟩
  | release known _ ih =>
    obtain ⟨canonical, receipts, told⟩ := ih
    exact ⟨canonical.release, receipts, told⟩
  | note place _ ih =>
    obtain ⟨canonical, receipts, told⟩ := ih
    exact ⟨canonical.note (told _ place), receipts, told⟩
  | report place _ ih =>
    obtain ⟨canonical, receipts, told⟩ := ih
    obtain ⟨after, reported⟩ := canonical.report (told _ place)
    exact ⟨after, receipts,
      List.forall_mem_append.mpr ⟨told, List.forall_mem_singleton.mpr reported⟩⟩
  | checkCancelled _ ih =>
    obtain ⟨canonical, receipts, told⟩ := ih
    exact ⟨canonical.checkCancelled.state, receipts, told⟩
  | nextParam _ ih | setCancelAfter _ _ ih | enter _ ih | leave _ ih =>
    obtain ⟨canonical, receipts, told⟩ := ih
    exact ⟨{ canonical with }, receipts, told⟩
  | rule named limit tells _ ih =>
    obtain ⟨canonical, receipts, told⟩ := ih
    have levels := Rule.levels_canonical rules (named (·.Canonical text)) limit
    have outcome := (tells (·.Canonical text)).eval rules levels canonical
    refine ⟨outcome.state, receipts, List.forall_mem_append.mpr ⟨told, ?_⟩⟩
    unfold failurePlaces
    split
    · simp
    · rename_i failure eq
      exact outcome.failure failure eq

/-- All that a state holds when operations and rules have led to it are places of the text. -/
theorem State.Reached.placed {rules : LexicalRules} {taken : List StateMark} {st : State}
    (reached : st.Reached rules text taken told) : st.Placed text taken told := by
  obtain ⟨canonical, receipts, told⟩ := reached.canonical
  exact
    { position := canonical.cursor.canonical
      marks := fun c member => (canonical.marks c member).canonical
      receipts := receipts
      memo := fun entry member =>
        have known := canonical.memo entry member
        ⟨known.1, known.2.1.canonical, known.2.2⟩
      lastEnd := canonical.lastEnd
      furthest := canonical.furthest
      told := told }

end

/-- The rules of the grammar make up no place, neither by themselves nor for a whole text. -/
theorem SqlRule.entry_tells (f : Features) (kind : ModelKind) (C : Position → Prop) :
    (SqlRule.entry f kind).run.Tells C (fun _ => True) ∧
      ∀ α name, (Symbol.body f α name).Tells C fun _ => True := by
  have entry : (SqlRule.entry f kind).Blames (Grounds.at C) := SqlRule.entry_blames f kind
  exact ⟨entry.complete.tells.mono fun _ _ => trivial,
    fun α name => (Symbol.body_blames f α name).tells.mono fun _ _ => trivial⟩

/-- Every place that a reader, a lexer or a grammar over a text holds or tells is a place of the text,
whatever was done with it before. So places of one offset are one place, and the text can be cut at
each of them. -/
theorem places_canonical (text : List Char) :
    (∀ told (r : Reader), r.Reached text told → r.position.Canonical text ∧
      (∀ c ∈ r.marks, c.position.Canonical text) ∧ ∀ p ∈ told, p.Canonical text) ∧
    (∀ rules taken told (st : State), st.Reached rules text taken told → st.Placed text taken told) ∧
    (∀ f kind C, (SqlRule.entry f kind).run.Tells C (fun _ => True) ∧
      ∀ α name, (Symbol.body f α name).Tells C fun _ => True) ∧
    (∀ p q : Position, p.Canonical text → q.Canonical text → p.offset = q.offset → p = q) ∧
    ∀ p : Position, p.Canonical text → p.offset ≤ byteSize text ∧
      (∃ rest, dropBytes text p.offset = some rest) ∧
      ∀ q : Position, q.Canonical text → p.offset ≤ q.offset →
        ∃ written, sliceBytes text p.offset q.offset = some written := by
  refine ⟨fun told r reached => ?_, fun rules taken told st reached => reached.placed,
    SqlRule.entry_tells, fun p q => Position.Canonical.eq_of_offset_eq, fun p place => ?_⟩
  · obtain ⟨on, marks, told⟩ := reached.on
    exact ⟨on.canonical, fun c member => (marks c member).canonical, told⟩
  · exact ⟨place.offset_le, place.cuts, fun q other => place.slices other⟩

/-- A string that is left open on the second line, behind a name of a letter that takes two bytes. -/
theorem places_canonical_fault : ∃ taken told st,
    State.Reached Dialect.sqlite.lexical "\"é\"\n'".toList taken told st ∧
      (⟨5, 2, 1⟩ : Position) ∈ told ∧ State.Placed "\"é\"\n'".toList taken told st := by
  have reached : State.Reached Dialect.sqlite.lexical "\"é\"\n'".toList _ _ _ :=
    .peek (.bump (.mark (.start .start)))
  have fault : ((((State.ofReader (.ofText "\"é\"\n'".toList)).mark.2.bump Dialect.sqlite.lexical).2).peek
      Dialect.sqlite.lexical).1 = .error (.lexical ⟨.unterminatedString, ⟨5, 2, 1⟩⟩) := rfl
  refine ⟨_, _, _, reached, ?_, (places_canonical "\"é\"\n'".toList).2.1 _ _ _ _ reached⟩
  rw [fault]
  exact List.mem_append_right _ (List.mem_singleton_self _)

end SqlTree
