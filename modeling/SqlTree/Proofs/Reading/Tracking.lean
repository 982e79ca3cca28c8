import Mathlib.Data.List.Forall2
import SqlTree.Proofs.Lexing.Sequence
import SqlTree.Proofs.Reading.Advance

namespace SqlTree

/-- Everything remembered is what the lexer says at that offset of the text. -/
def Remembers (rules : LexicalRules) (text : List Char) (entries : List (Nat × Scanned)) : Prop :=
  ∀ entry ∈ entries, ∀ c : Cursor, c.On text → c.position.offset = entry.1 →
    entry.2 = ⟨(nextToken rules c).1, (nextToken rules c).2⟩

/-- A state of the evaluation stands where a tape stands. -/
structure Tracks (rules : LexicalRules) (st : State) (s : Tape) : Prop where
  text : st.reader.text = s.text
  on : st.reader.cursor.On s.text
  lexes : Lexes rules st.reader.cursor s.tokens s.stop
  position : st.position = s.lastEnd
  lastEnd : st.lastEnd = s.lastEnd
  params : st.params = s.params
  furthest : st.furthest = s.furthest
  cancelAfter : st.cancelAfter = s.cancelAfter
  remembers : Remembers rules s.text st.scanned

/-- The tape of a text from its first character on. -/
def Tape.ofText (text : List Char) (tokens : List Token) (stop : Except LexError Token) : Tape :=
  ⟨text, tokens, stop, .start, 0, none, none⟩

/-- At the start of a text, the state stands where the tape of its tokens stands. -/
theorem tracks_ofText {rules : LexicalRules} {text : List Char} {tokens : List Token}
    {stop : Except LexError Token} (lexes : Lexes rules (.ofText text) tokens stop) :
    Tracks rules (.ofText text) (.ofText text tokens stop) where
  text := rfl
  on := Cursor.on_ofText text
  lexes := lexes
  position := rfl
  lastEnd := rfl
  params := rfl
  furthest := rfl
  cancelAfter := rfl
  remembers := by simp [Remembers, State.ofText]

/-- The answer of a rule and what the reader's saved places and the levels of nesting are
afterwards. -/
structure Agrees {α : Type} (rules : LexicalRules) (st : State) (outcome : Outcome α)
    (reading : Reading α) : Prop where
  result : outcome.1 = reading.1
  tracks : Tracks rules outcome.2 reading.2
  marks : outcome.2.reader.marks = st.reader.marks
  nesting : outcome.2.nesting = st.nesting

/-- Of an agreement, the tape comes to the same result, where the state stands then. -/
theorem Agrees.reading_eq {α : Type} {rules : LexicalRules} {st after : State}
    {result : Except Failure α} {reading : Reading α}
    (agrees : Agrees rules st (result, after) reading) :
    ∃ s', reading = (result, s') ∧ Tracks rules after s' ∧
      after.reader.marks = st.reader.marks ∧ after.nesting = st.nesting :=
  ⟨reading.2, Prod.ext agrees.result.symm rfl, agrees.tracks, agrees.marks, agrees.nesting⟩

namespace Tracks

variable {rules : LexicalRules} {st : State} {s : Tape}

theorem scan_fst (tracks : Tracks rules st s) :
    (st.scan rules).1 =
      ⟨(nextToken rules st.reader.cursor).1, (nextToken rules st.reader.cursor).2⟩ := by
  unfold State.scan
  split
  · rename_i found
    exact tracks.remembers _ (State.mem_of_scannedAt? found) _ tracks.on rfl
  · rfl

/-- What is read for the first time is remembered, and nothing else changes. -/
theorem scan_snd (tracks : Tracks rules st s) :
    Tracks rules (st.scan rules).2 s ∧ (st.scan rules).2.reader = st.reader ∧
      (st.scan rules).2.nesting = st.nesting := by
  unfold State.scan
  split
  · exact ⟨tracks, rfl, rfl⟩
  · refine ⟨{ tracks with remembers := ?_ }, rfl, rfl⟩
    intro entry member c on same
    rcases List.mem_cons.mp member with rfl | old
    · rw [on.eq_of_offset_eq tracks.on same]
    · exact tracks.remembers entry old c on same

/-- Where a state stands, the lexer finds what the tape shows. -/
theorem nextToken_eq (tracks : Tracks rules st s) :
    (nextToken rules st.reader.cursor).1.mapError Failure.lexical = s.peek := by
  unfold Tape.peek
  cases eq : s.tokens with
  | nil =>
    have lexes := tracks.lexes
    rw [eq] at lexes
    generalize same : s.stop = stop at lexes
    cases lexes with
    | eof next => rw [next]
    | fault next => rw [next]
  | cons t tokens =>
    have lexes := tracks.lexes
    rw [eq] at lexes
    cases lexes with
    | token next => rw [next]; rfl

/-- A look at the next token agrees with the tape. -/
theorem peek (tracks : Tracks rules st s) : Agrees rules st (st.peek rules) (s.peek, s) := by
  have scanned := tracks.scan_fst
  obtain ⟨tracks', reader, nesting⟩ := tracks.scan_snd
  refine ⟨?_, tracks', congrArg Reader.marks reader, nesting⟩
  simp only [State.peek, scanned]
  exact tracks.nextToken_eq

theorem bump (tracks : Tracks rules st s) : Agrees rules st (st.bump rules) s.bump := by
  have scanned := tracks.scan_fst
  obtain ⟨tracks', reader, nesting⟩ := tracks.scan_snd
  have marks := congrArg Reader.marks reader
  have on := nextToken_on rules tracks.on
  have lexes := tracks.lexes
  simp only [State.bump, scanned, Tape.bump]
  cases eq : s.tokens with
  | cons t tokens =>
    rw [eq] at lexes
    cases lexes with
    | @token _ after _ _ _ next notEof rest =>
      rw [next] at on ⊢
      obtain ⟨layout, text, -, -, -, place, -, -⟩ := nextToken_ok next
      refine ⟨rfl, ?_, marks, nesting⟩
      exact ⟨(congrArg Reader.text reader).trans tracks.text, on, rest, place, rfl, tracks'.params,
        tracks'.furthest, tracks'.cancelAfter, tracks'.remembers⟩
  | nil =>
    rw [eq] at lexes
    generalize same : s.stop = stop at lexes
    cases lexes with
    | @eof _ after t next isEof =>
      rw [next] at on ⊢
      obtain ⟨layout, text, -, -, -, place, -, -⟩ := nextToken_ok next
      refine ⟨rfl, ?_, marks, nesting⟩
      refine ⟨(congrArg Reader.text reader).trans tracks.text, on, ?_, place, rfl, tracks'.params,
        tracks'.furthest, tracks'.cancelAfter, tracks'.remembers⟩
      exact .eof (nextToken_eof next isEof) isEof
    | fault next =>
      rw [next]
      exact ⟨rfl, tracks', marks, nesting⟩

theorem checkCancelled (tracks : Tracks rules st s) :
    Agrees rules st st.checkCancelled s.checkCancelled := by
  have same := tracks.cancelAfter
  rcases eq : st.cancelAfter with _ | _ | n <;> rw [eq] at same <;>
    simp only [State.checkCancelled, Tape.checkCancelled, eq, ← same]
  · exact ⟨rfl, tracks, rfl, rfl⟩
  · exact ⟨rfl, tracks, rfl, rfl⟩
  · exact ⟨rfl, { tracks with cancelAfter := rfl }, rfl, rfl⟩

theorem note (tracks : Tracks rules st s) (m : Mismatch) : Tracks rules (st.note m) (s.note m) :=
  { tracks with
    furthest := by
      cases eq : s.furthest <;> simp only [State.note, Tape.note, tracks.furthest, eq] }

theorem report {α : Type} (tracks : Tracks rules st s) (m : Mismatch) :
    Agrees rules st ((.error (.mismatch (st.report m).1), (st.report m).2) : Outcome α)
      (.error (.mismatch (s.report m).1), (s.report m).2) := by
  have same := tracks.furthest
  rcases eq : st.furthest with _ | previous <;> rw [eq] at same <;>
    simp only [State.report, Tape.report, eq, ← same]
  · exact ⟨rfl, tracks, rfl, rfl⟩
  · exact ⟨rfl, { tracks with furthest := rfl }, rfl, rfl⟩

theorem tooDeep {α : Type} (tracks : Tracks rules st s) :
    Agrees rules st (st.tooDeep rules : Outcome α) s.tooDeep := by
  obtain ⟨result, after, marks, nesting⟩ := tracks.peek
  simp only at result
  simp only [State.tooDeep, Tape.tooDeep, ← result]
  split
  · rename_i eq
    simp only [eq] at after marks nesting ⊢
    exact ⟨rfl, after, marks, nesting⟩
  · rename_i eq
    simp only [eq] at after marks nesting ⊢
    exact ⟨rfl, after, marks, nesting⟩

/-- Going back to a place that was saved on the way restores it. -/
theorem rewind {st' : State} {s' : Tape} (tracks : Tracks rules st s) (after : Tracks rules st' s')
    (leads : s.Leads s') (marks : st'.reader.marks = st.mark.2.reader.marks) :
    Tracks rules (st'.rewind st.mark.1) (s'.backTo s) ∧
      (st'.rewind st.mark.1).reader.marks = st.reader.marks := by
  have saved : st'.reader.marks[st.reader.marks.length]? = some st.reader.cursor := by
    simp [marks, State.mark, Reader.mark]
  have older : st'.reader.marks.take st.reader.marks.length = st.reader.marks := by
    simp [marks, State.mark, Reader.mark]
  simp only [State.rewind, State.mark, Reader.mark, Reader.rewind, Reader.depth, saved]
  refine ⟨?_, older⟩
  refine ⟨after.text, ?_, ?_, tracks.position, tracks.lastEnd, tracks.params, after.furthest,
    after.cancelAfter, after.remembers⟩
  · simp only [Tape.backTo, leads.text]
    exact tracks.on
  · simp only [Tape.backTo, leads.stop]
    exact tracks.lexes

/-- Staying forgets the place that was saved, and nothing else. -/
theorem release {st' : State} {s' : Tape} (after : Tracks rules st' s')
    (marks : st'.reader.marks = st.mark.2.reader.marks) :
    Tracks rules (st'.release st.mark.1) s' ∧
      (st'.release st.mark.1).reader.marks = st.reader.marks := by
  have older : st'.reader.marks.take st.reader.marks.length = st.reader.marks := by
    simp [marks, State.mark, Reader.mark]
  exact ⟨{ after with }, older⟩

theorem mark (tracks : Tracks rules st s) : Tracks rules st.mark.2 s := { tracks with }

end Tracks

/-- The named rules over characters and over a tape go hand in hand. -/
def LevelsAgree {Sym : Type → Type} (rules : LexicalRules) :
    List (Level Sym) → List (TapeLevel Sym) → Prop :=
  List.Forall₂ fun level tapeLevel => ∀ (α : Type) (name : Sym α) (st : State) (s : Tape),
    Tracks rules st s → Agrees rules st (level α name st) (tapeLevel α name s)

/-- A level of nesting that is left again leaves no trace. -/
theorem Agrees.leave {α : Type} {rules : LexicalRules} {st : State} {outcome : Outcome α}
    {reading : Reading α} (agrees : Agrees rules st.enter outcome reading) :
    Agrees rules st (State.leave outcome) reading where
  result := agrees.result
  tracks := { agrees.tracks with }
  marks := agrees.marks
  nesting := by simp only [State.leave, agrees.nesting, State.enter, Nat.add_sub_cancel]

theorem Tracks.enter {rules : LexicalRules} {st : State} {s : Tape} (tracks : Tracks rules st s) :
    Tracks rules st.enter s := { tracks with }

/-- What agrees from a later state on, with the same places saved there, agrees as a whole. -/
theorem Agrees.of_later {α : Type} {rules : LexicalRules} {st mid : State} {outcome : Outcome α}
    {reading : Reading α} (rest : Agrees rules mid outcome reading)
    (marks : mid.reader.marks = st.reader.marks) (nesting : mid.nesting = st.nesting) :
    Agrees rules st outcome reading :=
  ⟨rest.result, rest.tracks, rest.marks.trans marks, rest.nesting.trans nesting⟩

/-- Repetitions stop together, and neither runs out of its supply: there is a character for each
move that is left. -/
theorem Tracks.iterate {rules : LexicalRules} {σ : Type} {step : σ → State → Outcome (Option σ)}
    {tapeStep : σ → Tape → Reading (Option σ)} (forward : ∀ x (s : Tape), s.Leads (tapeStep x s).2)
    (agree : ∀ x st s, Tracks rules st s → Agrees rules st (step x st) (tapeStep x s))
    {left : List Char} {fuel : Nat} {x : σ} {st : State} {s : Tape} (tracks : Tracks rules st s)
    (supply : st.reader.cursor.rest.length ≤ left.length) (enough : s.ahead ≤ fuel) :
    Agrees rules st (State.iterate step left x st) (Tape.iterate tapeStep fuel x s) := by
  fun_induction State.iterate step left x st generalizing fuel s with
  | case1 left x st failure after eq =>
    obtain ⟨s', eq', tracks', marks, nesting⟩ := (eq ▸ agree x st s tracks).reading_eq
    rw [Tape.iterate_error eq']
    exact ⟨rfl, tracks', marks, nesting⟩
  | case2 left x st after eq =>
    obtain ⟨s', eq', tracks', marks, nesting⟩ := (eq ▸ agree x st s tracks).reading_eq
    rw [Tape.iterate_none eq']
    exact ⟨rfl, tracks', marks, nesting⟩
  | case3 x st y after eq further =>
    obtain ⟨s', eq', tracks', -, -⟩ := (eq ▸ agree x st s tracks).reading_eq
    have leads := forward x s
    rw [eq'] at leads
    have := tracks.on.rest_length_lt (leads.text ▸ tracks'.on) further
    simp only [List.length_nil] at supply
    omega
  | case4 x st y after eq further head left ih =>
    obtain ⟨s', eq', tracks', marks, nesting⟩ := (eq ▸ agree x st s tracks).reading_eq
    have leads := forward x s
    rw [eq'] at leads
    have shorter := tracks.on.rest_length_lt (leads.text ▸ tracks'.on) further
    have further' : s.lastEnd.offset < s'.lastEnd.offset := by
      rwa [← tracks.position, ← tracks'.position]
    have moves : s'.ahead < s.ahead := leads.ahead_lt further'
    obtain ⟨fuel, rfl⟩ := Nat.exists_eq_succ_of_ne_zero (by omega : fuel ≠ 0)
    rw [Tape.iterate_next eq' further']
    simp only [List.length_cons] at supply
    have rest := ih tracks' (show _ ≤ left.length by omega) (show s'.ahead ≤ fuel by omega)
    exact rest.of_later marks nesting
  | case5 left x st y after eq stays =>
    obtain ⟨s', eq', tracks', marks, nesting⟩ := (eq ▸ agree x st s tracks).reading_eq
    have stays' : ¬ s.lastEnd.offset < s'.lastEnd.offset := by
      rwa [← tracks.position, ← tracks'.position]
    rw [Tape.iterate_stay eq' stays']
    exact ⟨rfl, tracks', marks, nesting⟩

/-- An alternative agrees with its reading: what was consumed before a mismatch is restored, and so
it is before any other failure. -/
theorem Tracks.alternative {rules : LexicalRules} {α : Type} {st : State} {s : Tape}
    (tracks : Tracks rules st s) {outcome : Outcome α} {reading : Reading α}
    {other : Mismatch → State → Outcome α} {tapeOther : Mismatch → Tape → Reading α}
    (agree : ∀ m st s, Tracks rules st s → Agrees rules st (other m st) (tapeOther m s)) :
    Agrees rules st.mark.2 outcome reading → s.Leads reading.2 → Agrees rules st
      (match outcome with
      | (.ok value, after) => (.ok value, after.release st.mark.1)
      | (.error (.mismatch m), after) => other m (after.rewind st.mark.1)
      | (.error failure, after) => (.error failure, after.rewind st.mark.1))
      (match reading with
      | (.ok value, after) => (.ok value, after)
      | (.error (.mismatch m), after) => tapeOther m (after.backTo s)
      | (.error failure, after) => (.error failure, after.backTo s)) := by
  intro inner leads
  obtain ⟨result, after⟩ := outcome
  obtain ⟨s', rfl, tracks', marks, nesting⟩ := inner.reading_eq
  cases result with
  | ok value =>
    obtain ⟨released, kept⟩ := tracks'.release marks
    exact ⟨rfl, released, kept, nesting⟩
  | error failure =>
    obtain ⟨rewound, kept⟩ := tracks.rewind tracks' leads marks
    cases failure with
    | mismatch m => exact (agree m _ _ rewound).of_later kept nesting
    | lexical e => exact ⟨rfl, rewound, kept, nesting⟩
    | cancelled => exact ⟨rfl, rewound, kept, nesting⟩
    | tooDeep p => exact ⟨rfl, rewound, kept, nesting⟩

/-- Evaluating a rule over characters is reading the tape of their tokens. The tokens that are
remembered, the places that are saved and the supply of repetitions make no difference. -/
theorem Rule.eval_tracks {Sym : Type → Type} {rules : LexicalRules} {α : Type} (rule : Rule Sym α)
    {levels : List (Level Sym)} {tapeLevels : List (TapeLevel Sym)}
    (agree : LevelsAgree rules levels tapeLevels)
    (forward : ∀ level ∈ tapeLevels, level.Forward) {st : State} {s : Tape}
    (tracks : Tracks rules st s) :
    Agrees rules st (rule.eval rules levels st) (rule.read tapeLevels s) := by
  induction rule generalizing levels tapeLevels st s with
  | pure value => exact ⟨rfl, tracks, rfl, rfl⟩
  | bind first next ihFirst ihNext =>
    have head := ihFirst agree forward tracks
    simp only [eval, read]
    split
    · rename_i value after eq
      obtain ⟨s', eq', tracks', marks, nesting⟩ := (eq ▸ head).reading_eq
      rw [eq']
      exact (ihNext value agree forward tracks').of_later marks nesting
    · rename_i failure after eq
      obtain ⟨s', eq', tracks', marks, nesting⟩ := (eq ▸ head).reading_eq
      rw [eq']
      exact ⟨rfl, tracks', marks, nesting⟩
  | fail failure => exact ⟨rfl, tracks, rfl, rfl⟩
  | peek => exact tracks.peek
  | bump => exact tracks.bump
  | lastEnd => exact ⟨congrArg Except.ok tracks.lastEnd, tracks, rfl, rfl⟩
  | slice span =>
    refine ⟨?_, tracks, rfl, rfl⟩
    simp only [eval, read, Reader.slice, tracks.text]
  | nextParam =>
    refine ⟨?_, { tracks with params := congrArg (· + 1) tracks.params }, rfl, rfl⟩
    simp only [eval, read, tracks.params]
  | note m => exact ⟨rfl, tracks.note m, rfl, rfl⟩
  | checkCancelled => exact tracks.checkCancelled
  | setCancelAfter checks => exact ⟨rfl, { tracks with cancelAfter := rfl }, rfl, rfl⟩
  | orElse rule other ihRule ihOther =>
    simp only [eval, read]
    split
    · rename_i failure after eq
      obtain ⟨s', eq', tracks', marks, nesting⟩ := (eq ▸ tracks.checkCancelled).reading_eq
      rw [eq']
      exact ⟨rfl, tracks', marks, nesting⟩
    · rename_i checked eq
      obtain ⟨s', eq', tracks', marks, nesting⟩ := (eq ▸ tracks.checkCancelled).reading_eq
      rw [eq']
      have inner := ihRule agree forward tracks'.mark
      exact (tracks'.alternative (fun m st s tracks => ihOther m agree forward tracks) inner
        (rule.read_leads forward s')).of_later marks nesting
  | lookahead rule ih =>
    have inner := ih agree forward tracks.mark
    obtain ⟨rewound, kept⟩ :=
      tracks.rewind inner.tracks (rule.read_leads forward s) inner.marks
    exact ⟨inner.result, rewound, kept, inner.nesting⟩
  | reporting rule ih =>
    have inner := ih agree forward tracks
    simp only [eval, read]
    split
    · rename_i m after eq
      obtain ⟨s', eq', tracks', marks, nesting⟩ := (eq ▸ inner).reading_eq
      rw [eq']
      exact (tracks'.report m).of_later marks nesting
    · rename_i terminal
      rcases eq : rule.eval rules levels st with ⟨result, after⟩
      obtain ⟨s', eq', tracks', marks, nesting⟩ := (eq ▸ inner).reading_eq
      rw [eq']
      split
      · rename_i same
        cases same
        exact absurd eq (terminal _ _)
      · exact ⟨rfl, tracks', marks, nesting⟩
  | nested rule ih =>
    cases agree with
    | nil => exact tracks.tooDeep
    | cons _ deeper =>
      exact (ih deeper (fun l mem => forward l (List.mem_cons_of_mem _ mem)) tracks.enter).leave
  | loop step first ih =>
    exact tracks.iterate (fun x s => (step x).read_leads forward s)
      (fun x st s tracks => ih x agree forward tracks) (Nat.le_refl _) s.ahead_le
  | call name =>
    cases agree with
    | nil => exact tracks.tooDeep
    | cons level _ => exact (level _ name _ s tracks.enter).leave

/-- On every level of nesting the named rules agree with the tape. -/
theorem Rule.levels_agree {Sym : Type → Type} (rules : LexicalRules)
    (body : ∀ α : Type, Sym α → Rule Sym α) (limit : Nat) :
    LevelsAgree rules (levels rules body limit) (tapeLevels body limit) := by
  induction limit with
  | zero => exact .nil
  | succ limit ih =>
    refine .cons (fun α name st s tracks => ?_) ih
    exact (body α name).eval_tracks ih (tapeLevels_forward body limit) tracks

end SqlTree
