import SqlTree.Proofs.Lexing.Sequence
import SqlTree.Proofs.Reading.Blames
import SqlTree.Proofs.Text.Canonical

namespace SqlTree

/-- The places that a failure names. -/
def Failure.places : Failure → List Position
  | .mismatch m => [m.position]
  | .lexical e => [e.position]
  | .cancelled => []
  | .tooDeep p => [p]

/-- The places that a token or a failure names. -/
def shownPlaces : Except Failure Token → List Position
  | .ok t => [t.span.start, t.span.stop]
  | .error failure => failure.places

/-- The lexer names places of the text that it reads. -/
theorem nextToken_places (rules : LexicalRules) {text : List Char} {c : Cursor} (on : c.On text) :
    ∀ p ∈ shownPlaces ((nextToken rules c).1.mapError .lexical), p.Canonical text := by
  have outer := (scanLayout_splits rules.hashComments .gap c.rest).symm
  have inner := (scanToken_splits rules (scanLayout rules.hashComments .gap c.rest).rest).symm
  have behind := on.afterAll outer
  -- A part of what was read ends at a place of the text, too.
  have within {c : Cursor} {read rest : List Char} (on : c.On text) (split : c.rest = read ++ rest)
      (n : Nat) : (c.position.afterAll (read.take n)).Canonical text := by
    refine on.canonical_afterAll (b := read.drop n ++ rest) ?_
    rw [split, ← List.append_assoc, List.take_append_drop]
  simp only [nextToken]
  split
  · split
    · simp only [Except.mapError, shownPlaces, List.forall_mem_cons, List.not_mem_nil,
        false_implies, implies_true, and_true]
      exact ⟨behind.canonical, behind.canonical_afterAll inner⟩
    · simp only [Except.mapError, shownPlaces, Failure.places, List.forall_mem_cons,
        List.not_mem_nil, false_implies, implies_true, and_true]
      exact within behind inner _
  · simp only [Except.mapError, shownPlaces, Failure.places, List.forall_mem_cons,
      List.not_mem_nil, false_implies, implies_true, and_true]
    exact within on outer _

/-- A state over a text all of whose places are places of the text. -/
structure State.Canonical (text : List Char) (st : State) : Prop where
  cursor : st.reader.cursor.On text
  marks : ∀ c ∈ st.reader.marks, c.On text
  memo : ∀ entry ∈ st.scanned, (∃ p : Position, p.Canonical text ∧ p.offset = entry.1) ∧
    entry.2.after.On text ∧
    ∀ p ∈ shownPlaces (entry.2.token.mapError .lexical), p.Canonical text
  lastEnd : st.lastEnd.Canonical text
  furthest : ∀ m ∈ st.furthest, m.position.Canonical text

/-- An outcome all of whose places are places of the text, with a value as it is to be. -/
structure Outcome.Canonical {α : Type} (text : List Char) (post : α → Prop) (outcome : Outcome α) :
    Prop where
  state : outcome.2.Canonical text
  value : ∀ value, outcome.1 = .ok value → post value
  failure : ∀ failure, outcome.1 = .error failure → ∀ p ∈ failure.places, p.Canonical text

/-- One of two mismatches lends its place to both. -/
theorem Mismatch.merge_at {C : Position → Prop} {m m' : Mismatch} (first : C m.position)
    (second : C m'.position) : C (m.merge m').position := by
  unfold Mismatch.merge
  split
  · exact first
  · split
    · exact second
    · exact first

/-- Tokens, lexical errors and mismatches at places of some kind. -/
def Grounds.at (C : Position → Prop) : Grounds where
  token t := C t.span.start ∧ C t.span.stop
  lexical e := C e.position
  mismatch m := C m.position
  unmet token _ _ := token.1
  merge := Mismatch.merge_at

section

variable {text : List Char} {st : State} {m : StateMark} {α : Type}
  {post : α → Prop}

theorem Outcome.Canonical.ok {value : α} (canonical : st.Canonical text) (holds : post value) :
    Outcome.Canonical text post (.ok value, st) :=
  ⟨canonical, fun _ eq => Except.ok.inj eq ▸ holds, nofun⟩

theorem Outcome.Canonical.error {failure : Failure} (canonical : st.Canonical text)
    (places : ∀ p ∈ failure.places, p.Canonical text) :
    Outcome.Canonical text post (.error failure, st) :=
  ⟨canonical, nofun, fun _ eq => Except.error.inj eq ▸ places⟩

namespace State.Canonical

/-- What is read next and what is remembered of it. -/
theorem scan (canonical : st.Canonical text) (rules : LexicalRules) :
    (st.scan rules).2.Canonical text ∧ (st.scan rules).1.after.On text ∧
      ∀ p ∈ shownPlaces ((st.scan rules).1.token.mapError .lexical), p.Canonical text := by
  unfold State.scan
  split
  · rename_i s found
    obtain ⟨-, after, places⟩ := canonical.memo _ (State.mem_of_scannedAt? found)
    exact ⟨canonical, after, places⟩
  · have after := nextToken_on rules canonical.cursor
    have places := nextToken_places rules canonical.cursor
    refine ⟨{ canonical with memo := ?_ }, after, places⟩
    intro entry member
    rcases List.mem_cons.mp member with rfl | old
    · exact ⟨⟨st.position, canonical.cursor.canonical, rfl⟩, after, places⟩
    · exact canonical.memo entry old

/-- The next token is shown at places of the text. -/
theorem peek (canonical : st.Canonical text) (rules : LexicalRules) :
    (st.peek rules).2.Canonical text ∧ ∀ p ∈ shownPlaces (st.peek rules).1, p.Canonical text := by
  obtain ⟨state, -, places⟩ := canonical.scan rules
  exact ⟨state, places⟩

/-- The next token is consumed up to a place of the text. -/
theorem bump (canonical : st.Canonical text) (rules : LexicalRules) :
    (st.bump rules).2.Canonical text ∧ ∀ p ∈ shownPlaces (st.bump rules).1, p.Canonical text := by
  obtain ⟨state, after, places⟩ := canonical.scan rules
  unfold State.bump
  generalize st.scan rules = scanned at state after places
  obtain ⟨⟨token, behind⟩, st⟩ := scanned
  cases token with
  | error e => exact ⟨state, places⟩
  | ok t =>
    have stop : t.span.stop.Canonical text := places _ (by simp [Except.mapError, shownPlaces])
    exact ⟨{ state with cursor := after, lastEnd := stop }, places⟩

theorem mark (canonical : st.Canonical text) :
    st.mark.2.Canonical text ∧ st.mark.1.lastEnd.Canonical text := by
  refine ⟨{ canonical with marks := ?_ }, canonical.lastEnd⟩
  intro c member
  rcases List.mem_append.mp member with old | new
  · exact canonical.marks c old
  · rw [List.mem_singleton.mp new]
    exact canonical.cursor

theorem release (canonical : st.Canonical text) : (st.release m).Canonical text :=
  { canonical with marks := fun c member => canonical.marks c (List.mem_of_mem_take member) }

/-- To go back leads to a place that was saved. -/
theorem rewind (canonical : st.Canonical text) (receipt : m.lastEnd.Canonical text) :
    (st.rewind m).Canonical text := by
  unfold State.rewind Reader.rewind
  split
  · rename_i saved found
    exact { canonical with
      cursor := canonical.marks saved (List.mem_of_getElem? found)
      marks := fun c member => canonical.marks c (List.mem_of_mem_take member)
      lastEnd := receipt }
  · exact { canonical with lastEnd := receipt }

theorem checkCancelled (canonical : st.Canonical text) :
    Outcome.Canonical text (fun _ => True) st.checkCancelled := by
  unfold State.checkCancelled
  split
  · exact .ok canonical trivial
  · exact .error canonical (by simp [Failure.places])
  · exact .ok { canonical with } trivial

theorem note {failure : Mismatch} (canonical : st.Canonical text)
    (place : failure.position.Canonical text) : (st.note failure).Canonical text := by
  refine { canonical with furthest := fun m member => ?_ }
  obtain rfl := Option.some.inj member
  split
  · rename_i previous eq
    exact Mismatch.merge_at (canonical.furthest previous eq) place
  · exact place

/-- What is reported lies where the mismatch lies, or where one was put aside. -/
theorem report {failure : Mismatch} (canonical : st.Canonical text)
    (place : failure.position.Canonical text) :
    (st.report failure).2.Canonical text ∧ (st.report failure).1.position.Canonical text := by
  unfold State.report
  split
  · rename_i furthest eq
    exact ⟨{ canonical with furthest := by simp },
      Mismatch.merge_at (canonical.furthest furthest eq) place⟩
  · exact ⟨canonical, place⟩

theorem tooDeep (canonical : st.Canonical text) (rules : LexicalRules) :
    Outcome.Canonical text post (st.tooDeep rules) := by
  obtain ⟨state, places⟩ := canonical.peek rules
  unfold State.tooDeep
  generalize st.peek rules = peeked at state places
  rcases peeked with ⟨failure | t, after⟩
  · exact .error state places
  · refine .error state fun p member => places p ?_
    simp only [Failure.places, List.mem_singleton] at member
    simp [shownPlaces, member]

theorem leave {outcome : Outcome α} (canonical : Outcome.Canonical text post outcome) :
    Outcome.Canonical text post (State.leave outcome) :=
  ⟨{ canonical.state with }, canonical.value, canonical.failure⟩

/-- Repetitions keep what each one of them keeps. -/
theorem iterate {σ : Type} {step : σ → State → Outcome (Option σ)} {inv : σ → Prop}
    (steps : ∀ x, inv x → ∀ st, st.Canonical text →
      Outcome.Canonical text (fun next => ∀ y, next = some y → inv y) (step x st))
    (left : List Char) {x : σ} (holds : inv x) (canonical : st.Canonical text) :
    Outcome.Canonical text inv (State.iterate step left x st) := by
  induction left generalizing x st with
  | nil =>
    have one := steps x holds st canonical
    unfold State.iterate
    generalize step x st = taken at one
    rcases taken with ⟨failure | _ | y, after⟩
    · exact .error one.state (one.failure failure rfl)
    · exact .ok one.state holds
    · have next : inv y := one.value _ rfl y rfl
      dsimp only
      split <;> exact .ok one.state next
  | cons c left ih =>
    have one := steps x holds st canonical
    unfold State.iterate
    generalize step x st = taken at one
    rcases taken with ⟨failure | _ | y, after⟩
    · exact .error one.state (one.failure failure rfl)
    · exact .ok one.state holds
    · have next : inv y := one.value _ rfl y rfl
      dsimp only
      split
      · exact ih next one.state
      · exact .ok one.state next

end State.Canonical

end

/-- Named rules all of whose places are places of the text. -/
def Level.Canonical {Sym : Type → Type} (text : List Char) (level : Level Sym) : Prop :=
  ∀ α (name : Sym α) (st : State), st.Canonical text →
    Outcome.Canonical text (fun _ => True) (level α name st)

namespace Rule

variable {Sym : Type → Type} {α : Type}

/-- A rule that makes up no place: if what it is shown lies at places of some kind, then so does
whatever it fails at or puts aside, and its value is as it is to be. Nothing is known of the values of
other rules that it calls by their names. -/
def Tells (C : Position → Prop) {α : Type} : Rule Sym α → (α → Prop) → Prop
  | pure value, post => post value
  | bind first next, post => first.Tells C fun value => (next value).Tells C post
  | fail failure, _ => ∀ p ∈ failure.places, C p
  | peek, post | bump, post => ∀ t : Token, C t.span.start → C t.span.stop → post t
  | lastEnd, post => ∀ p, C p → post p
  | slice _, post => ∀ written, post written
  | nextParam, post => ∀ n, post n
  | note m, post => C m.position ∧ post ()
  | checkCancelled, post | setCancelAfter _, post => post ()
  | orElse rule other, post => rule.Tells C post ∧ ∀ m, C m.position → (other m).Tells C post
  | lookahead rule, post | reporting rule, post | nested rule, post => rule.Tells C post
  | loop step first, post => ∃ inv : _ → Prop, inv first ∧ ∀ x, inv x →
      post x ∧ (step x).Tells C fun next => ∀ y, next = some y → inv y
  | call _, post => ∀ value, post value

theorem Tells.mono {C : Position → Prop} {rule : Rule Sym α} {post post' : α → Prop}
    (tells : rule.Tells C post) (weaker : ∀ value, post value → post' value) :
    rule.Tells C post' := by
  induction rule with
  | pure value => exact weaker value tells
  | bind first next ihFirst ihNext =>
    exact ihFirst tells fun value inner => ihNext value inner weaker
  | fail => exact tells
  | peek | bump => exact fun t start stop => weaker t (tells t start stop)
  | lastEnd => exact fun p place => weaker p (tells p place)
  | slice | nextParam | call => exact fun value => weaker value (tells value)
  | note m => exact ⟨tells.1, weaker () tells.2⟩
  | checkCancelled | setCancelAfter => exact weaker () tells
  | orElse rule other ihRule ihOther =>
    exact ⟨ihRule tells.1 weaker, fun m place => ihOther m (tells.2 m place) weaker⟩
  | lookahead rule ih | reporting rule ih | nested rule ih => exact ih tells weaker
  | loop step first ih =>
    obtain ⟨inv, start, keeps⟩ := tells
    exact ⟨inv, start, fun x holds => ⟨weaker x (keeps x holds).1, (keeps x holds).2⟩⟩

/-- What a rule that makes up no place leaves and answers are places of the text. -/
theorem Tells.eval {text : List Char} (lexical : LexicalRules) {rule : Rule Sym α} {post : α → Prop}
    (tells : rule.Tells (·.Canonical text) post) {levels : List (Level Sym)}
    (named : ∀ level ∈ levels, level.Canonical text) {st : State} (canonical : st.Canonical text) :
    Outcome.Canonical text post (rule.eval lexical levels st) := by
  induction rule generalizing levels st with
  | pure value => exact .ok canonical tells
  | bind first next ihFirst ihNext =>
    have one := ihFirst tells named canonical
    simp only [Rule.eval]
    split
    · rename_i value after eq
      rw [eq] at one
      exact ihNext value (one.value value rfl) named one.state
    · rename_i failure after eq
      rw [eq] at one
      exact .error one.state (one.failure failure rfl)
  | fail failure => exact .error canonical tells
  | peek =>
    obtain ⟨state, places⟩ := canonical.peek lexical
    refine ⟨state, fun t eq => ?_, fun failure eq => ?_⟩
    · rw [Rule.eval] at eq
      rw [eq] at places
      exact tells t (places _ (by simp [shownPlaces])) (places _ (by simp [shownPlaces]))
    · rw [Rule.eval] at eq
      rwa [eq] at places
  | bump =>
    obtain ⟨state, places⟩ := canonical.bump lexical
    refine ⟨state, fun t eq => ?_, fun failure eq => ?_⟩
    · rw [Rule.eval] at eq
      rw [eq] at places
      exact tells t (places _ (by simp [shownPlaces])) (places _ (by simp [shownPlaces]))
    · rw [Rule.eval] at eq
      rwa [eq] at places
  | lastEnd => exact .ok canonical (tells _ canonical.lastEnd)
  | slice span => exact .ok canonical (tells _)
  | nextParam => exact .ok { canonical with } (tells _)
  | note m => exact .ok (canonical.note tells.1) tells.2
  | checkCancelled =>
    have checked := canonical.checkCancelled
    exact ⟨checked.state, fun _ _ => tells, checked.failure⟩
  | setCancelAfter checks => exact .ok { canonical with } tells
  | orElse rule other ihRule ihOther =>
    have checked := canonical.checkCancelled
    simp only [Rule.eval]
    split
    · rename_i failure st eq
      rw [eq] at checked
      exact .error checked.state (checked.failure failure rfl)
    · rename_i st eq
      rw [eq] at checked
      obtain ⟨marked, receipt⟩ := checked.state.mark
      have one := ihRule tells.1 named marked
      split
      · rename_i value after eq
        rw [eq] at one
        exact .ok one.state.release (one.value value rfl)
      · rename_i failure after eq
        rw [eq] at one
        have place := one.failure _ rfl failure.position (by simp [Failure.places])
        exact ihOther failure (tells.2 failure place) named (one.state.rewind receipt)
      · rename_i failure after _ eq
        rw [eq] at one
        exact .error (one.state.rewind receipt) (one.failure failure rfl)
  | lookahead rule ih =>
    obtain ⟨marked, receipt⟩ := canonical.mark
    have one := ih tells named marked
    exact ⟨one.state.rewind receipt, one.value, one.failure⟩
  | reporting rule ih =>
    have one := ih tells named canonical
    simp only [Rule.eval]
    split
    · rename_i failure after eq
      rw [eq] at one
      have place := one.failure _ rfl failure.position (by simp [Failure.places])
      obtain ⟨state, reported⟩ := one.state.report place
      exact .error state (by simpa [Failure.places] using reported)
    · exact one
  | nested rule ih =>
    cases levels with
    | nil => exact canonical.tooDeep lexical
    | cons level deeper =>
      have entered : st.enter.Canonical text := { canonical with }
      have inner := ih tells (fun level member => named level (List.mem_cons_of_mem _ member)) entered
      exact State.Canonical.leave inner
  | loop step first ih =>
    obtain ⟨inv, start, keeps⟩ := tells
    have steps (x) (holds : inv x) (st : State) (canonical : st.Canonical text) :=
      ih x (keeps x holds).2 named canonical
    have repeated := State.Canonical.iterate steps st.reader.cursor.rest start canonical
    exact ⟨repeated.state, fun x eq => (keeps x (repeated.value x eq)).1, repeated.failure⟩
  | call name =>
    cases levels with
    | nil => exact canonical.tooDeep lexical
    | cons level deeper =>
      have inner := named level List.mem_cons_self _ name st.enter { canonical with }
      exact State.Canonical.leave ⟨inner.state, fun value _ => tells value, inner.failure⟩

/-- On every level of nesting the named rules tell of places of the text only. -/
theorem levels_canonical {text : List Char} (lexical : LexicalRules)
    {body : ∀ α : Type, Sym α → Rule Sym α}
    (tells : ∀ α name, (body α name).Tells (·.Canonical text) fun _ => True) (limit : Nat) :
    ∀ level ∈ levels lexical body limit, level.Canonical text := by
  induction limit with
  | zero => simp [levels]
  | succ limit ih =>
    simp only [levels, List.forall_mem_cons]
    exact ⟨fun α name st canonical => (tells α name).eval lexical ih canonical, ih⟩

/-- A rule that fails at the next token makes up no place. -/
theorem Blames.tells {C : Position → Prop} {rule : Rule Sym α} (blames : rule.Blames (Grounds.at C)) :
    rule.Tells C (rule.Gives (Grounds.at C)) := by
  induction rule with
  | pure | lastEnd | slice | nextParam | checkCancelled | call | bump => simp [Tells, Gives]
  | bind first next ihFirst ihNext =>
    refine (ihFirst blames.1).mono fun value gives => ?_
    exact (ihNext value (blames.2 value gives)).mono fun _ _ => trivial
  | fail failure =>
    obtain ⟨m, rfl, place⟩ := blames
    exact List.forall_mem_singleton.mpr place
  | peek => exact fun t start stop => ⟨start, stop⟩
  | note m => exact ⟨blames, trivial⟩
  | orElse rule other ihRule ihOther =>
    exact ⟨(ihRule blames.1).mono fun _ _ => trivial,
      fun m place => (ihOther m (blames.2 m place)).mono fun _ _ => trivial⟩
  | lookahead rule ih => exact (ih blames).mono fun _ _ => trivial
  | loop step first ih =>
    exact ⟨fun _ => True, trivial, fun x _ =>
      ⟨trivial, (ih x (blames x)).mono fun _ _ _ _ => trivial⟩⟩
  | setCancelAfter | reporting | nested => exact blames.elim

end Rule

end SqlTree
