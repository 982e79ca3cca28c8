import SqlTree.Dialect.Builtin
import SqlTree.Proofs.Reading.Plain
import SqlTree.Proofs.Reading.Reachable
import SqlTree.Proofs.Reading.Yields

namespace SqlTree

/-- What a failed alternative restores: the reader with the place that it has reached and the places
that it has saved, the end of the last token, the count of placeholders, and the levels of nesting. -/
structure State.Restored (st after : State) : Prop where
  reader : after.reader = st.reader
  lastEnd : after.lastEnd = st.lastEnd
  params : after.params = st.params
  nesting : after.nesting = st.nesting

/-- The same place of the same tape, with as many placeholders counted. -/
structure Tape.Returns (s after : Tape) : Prop where
  text : after.text = s.text
  tokens : after.tokens = s.tokens
  stop : after.stop = s.stop
  lastEnd : after.lastEnd = s.lastEnd
  params : after.params = s.params

namespace Rule

variable {Sym : Type → Type} {α : Type}

/-- Items that a rule gave one after the other, each of which took characters. -/
inductive Repeats (rules : LexicalRules) (rule : Rule Sym α) (levels : List (Level Sym)) :
    State → List α → State → Prop
  | none {st} : Repeats rules rule levels st [] st
  | next {st mid after item items} :
      rule.optional.eval rules levels st = (.ok (some item), mid) →
      st.position.offset < mid.position.offset → Repeats rules rule levels mid items after →
      Repeats rules rule levels st (item :: items) after

/-- How a repetition ends behind some items: the next one is missing or fails, and the state behind
the last item is restored, or it takes no characters. -/
inductive Ends (rules : LexicalRules) (rule : Rule Sym α) (levels : List (Level Sym)) (st : State)
    (items : List α) : Except Failure (List α) → State → Prop
  | missing {after} : rule.optional.eval rules levels st = (.ok none, after) → st.Restored after →
      Ends rules rule levels st items (.ok items) after
  | failed {failure after} : rule.optional.eval rules levels st = (.error failure, after) →
      st.Restored after → Ends rules rule levels st items (.error failure) after
  | empty {item after} : rule.optional.eval rules levels st = (.ok (some item), after) →
      ¬ st.position.offset < after.position.offset →
      Ends rules rule levels st items (.ok (items ++ [item])) after

/-- Alternatives that failed one after the other, each of which restored the state that it found. -/
inductive Tried (rules : LexicalRules) (levels : List (Level Sym)) :
    State → List (Rule Sym α) → State → Prop
  | none {st} : Tried rules levels st [] st
  | next {st mid after rule rest m} : rule.attempt.eval rules levels st = (.error (.mismatch m), mid) →
      st.Restored mid → Tried rules levels mid rest after →
      Tried rules levels st (rule :: rest) after

/-- How a choice ends behind the alternatives that failed: the next one fits, or fails so that no
other may be tried, or there is none. -/
inductive Chosen (rules : LexicalRules) (levels : List (Level Sym)) (st : State) :
    List (Rule Sym α) → Except Failure α → State → Prop
  | fits {rule others value after} : rule.attempt.eval rules levels st = (.ok value, after) →
      Chosen rules levels st (rule :: others) (.ok value) after
  | failed {rule others failure after} : rule.attempt.eval rules levels st = (.error failure, after) →
      failure.isTerminal = true → st.Restored after →
      Chosen rules levels st (rule :: others) (.error failure) after
  | nothing {failure after} : st.Restored after →
      Chosen rules levels st [] (.error failure) after

end Rule

theorem State.Restored.refl (st : State) : st.Restored st := ⟨rfl, rfl, rfl, rfl⟩

theorem State.Restored.trans {st mid after : State} (first : st.Restored mid)
    (second : mid.Restored after) : st.Restored after :=
  ⟨second.reader.trans first.reader, second.lastEnd.trans first.lastEnd,
    second.params.trans first.params, second.nesting.trans first.nesting⟩

theorem Tape.Returns.refl (s : Tape) : s.Returns s := ⟨rfl, rfl, rfl, rfl, rfl⟩

theorem Tape.Returns.trans {s mid after : Tape} (first : s.Returns mid) (second : mid.Returns after) :
    s.Returns after :=
  ⟨second.text.trans first.text, second.tokens.trans first.tokens, second.stop.trans first.stop,
    second.lastEnd.trans first.lastEnd, second.params.trans first.params⟩

/-- Wherever a rule has led to, going back returns to where it began. -/
theorem Tape.Leads.returns {s after : Tape} (leads : s.Leads after) : s.Returns (after.backTo s) :=
  ⟨leads.text, rfl, leads.stop, rfl, rfl⟩

theorem Tape.returns_checkCancelled (s : Tape) : s.Returns s.checkCancelled.2 := by
  unfold checkCancelled
  split <;> exact ⟨rfl, rfl, rfl, rfl, rfl⟩

/-- Two states that stand where one place of a tape stands are the same as far as a failed alternative
restores them. -/
theorem Tracks.restored_of_returns {rules : LexicalRules} {st after : State} {s s' : Tape}
    (tracks : Tracks rules st s) (tracks' : Tracks rules after s') (returns : s.Returns s')
    (marks : after.reader.marks = st.reader.marks) (nesting : after.nesting = st.nesting) :
    st.Restored after := by
  have text := tracks'.text.trans (returns.text.trans tracks.text.symm)
  have cursor : after.reader.cursor = st.reader.cursor := by
    refine (returns.text ▸ tracks'.on).eq_of_offset_eq tracks.on ?_
    exact congrArg Position.offset
      (tracks'.position.trans (returns.lastEnd.trans tracks.position.symm))
  refine ⟨?_, ?_, ?_, nesting⟩
  · change Reader.mk after.reader.text after.reader.cursor after.reader.marks = _
    rw [text, cursor, marks]
  · exact tracks'.lastEnd.trans (returns.lastEnd.trans tracks.lastEnd.symm)
  · exact tracks'.params.trans (returns.params.trans tracks.params.symm)

namespace Rule

variable {Sym : Type → Type} {α : Type} {tapeLevels : List (TapeLevel Sym)}

variable (α) in
theorem read_failAny (levels : List (TapeLevel Sym)) (expected : List String) (s : Tape) :
    ∃ failure, (failAny expected : Rule Sym α).read levels s = (.error failure, s) := by
  change ∃ failure, (Rule.peek.bind fun token =>
    fail (.mismatch ⟨token.span.start, expected, token.describe⟩)).read levels s = (.error failure, s)
  simp only [Rule.read]
  rcases s.peek with failure | token
  · exact ⟨failure, rfl⟩
  · exact ⟨_, rfl⟩

/-- An alternative that fails leaves the place where it was tried if its fallback stays there. -/
theorem read_orElse_error {rule : Rule Sym α} {other : Mismatch → Rule Sym α} {s after : Tape}
    {result : Except Failure α} (forward : ∀ level ∈ tapeLevels, level.Forward)
    (stays : ∀ m (s : Tape), s.Returns ((other m).read tapeLevels s).2)
    (read : (orElse rule other).read tapeLevels s = (result, after))
    (failed : ∀ (s after : Tape) value, rule.read tapeLevels s = (.ok value, after) → result ≠ .ok value) :
    s.Returns after := by
  have checked := s.returns_checkCancelled
  simp only [Rule.read] at read
  split at read
  · rename_i eq
    cases read
    rwa [eq] at checked
  · rename_i mid eq
    rw [eq] at checked
    have leads := rule.read_leads forward mid
    split at read
    · rename_i value after eq
      cases read
      exact absurd rfl (failed _ _ _ eq)
    · rename_i m tried eq
      rw [eq] at leads
      have back := stays m (tried.backTo mid)
      rw [read] at back
      exact checked.trans (leads.returns.trans back)
    · rename_i eq
      rw [eq] at leads
      cases read
      exact checked.trans leads.returns

/-- An attempt that fails returns to where it was made. -/
theorem read_attempt_error {rule : Rule Sym α} {s after : Tape} {failure : Failure}
    (forward : ∀ level ∈ tapeLevels, level.Forward)
    (read : rule.attempt.read tapeLevels s = (.error failure, after)) : s.Returns after := by
  change (orElse rule fun m => fail (.mismatch m)).read tapeLevels s = _ at read
  refine read_orElse_error forward ?_ read fun _ _ _ _ => by simp
  exact fun _ s => .refl s

/-- An optional rule that gives nothing, or fails, leaves the place where it was tried. -/
theorem read_optional_missing {rule : Rule Sym α} {s after : Tape}
    {result : Except Failure (Option α)} (forward : ∀ level ∈ tapeLevels, level.Forward)
    (read : rule.optional.read tapeLevels s = (result, after))
    (missing : ∀ item, result ≠ .ok (some item)) : s.Returns after := by
  refine read_orElse_error forward (fun m s => ⟨rfl, rfl, rfl, rfl, rfl⟩) read fun s after value eq => ?_
  change (rule.bind fun item => Rule.pure (some item)).read tapeLevels s = _ at eq
  simp only [Rule.read] at eq
  split at eq
  · cases eq
    exact missing _
  · cases eq

/-- An attempt that fails leaves the tape as it was, but for the mismatch put aside, when nobody asks
to leave meanwhile. -/
theorem attempt_error_eq {rule : Rule Sym α} {s after : Tape} {failure : Failure} {reports : Prop}
    (confined : rule.Confined reports False) (forward : ∀ level ∈ tapeLevels, level.Forward)
    (keeps : ∀ level ∈ tapeLevels, level.KeepsRest) (rests : Resting s.cancelAfter)
    (read : rule.attempt.read tapeLevels s = (.error failure, after)) :
    after = { s with furthest := after.furthest } := by
  obtain ⟨text, tokens, stop, lastEnd, params⟩ := read_attempt_error forward read
  have cancelAfter := rule.attempt.read_cancelAfter ⟨confined, fun _ => trivial⟩ keeps s rests
  rw [read] at cancelAfter
  rw [← text, ← tokens, ← stop, ← lastEnd, ← params, ← cancelAfter]

end Rule

section

variable {Sym : Type → Type} {rules : LexicalRules} {body : ∀ α : Type, Sym α → Rule Sym α}
  {limit : Nat} {st : State} {s : Tape}

variable (body limit) in
/-- Over characters a rule comes to what it comes to over the tokens in front of them. -/
theorem Tracks.agrees {α : Type} (tracks : Tracks rules st s) (rule : Rule Sym α) :
    Agrees rules st (rule.eval rules (Rule.levels rules body limit) st)
      (rule.read (Rule.tapeLevels body limit) s) :=
  rule.eval_tracks (Rule.levels_agree rules body limit) (Rule.tapeLevels_forward body limit) tracks

/-- A step of a repetition is its rule, tried once, with the item put to those that were read. -/
theorem manyStep_eval {α : Type} (rule : Rule Sym α) (items : List α) (levels : List (Level Sym))
    (st : State) : (manyStep rule items).eval rules levels st =
      ((rule.optional.eval rules levels st).1.map (·.map (· :: items)),
        (rule.optional.eval rules levels st).2) := by
  change (rule.optional.bind fun found => Rule.pure (found.map (· :: items))).eval rules levels st = _
  simp only [Rule.eval]
  rcases rule.optional.eval rules levels st with ⟨_ | found, after⟩ <;> rfl

/-- A rule that returns on the tape restores the state over the characters. -/
theorem Tracks.restored {α : Type} {rule : Rule Sym α} {after : State} {result : Except Failure α}
    (tracks : Tracks rules st s)
    (eval : rule.eval rules (Rule.levels rules body limit) st = (result, after))
    (returns : ∀ s', rule.read (Rule.tapeLevels body limit) s = (result, s') → s.Returns s') :
    st.Restored after := by
  have agrees := eval ▸ tracks.agrees body limit rule
  exact tracks.restored_of_returns agrees.tracks (returns _ (Prod.ext agrees.result.symm rfl))
    agrees.marks agrees.nesting

/-- An attempt that fails restores the state that it was made in. -/
theorem Tracks.restored_attempt {α : Type} {rule : Rule Sym α} {after : State} {failure : Failure}
    (tracks : Tracks rules st s)
    (eval : rule.attempt.eval rules (Rule.levels rules body limit) st = (.error failure, after)) :
    st.Restored after :=
  tracks.restored eval fun _ read =>
    Rule.read_attempt_error (Rule.tapeLevels_forward body limit) read

/-- An optional rule that gives nothing restores the state that it was read in. -/
theorem Tracks.restored_optional {α : Type} {rule : Rule Sym α} {after : State}
    {result : Except Failure (Option α)} (tracks : Tracks rules st s)
    (eval : rule.optional.eval rules (Rule.levels rules body limit) st = (result, after))
    (missing : ∀ item, result ≠ .ok (some item)) : st.Restored after :=
  tracks.restored eval fun _ read =>
    Rule.read_optional_missing (Rule.tapeLevels_forward body limit) read missing

/-- A rule that moves on has fewer characters left in front of it. -/
theorem Tracks.fewer {α : Type} {rule : Rule Sym α} {after : State} {result : Except Failure α}
    (tracks : Tracks rules st s)
    (eval : rule.eval rules (Rule.levels rules body limit) st = (result, after))
    (further : st.position.offset < after.position.offset) :
    ∃ s', Tracks rules after s' ∧
      after.reader.cursor.rest.length < st.reader.cursor.rest.length := by
  have agrees := eval ▸ tracks.agrees body limit rule
  have leads := rule.read_leads (Rule.tapeLevels_forward body limit) s
  exact ⟨_, agrees.tracks, tracks.on.rest_length_lt (leads.text ▸ agrees.tracks.on) further⟩

variable (body limit) in
/-- Going through the items of a repetition, which ends where an item is missing, fails or takes no
characters. -/
theorem Tracks.repeats {α : Type} (rule : Rule Sym α) {left : List Char} (items : List α)
    (tracks : Tracks rules st s) (supply : st.reader.cursor.rest.length ≤ left.length) :
    ∃ more mid result after,
      State.iterate (fun items => (manyStep rule items).eval rules (Rule.levels rules body limit))
        left items st = (result.map List.reverse, after) ∧
      rule.Repeats rules (Rule.levels rules body limit) st more mid ∧
      rule.Ends rules (Rule.levels rules body limit) mid (items.reverse ++ more) result after := by
  have answer {items : List α} {st after : State} {result}
      (step : (manyStep rule items).eval rules (Rule.levels rules body limit) st = (result, after)) :
      ∃ found, rule.optional.eval rules (Rule.levels rules body limit) st = (found, after) ∧
        result = found.map (·.map (· :: items)) := by
    rw [manyStep_eval] at step
    obtain ⟨rfl, rfl⟩ := Prod.mk.inj step
    exact ⟨_, rfl, rfl⟩
  generalize step : (fun items => (manyStep rule items).eval rules (Rule.levels rules body limit)) = go
  fun_induction State.iterate go left items st generalizing s with
  | case1 left items st failure after eq =>
    subst step
    obtain ⟨found, eval, same⟩ := answer eq
    cases found with
    | ok found => cases same
    | error failure =>
      cases same
      refine ⟨[], st, .error failure, after, rfl, .none, .failed eval ?_⟩
      exact tracks.restored_optional eval (by simp)
  | case2 left items st after eq =>
    subst step
    obtain ⟨found, eval, same⟩ := answer eq
    obtain rfl : found = .ok none := by rcases found with _ | _ | _ <;> first | rfl | cases same
    refine ⟨[], st, .ok items.reverse, after, by simp [Except.map], .none, ?_⟩
    rw [List.append_nil]
    exact .missing eval (tracks.restored_optional eval (by simp))
  | case3 items st next after eq further =>
    subst step
    obtain ⟨found, eval, same⟩ := answer eq
    obtain ⟨-, -, fewer⟩ := tracks.fewer eval further
    simp only [List.length_nil] at supply
    omega
  | case4 items st next mid eq further head left ih =>
    subst step
    obtain ⟨found, eval, same⟩ := answer eq
    obtain ⟨item, rfl, rfl⟩ : ∃ item, found = .ok (some item) ∧ next = item :: items := by
      rcases found with _ | _ | item <;> cases same
      exact ⟨item, rfl, rfl⟩
    obtain ⟨s', tracks', fewer⟩ := tracks.fewer eval further
    simp only [List.length_cons] at supply
    obtain ⟨more, last, result, after, iterated, repeats, ends⟩ := ih tracks' (by omega)
    refine ⟨item :: more, last, result, after, iterated, .next eval further repeats, ?_⟩
    simpa using ends
  | case5 left items st next after eq stays =>
    subst step
    obtain ⟨found, eval, same⟩ := answer eq
    obtain ⟨item, rfl, rfl⟩ : ∃ item, found = .ok (some item) ∧ next = item :: items := by
      rcases found with _ | _ | item <;> cases same
      exact ⟨item, rfl, rfl⟩
    refine ⟨[], st, .ok (items.reverse ++ [item]), after, by simp [Except.map], .none, ?_⟩
    rw [List.append_nil]
    exact .empty eval stays

/-- A repetition is over its items one after the other, from where it was started. -/
theorem Tracks.many {α : Type} {rule : Rule Sym α} {after : State} {result : Except Failure (List α)}
    (tracks : Tracks rules st s)
    (eval : rule.many.eval rules (Rule.levels rules body limit) st = (result, after)) :
    ∃ items mid, rule.Repeats rules (Rule.levels rules body limit) st items mid ∧
      rule.Ends rules (Rule.levels rules body limit) mid items result after := by
  obtain ⟨items, mid, found, last, iterated, repeats, ends⟩ :=
    tracks.repeats body limit rule [] (Nat.le_refl _)
  change (Rule.bind (Rule.loop (manyStep rule) []) fun items => Rule.pure items.reverse).eval rules _ st =
    _ at eval
  simp only [Rule.eval, iterated] at eval
  refine ⟨items, mid, repeats, ?_⟩
  cases found with
  | error failure =>
    cases eval
    exact ends
  | ok found =>
    simp only [Except.map, List.reverse_reverse] at eval
    cases eval
    exact ends

/-- Goes on from a mismatch. -/
def Outcome.orTry {α : Type} (other : Mismatch → State → Outcome α) : Outcome α → Outcome α
  | (.error (.mismatch m), st) => other m st
  | outcome => outcome

/-- An alternative is attempted, and its fallback is evaluated where the attempt has left off with a
mismatch. -/
theorem eval_orElse {α : Type} (rule : Rule Sym α) (other : Mismatch → Rule Sym α)
    (levels : List (Level Sym)) (st : State) : (Rule.orElse rule other).eval rules levels st =
      (rule.attempt.eval rules levels st).orTry fun m => (other m).eval rules levels := by
  simp only [Rule.attempt, Rule.eval, State.checkCancelled]
  rcases st.cancelAfter with _ | _ | n
  · dsimp only
    rcases rule.eval rules levels _ with ⟨⟨_ | _ | _ | _⟩ | value, after⟩ <;> rfl
  · rfl
  · dsimp only
    rcases rule.eval rules levels _ with ⟨⟨_ | _ | _ | _⟩ | value, after⟩ <;> rfl

/-- The alternatives of a choice are tried one after the other, each where the one before it has
restored the state. -/
theorem Tracks.choiceAfter {α : Type} {alternatives : List (Rule Sym α)} {after : State}
    {result : Except Failure α} {failure : Option Mismatch} (tracks : Tracks rules st s)
    (eval : (Rule.choiceAfter failure alternatives).eval rules (Rule.levels rules body limit) st =
      (result, after)) :
    ∃ tried rest mid, alternatives = tried ++ rest ∧
      Rule.Tried rules (Rule.levels rules body limit) st tried mid ∧
      Rule.Chosen rules (Rule.levels rules body limit) mid rest result after := by
  induction alternatives generalizing st s failure with
  | nil =>
    refine ⟨[], [], st, rfl, .none, ?_⟩
    cases failure with
    | some m =>
      cases eval
      exact .nothing (.refl _)
    | none =>
      obtain ⟨reason, refuses⟩ := Rule.read_failAny α (Rule.tapeLevels body limit) [] s
      have agrees := eval ▸ tracks.agrees body limit (Rule.failAny [] : Rule Sym α)
      obtain rfl : result = .error reason := agrees.result.trans (congrArg Prod.fst refuses)
      refine .nothing (tracks.restored eval fun s' read => ?_)
      obtain rfl : s = s' := congrArg Prod.snd (refuses.symm.trans read)
      exact .refl s
  | cons rule alternatives ih =>
    have split : ∃ next : Mismatch → Option Mismatch, Rule.choiceAfter failure (rule :: alternatives) =
        Rule.orElse rule fun m => Rule.choiceAfter (next m) alternatives := by
      cases failure with
      | none => exact ⟨some, rfl⟩
      | some previous => exact ⟨fun m => some (previous.merge m), rfl⟩
    obtain ⟨next, same⟩ := split
    rw [same, eval_orElse, Outcome.orTry.eq_def] at eval
    split at eval
    · rename_i m mid attempted
      have restored : st.Restored mid := tracks.restored_attempt attempted
      obtain ⟨s', tracks'⟩ : ∃ s', Tracks rules mid s' :=
        ⟨_, (attempted ▸ tracks.agrees body limit rule.attempt).tracks⟩
      obtain ⟨tried, rest, last, rfl, before, answer⟩ := ih tracks' eval
      exact ⟨rule :: tried, rest, last, rfl, .next attempted restored before, answer⟩
    · rename_i settled
      refine ⟨[], rule :: alternatives, st, rfl, .none, ?_⟩
      cases result with
      | ok value => exact .fits eval
      | error failure =>
        refine .failed eval ?_ (tracks.restored_attempt eval)
        cases failure with
        | mismatch m => exact absurd eval (settled m after)
        | _ => rfl

/-- A rule that follows an attempt that failed gives what it would have given without the attempt, and
leaves the same behind, provided that it does not ask for the mismatches put aside. -/
theorem Tracks.undone {α β : Type} {rule : Rule Sym α} {next : Rule Sym β} {mid : State}
    {failure : Failure} (tracks : Tracks rules st s)
    (bodies : ∀ α name, (body α name).Confined False False) (confined : rule.Confined True False)
    (confined' : next.Confined False True) (rests : Resting st.cancelAfter)
    (eval : rule.attempt.eval rules (Rule.levels rules body limit) st = (.error failure, mid)) :
    (next.eval rules (Rule.levels rules body limit) mid).1 =
        (next.eval rules (Rule.levels rules body limit) st).1 ∧
      (next.eval rules (Rule.levels rules body limit) st).2.Restored
        (next.eval rules (Rule.levels rules body limit) mid).2 := by
  obtain ⟨s', read, tracks', marks, nesting⟩ :=
    (eval ▸ tracks.agrees body limit rule.attempt).reading_eq
  have same := Rule.attempt_error_eq confined (Rule.tapeLevels_forward body limit)
    (Rule.tapeLevels_keepsRest bodies limit) (tracks.cancelAfter ▸ rests) read
  obtain ⟨noted, alike⟩ :=
    next.read_forgets confined' (Rule.tapeLevels_forgets bodies limit) s s'.furthest
  rw [← same] at alike
  have without := tracks.agrees body limit next
  have behind := tracks'.agrees body limit next
  rw [alike] at behind
  refine ⟨behind.result.trans without.result.symm, ?_⟩
  exact without.tracks.restored_of_returns behind.tracks ⟨rfl, rfl, rfl, rfl, rfl⟩
    (behind.marks.trans (marks.trans without.marks.symm))
    (behind.nesting.trans (nesting.trans without.nesting.symm))

end

/-- Backtracking from a state leaves no trace. -/
structure Backtracks {Sym : Type → Type} (rules : LexicalRules) (body : ∀ α : Type, Sym α → Rule Sym α)
    (limit : Nat) (st : State) : Prop where
  attempt_fails : ∀ {α : Type} {rule : Rule Sym α} {failure after},
    rule.attempt.eval rules (Rule.levels rules body limit) st = (.error failure, after) →
    st.Restored after
  attempt_fits : ∀ {α : Type} {rule : Rule Sym α} {value after},
    rule.attempt.eval rules (Rule.levels rules body limit) st = (.ok value, after) →
    after.depth = st.depth ∧ after.nesting = st.nesting
  optional_missing : ∀ {α : Type} {rule : Rule Sym α} {after},
    rule.optional.eval rules (Rule.levels rules body limit) st = (.ok none, after) →
    st.Restored after
  many : ∀ {α : Type} {rule : Rule Sym α} {result after},
    rule.many.eval rules (Rule.levels rules body limit) st = (result, after) →
    ∃ items mid, rule.Repeats rules (Rule.levels rules body limit) st items mid ∧
      rule.Ends rules (Rule.levels rules body limit) mid items result after
  choice : ∀ {α : Type} {alternatives : List (Rule Sym α)} {result after},
    (Rule.choice alternatives).eval rules (Rule.levels rules body limit) st = (result, after) →
    ∃ tried rest mid, alternatives = tried ++ rest ∧
      Rule.Tried rules (Rule.levels rules body limit) st tried mid ∧
      Rule.Chosen rules (Rule.levels rules body limit) mid rest result after
  lookahead : ∀ {α : Type} {rule : Rule Sym α} {result after},
    (Rule.lookahead rule).eval rules (Rule.levels rules body limit) st = (result, after) →
    st.Restored after
  /-- The outcome of a rule that does not ask for the mismatches put aside is the same behind an
  attempt that failed as it is without the attempt. -/
  undone : ∀ {α β : Type} {rule : Rule Sym α} {next : Rule Sym β} {failure mid},
    (∀ α name, (body α name).Confined False False) → rule.Confined True False →
    next.Confined False True → Resting st.cancelAfter →
    rule.attempt.eval rules (Rule.levels rules body limit) st = (.error failure, mid) →
    (next.eval rules (Rule.levels rules body limit) mid).1 =
        (next.eval rules (Rule.levels rules body limit) st).1 ∧
      (next.eval rules (Rule.levels rules body limit) st).2.Restored
        (next.eval rules (Rule.levels rules body limit) mid).2

/-- Backtracking leaves no trace, whatever state operations and rules have led to. -/
theorem Reachable.backtracks {rules : LexicalRules} {text : List Char} {saved : List StateMark}
    {st : State} (reach : Reachable rules text saved st) {Sym : Type → Type}
    (body : ∀ α : Type, Sym α → Rule Sym α) (limit : Nat) : Backtracks rules body limit st := by
  obtain ⟨tokens, stop, lexes⟩ := lexes_exists rules (.ofText text)
  obtain ⟨s, tracks, -, -⟩ := reach.tracks lexes
  exact
    { attempt_fails := tracks.restored_attempt
      attempt_fits := fun {_ rule _ _} eval => by
        have agrees := eval ▸ tracks.agrees body limit rule.attempt
        exact ⟨congrArg List.length agrees.marks, agrees.nesting⟩
      optional_missing := fun eval => tracks.restored_optional eval (by simp)
      many := tracks.many
      choice := tracks.choiceAfter
      lookahead := fun {_ rule _ _} eval => tracks.restored eval fun s' read => by
        have leads := rule.read_leads (Rule.tapeLevels_forward body limit) s
        obtain ⟨-, rfl⟩ := Prod.mk.inj read
        exact leads.returns
      undone := tracks.undone }

/-- A name with a comma behind it. -/
def nameAndComma : SqlRule Token := do
  let _ ← SqlRule.identifier
  Rule.expect .comma

theorem nameAndComma_fails :
    (Dialect.sqlite.eval nameAndComma.attempt (.ofText "a b".toList)).1 =
      .error (.mismatch ⟨⟨2, 1, 3⟩, ["','"], "'b'"⟩) := by
  rfl

theorem identifier_fits :
    (Dialect.sqlite.eval SqlRule.identifier (.ofText "a b".toList)).1 =
      .ok ⟨"a", false, ⟨⟨0, 1, 1⟩, ⟨1, 1, 2⟩⟩⟩ := by
  rfl

/-- A name behind which a comma is missing is given back, and is read again. -/
theorem Reachable.backtracks_name : ∃ failure mid,
    Reachable Dialect.sqlite.lexical "a b".toList [] (.ofText "a b".toList) ∧
      Dialect.sqlite.eval nameAndComma.attempt (.ofText "a b".toList) = (.error failure, mid) ∧
      (State.ofText "a b".toList).Restored mid ∧
      (Dialect.sqlite.eval SqlRule.identifier mid).1 = .ok ⟨"a", false, ⟨⟨0, 1, 1⟩, ⟨1, 1, 2⟩⟩⟩ := by
  have traceless := (Reachable.start : Reachable Dialect.sqlite.lexical "a b".toList [] _).backtracks
    (Symbol.body Dialect.sqlite.features) maxNesting
  have fails := nameAndComma_fails
  rcases attempted : Dialect.sqlite.eval nameAndComma.attempt (.ofText "a b".toList) with
    ⟨result, mid⟩
  rw [attempted] at fails
  obtain rfl : result = _ := fails
  refine ⟨_, mid, .start, rfl, traceless.attempt_fails attempted, ?_⟩
  have confined : nameAndComma.Confined True False :=
    Rule.confined_bind.mpr ⟨SqlRule.identifier_confined, fun _ => Rule.confined_expect _⟩
  exact (traceless.undone (Symbol.body_confined _) confined SqlRule.identifier_confined (.inl rfl)
    attempted).1.trans identifier_fits

end SqlTree
