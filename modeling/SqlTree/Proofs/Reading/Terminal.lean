import SqlTree.Proofs.Reading.CutShort
import SqlTree.Proofs.Reading.Log

namespace SqlTree

variable {Sym : Type → Type} {α β : Type}

/-- Once a rule has ended in a terminal failure, nothing else begins: what is still open ends in the same
failure, which is the result. -/
structure Stands (log : List Event) (result : Except Failure α) : Prop where
  last : log.Pairwise fun a b => ∀ failure, failure.isTerminal → a.EndsIn failure → b.EndsIn failure
  result : ∀ e ∈ log, ∀ failure, failure.isTerminal → e.EndsIn failure → result = .error failure

/-- What holds of every evaluation that begins at a level of nesting and goes no deeper than a limit. -/
structure Logged.Orderly (limit level : Nat) (l : Logged α) : Prop where
  stands : Stands l.log l.outcome.1
  /-- The level of nesting is left as it was found. -/
  nesting : l.outcome.2.nesting = level
  within : ∀ e ∈ l.log, e.state.nesting ≤ limit

/-- A result that lets another rule go on. -/
def Continues (result : Except Failure α) : Prop :=
  ∀ failure, failure.isTerminal → result ≠ .error failure

theorem continues_ok (value : α) : Continues (.ok value : Except Failure α) := by
  rintro _ _ ⟨⟩

theorem continues_mismatch (m : Mismatch) : Continues (.error (.mismatch m) : Except Failure α) := by
  rintro _ terminal ⟨⟩
  cases terminal

theorem Event.endsIn_begins {st : State} {failure : Failure} : ¬ (Event.begins st).EndsIn failure := by
  rintro ⟨_, ⟨⟩⟩

namespace State

theorem peek_nesting (rules : LexicalRules) (st : State) : (st.peek rules).2.nesting = st.nesting := by
  simp only [peek, scan]
  cases scannedAt? st.position.offset st.scanned <;> rfl

theorem bump_nesting (rules : LexicalRules) (st : State) : (st.bump rules).2.nesting = st.nesting := by
  have kept : (st.scan rules).2.nesting = st.nesting := st.peek_nesting rules
  unfold bump
  generalize st.scan rules = scanned at kept ⊢
  rcases scanned with ⟨⟨_ | _, _⟩, after⟩ <;> exact kept

theorem checkCancelled_nesting (st : State) : st.checkCancelled.2.nesting = st.nesting := by
  unfold checkCancelled
  split <;> rfl

end State

namespace Stands

theorem nil {result : Except Failure α} : Stands [] result := ⟨.nil, by simp⟩

/-- What follows a result that lets it. -/
theorem append {before after : List Event} {first : Except Failure α} {result : Except Failure β}
    (head : Stands before first) (goesOn : Continues first) (tail : Stands after result) :
    Stands (before ++ after) result := by
  have quiet : ∀ e ∈ before, ∀ failure, failure.isTerminal → ¬ e.EndsIn failure :=
    fun e mem failure terminal ends => goesOn failure terminal (head.result e mem failure terminal ends)
  refine ⟨List.pairwise_append.mpr ⟨head.last, tail.last, ?_⟩, ?_⟩
  · exact fun a memA b _ failure terminal ends => absurd ends (quiet a memA failure terminal)
  · intro e mem failure terminal ends
    rcases List.mem_append.mp mem with early | late
    · exact absurd ends (quiet e early failure terminal)
    · exact tail.result e late failure terminal ends

/-- A change of the result that keeps its terminal failures. -/
theorem imp {log : List Event} {first : Except Failure α} {result : Except Failure β}
    (keeps : ∀ failure, failure.isTerminal → first = .error failure → result = .error failure)
    (head : Stands log first) : Stands log result :=
  ⟨head.last, fun e mem failure terminal ends =>
    keeps failure terminal (head.result e mem failure terminal ends)⟩

end Stands

namespace Logged

/-- A logged rule fails as its outcome says. -/
theorem failure?_eq_some {l : Logged α} {failure : Failure} :
    l.failure? = some failure ↔ l.outcome.1 = .error failure := by
  unfold failure?
  split <;> simp_all

namespace Orderly

variable {limit level : Nat} {st : State} {l : Logged α}

/-- To log a rule as a whole keeps its log in order. -/
theorem within_state (orderly : l.Orderly limit st.nesting) (room : st.nesting ≤ limit) :
    (l.within st).Orderly limit st.nesting := by
  have closing (failure : Failure) :
      (Event.ends l.failure? l.outcome.2).EndsIn failure ↔ l.outcome.1 = .error failure := by
    simp [Event.EndsIn, failure?_eq_some]
  refine ⟨⟨?_, ?_⟩, orderly.nesting, ?_⟩
  · refine List.pairwise_cons.mpr ⟨fun _ _ _ _ ends => absurd ends Event.endsIn_begins, ?_⟩
    refine List.pairwise_append.mpr ⟨orderly.stands.last, List.pairwise_singleton .., ?_⟩
    intro a mem b last failure terminal ends
    obtain rfl := List.mem_singleton.mp last
    exact (closing failure).mpr (orderly.stands.result a mem failure terminal ends)
  · intro e mem failure terminal ends
    simp only [Logged.within, List.cons_append, List.mem_cons, List.mem_append, List.not_mem_nil,
      or_false] at mem
    rcases mem with rfl | inner | rfl
    · exact absurd ends Event.endsIn_begins
    · exact orderly.stands.result e inner failure terminal ends
    · exact (closing failure).mp ends
  · intro e mem
    simp only [Logged.within, List.cons_append, List.mem_cons, List.mem_append, List.not_mem_nil,
      or_false] at mem
    rcases mem with rfl | inner | rfl
    · exact room
    · exact orderly.within e inner
    · exact orderly.nesting ▸ room

theorem step {outcome : Outcome α} (nesting : outcome.2.nesting = st.nesting)
    (room : st.nesting ≤ limit) : (Logged.step st outcome).Orderly limit st.nesting :=
  within_state ⟨.nil, nesting, by simp⟩ room

/-- An evaluation behind another one that lets it go on is in order if both are. -/
theorem behind {first : Logged β} (head : first.Orderly limit level)
    (goesOn : Continues first.outcome.1) (tail : l.Orderly limit level) :
    (l.behind first.log).Orderly limit level := by
  refine ⟨head.stands.append goesOn tail.stands, tail.nesting, ?_⟩
  intro e mem
  rcases List.mem_append.mp mem with early | late
  · exact head.within e early
  · exact tail.within e late

/-- A change of the outcome that keeps its terminal failures. -/
theorem imp {outcome : Outcome β} (orderly : l.Orderly limit level)
    (keeps : ∀ failure, failure.isTerminal → l.outcome.1 = .error failure → outcome.1 = .error failure)
    (nesting : outcome.2.nesting = l.outcome.2.nesting) : Orderly limit level ⟨outcome, l.log⟩ :=
  ⟨orderly.stands.imp keeps, nesting.trans orderly.nesting, orderly.within⟩

/-- A rule that leaves a level of nesting again is in order. -/
theorem leave (orderly : l.Orderly limit (level + 1)) : l.leave.Orderly limit level :=
  ⟨orderly.stands, by simp only [Logged.leave, State.leave, orderly.nesting]; rfl, orderly.within⟩

/-- A rule for which no level of nesting is left is in order. -/
theorem tooDeep {rules : LexicalRules} (room : st.nesting ≤ limit) :
    (Logged.tooDeep rules st : Logged α).Orderly limit st.nesting := by
  have look := Orderly.step (st.peek_nesting rules) room
  refine look.imp ?_ (congrArg State.nesting (State.tooDeep_snd rules st))
  intro failure _ unread
  simp only [Logged.step, Logged.within] at unread
  rcases eq : st.peek rules with ⟨_ | token, after⟩
  · rw [eq] at unread
    cases unread
    simp only [State.tooDeep, eq]
  · rw [eq] at unread
    cases unread

/-- A repetition is in order if its steps are. -/
theorem iterate {σ : Type} {step : σ → State → Logged (Option σ)}
    (steps : ∀ x st, st.nesting = level → (step x st).Orderly limit level) (left : List Char) (x : σ)
    (nesting : st.nesting = level) : (State.logIterate step left x st).Orderly limit level := by
  induction left generalizing x st with
  | nil =>
    have first := steps x st nesting
    unfold State.logIterate
    generalize step x st = done at first ⊢
    rcases done with ⟨⟨_ | _ | y, after⟩, log⟩
    · exact first.imp (by simp) rfl
    · exact first.imp (by simp) rfl
    · simp only
      split <;> exact first.imp (by simp) rfl
  | cons c left ih =>
    have first := steps x st nesting
    unfold State.logIterate
    generalize step x st = done at first ⊢
    rcases done with ⟨⟨_ | _ | y, after⟩, log⟩
    · exact first.imp (by simp) rfl
    · exact first.imp (by simp) rfl
    · simp only
      split
      · exact first.behind (continues_ok _) (ih y first.nesting)
      · exact first.imp (by simp) rfl

end Orderly

end Logged

/-- Levels of nesting whose evaluations are orderly. -/
def LevelsOrderly (limit : Nat) : List (LogLevel Sym) → Prop
  | [] => True
  | first :: deeper =>
    (∀ α (name : Sym α) (st : State), st.nesting + deeper.length ≤ limit →
      (first α name st).Orderly limit st.nesting) ∧ LevelsOrderly limit deeper

namespace Rule

/-- A rule is in order on levels of nesting that are. -/
theorem logged_orderly {rules : LexicalRules} {limit : Nat} (rule : Rule Sym α)
    {levels : List (LogLevel Sym)} (orderly : LevelsOrderly limit levels) (st : State)
    (room : st.nesting + levels.length ≤ limit) :
    (rule.logged rules levels st).Orderly limit st.nesting := by
  induction rule generalizing levels st with
  | bind first next ihFirst ihNext =>
    have head := ihFirst orderly st room
    simp only [logged]
    refine .within_state ?_ (by omega)
    generalize first.logged rules levels st = done at head ⊢
    rcases done with ⟨⟨_ | value, after⟩, log⟩
    · exact head.imp (by simp) rfl
    · have same : after.nesting = st.nesting := head.nesting
      exact head.behind (continues_ok _) (same ▸ ihNext value orderly after (same ▸ room))
  | orElse rule other ihRule ihOther =>
    have check : (Logged.step st st.checkCancelled).Orderly limit st.nesting :=
      .step st.checkCancelled_nesting (by omega)
    simp only [logged]
    refine .within_state ?_ (by omega)
    generalize Logged.step st st.checkCancelled = done at check ⊢
    rcases done with ⟨⟨_ | _, checked⟩, log⟩
    · exact check.imp (by simp) rfl
    have same : checked.nesting = st.nesting := check.nesting
    refine check.behind (continues_ok _) (same ▸ ?_)
    have inner := ihRule orderly checked.mark.2 (same ▸ room)
    generalize rule.logged rules levels checked.mark.2 = tried at inner ⊢
    rcases tried with ⟨⟨⟨m | _ | _ | _⟩ | value, after⟩, log⟩
    · have back : after.nesting = checked.nesting := inner.nesting
      refine inner.behind (continues_mismatch m) ?_
      exact back ▸ ihOther m orderly (after.rewind checked.mark.1) (back ▸ same ▸ room)
    · exact inner.imp (by simp) rfl
    · exact inner.imp (by simp) rfl
    · exact inner.imp (by simp) rfl
    · exact inner.imp (by simp) rfl
  | lookahead rule ih =>
    have inner := ih orderly st.mark.2 room
    simp only [logged]
    exact .within_state (inner.imp (fun _ _ same => same) rfl) (by omega)
  | reporting rule ih =>
    have inner := ih orderly st room
    simp only [logged]
    refine .within_state ?_ (by omega)
    generalize rule.logged rules levels st = done at inner ⊢
    rcases done with ⟨⟨⟨m | _ | _ | _⟩ | value, after⟩, log⟩
    · refine inner.imp (fun _ terminal same => absurd same (continues_mismatch m _ terminal)) ?_
      simp only [State.report]
      split <;> rfl
    · exact inner
    · exact inner
    · exact inner
    · exact inner
  | nested rule ih =>
    simp only [logged]
    refine .within_state ?_ (by omega)
    cases levels with
    | nil => exact .tooDeep (by omega)
    | cons first deeper =>
      simp only [List.length_cons] at room
      exact (ih orderly.2 st.enter (by simp only [State.enter]; omega)).leave
  | loop step first ih =>
    simp only [logged]
    exact .within_state (.iterate
      (fun x after same => same ▸ ih x orderly after (same ▸ room)) _ _ rfl) (by omega)
  | call name =>
    simp only [logged]
    refine .within_state ?_ (by omega)
    cases levels with
    | nil => exact .tooDeep (by omega)
    | cons first deeper =>
      simp only [List.length_cons] at room
      exact (orderly.1 _ name st.enter (by simp only [State.enter]; omega)).leave
  | peek => exact .step (st.peek_nesting rules) (by omega)
  | bump => exact .step (st.bump_nesting rules) (by omega)
  | checkCancelled => exact .step st.checkCancelled_nesting (by omega)
  | _ => exact .step rfl (by omega)

/-- All levels of nesting are in order. -/
theorem logLevels_orderly (rules : LexicalRules) (limit : Nat) (body : ∀ α : Type, Sym α → Rule Sym α)
    (n : Nat) : LevelsOrderly limit (logLevels rules body n) ∧ (logLevels rules body n).length = n := by
  induction n with
  | zero => exact ⟨trivial, rfl⟩
  | succ n ih =>
    refine ⟨⟨fun α name st room => (body α name).logged_orderly ih.1 st room, ih.1⟩, ?_⟩
    exact congrArg Nat.succ ih.2

/-- The log of any evaluation below a limit. -/
theorem logWithin_orderly (rules : LexicalRules) (body : ∀ α : Type, Sym α → Rule Sym α) (limit : Nat)
    (rule : Rule Sym α) (st : State) :
    (rule.logWithin rules body limit st).Orderly (st.nesting + limit) st.nesting := by
  obtain ⟨orderly, length⟩ := logLevels_orderly rules (st.nesting + limit) body limit
  exact rule.logged_orderly orderly st (Nat.le_of_eq (by rw [length]))

end Rule

/-- Whatever ends in a terminal failure, nothing begins any more, and the whole evaluation ends in the
same failure. In particular a request to leave, wherever it is made, is granted or changes nothing. -/
theorem terminal_failure_stands :
    (∀ {Sym : Type → Type} {α : Type} (rules : LexicalRules) (body : ∀ α : Type, Sym α → Rule Sym α)
      (limit : Nat) (rule : Rule Sym α) (st : State),
      (rule.logWithin rules body limit st).outcome = rule.eval rules (Rule.levels rules body limit) st ∧
      Stands (rule.logWithin rules body limit st).log
        (rule.eval rules (Rule.levels rules body limit) st).1) ∧
    ∀ (d : Dialect) (kind : ModelKind) (text : List Char) (checks : Nat),
      let run st := (d.eval (SqlRule.entry d.features kind).run st).1
      run ((State.ofText text).askedAfter (some checks)) = .error .cancelled ∨
        run ((State.ofText text).askedAfter (some checks)) = run (.ofText text) := by
  refine ⟨fun rules body limit rule st => ?_, fun d kind text checks => ?_⟩
  · have same := rule.logWithin_outcome rules body limit st
    exact ⟨same, same ▸ (rule.logWithin_orderly rules body limit st).stands⟩
  · have cut := SqlRule.run_cutsShort True False d.lexical d.features kind (Nat.le_refl maxNesting)
      (.inl rfl) (.ofText text) (some checks) rfl (.inl trivial)
    rcases cut with ⟨-, cancelled⟩ | ⟨none, -⟩ | ⟨-, _, -, same⟩
    · exact .inl cancelled
    · exact none.elim
    · have results := congrArg Prod.fst same
      exact .inr results

end SqlTree
