import SqlTree.Proofs.Reading.Plain

namespace SqlTree

namespace State

/-- The same state, where one is to leave after some checks. -/
def askedAfter (checks : Option Nat) (st : State) : State := { st with cancelAfter := checks }

section

variable (checks : Option Nat) (rules : LexicalRules) (st : State)

theorem scan_askedAfter :
    (st.askedAfter checks).scan rules = ((st.scan rules).1, (st.scan rules).2.askedAfter checks) := by
  have remembered : scannedAt? (st.askedAfter checks).position.offset (st.askedAfter checks).scanned =
      scannedAt? st.position.offset st.scanned := rfl
  simp only [scan, remembered]
  cases scannedAt? st.position.offset st.scanned <;> rfl

/-- To look at the next token has nothing to do with a request to leave. -/
theorem peek_askedAfter :
    (st.askedAfter checks).peek rules = ((st.peek rules).1, (st.peek rules).2.askedAfter checks) := by
  simp only [peek, scan_askedAfter]

/-- To consume a token has nothing to do with a request to leave. -/
theorem bump_askedAfter :
    (st.askedAfter checks).bump rules = ((st.bump rules).1, (st.bump rules).2.askedAfter checks) := by
  simp only [bump, scan_askedAfter]
  split <;> rfl

theorem tooDeep_askedAfter {α : Type} :
    ((st.askedAfter checks).tooDeep rules : Outcome α) =
      ((st.tooDeep rules).1, (st.tooDeep rules : Outcome α).2.askedAfter checks) := by
  unfold tooDeep
  rw [peek_askedAfter]
  rcases st.peek rules with ⟨_ | _, _⟩ <;> rfl

end

theorem tooDeep_snd {α : Type} (rules : LexicalRules) (st : State) :
    (st.tooDeep rules : Outcome α).2 = (st.peek rules).2 := by
  unfold tooDeep
  rcases st.peek rules with ⟨_ | _, _⟩ <;> rfl

/-- A look at the next token from one level deeper. -/
theorem peek_enter (rules : LexicalRules) (st : State) :
    st.enter.peek rules = ((st.peek rules).1, (st.peek rules).2.enter) := by
  have remembered : scannedAt? st.enter.position.offset st.enter.scanned =
      scannedAt? st.position.offset st.scanned := rfl
  simp only [peek, scan, remembered]
  cases scannedAt? st.position.offset st.scanned <;> rfl

theorem scan_cancelAfter (rules : LexicalRules) (st : State) :
    (st.scan rules).2.cancelAfter = st.cancelAfter := by
  unfold scan
  split <;> rfl

theorem bump_cancelAfter (rules : LexicalRules) (st : State) :
    (st.bump rules).2.cancelAfter = st.cancelAfter := by
  unfold bump
  rcases eq : st.scan rules with ⟨⟨_ | _, _⟩, after⟩ <;>
    exact (congrArg (State.cancelAfter ·.2) eq).symm.trans (scan_cancelAfter rules st)

end State

variable {Sym : Type → Type} {α σ : Type} {asked shallow : Prop}

/-- The outcome `cut` of a run that is perhaps `asked` to leave, or has fewer levels of nesting: it says
so, or it is the outcome `whole` of a run that nobody asks to leave. -/
def Outcome.CutShort (asked shallow : Prop) (cut whole : Outcome α) : Prop :=
  asked ∧ cut.1 = .error .cancelled ∨ shallow ∧ (∃ p, cut.1 = .error (.tooDeep p)) ∨
    whole.2.cancelAfter = none ∧
      ∃ checks, (asked ∨ checks = none) ∧ cut = (whole.1, whole.2.askedAfter checks)

/-- A rule cuts short: whatever request is made in the one run, it ends as `CutShort` says. -/
def CutsShort (asked shallow : Prop) (cut whole : State → Outcome α) : Prop :=
  ∀ st checks, st.cancelAfter = none → (asked ∨ checks = none) →
    Outcome.CutShort asked shallow (cut (st.askedAfter checks)) (whole st)

/-- Named rules fail where the next token cannot be read. -/
def Level.Looks (rules : LexicalRules) (level : Level Sym) : Prop :=
  ∀ α (name : Sym α) st failure after, st.peek rules = (.error failure, after) →
    level α name st = (.error failure, after)

/-- The levels of nesting of two runs. Where the first one has no more of them, the second one looks
at the next token as well. -/
inductive LevelsCut (asked shallow : Prop) (rules : LexicalRules) :
    List (Level Sym) → List (Level Sym) → Prop
  | none : LevelsCut asked shallow rules [] []
  | short {level deeper} : shallow → Level.Looks rules level →
      LevelsCut asked shallow rules [] (level :: deeper)
  | cons {level level' deeper deeper'} :
      (∀ α (name : Sym α), CutsShort asked shallow (level α name) (level' α name)) →
      LevelsCut asked shallow rules deeper deeper' →
      LevelsCut asked shallow rules (level :: deeper) (level' :: deeper')

namespace CutsShort

variable {rules : LexicalRules} {β : Type}

/-- What neither looks for a request nor goes deeper. -/
theorem leaf {f : State → Outcome α}
    (same : ∀ st checks, f (st.askedAfter checks) = ((f st).1, (f st).2.askedAfter checks))
    (keeps : ∀ st, (f st).2.cancelAfter = st.cancelAfter) : CutsShort asked shallow f f :=
  fun st checks calm ask => .inr (.inr ⟨(keeps st).trans calm, checks, ask, same st checks⟩)

/-- A look for the request is the one place where a run may leave early. -/
theorem check : CutsShort asked shallow State.checkCancelled State.checkCancelled := by
  intro st checks calm ask
  have whole : st.checkCancelled = (.ok (), st) := by simp only [State.checkCancelled, calm]
  rw [whole]
  cases checks with
  | none => exact .inr (.inr ⟨calm, none, .inr rfl, rfl⟩)
  | some n =>
    have told := ask.resolve_right (by simp)
    cases n with
    | zero => exact .inl ⟨told, rfl⟩
    | succ n => exact .inr (.inr ⟨calm, some n, .inl told, rfl⟩)

end CutsShort

namespace Outcome

/-- Goes on from a value. -/
def andThen {β : Type} (next : α → State → Outcome β) : Outcome α → Outcome β
  | (.ok value, st) => next value st
  | (.error failure, st) => (.error failure, st)

/-- Goes on from a value or a mismatch, and changes the state where another failure is left. -/
def settle {β : Type} (next : α → State → Outcome β) (other : Mismatch → State → Outcome β)
    (change : State → State) : Outcome α → Outcome β
  | (.ok value, st) => next value st
  | (.error (.mismatch m), st) => other m st
  | (.error failure, st) => (.error failure, change st)

/-- Goes on from a repetition that moved behind a place. -/
def repeated (rest : σ → State → Outcome σ) (x : σ) (place : Nat) : Outcome (Option σ) → Outcome σ
  | (.error failure, st) => (.error failure, st)
  | (.ok none, st) => (.ok x, st)
  | (.ok (some y), st) => if place < st.position.offset then rest y st else (.ok y, st)

end Outcome

namespace Outcome.CutShort

variable {β : Type} {cut whole : Outcome α}

/-- One thing after the other, where nothing goes on from a failure that is to be told at once. -/
theorem continued (head : CutShort asked shallow cut whole) (next next' : Outcome α → Outcome β)
    (stands : ∀ failure st, failure.isTerminal → (next (.error failure, st)).1 = .error failure)
    (tail : ∀ result,
      CutsShort asked shallow (fun st => next (result, st)) fun st => next' (result, st)) :
    CutShort asked shallow (next cut) (next' whole) := by
  obtain ⟨result, st⟩ := cut
  rcases head with ⟨told, rfl⟩ | ⟨few, p, rfl⟩ | ⟨calm, checks, ask, eq⟩
  · exact .inl ⟨told, stands .cancelled st rfl⟩
  · exact .inr (.inl ⟨few, p, stands (.tooDeep p) st rfl⟩)
  · rw [eq]
    exact tail whole.1 whole.2 checks calm ask

/-- A change of the state behind a rule that has nothing to do with a request. -/
theorem map (change : State → State)
    (same : ∀ st checks, change (st.askedAfter checks) = (change st).askedAfter checks)
    (keeps : ∀ st, (change st).cancelAfter = st.cancelAfter) (head : CutShort asked shallow cut whole) :
    CutShort asked shallow (cut.1, change cut.2) (whole.1, change whole.2) :=
  head.continued (fun o => (o.1, change o.2)) (fun o => (o.1, change o.2)) (fun _ _ _ => rfl) fun _ =>
    .leaf (fun st checks => by rw [same]) keeps

/-- A run that goes on from a value is cut short in its first part, or in the other one. -/
theorem andThen {next next' : α → State → Outcome β}
    (tail : ∀ value, CutsShort asked shallow (next value) (next' value))
    (head : CutShort asked shallow cut whole) :
    CutShort asked shallow (cut.andThen next) (whole.andThen next') := by
  refine head.continued _ _ (fun _ _ _ => rfl) fun result => ?_
  cases result with
  | ok value => exact tail value
  | error failure => exact .leaf (fun _ _ => rfl) fun _ => rfl

/-- A run that goes on from a mismatch as well is cut short. -/
theorem settle {next next' : α → State → Outcome β} {other other' : Mismatch → State → Outcome β}
    (head : CutShort asked shallow cut whole) (change : State → State)
    (same : ∀ st checks, change (st.askedAfter checks) = (change st).askedAfter checks)
    (keeps : ∀ st, (change st).cancelAfter = st.cancelAfter)
    (tail : ∀ value, CutsShort asked shallow (next value) (next' value))
    (others : ∀ m, CutsShort asked shallow (other m) (other' m)) :
    CutShort asked shallow (cut.settle next other change) (whole.settle next' other' change) := by
  refine head.continued _ _ (fun failure st terminal => ?_) fun result => ?_
  · cases failure <;> first | rfl | cases terminal
  · have ends (failure : Failure) : CutsShort asked shallow
        (fun st => ((.error failure, change st) : Outcome β)) fun st => (.error failure, change st) :=
      .leaf (fun st checks => by rw [same]) keeps
    rcases result with ⟨m | _ | _ | _⟩ | value
    · exact others m
    · exact ends _
    · exact ends _
    · exact ends _
    · exact tail value

/-- A run that repeats a step is cut short. -/
theorem repeated {cut whole : Outcome (Option σ)} {rest rest' : σ → State → Outcome σ} (x : σ)
    (place : Nat) (tail : ∀ y, CutsShort asked shallow (rest y) (rest' y))
    (head : CutShort asked shallow cut whole) :
    CutShort asked shallow (cut.repeated rest x place) (whole.repeated rest' x place) := by
  refine head.continued _ _ (fun _ _ _ => rfl) fun result => ?_
  rcases result with failure | _ | y
  · exact .leaf (fun _ _ => rfl) fun _ => rfl
  · exact .leaf (fun _ _ => rfl) fun _ => rfl
  · intro st checks calm ask
    have same : (st.askedAfter checks).position = st.position := rfl
    simp only [Outcome.repeated, same]
    split
    · exact tail y st checks calm ask
    · exact .inr (.inr ⟨calm, checks, ask, rfl⟩)

/-- No level is left in the one run. In the other one, the rule that was to be evaluated there looks at
the next token first. -/
theorem tooDeep {rules : LexicalRules} {level : Level Sym} {name : Sym α} {st : State}
    {checks : Option Nat} (few : shallow) (looks : level.Looks rules) (calm : st.cancelAfter = none)
    (ask : asked ∨ checks = none) :
    CutShort asked shallow ((st.askedAfter checks).tooDeep rules)
      (State.leave (level α name st.enter)) := by
  rw [State.tooDeep_askedAfter]
  rcases eq : st.peek rules with ⟨failure | token, after⟩
  · have deeper := st.peek_enter rules
    rw [eq] at deeper
    refine .inr (.inr ⟨?_, checks, ask, ?_⟩)
    · rw [looks α name st.enter failure after.enter deeper]
      have kept : (st.peek rules).2.cancelAfter = st.cancelAfter := State.scan_cancelAfter rules st
      rw [eq] at kept
      exact kept.trans calm
    · simp only [looks α name st.enter failure after.enter deeper, State.tooDeep, eq]
      rfl
  · exact .inr (.inl ⟨few, token.span.start, by simp only [State.tooDeep, eq]⟩)

end Outcome.CutShort

namespace CutsShort

theorem report (m : Mismatch) : CutsShort asked shallow
    (fun st => ((.error (.mismatch (st.report m).1), (st.report m).2) : Outcome α))
    (fun st => (.error (.mismatch (st.report m).1), (st.report m).2)) :=
  .leaf (fun st _ => by simp only [State.report]; rcases st with ⟨_, _, _, _, _ | _, _, _⟩ <;> rfl)
    fun st => by simp only [State.report]; split <;> rfl

/-- A repetition of steps that can be cut short can be cut short. -/
theorem iterate {step step' : σ → State → Outcome (Option σ)}
    (steps : ∀ x, CutsShort asked shallow (step x) (step' x)) (left : List Char) (x : σ) :
    CutsShort asked shallow (State.iterate step left x) (State.iterate step' left x) := by
  induction left generalizing x with
  | nil =>
    intro st checks calm ask
    unfold State.iterate
    exact (steps x st checks calm ask).repeated x st.position.offset
      fun y => .leaf (fun _ _ => rfl) fun _ => rfl
  | cons c left ih =>
    intro st checks calm ask
    unfold State.iterate
    exact (steps x st checks calm ask).repeated x st.position.offset ih

end CutsShort

namespace Rule

variable {rules : LexicalRules}

/-- A rule that neither stores requests nor asks for levels of its own is cut short or comes to the same. -/
theorem eval_cutsShort {levels levels' : List (Level Sym)}
    (cut : LevelsCut asked shallow rules levels levels') {rule : Rule Sym α} (plain : rule.Plain) :
    CutsShort asked shallow (rule.eval rules levels) (rule.eval rules levels') := by
  induction rule with
  | bind first next ihFirst ihNext =>
    intro st checks calm ask
    simp only [eval]
    exact (ihFirst plain.1 st checks calm ask).andThen fun value => ihNext value (plain.2 value)
  | peek => exact .leaf (fun st checks => st.peek_askedAfter checks rules) (State.scan_cancelAfter rules)
  | bump => exact .leaf (fun st checks => st.bump_askedAfter checks rules) (State.bump_cancelAfter rules)
  | checkCancelled => exact .check
  | orElse rule other ihRule ihOther =>
    have tried (st : State) (checks : Option Nat) (calm : st.cancelAfter = none)
        (ask : asked ∨ checks = none) : Outcome.CutShort asked shallow
          ((rule.eval rules levels (st.mark.2.askedAfter checks)).settle
            (fun value after => (.ok value, after.release st.mark.1))
            (fun m after => (other m).eval rules levels (after.rewind st.mark.1))
            (·.rewind st.mark.1))
          ((rule.eval rules levels' st.mark.2).settle
            (fun value after => (.ok value, after.release st.mark.1))
            (fun m after => (other m).eval rules levels' (after.rewind st.mark.1))
            (·.rewind st.mark.1)) :=
      (ihRule plain.1 st.mark.2 checks calm ask).settle _ (fun _ _ => rfl) (fun _ => rfl)
        (fun value => .leaf (fun _ _ => rfl) fun _ => rfl)
        fun m after => ihOther m (plain.2 m) (after.rewind st.mark.1)
    intro st checks calm ask
    simp only [eval, State.checkCancelled, calm]
    cases checks with
    | none => exact tried st none calm ask
    | some n =>
      have told := ask.resolve_right (by simp)
      cases n with
      | zero => exact .inl ⟨told, rfl⟩
      | succ n => exact tried st (some n) calm (.inl told)
  | lookahead rule ih =>
    intro st checks calm ask
    exact (ih plain st.mark.2 checks calm ask).map (·.rewind st.mark.1) (fun _ _ => rfl) fun _ => rfl
  | loop step first ih =>
    intro st
    exact CutsShort.iterate (fun x => ih x (plain x)) st.reader.cursor.rest first st
  | call name =>
    cases cut with
    | none =>
      refine .leaf (fun st checks => st.tooDeep_askedAfter checks rules) fun st => ?_
      exact (State.tooDeep_snd rules st).symm ▸ State.scan_cancelAfter rules st
    | short few looks =>
      intro st checks calm ask
      exact .tooDeep few looks calm ask
    | cons cuts _ =>
      intro st checks calm ask
      exact (cuts _ name st.enter checks calm ask).map (fun st => { st with nesting := st.nesting - 1 })
        (fun _ _ => rfl) fun _ => rfl
  | setCancelAfter | reporting | nested => exact plain.elim
  | _ => exact .leaf (fun _ _ => rfl) fun _ => rfl

/-- The levels of nesting below two limits. -/
theorem levels_cut {body : ∀ α : Type, Sym α → Rule Sym α} (plain : ∀ α name, (body α name).Plain)
    (looks : ∀ levels, Level.Looks rules fun α name => (body α name).eval rules levels)
    {limit limit' : Nat} (le : limit ≤ limit') (few : limit = limit' ∨ shallow) :
    LevelsCut asked shallow rules (levels rules body limit) (levels rules body limit') := by
  induction limit generalizing limit' with
  | zero =>
    cases limit' with
    | zero => exact .none
    | succ limit' => exact .short (few.resolve_left (by omega)) (looks _)
  | succ limit ih =>
    cases limit' with
    | zero => exact absurd le (Nat.not_succ_le_zero limit)
    | succ limit' =>
      have deeper := ih (Nat.le_of_succ_le_succ le) (few.imp_left Nat.succ.inj)
      exact .cons (fun α name => eval_cutsShort deeper (plain α name)) deeper

/-- A rule for a whole text. -/
theorem run_cutsShort {levels levels' : List (Level Sym)}
    (cut : LevelsCut asked shallow rules levels levels') {entry : Rule Sym α} (plain : entry.Plain) :
    CutsShort asked shallow (entry.run.eval rules levels) (entry.run.eval rules levels') := by
  intro st checks calm ask
  have told (value : α) : CutsShort asked shallow (fun st => ((.ok value, st) : Outcome α))
      fun st => (.ok value, st) := .leaf (fun _ _ => rfl) fun _ => rfl
  have head := (eval_cutsShort cut plain.complete st checks calm ask).settle id (fun _ _ => rfl)
    (fun _ => rfl) told fun m => .report m
  simp only [run, eval]
  generalize entry.complete.eval rules levels (st.askedAfter checks) = cutWhole at head ⊢
  generalize entry.complete.eval rules levels' st = whole at head ⊢
  rcases cutWhole with ⟨⟨_ | _ | _ | _⟩ | _, _⟩ <;>
    rcases whole with ⟨⟨_ | _ | _ | _⟩ | _, _⟩ <;> exact head

/-- Nothing is read behind a rule that fails. -/
theorem eval_bind_error {β : Type} {first : Rule Sym α} {next : α → Rule Sym β}
    {levels : List (Level Sym)} {st after : State} {failure : Failure}
    (fails : first.eval rules levels st = (.error failure, after)) :
    (first >>= next).eval rules levels st = (.error failure, after) := by
  simp only [Bind.bind, eval, fails]

end Rule

/-- What the names of rules stand for looks at the next token first. -/
theorem Symbol.body_looks (rules : LexicalRules) (f : Features) (levels : List (Level Symbol)) :
    Level.Looks rules fun α name => (Symbol.body f α name).eval rules levels := by
  intro α name st failure after unread
  have start : (Rule.start : SqlRule Position).eval rules levels st = (.error failure, after) :=
    Rule.eval_bind_error unread
  cases name with
  | expression power => exact Rule.eval_bind_error start
  | query => exact Rule.eval_bind_error start
  | joinGroup => exact Rule.eval_bind_error (Rule.eval_bind_error (Rule.eval_bind_error unread))

/-- A rule for a whole text, where it is asked to leave, or has fewer levels of nesting. -/
theorem SqlRule.run_cutsShort (asked shallow : Prop) (rules : LexicalRules) (f : Features)
    (kind : ModelKind) {limit limit' : Nat} (le : limit ≤ limit') (few : limit = limit' ∨ shallow) :
    CutsShort asked shallow (evalWithin limit rules f (entry f kind).run)
      (evalWithin limit' rules f (entry f kind).run) :=
  Rule.run_cutsShort (Rule.levels_cut (Symbol.body_plain f) (Symbol.body_looks rules f) le few)
    (entry_plain f kind)

end SqlTree
