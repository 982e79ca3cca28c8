import SqlTree.Proofs.Reading.CutShort

namespace SqlTree

variable {Sym : Type → Type} {α β σ : Type} {rules : LexicalRules} {st : State}

/-- From a state that nobody asks to leave a run is not cancelled, and it looks some number of times whether
somebody asks: a request that misses so many checks comes too late. -/
def PassesFrom (st : State) (run : State → Outcome α) : Prop :=
  (run st).1 ≠ .error .cancelled ∧ (run st).2.cancelAfter = none ∧
    ∃ passed, ∀ more,
      run (st.askedAfter (some (passed + more))) = ((run st).1, (run st).2.askedAfter (some more))

/-- It does so from every state that nobody asks to leave. -/
def Passes (run : State → Outcome α) : Prop := ∀ st, st.cancelAfter = none → PassesFrom st run

namespace State

theorem peek_ne_cancelled (rules : LexicalRules) (st : State) : (st.peek rules).1 ≠ .error .cancelled := by
  simp only [peek]
  rcases (st.scan rules).1.token <;> exact fun same => by cases same

theorem bump_ne_cancelled (rules : LexicalRules) (st : State) : (st.bump rules).1 ≠ .error .cancelled := by
  simp only [bump]
  split <;> simp

theorem tooDeep_ne_cancelled (rules : LexicalRules) (st : State) :
    (st.tooDeep rules : Outcome α).1 ≠ .error .cancelled := by
  have told := st.peek_ne_cancelled rules
  unfold tooDeep
  generalize st.peek rules = found at told ⊢
  rcases found with ⟨failure | token, after⟩
  · exact fun same => told (congrArg Except.error (Except.error.inj same))
  · simp

end State

namespace Passes

/-- What never looks whether somebody asks. -/
theorem leaf {run : State → Outcome α} (told : ∀ st, (run st).1 ≠ .error .cancelled)
    (same : ∀ st checks, run (st.askedAfter checks) = ((run st).1, (run st).2.askedAfter checks))
    (keeps : ∀ st, (run st).2.cancelAfter = st.cancelAfter) : Passes run :=
  fun st calm => ⟨told st, (keeps st).trans calm, 0, fun more => by rw [Nat.zero_add, same]⟩

/-- A result that is there, whatever else is done to the state. -/
theorem settled {result : Except Failure α} (told : result ≠ .error .cancelled) (change : State → State)
    (same : ∀ st checks, change (st.askedAfter checks) = (change st).askedAfter checks)
    (keeps : ∀ st, (change st).cancelAfter = st.cancelAfter) : Passes fun st => (result, change st) :=
  .leaf (fun _ => told) (fun st checks => by rw [same]) keeps

theorem stays {result : Except Failure α} (told : result ≠ .error .cancelled) :
    Passes fun st => (result, st) :=
  settled told id (fun _ _ => rfl) fun _ => rfl

/-- A look whether somebody asks is passed where nobody does. -/
theorem check : Passes State.checkCancelled := by
  intro st calm
  have whole : st.checkCancelled = (.ok (), st) := by simp only [State.checkCancelled, calm]
  rw [PassesFrom, whole]
  exact ⟨by simp, calm, 1, fun more => by rw [Nat.add_comm]; rfl⟩

end Passes

namespace PassesFrom

variable {run : State → Outcome α}

theorem congr {run' : State → Outcome α} (passes : PassesFrom st run) (same : ∀ st, run' st = run st) :
    PassesFrom st run' :=
  (funext same : run' = run) ▸ passes

/-- One run after another one: the checks of both are counted. -/
theorem continued (head : PassesFrom st run) (next : Outcome α → Outcome β)
    (tail : ∀ result, result ≠ .error .cancelled → Passes fun st => next (result, st)) :
    PassesFrom st fun st => next (run st) := by
  obtain ⟨told, calm, passed, same⟩ := head
  obtain ⟨told', calm', passed', same'⟩ := tail (run st).1 told (run st).2 calm
  refine ⟨told', calm', passed + passed', fun more => ?_⟩
  change next (run _) = _
  rw [Nat.add_assoc, same]
  exact same' more

/-- One run after another one passes the checks of both. -/
theorem andThen (head : PassesFrom st run) {next : α → State → Outcome β}
    (tail : ∀ value, Passes (next value)) : PassesFrom st fun st => (run st).andThen next := by
  refine head.continued (Outcome.andThen next) fun result told => ?_
  cases result with
  | ok value => exact tail value
  | error failure => exact .stays fun same => told (congrArg Except.error (Except.error.inj same))

/-- So does a run behind which a state is settled, whether it gave a value or a mismatch. -/
theorem settle (head : PassesFrom st run) {next : α → State → Outcome β}
    {other : Mismatch → State → Outcome β} (change : State → State)
    (same : ∀ st checks, change (st.askedAfter checks) = (change st).askedAfter checks)
    (keeps : ∀ st, (change st).cancelAfter = st.cancelAfter) (tail : ∀ value, Passes (next value))
    (others : ∀ m, Passes (other m)) : PassesFrom st fun st => (run st).settle next other change := by
  refine head.continued (Outcome.settle next other change) fun result told => ?_
  rcases result with ⟨m | e | _ | p⟩ | value
  · exact others m
  · exact .settled (by simp) change same keeps
  · exact absurd rfl told
  · exact .settled (by simp) change same keeps
  · exact tail value

end PassesFrom

/-- A repetition passes the checks of all its steps. -/
theorem Passes.iterate {step : σ → State → Outcome (Option σ)} (steps : ∀ x, Passes (step x))
    (left : List Char) (x : σ) : Passes (State.iterate step left x) := by
  have goesOn {rest : σ → State → Outcome σ} (others : ∀ y, Passes (rest y)) (x : σ) :
      Passes fun st => (step x st).repeated rest x st.position.offset := by
    intro st calm
    refine (steps x st calm).continued (Outcome.repeated rest x st.position.offset) fun result told => ?_
    rcases result with failure | _ | y
    · exact .stays fun same => told (congrArg Except.error (Except.error.inj same))
    · exact .stays (by simp)
    · intro after calm
      have place (checks : Option Nat) : (after.askedAfter checks).position = after.position := rfl
      have last : Passes fun st => ((.ok y, st) : Outcome σ) := .stays (by simp)
      by_cases further : st.position.offset < after.position.offset
      · simpa only [PassesFrom, Outcome.repeated, place, further, if_true] using others y after calm
      · simpa only [PassesFrom, Outcome.repeated, place, further, if_false] using last after calm
  induction left generalizing x with
  | nil =>
    have last (y : σ) : Passes fun st => ((.ok y, st) : Outcome σ) := .stays (by simp)
    exact fun st calm => (goesOn last x st calm).congr fun st => by rw [State.iterate]; rfl
  | cons c left ih => exact fun st calm => (goesOn ih x st calm).congr fun st => by rw [State.iterate]; rfl

namespace Rule

variable (rules) {levels : List (Level Sym)}

/-- A rule passes its checks if the rules that it names do so. -/
theorem eval_passes (served : ∀ level ∈ levels, ∀ α (name : Sym α), Passes (level α name))
    {rule : Rule Sym α} (blames : rule.Blames .all) : Passes (rule.eval rules levels) := by
  induction rule with
  | bind first next ihFirst ihNext =>
    intro st calm
    have head := ihFirst blames.1 st calm
    refine (head.andThen fun value => ihNext value (blames.2 value (gives_all first value))).congr ?_
    intro st
    simp only [eval]
    rfl
  | fail failure =>
    obtain ⟨m, rfl, -⟩ := blames
    have told : Failure.mismatch m ≠ .cancelled := by simp
    exact .stays fun same => told (Except.error.inj same)
  | peek =>
    exact .leaf (fun st => st.peek_ne_cancelled rules) (fun st checks => st.peek_askedAfter checks rules)
      fun st => st.scan_cancelAfter rules
  | bump =>
    exact .leaf (fun st => st.bump_ne_cancelled rules) (fun st checks => st.bump_askedAfter checks rules)
      fun st => st.bump_cancelAfter rules
  | checkCancelled => exact .check
  | orElse rule other ihRule ihOther =>
    have tried : Passes fun st => (rule.eval rules levels st.mark.2).settle
        (fun value after => (.ok value, after.release st.mark.1))
        (fun m after => (other m).eval rules levels (after.rewind st.mark.1)) (·.rewind st.mark.1) := by
      intro st calm
      exact (ihRule blames.1 st.mark.2 calm).settle (·.rewind st.mark.1) (fun _ _ => rfl) (fun _ => rfl)
        (fun value => .settled (by simp) (·.release st.mark.1) (fun _ _ => rfl) fun _ => rfl)
        fun m after => ihOther m (blames.2 m trivial) (after.rewind st.mark.1)
    refine fun st calm => ((Passes.check st calm).andThen fun _ => tried).congr fun st => ?_
    simp only [eval]
    rcases st.checkCancelled with ⟨_ | _, after⟩
    · rfl
    · rcases rule.eval rules levels after.mark.2 with ⟨⟨_ | _ | _ | _⟩ | _, _⟩ <;> rfl
  | lookahead rule ih =>
    intro st calm
    refine (ih blames st.mark.2 calm).continued (fun o => (o.1, o.2.rewind st.mark.1)) ?_
    exact fun result told => .settled told (·.rewind st.mark.1) (fun _ _ => rfl) fun _ => rfl
  | loop step first ih =>
    exact fun st calm => Passes.iterate (fun x => ih x (blames x)) st.reader.cursor.rest first st calm
  | call name =>
    cases levels with
    | nil =>
      refine .leaf (fun st => st.tooDeep_ne_cancelled rules)
        (fun st checks => st.tooDeep_askedAfter checks rules) fun st => ?_
      exact (State.tooDeep_snd rules st).symm ▸ State.scan_cancelAfter rules st
    | cons level deeper =>
      intro st calm
      refine (served level List.mem_cons_self _ name st.enter calm).continued State.leave ?_
      exact fun result told => .leaf (fun _ => told) (fun _ _ => rfl) fun _ => rfl
  | setCancelAfter | reporting | nested => exact blames.elim
  | _ => exact .leaf (fun _ => by simp [eval]) (fun _ _ => rfl) fun _ => rfl

/-- On every level of nesting the named rules pass their checks. -/
theorem levels_pass {body : ∀ α : Type, Sym α → Rule Sym α} (blames : ∀ α name, (body α name).Blames .all)
    (limit : Nat) : ∀ level ∈ Rule.levels rules body limit, ∀ α (name : Sym α), Passes (level α name) := by
  induction limit with
  | zero => exact fun _ none => absurd none List.not_mem_nil
  | succ limit ih =>
    rw [Rule.levels, List.forall_mem_cons]
    exact ⟨fun α name => eval_passes rules ih (blames α name), ih⟩

/-- A rule for a whole text. -/
theorem run_passes (served : ∀ level ∈ levels, ∀ α (name : Sym α), Passes (level α name))
    {entry : Rule Sym α} (blames : entry.Blames .all) : Passes (entry.run.eval rules levels) := by
  intro st calm
  have reported (m : Mismatch) : Passes fun st =>
      ((.error (.mismatch (st.report m).1), (st.report m).2) : Outcome α) := by
    refine .leaf (fun _ => by simp) (fun st _ => ?_) fun st => ?_
    · simp only [State.report]
      rcases st with ⟨_, _, _, _, _ | _, _, _⟩ <;> rfl
    · simp only [State.report]
      split <;> rfl
  have told (value : α) : Passes fun st => ((.ok value, st) : Outcome α) := .stays (by simp)
  refine ((eval_passes rules served blames.complete st calm).settle id (fun _ _ => rfl) (fun _ => rfl) told
    reported).congr fun st => ?_
  simp only [run, eval]
  rcases entry.complete.eval rules levels st with ⟨⟨_ | _ | _ | _⟩ | _, _⟩ <;> rfl

end Rule

/-- A rule for a whole text is not cancelled where nobody asks to leave, and a request that comes late enough
changes nothing. -/
theorem SqlRule.run_checks (d : Dialect) (kind : ModelKind) (text : List Char) :
    (d.eval (entry d.features kind).run (.ofText text)).1 ≠ .error .cancelled ∧
      ∃ passed, ∀ more,
        (d.eval (entry d.features kind).run ((State.ofText text).askedAfter (some (passed + more)))).1 =
          (d.eval (entry d.features kind).run (.ofText text)).1 := by
  have served := Rule.levels_pass d.lexical (Symbol.body_blames d.features) maxNesting
  obtain ⟨told, -, passed, same⟩ :=
    Rule.run_passes d.lexical served (entry_blames d.features kind) (.ofText text) rfl
  refine ⟨told, passed, fun more => ?_⟩
  have results := congrArg Prod.fst (same more)
  exact results

end SqlTree
