import SqlTree.Proofs.Reading.Furthest
import SqlTree.Proofs.Reading.Terminal
import SqlTree.Proofs.Reading.Tracking

namespace SqlTree

/-- Every mismatch in a log lies no further on than what a rule came to. -/
def Owed {α : Type} (log : List Event) (reading : Reading α) : Prop :=
  ∀ e ∈ log, ∀ m, e.EndsIn (.mismatch m) → reading.Reaches m

/-- Named rules of which no mismatch on the way lies further on than what they come to. -/
def LevelsOwed {Sym : Type → Type} (rules : LexicalRules) (good : Token → Prop) :
    List (LogLevel Sym) → List (TapeLevel Sym) → Prop :=
  List.Forall₂ fun logLevel tapeLevel => ∀ (α : Type) (name : Sym α) (st : State) (s : Tape),
    Tracks rules st s → s.Fair good → Owed (logLevel α name st).log (tapeLevel α name s)

section

variable {α σ : Type} {reading : Reading α} {st : State}

/-- What holds of two parts of a log holds of the log. -/
theorem Owed.append {before after : List Event} (head : Owed before reading) (tail : Owed after reading) :
    Owed (before ++ after) reading := by
  intro e mem
  rcases List.mem_append.mp mem with early | late
  · exact head e early
  · exact tail e late

theorem Logged.mem_within {l : Logged α} {e : Event} {failure : Failure} (mem : e ∈ (l.within st).log)
    (ends : e.EndsIn failure) : e ∈ l.log ∨ l.outcome.1 = .error failure := by
  simp only [Logged.within, List.cons_append, List.mem_cons, List.mem_append, List.not_mem_nil,
    or_false] at mem
  rcases mem with rfl | inner | rfl
  · obtain ⟨_, ⟨⟩⟩ := ends
  · exact .inl inner
  · obtain ⟨after, same⟩ := ends
    simp only [Event.ends.injEq, Logged.failure?_eq_some] at same
    exact .inr same.1

/-- To log the rule as a whole as well adds nothing that it does not own up to. -/
theorem Owed.within {l : Logged α} (owed : Owed l.log reading) (result : l.outcome.1 = reading.1) :
    Owed (l.within st).log reading := by
  intro e mem m ends
  rcases Logged.mem_within mem ends with inner | fails
  · exact owed e inner m ends
  · exact Reading.reaches_self (result ▸ fails)

/-- A failure in another result type. -/
theorem Owed.error {β : Type} {log : List Event} {failure : Failure} {s : Tape}
    (owed : Owed log ((.error failure, s) : Reading α)) : Owed log ((.error failure, s) : Reading β) := by
  intro e mem m ends
  have reaches := owed e mem m ends
  cases failure <;> exact reaches

theorem owed_step {outcome : Outcome α} (result : outcome.1 = reading.1) :
    Owed (Logged.step st outcome).log reading :=
  Owed.within (by simp [Owed]) result

end

/-- No mismatch on the way of repeated steps lies further on than what they come to, if none does on the
way of one step. -/
theorem Tracks.owed_iterate {rules : LexicalRules} {good : Token → Prop} {σ : Type}
    {step : σ → State → Logged (Option σ)} {tapeStep : σ → Tape → Reading (Option σ)}
    (forward : ∀ x (s : Tape), s.Leads (tapeStep x s).2)
    (onward : ∀ x (s : Tape), s.Fair good → (tapeStep x s).Onward s)
    (agree : ∀ x st s, Tracks rules st s → Agrees rules st (step x st).outcome (tapeStep x s))
    (owed : ∀ x st s, Tracks rules st s → s.Fair good → Owed (step x st).log (tapeStep x s))
    {left : List Char} {fuel : Nat} {x : σ} {st : State} {s : Tape} (tracks : Tracks rules st s)
    (fair : s.Fair good) (supply : st.reader.cursor.rest.length ≤ left.length)
    (enough : s.ahead ≤ fuel) :
    Owed (State.logIterate step left x st).log (Tape.iterate tapeStep fuel x s) := by
  fun_induction State.logIterate step left x st generalizing fuel s with
  | case1 left x st failure st' log eq =>
    obtain ⟨after, eq', -⟩ := (eq ▸ agree x st s tracks).reading_eq
    rw [Tape.iterate_error eq']
    have one := owed x st s tracks fair
    rw [eq, eq'] at one
    exact one.error
  | case2 left x st st' log eq =>
    obtain ⟨after, eq', -⟩ := (eq ▸ agree x st s tracks).reading_eq
    rw [Tape.iterate_none eq']
    have one := owed x st s tracks fair
    rw [eq, eq'] at one
    exact one
  | case3 x st y st' log eq further =>
    obtain ⟨after, eq', tracks', -⟩ := (eq ▸ agree x st s tracks).reading_eq
    have leads := forward x s
    rw [eq'] at leads
    have := tracks.on.rest_length_lt (leads.text ▸ tracks'.on) further
    simp only [List.length_nil] at supply
    omega
  | case4 x st y st' log eq further head left ih =>
    obtain ⟨after, eq', tracks', -⟩ := (eq ▸ agree x st s tracks).reading_eq
    have one := owed x st s tracks fair
    have carries := onward x s fair
    have leads := forward x s
    rw [eq'] at carries leads
    rw [eq, eq'] at one
    have shorter := tracks.on.rest_length_lt (leads.text ▸ tracks'.on) further
    have further' : s.lastEnd.offset < after.lastEnd.offset := by
      rwa [← tracks.position, ← tracks'.position]
    have moves : after.ahead < s.ahead := leads.ahead_lt further'
    obtain ⟨fuel, rfl⟩ := Nat.exists_eq_succ_of_ne_zero (by omega : fuel ≠ 0)
    rw [Tape.iterate_next eq' further']
    simp only [List.length_cons] at supply
    have fair' : after.Fair good := fair.leads leads carries.calm
    refine Owed.append (fun e mem m ends => ?_)
      (ih tracks' fair' (show _ ≤ left.length by omega) (show after.ahead ≤ fuel by omega))
    have near : after.Reaches m := one e mem m ends
    exact (fair'.iterate forward onward fuel y).reaches fair'
      (Tape.leads_iterate forward fuel y after) near
  | case5 left x st y st' log eq stays =>
    obtain ⟨after, eq', tracks', -⟩ := (eq ▸ agree x st s tracks).reading_eq
    have stays' : ¬ s.lastEnd.offset < after.lastEnd.offset := by
      rwa [← tracks.position, ← tracks'.position]
    rw [Tape.iterate_stay eq' stays']
    have one := owed x st s tracks fair
    rw [eq, eq'] at one
    exact one

namespace Rule

variable {Sym : Type → Type} {α : Type} {rules : LexicalRules} {good : Token → Prop}
  {logLevels : List (LogLevel Sym)} {levels : List (TapeLevel Sym)} {st : State} {s : Tape}

/-- A rule with a log over characters agrees with the rule on the tape. -/
theorem logged_agrees (rule : Rule Sym α)
    (agree : LevelsAgree rules (logLevels.map LogLevel.eval) levels)
    (forward : ∀ level ∈ levels, level.Forward) (tracks : Tracks rules st s) :
    Agrees rules st (rule.logged rules logLevels st).outcome (rule.read levels s) := by
  rw [logged_outcome]
  exact rule.eval_tracks agree forward tracks

theorem Quiet.logged_outcome {rule : Rule Sym α} (quiet : rule.Quiet)
    (agree : LevelsAgree rules (logLevels.map LogLevel.eval) levels)
    (forward : ∀ level ∈ levels, level.Forward) (tracks : Tracks rules st s) (m : Mismatch) :
    (rule.logged rules logLevels st).outcome.1 ≠ .error (.mismatch m) :=
  (rule.logged_agrees agree forward tracks).result ▸ (quiet.read s).2 m

/-- The log of a rule that fails at no mismatch tells of none. -/
theorem Quiet.logged {rule : Rule Sym α} (quiet : rule.Quiet)
    (agree : LevelsAgree rules (logLevels.map LogLevel.eval) levels)
    (forward : ∀ level ∈ levels, level.Forward) (tracks : Tracks rules st s) {e : Event}
    (mem : e ∈ (rule.logged rules logLevels st).log) (m : Mismatch) : ¬ e.EndsIn (.mismatch m) := by
  intro ends
  have whole := quiet.logged_outcome agree forward tracks m
  induction rule generalizing st s with
  | bind first next ihFirst ihNext =>
    have head := first.logged_agrees agree forward tracks
    have ended := quiet.1.logged_outcome agree forward tracks m
    have early := ihFirst quiet.1 tracks
    simp only [Rule.logged] at mem whole
    rcases Logged.mem_within mem ends with inner | same
    · rcases eq : first.logged rules logLevels st with ⟨⟨failure | value, st'⟩, log⟩
      · rw [eq] at inner early ended
        exact early inner ended
      · rw [eq] at inner early head ended
        obtain ⟨mid, -, tracks', -⟩ := head.reading_eq
        rcases List.mem_append.mp inner with first | second
        · exact early first ended
        · exact ihNext value (quiet.2 value) tracks' second
            ((quiet.2 value).logged_outcome agree forward tracks' m)
    · exact whole same
  | pure | peek | bump | lastEnd | slice | nextParam =>
    rcases Logged.mem_within mem ends with inner | same
    · cases inner
    · exact whole same
  | _ => exact quiet.elim

/-- No mismatch on the way lies further on than what a rule comes to that owns up to its mismatches. -/
theorem Owns.owed {rule : Rule Sym α} {noted : Option Mismatch} (owns : rule.Owns good levels noted)
    (agree : LevelsAgree rules (logLevels.map LogLevel.eval) levels)
    (forward : ∀ level ∈ levels, level.Forward) (onward : ∀ level ∈ levels, level.Onward good)
    (named : LevelsOwed rules good logLevels levels) (tracks : Tracks rules st s) (fair : s.Fair good)
    (kept : ∀ n ∈ noted, ∃ t, s.peek = .ok t ∧ t.span.start.offset ≤ n.position.offset) :
    Owed (rule.logged rules logLevels st).log (rule.read levels s) := by
  induction rule generalizing st s noted with
  | bind first next ihFirst ihNext =>
    have agrees := first.logged_agrees agree forward tracks
    have head := ihFirst owns.1 tracks fair nofun
    have begun := owns.1.onward forward onward fair nofun
    have leads := first.read_leads forward s
    simp only [logged, read]
    rcases eqL : first.logged rules logLevels st with ⟨⟨result, st'⟩, log⟩
    rw [eqL] at agrees head
    obtain ⟨mid, eq, tracks', -⟩ := agrees.reading_eq
    rw [eq] at head begun leads ⊢
    cases result with
    | error failure => exact Owed.within (l := ⟨(.error failure, st'), log⟩) head.error rfl
    | ok value =>
      have fair' := fair.leads leads begun.calm
      have leads' := (next value).read_leads forward mid
      have result := ((next value).logged_agrees agree forward tracks').result
      have rest := owns.2 value ⟨s, mid, fair, eq⟩
      have kept' := shows_kept eq
      have carries := rest.onward forward onward fair' kept'
      refine Owed.within (Owed.append ?_ (ihNext value rest tracks' fair' kept')) result
      exact fun e mem m ends => carries.reaches fair' leads' (head e mem m ends)
  | orElse rule other ihRule ihOther =>
    have calm : st.cancelAfter = none := tracks.cancelAfter.trans fair.calm
    have checked : st.checkCancelled = (.ok (), st) := by simp only [State.checkCancelled, calm]
    have whole := (orElse rule other).logged_agrees agree forward tracks
    have agrees := rule.logged_agrees agree forward tracks.mark
    have head := ihRule owns.1 tracks.mark fair nofun
    have begun := owns.1.onward forward onward fair nofun
    have leads := rule.read_leads forward s
    simp only [logged, read, checked, Logged.step, Tape.checkCancelled_of_none fair.calm] at whole ⊢
    refine Owed.within ?_ whole.result
    refine Owed.append (by simp [Owed, Event.EndsIn, Logged.failure?]) ?_
    rcases eqL : rule.logged rules logLevels st.mark.2 with ⟨⟨result, st'⟩, log⟩
    rw [eqL] at agrees head
    obtain ⟨after, eq, tracks', marks, -⟩ := agrees.reading_eq
    rw [eq] at head begun leads ⊢
    rcases result with failure | value
    · cases failure with
      | mismatch m =>
        obtain ⟨rewound, -⟩ := tracks.rewind tracks' leads marks
        have back : s.Leads (after.backTo s) := leads.backTo
        have fair' : (after.backTo s).Fair good := fair.leads back begun.calm
        have shown : ∃ t, (after.backTo s).peek = .ok t ∧ t.span.start.offset ≤ m.position.offset := by
          obtain ⟨t, shown, le⟩ := begun.mismatch m rfl
          have stop : after.stop = s.stop := leads.stop
          exact ⟨t, by simpa only [Tape.peek, Tape.backTo, stop] using shown, le⟩
        have kept' : ∀ n ∈ some m, ∃ t, (after.backTo s).peek = .ok t ∧
            t.span.start.offset ≤ n.position.offset := fun n same => by
          cases same
          exact shown
        have rest := (owns.2 m).1.onward forward onward fair' kept'
        refine Owed.append (fun e mem m' ends => ?_) (ihOther m (owns.2 m).1 rewound fair' kept')
        rcases head e mem m' ends with holds | le
        · exact Reading.reaches_of_holds (rest.holds m' holds)
        · exact ((owns.2 m).2 s after fair eq).mono le
      | _ => exact fun e mem m ends => trivial
    · exact head
  | lookahead rule ih =>
    have whole := (lookahead rule).logged_agrees agree forward tracks
    refine Owed.within (fun e mem m ends => ?_) whole.result
    exact (Quiet.logged owns agree forward tracks.mark mem m ends).elim
  | loop step first ih =>
    have whole := (loop step first).logged_agrees agree forward tracks
    refine Owed.within ?_ whole.result
    exact tracks.owed_iterate (fun x s => (step x).read_leads forward s)
      (fun x s fair => (owns x).onward forward onward fair nofun)
      (fun x st s tracks => (step x).logged_agrees agree forward tracks)
      (fun x st s tracks fair => ih x (owns x) tracks fair nofun) fair (Nat.le_refl _) s.ahead_le
  | call name =>
    cases named with
    | nil =>
      have none : LevelsAgree rules (List.map LogLevel.eval []) ([] : List (TapeLevel Sym)) := .nil
      have quiet : (peek : Rule Sym Token).Quiet := trivial
      have whole := (call name).logged_agrees none forward tracks
      refine Owed.within (fun e mem m ends => ?_) whole.result
      exact (quiet.logged none forward tracks mem m ends).elim
    | cons level deeper =>
      have whole := (call name).logged_agrees agree forward tracks
      exact Owed.within (level _ name _ s tracks.enter fair) whole.result
  | setCancelAfter | reporting | nested => exact owns.elim
  | pure value => exact owed_step rfl
  | fail failure => exact owed_step rfl
  | peek => exact owed_step (logged_agrees peek agree forward tracks).result
  | bump => exact owed_step (logged_agrees bump agree forward tracks).result
  | lastEnd => exact owed_step (logged_agrees lastEnd agree forward tracks).result
  | slice span => exact owed_step (logged_agrees (slice span) agree forward tracks).result
  | nextParam => exact owed_step (logged_agrees nextParam agree forward tracks).result
  | note m => exact owed_step rfl
  | checkCancelled => exact owed_step (logged_agrees checkCancelled agree forward tracks).result

section

variable {body : ∀ α : Type, Sym α → Rule Sym α}

theorem logLevels_agree (rules : LexicalRules) (body : ∀ α : Type, Sym α → Rule Sym α) (limit : Nat) :
    LevelsAgree rules ((Rule.logLevels rules body limit).map LogLevel.eval) (tapeLevels body limit) := by
  rw [logLevels_eval]
  exact levels_agree rules body limit

/-- On every level of nesting the logs of the named rules tell of no mismatch further on. -/
theorem levels_owed (rules : LexicalRules)
    (owns : ∀ limit α name, (body α name).Owns good (tapeLevels body limit) none) (limit : Nat) :
    LevelsOwed rules good (Rule.logLevels rules body limit) (tapeLevels body limit) := by
  induction limit with
  | zero => exact .nil
  | succ limit ih =>
    refine .cons (fun α name st s tracks fair => ?_) ih
    exact (owns limit α name).owed (logLevels_agree rules body limit) (tapeLevels_forward body limit)
      (tapeLevels_onward owns limit) ih tracks fair nofun

/-- The mismatch that is reported for a whole text lies as far on as any on the way. -/
theorem Owns.run_furthest {limit : Nat} {entry : Rule Sym α}
    (owns : entry.Owns good (tapeLevels body limit) none)
    (named : ∀ limit α name, (body α name).Owns good (tapeLevels body limit) none)
    (tracks : Tracks rules st s) (fair : s.Fair good) {f : Mismatch}
    (fails : (entry.run.logWithin rules body limit st).outcome.1 = .error (.mismatch f)) {e : Event}
    (mem : e ∈ (entry.run.logWithin rules body limit st).log) {m : Mismatch}
    (ends : e.EndsIn (.mismatch m)) : m.position.offset ≤ f.position.offset := by
  have agree := logLevels_agree rules body limit
  have forward := tapeLevels_forward body limit
  have whole : (Rule.complete entry).Owns good (tapeLevels body limit) none := owns.complete
  have owed := whole.owed agree forward (tapeLevels_onward named limit)
    (levels_owed rules named limit) tracks fair nofun
  have agrees := (Rule.complete entry).logged_agrees agree forward tracks
  simp only [logWithin, run, Rule.logged] at fails mem
  rcases Logged.mem_within mem ends with inner | same
  · rcases eq : (Rule.complete entry).logged rules (Rule.logLevels rules body limit) st with
      ⟨⟨result, after⟩, log⟩
    rw [eq] at fails inner owed agrees
    obtain ⟨s', read, tracks', -⟩ := agrees.reading_eq
    rw [read] at owed
    rcases result with (last | _ | _ | _) | value <;> cases fails
    have further : s'.Holds m ∨ m.position.offset ≤ last.position.offset := owed e inner m ends
    have same := tracks'.furthest
    simp only [State.report]
    rcases further with ⟨n, kept, le⟩ | le
    · rw [same, Option.mem_def.mp kept]
      exact Nat.le_trans le (Mismatch.le_merge n last).1
    · cases after.furthest with
      | none => exact le
      | some n => exact Nat.le_trans le (Mismatch.le_merge n last).2
  · cases fails.symm.trans same
    exact Nat.le_refl _

end

end Rule

end SqlTree
