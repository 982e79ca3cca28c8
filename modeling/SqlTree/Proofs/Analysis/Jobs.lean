import SqlTree.Analysis.Scheduler
import SqlTree.Proofs.Analysis.Handles
import SqlTree.Proofs.Reading.Checks

namespace SqlTree

namespace AnalysisCase

variable {c : AnalysisCase} {text : String}

/-- A request that misses so many looks comes too late. -/
def Enough (c : AnalysisCase) (text : String) (bound : Nat) : Prop :=
  ∀ more, c.runUntil (some (bound + more)) text = c.parse text

/-- Only a rule that was told to stop leads to an analysis that is cancelled. -/
theorem ofFailure_eq_cancelled {failure : Failure} :
    AnalysisError.ofFailure failure = .cancelled ↔ failure = .cancelled := by
  cases failure <;> simp [AnalysisError.ofFailure]

/-- Where nobody asks to stop, nothing is cancelled. -/
theorem parse_ne_cancelled (c : AnalysisCase) (text : String) : c.parse text ≠ .error .cancelled := by
  have told := (SqlRule.run_checks c.dialect c.kind text.toList).1
  rw [parse, runUntil]
  change Except.mapError _ (c.dialect.eval c.rule (.ofText text.toList)).1 ≠ _
  rw [rule]
  generalize (c.dialect.eval (SqlRule.entry c.dialect.features c.kind).run _).1 = result at told ⊢
  cases result with
  | ok m => nofun
  | error failure =>
    intro same
    exact told (congrArg _ (ofFailure_eq_cancelled.mp (Except.error.inj same)))

/-- Every parse ends, so a request to stop can come too late for it. -/
theorem exists_enough (c : AnalysisCase) (text : String) : ∃ bound, c.Enough text bound := by
  obtain ⟨-, bound, same⟩ := SqlRule.run_checks c.dialect c.kind text.toList
  exact ⟨bound, fun more => congrArg (Except.mapError AnalysisError.ofFailure) (same more)⟩

/-- A parse looks whether it is to stop before it reads anything. -/
theorem runUntil_zero (c : AnalysisCase) (text : String) : c.runUntil (some 0) text = .error .cancelled := by
  rfl

/-- A request to stop is granted, or it changes nothing. -/
theorem runUntil_some (c : AnalysisCase) (checks : Nat) (text : String) :
    c.runUntil (some checks) text = .error .cancelled ∨ c.runUntil (some checks) text = c.parse text := by
  have cut := SqlRule.run_cutsShort True False c.dialect.lexical c.dialect.features c.kind
    (Nat.le_refl maxNesting) (.inl rfl) (.ofText text.toList) (some checks) rfl (.inl trivial)
  rcases cut with ⟨-, cancelled⟩ | ⟨none, -⟩ | ⟨-, _, -, same⟩
  · exact .inl (congrArg (Except.mapError AnalysisError.ofFailure) cancelled)
  · exact none.elim
  · have results := congrArg Prod.fst same
    exact .inr (congrArg (Except.mapError AnalysisError.ofFailure) results)

end AnalysisCase

namespace Job

/-- The job, asked to stop by somebody who is going to cancel it. -/
def requested (j : Job) : Job := { j with handle := j.handle.request }

/-- The job, settled by somebody who has asked it to stop. -/
def cancelled (j : Job) : Job := { j with handle := (j.handle.settle (.error .cancelled)).2 }

/-- All that a step can do. -/
inductive Goes (free : Bool) (j : Job) : Job → Prop
  | quits : j.phase = .queued → j.handle.isFinished = true → Goes free j j.abandon
  | asks : j.phase = .queued → j.handle.isFinished = false → Goes free j { j with phase := .asking }
  | starts : j.phase = .asking → free = true → Goes free j { j with phase := .parsing 0 }
  | waits : j.phase = .asking → free = false → Goes free j { j with phase := .queued }
  | stops {passed} : j.phase = .parsing passed → j.handle.stopRequested = true →
      j.case.runUntil (some passed) j.text = .error .cancelled →
      Goes free j { j with phase := .parsed (.error .cancelled) }
  | looks {passed} : j.phase = .parsing passed → j.handle.stopRequested = false →
      j.case.runUntil (some passed) j.text = .error .cancelled →
      Goes free j { j with phase := .parsing (passed + 1) }
  | ends {passed} : j.phase = .parsing passed → j.case.runUntil (some passed) j.text = j.case.parse j.text →
      Goes free j { j with phase := .parsed (j.case.parse j.text) }
  | writes {outcome} : j.phase = .parsed outcome →
      Goes free j { j with handle := (j.handle.settle outcome).2, phase := .leaving }
  | leaves : j.phase = .leaving → Goes free j j.abandon
  | rests : j.phase = .done → Goes free j j

/-- What a job may be settled with that nobody cancelled in time: what its text gives, or that somebody who
came late had asked it to stop. -/
def Gives (asked : Prop) (j : Job) (outcome : AnalysisOutcome) : Prop :=
  outcome = j.case.parse j.text ∨ outcome = .error .cancelled ∧ asked

/-- A job that nobody cancelled in time: it is pending until it has parsed, or it is settled. -/
inductive Untouched (asked : Prop) (j : Job) : Prop
  | pending : j.handle.outcome? = none → (j.handle.stopRequested = true → asked) → j.phase ≠ .leaving →
      j.phase ≠ .done → (∀ outcome, j.phase = .parsed outcome → j.Gives asked outcome) → Untouched asked j
  | settled {outcome} : j.handle.outcome? = some outcome → j.Gives asked outcome →
      j.phase = .leaving ∨ j.phase = .done → Untouched asked j

/-- The job holds no slot and is not going to ask for one. -/
structure Spared (j : Job) : Prop where
  waits : j.phase = .queued ∨ j.phase = .done
  finished : j.handle.isFinished = true

/-- The job was asked to stop before it took a slot: its parse passes no look whether it was. -/
structure Stopped (j : Job) : Prop where
  requested : j.handle.stopRequested = true
  passed : ∀ passed, j.phase = .parsing passed → passed = 0
  parsed : ∀ outcome, j.phase = .parsed outcome → outcome = .error .cancelled

/-- The job holds a slot for at most `n` of its next steps, or needs none any more. -/
def Leaves (n : Nat) (j : Job) : Prop :=
  match j.phase with
  | .queued | .asking => False
  | .parsing passed => ∃ bound, j.case.Enough j.text bound ∧ bound - passed + 3 ≤ n
  | .parsed _ => 2 ≤ n
  | .leaving => 1 ≤ n
  | .done => True

/-- Whether the job still has something to do. -/
def isBusy (j : Job) : Bool :=
  match j.phase with
  | .done => false
  | _ => true

/-- How many slots the job holds. -/
def weight (j : Job) : Nat := if j.phase.holds then 1 else 0

section

variable {j : Job} {free : Bool} {outcome : AnalysisOutcome} {asked : Prop} {n : Nat}

/-- Each step is one of these. -/
theorem step_goes (j : Job) (free : Bool) : Goes free j (j.step free) := by
  cases phase : j.phase with
  | queued =>
    cases finished : j.handle.isFinished with
    | false => simpa [step, phase, finished] using Goes.asks phase finished
    | true => simpa [step, phase, finished] using Goes.quits phase finished
  | asking =>
    cases free with
    | false => simpa [step, phase] using Goes.waits phase rfl
    | true => simpa [step, phase] using Goes.starts phase rfl
  | parsing passed =>
    rcases j.case.runUntil_some passed j.text with cut | whole
    · cases requested : j.handle.stopRequested with
      | false => simpa [step, phase, parseOn, cut, requested] using Goes.looks phase requested cut
      | true => simpa [step, phase, parseOn, cut, requested] using Goes.stops phase requested cut
    · have ended : j.parseOn passed = .parsed (j.case.parse j.text) := by
        unfold parseOn
        split
        · next cut => exact absurd (whole.symm.trans cut) (j.case.parse_ne_cancelled j.text)
        · rw [whole]
      simpa [step, phase, ended] using Goes.ends phase whole
  | parsed outcome => simpa [step, phase] using Goes.writes phase
  | leaving => simpa [step, phase] using Goes.leaves phase
  | done => simpa [step, phase] using Goes.rests phase

@[simp]
theorem requested_phase (j : Job) : j.requested.phase = j.phase := rfl

@[simp]
theorem cancelled_phase (j : Job) : j.cancelled.phase = j.phase := rfl

@[simp]
theorem abandon_phase : j.abandon.phase = .done := rfl

/-- Who has settled a job may as well abandon it. -/
theorem abandon_eq (found : j.handle.outcome? = some outcome) : j.abandon = { j with phase := .done } := by
  simp only [abandon, Handle.abandon, Handle.settle, found]

/-- A job that is done stays as it is. -/
theorem step_done (ended : j.phase = .done) : j.step free = j := by simp [step, ended]

/-- No step changes what is analysed. -/
theorem step_subject (j : Job) (free : Bool) : (j.step free).case = j.case ∧ (j.step free).text = j.text := by
  have goes := j.step_goes free
  generalize j.step free = k at goes ⊢
  cases goes <;> exact ⟨rfl, rfl⟩

/-- What settled a job stays. -/
theorem step_outcome? (found : j.handle.outcome? = some outcome) :
    (j.step free).handle.outcome? = some outcome := by
  have goes := j.step_goes free
  generalize j.step free = k at goes ⊢
  cases goes with
  | quits | leaves => rw [abandon_eq found, found]
  | writes => rw [Handle.settle_outcome?, found, Option.some_or]
  | _ => exact found

theorem cancelled_outcome? (found : j.handle.outcome? = some outcome) :
    j.cancelled.handle.outcome? = some outcome := by
  rw [cancelled, Handle.settle_outcome?, found, Option.some_or]

/-- What was allowed to somebody who asked early is allowed to whoever asks later. -/
theorem Gives.mono {asked' : Prop} (gives : j.Gives asked outcome) (more : asked → asked') :
    j.Gives asked' outcome :=
  gives.imp_right (And.imp_right more)

theorem Untouched.mono {asked' : Prop} (untouched : j.Untouched asked) (more : asked → asked') :
    j.Untouched asked' := by
  cases untouched with
  | pending none requested inside undone parsed =>
    exact .pending none (more ∘ requested) inside undone fun outcome phase => (parsed outcome phase).mono more
  | settled found gives phase => exact .settled found (gives.mono more) phase

/-- No step of a job settles it with anything else than what its text gives, unless it was asked to stop. -/
theorem Untouched.step (untouched : j.Untouched asked) : (j.step free).Untouched asked := by
  have goes := j.step_goes free
  generalize j.step free = k at goes ⊢
  cases untouched with
  | pending none requested inside undone parsed =>
    cases goes with
    | quits _ finished => simp [Handle.isFinished, none] at finished
    | asks | starts | waits => exact .pending none requested (by simp) (by simp) (by simp)
    | looks => exact .pending none requested (by simp) (by simp) (by simp)
    | stops _ stop _ =>
      refine .pending none requested (by simp) (by simp) fun outcome phase => ?_
      obtain rfl := Phase.parsed.inj phase
      exact .inr ⟨rfl, requested stop⟩
    | ends =>
      refine .pending none requested (by simp) (by simp) fun outcome phase => ?_
      obtain rfl := Phase.parsed.inj phase
      exact .inl rfl
    | writes phase =>
      refine .settled ?_ (parsed _ phase) (.inl rfl)
      rw [Handle.settle_outcome?, none, Option.none_or]
    | leaves phase => exact absurd phase inside
    | rests phase => exact absurd phase undone
  | settled found gives phase =>
    cases goes with
    | leaves => exact abandon_eq found ▸ .settled found gives (.inr rfl)
    | rests => exact .settled found gives phase
    | _ => simp_all

/-- Whoever begins to cancel a pending job asks it to stop. -/
theorem Untouched.requested (untouched : j.Untouched asked) :
    j.requested.Untouched (asked ∨ j.handle.outcome? = none) := by
  cases untouched with
  | pending none _ inside undone parsed =>
    exact .pending none (fun _ => .inr none) inside undone fun outcome phase =>
      (parsed outcome phase).mono .inl
  | settled found gives phase => exact .settled found (gives.mono .inl) phase

/-- Whoever comes too late to cancel a job leaves it as it is. -/
theorem Untouched.cancelled (untouched : j.Untouched asked) (late : j.handle.outcome? ≠ none) :
    j.cancelled.Untouched asked := by
  cases untouched with
  | pending none => exact absurd none late
  | settled found gives phase => exact .settled (cancelled_outcome? found) gives phase

/-- The step of a job that is spared parses nothing. -/
theorem Spared.step_eq (spared : j.Spared) (free : Bool) : j.step free = { j with phase := .done } := by
  obtain ⟨outcome, found⟩ := Option.isSome_iff_exists.mp spared.finished
  rcases spared.waits with queued | done
  · rw [Job.step, queued]
    exact (if_pos spared.finished).trans (abandon_eq found)
  · rw [step_done done, ← done]

/-- A job that is spared stays so by its own steps. -/
theorem Spared.step (spared : j.Spared) : (j.step free).Spared := by
  rw [spared.step_eq]
  exact ⟨.inr rfl, spared.finished⟩

/-- A job that is spared stays so whatever others do to it. -/
theorem Spared.cancelled (spared : j.Spared) : j.cancelled.Spared := by
  refine ⟨spared.waits, ?_⟩
  obtain ⟨outcome, found⟩ := Option.isSome_iff_exists.mp spared.finished
  rw [Handle.isFinished, cancelled_outcome? found, Option.isSome_some]

/-- A job that is cancelled while it waits is spared. -/
theorem cancelled_spared (waits : j.phase = .queued) : j.cancelled.Spared := by
  refine ⟨.inl waits, ?_⟩
  rw [Handle.isFinished, Job.cancelled, Handle.settle_outcome?]
  cases j.handle.outcome? <;> rfl

/-- A job that was asked to stop in time never passes a look whether it was. -/
theorem Stopped.step (stopped : j.Stopped) : (j.step free).Stopped := by
  have goes := j.step_goes free
  generalize j.step free = k at goes ⊢
  obtain ⟨requested, passed, parsed⟩ := stopped
  cases goes with
  | quits | leaves => exact ⟨by simpa [abandon, Handle.abandon] using requested, by simp, by simp⟩
  | asks | waits => exact ⟨requested, by simp, by simp⟩
  | starts => exact ⟨requested, fun passed phase => (Phase.parsing.inj phase).symm, by simp⟩
  | stops => exact ⟨requested, by simp, fun outcome phase => (Phase.parsed.inj phase).symm⟩
  | looks _ unasked => simp [requested] at unasked
  | ends phase whole =>
    obtain rfl := passed _ phase
    exact absurd (whole.symm.trans (j.case.runUntil_zero j.text)) (j.case.parse_ne_cancelled j.text)
  | writes => exact ⟨by simpa using requested, by simp, by simp⟩
  | rests => exact ⟨requested, passed, parsed⟩

/-- A job that is asked to stop while it holds no slot is asked in time. -/
theorem requested_stopped (unheld : j.phase.holds = false) : j.requested.Stopped := by
  refine ⟨rfl, fun passed phase => ?_, fun outcome phase => ?_⟩ <;>
    · rw [requested_phase] at phase
      simp [phase, Phase.holds] at unheld

theorem Stopped.requested_again (stopped : j.Stopped) : j.requested.Stopped := ⟨rfl, stopped.2, stopped.3⟩

theorem Stopped.cancelled (stopped : j.Stopped) : j.cancelled.Stopped :=
  ⟨by simpa [Job.cancelled] using stopped.1, stopped.2, stopped.3⟩

/-- Whoever holds a slot leaves it after a number of steps. -/
theorem exists_leaves (holds : j.phase.holds = true) : ∃ n, j.Leaves n := by
  cases phase : j.phase with
  | parsing passed =>
    obtain ⟨bound, enough⟩ := j.case.exists_enough j.text
    exact ⟨bound - passed + 3, by simpa only [Leaves, phase] using ⟨bound, enough, Nat.le_refl _⟩⟩
  | parsed => exact ⟨2, by simp [Leaves, phase]⟩
  | leaving => exact ⟨1, by simp [Leaves, phase]⟩
  | queued | asking | done => simp [Phase.holds, phase] at holds

/-- Each step of a job that holds a slot brings it nearer to leaving it. -/
theorem Leaves.step (leaves : j.Leaves (n + 1)) : (j.step free).Leaves n := by
  have goes := j.step_goes free
  generalize j.step free = k at goes ⊢
  cases goes with
  | quits phase | asks phase | starts phase | waits phase => simp [Leaves, phase] at leaves
  | stops phase | ends phase =>
    simp only [Leaves, phase] at leaves ⊢
    obtain ⟨bound, -, le⟩ := leaves
    omega
  | @looks passed phase _ cut =>
    simp only [Leaves, phase] at leaves ⊢
    obtain ⟨bound, enough, le⟩ := leaves
    have short : passed < bound := by
      refine Nat.lt_of_not_le fun late => ?_
      have whole := enough (passed - bound)
      rw [Nat.add_sub_cancel' late, cut] at whole
      exact j.case.parse_ne_cancelled j.text whole.symm
    exact ⟨bound, enough, by omega⟩
  | writes phase =>
    simp only [Leaves, phase] at leaves ⊢
    omega
  | leaves => trivial
  | rests phase => simp [Leaves, phase]

/-- Who is to leave a slot holds it, or has left it for good. -/
theorem Leaves.holds_or_done (leaves : j.Leaves n) : j.phase.holds = true ∨ j.phase = .done := by
  cases phase : j.phase with
  | queued | asking => simp [Leaves, phase] at leaves
  | parsing | parsed | leaving => exact .inl rfl
  | done => exact .inr rfl

theorem Leaves.mono {m : Nat} (leaves : j.Leaves n) (le : n ≤ m) : j.Leaves m := by
  unfold Leaves at leaves ⊢
  cases phase : j.phase with
  | queued | asking => simp [phase] at leaves
  | parsing passed =>
    simp only [phase] at leaves ⊢
    obtain ⟨bound, enough, short⟩ := leaves
    exact ⟨bound, enough, Nat.le_trans short le⟩
  | parsed | leaving =>
    simp only [phase] at leaves ⊢
    omega
  | done => trivial

theorem Leaves.phase_done (leaves : j.Leaves 0) : j.phase = .done := by
  cases phase : j.phase with
  | parsing passed =>
    simp only [Leaves, phase] at leaves
    obtain ⟨bound, -, le⟩ := leaves
    omega
  | queued | asking | parsed | leaving => simp [Leaves, phase] at leaves
  | done => rfl

/-- A step takes no slot but one that is free. -/
theorem step_weight (j : Job) (free : Bool) :
    (j.step free).weight ≤ j.weight ∨ free = true ∧ (j.step free).weight = j.weight + 1 := by
  have goes := j.step_goes free
  generalize j.step free = k at goes ⊢
  cases goes with
  | starts phase free => exact .inr ⟨free, by simp [weight, phase, Phase.holds]⟩
  | quits phase | asks phase | waits phase | stops phase | looks phase | ends phase | writes phase
  | leaves phase => exact .inl (by simp [weight, phase, Phase.holds])
  | rests => exact .inl (Nat.le_refl _)

/-- From a slot a job comes to the same however far it has come. -/
theorem finish_step {free' free'' : Bool} (holds : j.phase.holds = true) :
    (j.step free).finish free' = j.finish free'' := by
  have goes := j.step_goes free
  generalize j.step free = k at goes ⊢
  cases goes with
  | quits phase | asks phase | starts phase | waits phase | rests phase => simp [phase, Phase.holds] at holds
  | stops phase requested cut | looks phase requested cut => simp [finish, phase, requested, cut, settle]
  | @ends passed phase whole =>
    have same : j.case.runUntil (if j.handle.stopRequested then some passed else none) j.text =
        j.case.parse j.text := by
      split
      · exact whole
      · rfl
    simp only [finish, phase, same, settle]
  | @writes outcome phase =>
    have found : (j.handle.settle outcome).2.outcome? = some (j.handle.outcome?.getD outcome) := by
      rw [Handle.settle_outcome?]
      cases j.handle.outcome? <;> rfl
    simp only [finish, phase]
    rw [abandon_eq found, settle]
  | leaves phase => simp only [finish, phase, abandon_phase]

theorem finish_done (ended : j.phase = .done) : j.finish free = j := by simp [finish, ended]

/-- A job that is not done comes to its end where a slot is free, or from a slot. -/
theorem finish_phase (ready : free = true ∨ j.phase.holds = true) : (j.finish free).phase = .done := by
  cases phase : j.phase with
  | queued =>
    obtain rfl : free = true := ready.resolve_right (by simp [phase, Phase.holds])
    simp only [finish, phase]
    split <;> rfl
  | asking =>
    obtain rfl : free = true := ready.resolve_right (by simp [phase, Phase.holds])
    simp only [finish, phase, if_true, settle]
  | parsing | parsed | leaving | done => simp [finish, phase, settle]

end

end Job

namespace Scheduler

variable {s : Scheduler} {id : Nat} {j : Job} {f g : Job → Job} {n : Nat}

/-- All jobs are done. -/
def Idle (s : Scheduler) : Prop := ∀ id j, s.job? id = some j → j.phase = .done

/-- How many jobs are not done. -/
def ahead (s : Scheduler) : Nat := s.jobs.countP Job.isBusy

theorem job?_eq_some : s.job? id = some j ↔ ∃ index, id = index + 1 ∧ s.jobs[index]? = some j := by
  cases id <;> simp [job?]

theorem mem_jobs : j ∈ s.jobs ↔ ∃ id, s.job? id = some j := by
  rw [List.mem_iff_getElem?]
  constructor
  · rintro ⟨index, found⟩
    exact ⟨index + 1, found⟩
  · rintro ⟨id, found⟩
    obtain ⟨index, -, found⟩ := job?_eq_some.mp found
    exact ⟨index, found⟩

theorem job?_modify_self (found : s.job? id = some j) : (s.modify id f).job? id = some (f j) := by
  obtain ⟨index, rfl, there⟩ := job?_eq_some.mp found
  simp only [modify, job?, List.getElem?_modify_eq, there, Option.map_eq_map, Option.map_some]

theorem job?_modify_of_ne {other : Nat} (apart : id ≠ other) :
    (s.modify other f).job? id = s.job? id := by
  cases id with
  | zero => cases other <;> rfl
  | succ index =>
    cases other with
    | zero => rfl
    | succ other => exact List.getElem?_modify_ne _ _ fun same => apart (by rw [same])

/-- To change one job is to change no other one. -/
theorem job?_modify (found : s.job? id = some j) (other : Nat) (f : Job → Job) :
    (s.modify other f).job? id = some (if id = other then f j else j) := by
  split
  · next same => exact same ▸ job?_modify_self found
  · next apart => exact (job?_modify_of_ne apart).trans found

/-- Where there is no job with a number, none is changed. -/
theorem modify_of_none (missing : s.job? id = none) : s.modify id f = s := by
  cases id with
  | zero => rfl
  | succ index =>
    have short : s.jobs.length ≤ index := by simpa [job?] using missing
    simp [modify, List.modify_eq_self short]

theorem job?_modify_of_none (missing : s.job? id = none) (other : Nat) (f : Job → Job) :
    (s.modify other f).job? id = none := by
  by_cases same : id = other
  · rw [← same, modify_of_none missing, missing]
  · rw [job?_modify_of_ne same, missing]

/-- To change a job is to put what it becomes in its place. -/
theorem modify_congr (found : s.job? id = some j) (same : f j = g j) : s.modify id f = s.modify id g := by
  obtain ⟨index, rfl, there⟩ := job?_eq_some.mp found
  have jobs : s.jobs.modify index f = s.jobs.modify index g := by
    refine List.ext_getElem? fun place => ?_
    rw [List.getElem?_modify, List.getElem?_modify]
    split
    · next here => rw [← here, there, Option.map_eq_map, Option.map_some, Option.map_eq_map, Option.map_some, same]
    · rfl
  rw [modify, modify, jobs]

theorem modify_self (found : s.job? id = some j) (same : f j = j) : s.modify id f = s := by
  obtain ⟨index, rfl, -⟩ := job?_eq_some.mp found
  have unchanged : s.modify (index + 1) f = s.modify (index + 1) fun j => j := modify_congr found same
  have jobs : s.jobs.modify index (fun j => j) = s.jobs := List.modify_id index s.jobs
  rw [unchanged, modify, jobs]

theorem modify_modify : (s.modify id f).modify id g = s.modify id fun j => g (f j) := by
  cases id with
  | zero => rfl
  | succ index => simp only [modify, List.modify_modify_eq]; rfl

@[simp]
theorem modify_slots : (s.modify id f).slots = s.slots := by cases id <;> rfl

@[simp]
theorem modify_isShut : (s.modify id f).isShut = s.isShut := by cases id <;> rfl

@[simp]
theorem modify_length : (s.modify id f).jobs.length = s.jobs.length := by
  cases id <;> simp [modify]

/-- When a job changes, only it is counted anew. -/
theorem countP_modify (counts : Job → Bool) {jobs : List Job} {index : Nat} (found : jobs[index]? = some j) :
    (jobs.modify index f).countP counts + (if counts j then 1 else 0) =
      jobs.countP counts + (if counts (f j) then 1 else 0) := by
  induction jobs generalizing index with
  | nil => simp at found
  | cons first rest ih =>
    cases index with
    | zero =>
      obtain rfl : first = j := by simpa using found
      simp only [List.modify_zero_cons, List.countP_cons]
      omega
    | succ index =>
      have := ih (by simpa using found)
      simp only [List.modify_succ_cons, List.countP_cons]
      omega

/-- When a job changes, as many slots are taken as it takes by that. -/
theorem held_modify (found : s.job? id = some j) :
    (s.modify id f).held + j.weight = s.held + (f j).weight := by
  obtain ⟨index, rfl, found⟩ := job?_eq_some.mp found
  exact countP_modify (fun j => j.phase.holds) found

theorem ahead_modify (found : s.job? id = some j) :
    (s.modify id f).ahead + (if j.isBusy then 1 else 0) = s.ahead + (if (f j).isBusy then 1 else 0) := by
  obtain ⟨index, rfl, found⟩ := job?_eq_some.mp found
  exact countP_modify Job.isBusy found

/-- What takes no slot leaves as many of them free. -/
theorem held_modify_of_phase (kept : ∀ j, (f j).phase = j.phase) : (s.modify id f).held = s.held := by
  cases found : s.job? id with
  | none => rw [modify_of_none found]
  | some j =>
    have change : (s.modify id f).held + j.weight = _ := held_modify found
    have same : (f j).weight = j.weight := by rw [Job.weight, Job.weight, kept]
    omega

/-- A slot is only taken where one is free. -/
theorem step_held (within : s.held ≤ s.capacity) : (s.step id).held ≤ s.capacity := by
  cases found : s.job? id with
  | none => rwa [step, modify_of_none found]
  | some j =>
    have change : (s.step id).held + j.weight = _ := held_modify found
    rcases j.step_weight (s.held < s.capacity) with less | ⟨free, more⟩
    · omega
    · have := of_decide_eq_true free
      omega

/-- The last step of a job on a slot gives the slot back. -/
theorem step_releases (found : s.job? id = some j) (leaving : j.phase = .leaving) :
    (s.step id).held + 1 = s.held := by
  have change : (s.step id).held + j.weight = _ := held_modify found
  simpa [Job.step, Job.weight, leaving, Phase.holds] using change

/-- What becomes of a job does not depend on whether it was pending. -/
theorem conclude_snd : (s.conclude id).2 = s.modify id Job.cancelled := by
  cases found : s.job? id with
  | none => rw [modify_of_none found, conclude, found]
  | some j =>
    rw [conclude, found]
    rfl

theorem conclude_of_none (missing : s.job? id = none) : (s.conclude id).1 = false := by
  rw [conclude, missing]

/-- Whoever cancels a job is told whether it was pending. -/
theorem conclude_fst (found : s.job? id = some j) : (s.conclude id).1 = j.handle.outcome?.isNone := by
  rw [conclude, found]
  exact Handle.settle_fst _ _

/-- Where nobody needs a slot any more, nobody holds one. -/
theorem Idle.held_eq_zero (idle : s.Idle) : s.held = 0 := by
  simp only [held, List.countP_eq_zero]
  intro j mem
  obtain ⟨id, found⟩ := mem_jobs.mp mem
  simp [idle id j found, Phase.holds]

/-- Some steps of jobs lead from one state to another one. -/
def Reaches (s s' : Scheduler) : Prop := ∃ steps : List Nat, steps.foldl step s = s'

theorem Reaches.refl (s : Scheduler) : s.Reaches s := ⟨[], rfl⟩

theorem Reaches.of_step {s' : Scheduler} (id : Nat) (reaches : (s.step id).Reaches s') : s.Reaches s' := by
  obtain ⟨steps, rfl⟩ := reaches
  exact ⟨id :: steps, rfl⟩

/-- Steps may be taken one after the other. -/
theorem Reaches.trans {s' s'' : Scheduler} (first : s.Reaches s') (second : s'.Reaches s'') :
    s.Reaches s'' := by
  obtain ⟨steps, rfl⟩ := first
  obtain ⟨more, rfl⟩ := second
  exact ⟨steps ++ more, List.foldl_append⟩

/-- What is made of a job behind its step is made of what the step leads to. -/
theorem step_modify (found : s.job? id = some j) (onward : g (j.step (s.held < s.capacity)) = f j) :
    (s.step id).modify id g = s.modify id f :=
  modify_modify.trans (modify_congr found onward)

/-- A step may be all that there is to do. -/
theorem reaches_step (found : s.job? id = some j) (stepped : j.step (s.held < s.capacity) = f j) :
    s.Reaches (s.modify id f) := by
  have leads : s.step id = s.modify id f := modify_congr found stepped
  exact .of_step id (leads ▸ .refl _)

/-- A job that holds a slot comes to its end by some of its steps. -/
theorem reaches_of_holds {free : Bool} (found : s.job? id = some j) (leaves : j.Leaves n)
    (holds : j.phase.holds = true) : s.Reaches (s.modify id fun j => j.finish free) := by
  induction n generalizing s j with
  | zero => simp [leaves.phase_done, Phase.holds] at holds
  | succ n ih =>
    let free' : Bool := s.held < s.capacity
    have there : (s.step id).job? id = some (j.step free') := job?_modify_self found
    have leads : (s.step id).modify id (fun j => j.finish free) = s.modify id fun j => j.finish free :=
      step_modify found (Job.finish_step holds)
    have nearer : (j.step free').Leaves n := leaves.step
    refine .of_step id ?_
    rw [← leads]
    rcases nearer.holds_or_done with holds | done
    · exact ih there nearer holds
    · rw [modify_self there (Job.finish_done done)]
      exact .refl _

/-- A job that asks for a slot takes one if one is free, and leaves it. -/
theorem reaches_of_asking (found : s.job? id = some j) (asks : j.phase = .asking) :
    s.Reaches (s.modify id fun j => j.finish (s.held < s.capacity)) := by
  cases free : decide (s.held < s.capacity) with
  | false => exact reaches_step found (by simp [Job.step, Job.finish, asks, free])
  | true =>
    have takes : j.step (s.held < s.capacity) = { j with phase := .parsing 0 } := by
      simp [Job.step, asks, free]
    have there : (s.step id).job? id = some { j with phase := .parsing 0 } :=
      takes ▸ job?_modify_self found
    have leads : ((s.step id).modify id fun j => j.finish true) = s.modify id fun j => j.finish true :=
      step_modify found (by simp [takes, Job.finish, asks, Job.settle])
    obtain ⟨n, leaves⟩ := Job.exists_leaves (j := { j with phase := .parsing 0 }) rfl
    exact .of_step id (leads ▸ reaches_of_holds there leaves rfl)

/-- A job that waits asks for a slot if nobody has settled it. -/
theorem reaches_of_queued (found : s.job? id = some j) (queued : j.phase = .queued) :
    s.Reaches (s.modify id fun j => j.finish (s.held < s.capacity)) := by
  cases finished : j.handle.isFinished with
  | true => exact reaches_step found (by simp [Job.step, Job.finish, queued, finished])
  | false =>
    have asks : j.step (s.held < s.capacity) = { j with phase := .asking } := by
      simp [Job.step, queued, finished]
    have there : (s.step id).job? id = some { j with phase := .asking } := asks ▸ job?_modify_self found
    have held : (s.step id).held = s.held := by
      have change : (s.step id).held + j.weight = _ := held_modify found
      simpa [asks, Job.weight, queued, Phase.holds] using change
    have slots : (s.step id).slots = s.slots := modify_slots
    have onward : (j.step (s.held < s.capacity)).finish (s.held < s.capacity) =
        j.finish (s.held < s.capacity) := by
      rw [asks]
      cases free : decide (s.held < s.capacity) <;> simp [Job.finish, queued, finished, Job.settle]
      rw [← queued]
    have leads : ((s.step id).modify id fun j => j.finish (s.held < s.capacity)) =
        s.modify id fun j => j.finish (s.held < s.capacity) := step_modify found onward
    have reaches := reaches_of_asking there rfl
    rw [held, capacity, slots, ← capacity, leads] at reaches
    exact .of_step id reaches

/-- A job comes by some of its steps as far as it comes while nobody else does anything. -/
theorem reaches_finish (found : s.job? id = some j) :
    s.Reaches (s.modify id fun j => j.finish (s.held < s.capacity)) := by
  cases phase : j.phase with
  | queued => exact reaches_of_queued found phase
  | asking => exact reaches_of_asking found phase
  | parsing | parsed | leaving =>
    have holds : j.phase.holds = true := by rw [phase]; rfl
    obtain ⟨n, leaves⟩ := Job.exists_leaves holds
    exact reaches_of_holds found leaves holds
  | done =>
    rw [modify_self found (Job.finish_done phase)]
    exact .refl s

/-- To bring the jobs to their end is to take some steps of theirs. -/
theorem reaches_drive (s : Scheduler) : s.Reaches s.drive := by
  rw [drive]
  generalize List.range s.jobs.length = indices
  induction indices generalizing s with
  | nil => exact .refl s
  | cons index indices ih =>
    refine .trans ?_ (ih _)
    cases found : s.job? (index + 1) with
    | none =>
      dsimp only
      rw [modify_of_none found]
      exact .refl s
    | some j => exact reaches_finish found

/-- As long as a job is not done, there is one that can come to its end. -/
theorem exists_finish (busy : ¬ s.Idle) :
    ∃ id j, s.job? id = some j ∧ (s.modify id fun j => j.finish (s.held < s.capacity)).ahead < s.ahead := by
  obtain ⟨id, j, found, unfinished⟩ : ∃ id j, s.job? id = some j ∧ j.phase ≠ .done := by
    simpa only [Idle, Classical.not_forall, exists_prop] using busy
  have advance : ∀ id j, s.job? id = some j → j.phase ≠ .done →
      (decide (s.held < s.capacity) = true ∨ j.phase.holds = true) →
        (s.modify id fun j => j.finish (s.held < s.capacity)).ahead < s.ahead := by
    intro id j found unfinished ready
    have ended : (j.finish (s.held < s.capacity)).isBusy = false := by
      rw [Job.isBusy, Job.finish_phase ready]
    have left : j.isBusy = true := by
      unfold Job.isBusy
      split
      · exact absurd ‹_› unfinished
      · rfl
    have change : (s.modify id fun j => j.finish (s.held < s.capacity)).ahead + _ = _ := ahead_modify found
    simp only [left, ended, if_true, Bool.false_eq_true, if_false] at change
    omega
  by_cases holder : ∃ id j, s.job? id = some j ∧ j.phase.holds = true
  · obtain ⟨id, j, found, holds⟩ := holder
    refine ⟨id, j, found, advance id j found (fun done => ?_) (.inr holds)⟩
    simp [done, Phase.holds] at holds
  · -- Nobody holds a slot, so one is free for whoever waits.
    have none : s.held = 0 := by
      simp only [held, List.countP_eq_zero]
      intro j mem
      obtain ⟨id, found⟩ := mem_jobs.mp mem
      simpa using fun holds => holder ⟨id, j, found, holds⟩
    have free : s.held < s.capacity := none ▸ Nat.lt_of_lt_of_le Nat.one_pos (Nat.le_max_right _ _)
    exact ⟨id, j, found, advance id j found unfinished (.inl (decide_eq_true free))⟩

/-- From wherever the jobs stand, some steps bring all of them to their end. -/
theorem exists_idle (s : Scheduler) : ∃ s', s.Reaches s' ∧ s'.Idle := by
  induction size : s.ahead using Nat.strongRecOn generalizing s with
  | ind size ih =>
    by_cases idle : s.Idle
    · exact ⟨s, .refl s, idle⟩
    · obtain ⟨id, j, found, less⟩ := exists_finish idle
      obtain ⟨s', reaches, idle⟩ := ih _ (size ▸ less) _ rfl
      exact ⟨s', (reaches_finish found).trans reaches, idle⟩

end Scheduler

end SqlTree
